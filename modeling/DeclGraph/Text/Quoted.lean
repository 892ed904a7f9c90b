import DeclGraph.Text.Points
import DeclGraph.Text.Printable

/-!
# Quoted text

Messages show names and values in quotes.  Single quotes are used unless the
text has a single quote and no double quote.  Inside, the chosen quote and the
backslash are escaped, line feed, carriage return and tab go by name, and every
other character that is not printable, and every surrogate, is written by its code
point.
-/

namespace DeclGraph
namespace Text

section Quoted

/-- The lower-case hexadecimal digits of `n`, at least `width` of them. -/
def hex (width n : Nat) : List Char :=
  let ds := Nat.toDigits 16 n
  List.replicate (width - ds.length) '0' ++ ds

/-- The quote that encloses a text. -/
def quoteMark (ps : List Point) : Char :=
  if ps.contains (.char '\'') && !ps.contains (.char '"') then '"' else '\''

/-- One character as it stands between quotes `mark`. -/
def escapeChar (mark c : Char) : List Char :=
  if c == mark || c == '\\' then ['\\', c]
  else if c == '\n' then ['\\', 'n']
  else if c == '\r' then ['\\', 'r']
  else if c == '\t' then ['\\', 't']
  else if isPrintable c then [c]
  else
    let n := c.toNat
    if n < 0x100 then '\\' :: 'x' :: hex 2 n
    else if n < 0x10000 then '\\' :: 'u' :: hex 4 n
    else '\\' :: 'U' :: hex 8 n

/-- One surrogate by its code point. -/
def escapeSurrogate (n : Surrogate) : List Char :=
  '\\' :: 'u' :: hex 4 (Point.surrogate n).code

/-- One code point as it stands between quotes `mark`. -/
def escapePoint (mark : Char) : Point → List Char
  | .char c => escapeChar mark c
  | .surrogate n => escapeSurrogate n

/-- A text in quotes, as messages show it. -/
def quote (s : Points) : String :=
  let ps := s.toList
  let mark := quoteMark ps
  String.ofList (mark :: ps.flatMap (escapePoint mark) ++ [mark])

/-- A text as an error stream shows it: surrogates by their code points, all else bare. -/
def shown : Points → String
  | .plain s => s
  | .cut s n rest => s ++ String.ofList (escapeSurrogate n) ++ shown rest

end Quoted

end Text
end DeclGraph
