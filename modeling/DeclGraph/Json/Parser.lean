import DeclGraph.Json.Basic
import DeclGraph.Text.Points

/-!
# Reading JSON

`Json.parse?` reads one value from a whole text.  Layout may stand around every
value and punctuation mark; trailing commas, comments, raw control characters in
strings, and anything after the value are refused.  The words `NaN`, `Infinity`
and `-Infinity` are numbers.  When an object repeats a key, the last value counts.

Texts are read as code points.  Escapes of two surrogates that form a pair are one
character; every other surrogate, escaped or not, stands for itself.
-/

namespace DeclGraph
namespace Json

section Strings

/-- The value of a hexadecimal digit. -/
def hexValue? : Point → Option Nat
  | .char c =>
    if '0' ≤ c && c ≤ '9' then some (c.toNat - 48)
    else if 'a' ≤ c && c ≤ 'f' then some (c.toNat - 87)
    else if 'A' ≤ c && c ≤ 'F' then some (c.toNat - 55)
    else none
  | .surrogate _ => none

/-- The value of four hexadecimal digits. -/
def unit? (a b c d : Point) : Option Nat := do
  return 4096 * (← hexValue? a) + 256 * (← hexValue? b) + 16 * (← hexValue? c) + (← hexValue? d)

/-- The code point of a single UTF-16 unit. -/
def ofUnit (n : Nat) : Point :=
  if h : 0xD800 ≤ n ∧ n < 0xE000 then .surrogate ⟨n - 0xD800, by omega⟩ else .char (Char.ofNat n)

/-- The character of two UTF-16 units that form a pair. -/
def ofPair (n m : Nat) : Char :=
  Char.ofNat (0x10000 + (n - 0xD800) * 0x400 + (m - 0xDC00))

/-- The character a letter after a backslash stands for. -/
def namedEscape? : Char → Option Char
  | '"' => some '"'
  | '\\' => some '\\'
  | '/' => some '/'
  | 'b' => some '\x08'
  | 'f' => some '\x0c'
  | 'n' => some '\n'
  | 'r' => some '\r'
  | 't' => some '\t'
  | _ => none

/-- The code points of a string up to its closing quote, and what follows it. -/
def readString : List Point → Option (List Point × List Point)
  | [] => none
  | .char '"' :: ps => some ([], ps)
  | .char '\\' :: .char 'u' :: a :: b :: c :: d ::
      .char '\\' :: .char 'u' :: a' :: b' :: c' :: d' :: ps =>
    match unit? a b c d, unit? a' b' c' d' with
    | some n, some m =>
      if (ofUnit n).isHigh && (ofUnit m).isLow then
        (readString ps).map fun (s, rest) => (.char (ofPair n m) :: s, rest)
      else
        (readString (.char '\\' :: .char 'u' :: a' :: b' :: c' :: d' :: ps)).map fun (s, rest) =>
          (ofUnit n :: s, rest)
    | some n, none =>
      (readString (.char '\\' :: .char 'u' :: a' :: b' :: c' :: d' :: ps)).map fun (s, rest) =>
        (ofUnit n :: s, rest)
    | none, _ => none
  | .char '\\' :: .char 'u' :: a :: b :: c :: d :: ps =>
    match unit? a b c d with
    | some n => (readString ps).map fun (s, rest) => (ofUnit n :: s, rest)
    | none => none
  | .char '\\' :: .char c :: ps =>
    match namedEscape? c with
    | some e => (readString ps).map fun (s, rest) => (.char e :: s, rest)
    | none => none
  | p :: ps =>
    if p.code < 0x20 || p == .char '\\' then none
    else (readString ps).map fun (s, rest) => (p :: s, rest)

end Strings

section Numbers

/-- The digits at the start of a text, and what follows them. -/
def readDigits : List Point → List Char × List Point
  | .char c :: ps =>
    if c.isDigit then
      let (ds, rest) := readDigits ps
      (c :: ds, rest)
    else ([], .char c :: ps)
  | ps => ([], ps)

/-- The number written by decimal digits. -/
def natOfDigits (ds : List Char) : Nat :=
  ds.foldl (fun n d => 10 * n + (d.toNat - 48)) 0

/-- A fraction part: a point and at least one digit. -/
def readFraction : List Point → Option (List Char × List Point)
  | .char '.' :: ps =>
    let (ds, rest) := readDigits ps
    if ds.isEmpty then none else some (ds, rest)
  | _ => none

/-- The digits of an exponent, at least one. -/
def readExponentDigits (negative : Bool) (ps : List Point) : Option (Int × List Point) :=
  let (ds, rest) := readDigits ps
  let n : Int := natOfDigits ds
  if ds.isEmpty then none else some (if negative then -n else n, rest)

/-- An exponent part: a mark, an optional sign and at least one digit. -/
def readExponent : List Point → Option (Int × List Point)
  | .char c :: ps =>
    if c == 'e' || c == 'E' then
      match ps with
      | .char '-' :: ps => readExponentDigits true ps
      | .char '+' :: ps => readExponentDigits false ps
      | ps => readExponentDigits false ps
    else none
  | _ => none

/-- The digits before a point: none follow a leading zero. -/
def readWhole : List Point → List Char × List Point
  | .char '0' :: rest => (['0'], rest)
  | ps => readDigits ps

/-- A number after its sign. -/
def readNumber (negative : Bool) (ps : List Point) : Option (Json Points × List Point) :=
  let (whole, rest) := readWhole ps
  if whole.isEmpty then none
  else
    let (fraction, rest) := (readFraction rest).getD ([], rest)
    let exponent := readExponent rest
    let rest := (exponent.map (·.2)).getD rest
    let digits := natOfDigits (whole ++ fraction)
    if fraction.isEmpty && exponent.isNone then
      some (int (if negative then -(digits : Int) else digits), rest)
    else
      let e := (exponent.map (·.1)).getD 0 - fraction.length
      some (float (Binary64.ofDecimal negative digits e), rest)

end Numbers

section Values

def isLayout (p : Point) : Bool :=
  p == .char ' ' || p == .char '\t' || p == .char '\n' || p == .char '\r'

def skipLayout (ps : List Point) : List Point :=
  ps.dropWhile isLayout

/-- What follows `word`, if the text starts with it. -/
def afterWord (word : String) (ps : List Point) : Option (List Point) :=
  if (word.toList.map Point.char).isPrefixOf ps then some (ps.drop word.length) else none

/-- A value that is a single word or a number. -/
def readAtom (ps : List Point) : Option (Json Points × List Point) :=
  match ps with
  | .char 'n' :: _ => (afterWord "null" ps).map (null, ·)
  | .char 't' :: _ => (afterWord "true" ps).map (bool true, ·)
  | .char 'f' :: _ => (afterWord "false" ps).map (bool false, ·)
  | .char 'N' :: _ => (afterWord "NaN" ps).map (float .nan, ·)
  | .char 'I' :: _ => (afterWord "Infinity" ps).map (float (.infinite false), ·)
  | .char '-' :: rest =>
    match afterWord "Infinity" rest with
    | some rest => some (float (.infinite true), rest)
    | none => readNumber true rest
  | _ => readNumber false ps

mutual

/-- One value at the start of the text.  The first argument bounds the number of
nested readings; the length of the text is always enough. -/
def readValue : Nat → List Point → Option (Json Points × List Point)
  | 0, _ => none
  | fuel + 1, ps =>
    match ps with
    | .char '"' :: ps => (readString ps).map fun (s, rest) => (str (.ofList s), rest)
    | .char '[' :: ps =>
      match skipLayout ps with
      | .char ']' :: rest => some (arr [], rest)
      | ps => (readItems fuel ps).map fun (xs, rest) => (arr xs, rest)
    | .char '{' :: ps =>
      match skipLayout ps with
      | .char '}' :: rest => some (obj [], rest)
      | ps =>
        (readEntries fuel ps).map fun (es, rest) =>
          (obj (es.foldl (fun all e => put all e.1 e.2) []), rest)
    | ps => readAtom ps

/-- The items of an array up to its closing bracket. -/
def readItems : Nat → List Point → Option (List (Json Points) × List Point)
  | 0, _ => none
  | fuel + 1, ps => do
    let (x, rest) ← readValue fuel ps
    match skipLayout rest with
    | .char ']' :: rest => some ([x], rest)
    | .char ',' :: rest =>
      let (xs, rest) ← readItems fuel (skipLayout rest)
      some (x :: xs, rest)
    | _ => none

/-- The entries of an object up to its closing brace, repeated keys included. -/
def readEntries : Nat → List Point → Option (List (Points × Json Points) × List Point)
  | 0, _ => none
  | fuel + 1, ps => do
    let (key, rest) ← match ps with
      | .char '"' :: ps => readString ps
      | _ => none
    let rest ← match skipLayout rest with
      | .char ':' :: rest => some (skipLayout rest)
      | _ => none
    let (value, rest) ← readValue fuel rest
    let entry := (Points.ofList key, value)
    match skipLayout rest with
    | .char '}' :: rest => some ([entry], rest)
    | .char ',' :: rest =>
      let (es, rest) ← readEntries fuel (skipLayout rest)
      some (entry :: es, rest)
    | _ => none

end

/-- Reads a whole text as one value. -/
def parse? (text : Points) : Option (Json Points) :=
  let ps := skipLayout text.toList
  match readValue (ps.length + 1) ps with
  | some (value, rest) => if (skipLayout rest).isEmpty then some value else none
  | none => none

end Values

end Json
end DeclGraph
