/-!
# Places in a text

A place is what is left of a text and where that starts: an index, a line and a
column.  Five characters break lines, and a carriage return with a line feed after
it breaks one line.
-/

namespace DeclGraph
namespace Yaml

section Characters

/-- The characters that break lines. -/
def isBreak (c : Char) : Bool :=
  c == '\n' || c == '\r' || c.toNat == 0x85 || c.toNat == 0x2028 || c.toNat == 0x2029

/-- A space or a tab. -/
def isGap (c : Char) : Bool :=
  c == ' ' || c == '\t'

/-- The characters that a text may hold. -/
def isAllowed (c : Char) : Bool :=
  let n := c.toNat
  n == 0x09 || n == 0x0A || n == 0x0D || (0x20 ≤ n && n ≤ 0x7E) || n == 0x85 ||
    (0xA0 ≤ n && n ≤ 0xD7FF) || (0xE000 ≤ n && n ≤ 0xFFFD) || 0x10000 ≤ n

/-- The characters of anchors and of the names of directives. -/
def isNameChar (c : Char) : Bool :=
  c.isAlphanum || c == '-' || c == '_'

/-- The characters of tags. -/
def isTagChar (c : Char) : Bool :=
  c.isAlphanum || "-;/?:@&=+$,_.!~*'()[]%".toList.contains c

def isHexDigit (c : Char) : Bool :=
  c.isDigit || ('a' ≤ c && c ≤ 'f') || ('A' ≤ c && c ≤ 'F')

/-- The value of a hexadecimal digit. -/
def hexValue (c : Char) : Nat :=
  if c.isDigit then c.toNat - '0'.toNat
  else if 'a' ≤ c then c.toNat - 'a'.toNat + 10
  else c.toNat - 'A'.toNat + 10

/-- The number that hexadecimal digits write. -/
def hexNumber (cs : List Char) : Nat :=
  cs.foldl (fun n c => 16 * n + hexValue c) 0

/-- Whether a line ends here: a line break, or the end of the text. -/
def endsLine (c? : Option Char) : Bool :=
  c?.all isBreak

/-- Whether a line ends or a space stands here. -/
def endsName (c? : Option Char) : Bool :=
  c?.all fun c => c == ' ' || isBreak c

/-- Whether a line ends, or a space or tab stands here. -/
def endsWord (c? : Option Char) : Bool :=
  c?.all fun c => isGap c || isBreak c

end Characters

section Places

/-- A place in a text. -/
structure Place where
  rest : List Char
  index : Nat := 0
  line : Nat := 0
  column : Nat := 0
deriving Repr, Inhabited

namespace Place

def head? (p : Place) : Option Char :=
  p.rest.head?

/-- The character some way ahead. -/
def look (p : Place) (n : Nat) : Option Char :=
  p.rest[n]?

/-- The place after one character. -/
def step (p : Place) : Place :=
  match p.rest with
  | [] => p
  | c :: cs =>
    if isBreak c && !(c == '\r' && cs.head? == some '\n') then ⟨cs, p.index + 1, p.line + 1, 0⟩
    else if c.toNat == 0xFEFF then ⟨cs, p.index + 1, p.line, p.column⟩
    else ⟨cs, p.index + 1, p.line, p.column + 1⟩

/-- The place after some characters. -/
def skip (p : Place) : Nat → Place
  | 0 => p
  | n + 1 => p.step.skip n

/-- The longest run of characters of a class, and the place after it. -/
def takeRun (p : Place) (q : Char → Bool) : List Char × Place :=
  let run := p.rest.takeWhile q
  (run, p.skip run.length)

/-- The place after all characters of a class. -/
def skipRun (p : Place) (q : Char → Bool) : Place :=
  (p.takeRun q).2

/-- A line break, as the text that it stands for, and the place after it. -/
def lineBreak (p : Place) : List Char × Place :=
  match p.rest with
  | '\r' :: '\n' :: _ => (['\n'], p.skip 2)
  | c :: _ =>
    if c == '\n' || c == '\r' || c.toNat == 0x85 then (['\n'], p.step)
    else if isBreak c then ([c], p.step)
    else ([], p)
  | [] => ([], p)

/-- Skips a comment. -/
def skipComment (p : Place) : Place :=
  if p.head? == some '#' then p.skipRun fun c => !isBreak c else p

/-- Whether three characters that separate documents stand here. -/
def atMark (p : Place) (c : Char) : Bool :=
  p.rest.take 3 == [c, c, c] && endsWord (p.look 3)

/-- Whether a separator of documents stands here. -/
def atSeparator (p : Place) : Bool :=
  p.atMark '-' || p.atMark '.'

end Place

end Places

end Yaml
end DeclGraph
