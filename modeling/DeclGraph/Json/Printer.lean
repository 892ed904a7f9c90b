import DeclGraph.Json.Basic
import DeclGraph.Text.Quoted

/-!
# Writing JSON

`Json.render` writes a value as ASCII text, either compactly or indented.

* Characters outside printable ASCII, and surrogates, are written as `\u` escapes of
  their UTF-16 units, the usual control characters by name.
* Compact text has no layout at all.  Indented text puts every item on its own
  line, `width` spaces per level; a width of zero or less gives line ends only.
* Empty arrays and objects stay on one line.
-/

namespace DeclGraph

/-- How JSON text is laid out. -/
inductive Layout where
  | compact
  | indented (width : Int)
deriving DecidableEq, Repr

namespace Layout

/-- What stands before an item or a closing bracket at a level. -/
def lineStart (l : Layout) (level : Nat) : List Char :=
  match l with
  | compact => []
  | indented width => '\n' :: List.replicate (width.toNat * level) ' '

/-- What stands between a key and its value. -/
def colon : Layout → List Char
  | compact => [':']
  | indented _ => [':', ' ']

end Layout

namespace Json

section Strings

/-- One UTF-16 unit as an escape. -/
def escapeUnit (n : Nat) : List Char :=
  '\\' :: 'u' :: Text.hex 4 n

/-- One character between double quotes. -/
def escapeChar (c : Char) : List Char :=
  if c == '"' || c == '\\' then ['\\', c]
  else if c == '\n' then ['\\', 'n']
  else if c == '\r' then ['\\', 'r']
  else if c == '\t' then ['\\', 't']
  else if c == '\x0c' then ['\\', 'f']
  else if c == '\x08' then ['\\', 'b']
  else
    let n := c.toNat
    if 0x20 ≤ n && n ≤ 0x7E then [c]
    else if n < 0x10000 then escapeUnit n
    else
      let m := n - 0x10000
      escapeUnit (0xD800 + m / 0x400) ++ escapeUnit (0xDC00 + m % 0x400)

/-- One code point between double quotes. -/
def escape : Point → List Char
  | .char c => escapeChar c
  | .surrogate n => escapeUnit (Point.surrogate n).code

/-- A text in double quotes. -/
def writeString (s : Points) : List Char :=
  '"' :: s.toList.flatMap escape ++ ['"']

end Strings

section Values

def writeInt (n : Int) : List Char :=
  if n < 0 then '-' :: Nat.toDigits 10 n.natAbs else Nat.toDigits 10 n.natAbs

def writeFloat : Binary64 → List Char
  | .nan => "NaN".toList
  | .infinite negative => (if negative then "-Infinity" else "Infinity").toList
  | x => x.display.toList

mutual

/-- A value at a nesting level. -/
def write (l : Layout) (level : Nat) : Json Points → List Char
  | .null => "null".toList
  | .bool true => "true".toList
  | .bool false => "false".toList
  | .int n => writeInt n
  | .float x => writeFloat x
  | .str s => writeString s
  | .arr [] => ['[', ']']
  | .arr (x :: xs) =>
    '[' :: l.lineStart (level + 1) ++ write l (level + 1) x ++ writeItems l (level + 1) xs ++
      l.lineStart level ++ [']']
  | .obj [] => ['{', '}']
  | .obj ((k, v) :: es) =>
    '{' :: l.lineStart (level + 1) ++ writeString k ++ l.colon ++ write l (level + 1) v ++
      writeEntries l (level + 1) es ++ l.lineStart level ++ ['}']

/-- The items after the first, each with its separator. -/
def writeItems (l : Layout) (level : Nat) : List (Json Points) → List Char
  | [] => []
  | x :: xs => ',' :: l.lineStart level ++ write l level x ++ writeItems l level xs

/-- The entries after the first, each with its separator. -/
def writeEntries (l : Layout) (level : Nat) : List (Points × Json Points) → List Char
  | [] => []
  | (k, v) :: es =>
    ',' :: l.lineStart level ++ writeString k ++ l.colon ++ write l level v ++
      writeEntries l level es

end

/-- The text of a value. -/
def render (l : Layout) (j : Json Points) : String :=
  String.ofList (write l 0 j)

end Values

end Json
end DeclGraph
