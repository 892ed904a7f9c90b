import DeclGraph.Syntax.Node

/-!
# Outlines

An outline is a syntax tree whose nodes are byte ranges of a source text.
Reading an outline against the text gives the syntax tree itself: `Outline.read`
cuts out the text of every node and finds its place.
-/

namespace DeclGraph
namespace Syntax

section Ranges

/-- The characters of a text that start in the byte range from `start` to `stop`,
the text itself starting at byte `here`. -/
def slice (start stop : Nat) : Nat → List Char → List Char
  | _, [] => []
  | here, c :: cs =>
    if stop ≤ here then []
    else if start ≤ here then c :: slice start stop (here + c.utf8Size) cs
    else slice start stop (here + c.utf8Size) cs

/-- The place of byte `offset` in a text that starts at byte `here` and place `p`. -/
def positionAt (offset : Nat) : Nat → Position → List Char → Position
  | _, p, [] => p
  | here, p, c :: cs =>
    if offset ≤ here then p
    else
      let next : Position :=
        if c == '\n' then ⟨p.row + 1, 0⟩ else ⟨p.row, p.column + c.utf8Size⟩
      positionAt offset (here + c.utf8Size) next cs

end Ranges

section Outline

/-- A tree of byte ranges. -/
structure Outline where
  kind : String
  /-- Offset of the first byte. -/
  start : Nat
  /-- Offset after the last byte. -/
  stop : Nat
  field : Option String := none
  named : Bool := true
  missing : Bool := false
  broken : Bool := false
  children : List Outline := []
deriving Repr, Inhabited

mutual

/-- The syntax tree that an outline describes in a text. -/
def Outline.read (text : List Char) : Outline → Node
  | ⟨kind, start, stop, field, named, missing, broken, children⟩ =>
    { kind, field, named, missing, broken
      source := String.ofList (slice start stop 0 text)
      start := positionAt start 0 ⟨0, 0⟩ text
      children := readList text children }

/-- The syntax trees that several outlines describe in a text. -/
def readList (text : List Char) : List Outline → List Node
  | [] => []
  | o :: os => o.read text :: readList text os

end

end Outline

end Syntax
end DeclGraph
