/-!
# Paths

A path is a root, which is empty for a path from the working directory, and the
names of the steps from there.  Empty steps and steps to the same place do not
count; a step to the parent does, since what it leads to depends on the files.
-/

namespace DeclGraph

section Path

/-- A path to a file or directory. -/
structure Path where
  root : String := ""
  parts : List String := []
deriving Repr, DecidableEq, Inhabited

namespace Path

/-- The root of a written path: two slashes are a root of their own, and any other
number of slashes is the same as one. -/
def rootOf : List Char → String
  | '/' :: '/' :: '/' :: _ => "/"
  | '/' :: '/' :: _ => "//"
  | '/' :: _ => "/"
  | _ => ""

/-- Cuts a written path at its slashes. -/
def cut : List Char → List (List Char)
  | [] => [[]]
  | c :: cs =>
    match cut cs with
    | [] => [[c]]
    | w :: ws => if c == '/' then [] :: w :: ws else (c :: w) :: ws

/-- The path that a text writes. -/
def ofText (s : String) : Path :=
  let steps := (cut s.toList).filter fun w => !w.isEmpty && w != ['.']
  ⟨rootOf s.toList, steps.map String.ofList⟩

/-- The text of a path. -/
def text (p : Path) : String :=
  if p.root.isEmpty && p.parts.isEmpty then "." else p.root ++ "/".intercalate p.parts

/-- The path without its last step. -/
def parent (p : Path) : Path :=
  { p with parts := p.parts.dropLast }

/-- The path to a name in a directory. -/
def child (p : Path) (name : String) : Path :=
  { p with parts := p.parts ++ [name] }

end Path

end Path

end DeclGraph
