import DeclGraph.Artifact.Reader

/-!
# Checking names and flags

`Checks.standard` takes texts for names, and for flags truth values, zero and one,
and some words.
-/

namespace DeclGraph

section Checks

def trueWords : List String :=
  ["1", "on", "t", "true", "y", "yes"]

def falseWords : List String :=
  ["0", "off", "f", "false", "n", "no"]

/-- A name: a text. -/
def readName : Json Points → Except ArtifactFault Points
  | .str s => .ok s
  | _ => .error .invalidValue

/-- A flag: a truth value, zero or one, or a word for one in any case. -/
def readFlag : Json Points → Except ArtifactFault Bool
  | .bool b => .ok b
  | .str (.plain s) =>
    if trueWords.contains s.toLower then .ok true
    else if falseWords.contains s.toLower then .ok false
    else .error .invalidValue
  | j =>
    match j.toInt? with
    | some 0 => .ok false
    | some 1 => .ok true
    | _ => .error .invalidValue

def Checks.standard : Checks where
  name := readName
  flag := readFlag

end Checks

end DeclGraph
