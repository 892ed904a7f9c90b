import DeclGraph.Json.Basic
import DeclGraph.Text.Quoted

/-!
# Showing JSON values in messages

Messages show a value with its texts in quotes, its truth values as `True` and
`False`, and its null as `None`; a text on its own may also be shown bare.
-/

namespace DeclGraph
namespace Json

section Display

mutual

/-- A value as messages show it. -/
def display : Json Points → String
  | .null => "None"
  | .bool true => "True"
  | .bool false => "False"
  | .int n => toString n
  | .float x => x.display
  | .str s => Text.quote s
  | .arr xs => "[" ++ displayItems xs ++ "]"
  | .obj es => "\x7b" ++ displayEntries es ++ "\x7d"

/-- Items with a comma and a space between neighbours. -/
def displayItems : List (Json Points) → String
  | [] => ""
  | [x] => display x
  | x :: xs => display x ++ ", " ++ displayItems xs

/-- Entries with a comma and a space between neighbours. -/
def displayEntries : List (Points × Json Points) → String
  | [] => ""
  | [(k, v)] => Text.quote k ++ ": " ++ display v
  | (k, v) :: es => Text.quote k ++ ": " ++ display v ++ ", " ++ displayEntries es

end

/-- A text bare, any other value as messages show it. -/
def bare : Json → String
  | .str s => s
  | j => (j.map Points.plain).display

end Display

end Json
end DeclGraph
