import DeclGraph.Json.Display
import DeclGraph.Model.Basic

/-!
# Cards

A card shows a model: its name, its kind, and a row for every field with a short
label of the field's type.  A label is highlighted when it names a model.

`TypeExpr.text` is the label's text: arrays as `element[]`, with parentheses
around a signature, associations as `Map<key, value>`, references with their
arguments, and signatures as `(parameters) => result`.
-/

namespace DeclGraph

section Labels

/-- Whether a type is a signature. -/
def TypeExpr.isFunction : TypeExpr → Bool
  | .function _ _ => true
  | _ => false

/-- Whether a type is a link to a model. -/
def TypeExpr.isModel : TypeExpr → Bool
  | .model _ => true
  | _ => false

mutual

/-- The text of a type's label. -/
def TypeExpr.text : TypeExpr → String
  | .verbatim text _ => text
  | .model target => target.name.bare
  | .pending name => name
  | .param name => name
  | .array element =>
    if element.isFunction then "(" ++ element.text ++ ")[]" else element.text ++ "[]"
  | .keyed key value => "Map<" ++ key.text ++ ", " ++ value.text ++ ">"
  | .generic name args _ => name ++ "<" ++ ", ".intercalate (textAll args) ++ ">"
  | .function args result =>
    "(" ++ ", ".intercalate (textFields args) ++ ") => " ++ result.text

/-- The texts of several types. -/
def textAll : List TypeExpr → List String
  | [] => []
  | t :: ts => t.text :: textAll ts

/-- The texts of several parameters. -/
def textFields : List (Field TypeExpr) → List String
  | [] => []
  | ⟨name, t, optional⟩ :: fs =>
    (name ++ (if optional then "?" else "") ++ ": " ++ t.text) :: textFields fs

end

mutual

/-- Whether a type's label is highlighted.  Signatures never are, and of an
association only the value counts. -/
def TypeExpr.highlighted : TypeExpr → Bool
  | .verbatim _ references => references.any TypeExpr.isModel
  | .model _ => true
  | .pending _ => false
  | .param _ => false
  | .array element => element.highlighted
  | .keyed _ value => value.highlighted
  | .generic _ args target => target.isSome || highlightedAny args
  | .function _ _ => false

/-- Whether one of several labels is highlighted. -/
def highlightedAny : List TypeExpr → Bool
  | [] => false
  | t :: ts => t.highlighted || highlightedAny ts

end

/-- A label: its text, which is the model's own name for a link, and whether it
is highlighted. -/
structure Label where
  text : Json
  highlighted : Bool
deriving Repr, Inhabited

/-- The label of a type. -/
def TypeExpr.label : TypeExpr → Label
  | .model target => ⟨target.name, true⟩
  | t => ⟨.str t.text, t.highlighted⟩

/-- What is said when a label is asked for and there is no type. -/
def noTypeMessage : String :=
  "Unknown type reference: None"

end Labels

section Cards

/-- A row of a card. -/
structure Row where
  name : String
  type : Label
  optional : Bool
deriving Repr, Inhabited

/-- A model as it is shown. -/
structure Card where
  title : Json
  kind : String
  rows : List Row
deriving Repr, Inhabited

/-- The row of a field. -/
def Row.ofField (f : Field TypeExpr) : Row :=
  ⟨f.name, f.type.label, f.optional⟩

/-- The card of a model. -/
def Model.card (m : Model) : Card :=
  ⟨m.name, m.kind.word, m.schema.map Row.ofField⟩

/-- A model in one line, without its edges. -/
def Model.summary (m : Model Points) : String :=
  "Model(name=" ++ m.name.display ++ ", kind=" ++ Text.quote m.kind.word ++ ", fields=" ++
    (Json.arr (m.schema.map fun f => .str f.name)).display ++ ")"

end Cards

end DeclGraph
