import DeclGraph.Artifact.Writer
import DeclGraph.Json.Parser

/-!
# Reading artifacts

`Graph.read` restores a graph from artifact text.  Every model is entered before
any link is followed, so that links can point forward.

* Entries that share an identifier give one model: the name, the kind and the
  content of the last of them, in the place of the first.
* Names inside types and fields, and flags, are what a `Checks` makes of the values
  that stand for them; a model's own name and identifier are taken as they are.
* Missing optional keys count as empty.
-/

namespace DeclGraph

/-- How names inside types and fields, and flags, are checked. -/
structure Checks where
  name : Json Points → Except ArtifactFault Points
  flag : Json Points → Except ArtifactFault Bool

section Values

/-- The value of a key of an object. -/
def Json.key (j : Json Points) (key : String) : Except ArtifactFault (Json Points) :=
  match j with
  | .obj entries =>
    match Json.get? entries key with
    | some value => .ok value
    | none => .error (.missingKey key)
  | _ => .error .wrongShape

/-- The value of a key that may be missing. -/
def Json.key? (j : Json Points) (key : String) : Option (Json Points) :=
  match j with
  | .obj entries => Json.get? entries key
  | _ => none

/-- What a value lists: the items of an array, the code points of a text, or the
keys of an object. -/
def Json.items : Json Points → Except ArtifactFault (List (Json Points))
  | .arr items => .ok items
  | .str s => .ok (s.toList.map fun p => .str (.ofList [p]))
  | .obj entries => .ok (entries.map fun e => .str e.1)
  | _ => .error .wrongShape

/-- What the value of a key lists, nothing if the key is missing. -/
def Json.itemsOf (j : Json Points) (key : String) : Except ArtifactFault (List (Json Points)) :=
  ((j.key? key).getD (.arr [])).items

/-- Applies a reader to every item in turn. -/
def readEach {α β : Type} (f : α → Except ArtifactFault β) :
    List α → Except ArtifactFault (List β)
  | [] => return []
  | a :: as => do
    let b ← f a
    let bs ← readEach f as
    return b :: bs

end Values

section Types

/-- The model an identifier leads to. -/
def lookup (models : List (Model Points)) (id : Json Points) :
    Except ArtifactFault (Link Points) :=
  if id.isKey then
    match models.find? (·.id.sameKey id) with
    | some m => .ok m.link
    | none => .error (.unknownModel id)
  else .error .wrongShape

variable (checks : Checks) (models : List (Model Points))

/-- Reads an entry once its type is read. -/
def readEntry (name : Json Points) (t : TypeExpr Points) (entry : Json Points) :
    Except ArtifactFault (Field (TypeExpr Points) Points) := do
  let optional := (entry.key? "optional").getD (.bool false)
  let name ← checks.name name
  let optional ← checks.flag optional
  return ⟨name, t, optional⟩

/-- Reads a type.  The first argument bounds the nesting; the number of characters
of the text a value was read from is always enough. -/
def readType : Nat → Json Points → Except ArtifactFault (TypeExpr Points)
  | 0, _ => .error .wrongShape
  | fuel + 1, j => do
    let kind ← j.key "kind"
    match kind with
    | .str (.plain "primitive") =>
      let name ← j.key "name"
      let items ← j.itemsOf "references"
      let references ← readEach (readType fuel) items
      let text ← checks.name name
      return .verbatim text references
    | .str (.plain "model") =>
      let ref ← j.key "ref"
      let target ← lookup models ref
      return .model target
    | .str (.plain "generic_param") =>
      let name ← j.key "name"
      let name ← checks.name name
      return .param name
    | .str (.plain "array") =>
      let element ← j.key "elementType"
      let element ← readType fuel element
      return .array element
    | .str (.plain "keyed_collection") =>
      let key ← j.key "keyType"
      let key ← readType fuel key
      let value ← j.key "valueType"
      let value ← readType fuel value
      return .keyed key value
    | .str (.plain "generic") =>
      let name ← j.key "referenceName"
      let args ← j.key "arguments"
      let items ← args.items
      let args ← readEach (readType fuel) items
      let target ←
        match j.key? "ref" with
        | some ref => (lookup models ref).map some
        | none => .ok none
      let name ← checks.name name
      return .generic name args target
    | .str (.plain "function") =>
      let args ← j.key "arguments"
      let items ← args.items
      let args ← readEach
        (fun a => do
          let name ← a.key "name"
          let type ← a.key "type"
          let t ← readType fuel type
          readEntry checks name t a)
        items
      let result ← j.key "returnType"
      let result ← readType fuel result
      return .function args result
    | other => .error (.unknownType other)

/-- Reads a field. -/
def readField (fuel : Nat) (j : Json Points) :
    Except ArtifactFault (Field (TypeExpr Points) Points) := do
  let name ← j.key "name"
  let type ← j.key "type"
  let t ← readType checks models fuel type
  readEntry checks name t j

/-- Reads a part of a type parameter. -/
def readPart (fuel : Nat) :
    Option (Json Points) → Except ArtifactFault (Option (TypeExpr Points))
  | none => return none
  | some j => (readType checks models fuel j).map some

/-- Reads a type parameter. -/
def readTypeParam (fuel : Nat) (j : Json Points) :
    Except ArtifactFault (TypeParam (TypeExpr Points) Points) := do
  let name ← j.key "name"
  let bound ← readPart checks models fuel (j.key? "constraint")
  let default ← readPart checks models fuel (j.key? "default")
  let name ← checks.name name
  return ⟨name, bound, default⟩

end Types

section Graphs

/-- The identifier of an entry: its own, or else its name. -/
def entryId (entry : Json Points) : Except ArtifactFault (Json Points) := do
  let name ← entry.key "name"
  return (entry.key? "id").getD name

/-- Puts a model in the place of the one with its identifier, or at the end. -/
def putModel (m : Model Points) : List (Model Points) → List (Model Points)
  | [] => [m]
  | n :: ns => if n.id.sameKey m.id then m :: ns else n :: putModel m ns

/-- A model with its identifier, name and kind only. -/
def readHeading (entry : Json Points) : Except ArtifactFault (Model Points) := do
  let name ← entry.key "name"
  let kind ← entry.key "kind"
  let kind ←
    match kind with
    | .str (.plain word) =>
      match Kind.ofWord? word with
      | some k => .ok k
      | none => .error (.unknownKind kind)
    | other => .error (.unknownKind other)
  let id ← entryId entry
  if id.isKey then return { id, name, kind } else .error .wrongShape

/-- Enters the heading of every entry. -/
def readHeadings :
    List (Model Points) → List (Json Points) → Except ArtifactFault (List (Model Points))
  | models, [] => return models
  | models, entry :: entries => do
    let m ← readHeading entry
    readHeadings (putModel m models) entries

variable (checks : Checks) (headings : List (Model Points))

/-- Gives the model of an entry the entry's content.  Links lead to `headings`. -/
def readContent (fuel : Nat) (models : List (Model Points)) (entry : Json Points) :
    Except ArtifactFault (List (Model Points)) := do
  let id ← entryId entry
  let params ← entry.itemsOf "typeParameters"
  let typeParams ← readEach (readTypeParam checks headings fuel) params
  let fields ← entry.itemsOf "schema"
  let schema ← readEach (readField checks headings fuel) fields
  let bases ← entry.itemsOf "heritage"
  let heritage ← readEach (readType checks headings fuel) bases
  let targets ← entry.itemsOf "dependencies"
  let dependencies ← readEach (lookup headings) targets
  let sources ← entry.itemsOf "dependants"
  let dependants ← readEach (lookup headings) sources
  return models.map fun m =>
    if m.id.sameKey id then { m with typeParams, schema, heritage, dependencies, dependants }
    else m

/-- Gives the models of several entries their content. -/
def readContents (fuel : Nat) :
    List (Model Points) → List (Json Points) → Except ArtifactFault (List (Model Points))
  | models, [] => return models
  | models, entry :: entries => do
    let models ← readContent checks headings fuel models entry
    readContents fuel models entries

/-- Restores a graph from an artifact of any version. -/
def Graph.ofJson (fuel : Nat) (j : Json Points) : Except ArtifactFault (Graph Points) := do
  let entries ← j.itemsOf "models"
  let headings ← readHeadings [] entries
  let models ← readContents checks headings fuel headings entries
  return ⟨models.map Model.freeze⟩

/-- Restores a graph from artifact text. -/
def Graph.read (text : Points) : Except ArtifactFault (Graph Points) :=
  match Json.parse? text with
  | none => .error .notJson
  | some (.obj entries) =>
    match (Json.get? entries "v").getD .null with
    | .str v =>
      if v == formatVersion then Graph.ofJson checks (text.toList.length + 1) (.obj entries)
      else .error (.version (.str v))
    | other => .error (.version other)
  | some _ => .error .notObject

end Graphs

end DeclGraph
