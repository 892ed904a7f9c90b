import DeclGraph.Card

/-!
# Editing a model

While a model is being built, its attributes can be replaced by arbitrary values;
once it is frozen, every assignment is refused.  A replaced attribute no longer
has the type it was declared with, so what depends on it may fail.
-/

namespace DeclGraph

section Editing

/-- An attribute as it was given, or the value that replaced it. -/
inductive Attribute (α : Type) where
  | given (value : α)
  | replaced (value : Json)
deriving Repr, Inhabited

/-- A model whose attributes can be replaced. -/
structure Editable where
  id : Json
  name : Json
  kind : Attribute Kind
  schema : Attribute (List (Field TypeExpr))
  /-- Whatever was last said about being read-only. -/
  frozen : Json
deriving Repr, Inhabited

/-- Why an operation on a model fails. -/
inductive EditFault where
  /-- The model of this name is read-only. -/
  | readOnly (name : Json)
  /-- A value lacks the attribute that is asked for. -/
  | noAttribute
  /-- A value cannot be listed. -/
  | notListed
deriving Repr, Inhabited

/-- The wording of a fault, where it has one. -/
def EditFault.message? : EditFault → Option String
  | readOnly name => some ("Model '" ++ name.bare ++ "' is read-only")
  | _ => none

/-- Whether a value counts as true: everything but null, zero and what is empty. -/
def Json.truthy : Json → Bool
  | .null => false
  | .bool b => b
  | .int n => n != 0
  | .float x => x.toInt? != some 0
  | .str s => !s.isEmpty
  | .arr items => !items.isEmpty
  | .obj entries => !entries.isEmpty

namespace Editable

/-- A model under construction. -/
def ofDraft (d : Draft) : Editable :=
  { id := .str d.name, name := .str d.name, kind := .given d.kind, schema := .given d.schema
    frozen := .bool false }

/-- Replaces an attribute.  Attributes that nothing here shows are accepted too;
whether the model is frozen can only be read. -/
def assign (e : Editable) (key : String) (value : Json) : Except EditFault Editable :=
  if e.frozen.truthy then .error (.readOnly e.name)
  else
    match key with
    | "id" => .ok { e with id := value }
    | "name" => .ok { e with name := value }
    | "kind" => .ok { e with kind := .replaced value }
    | "schema" => .ok { e with schema := .replaced value }
    | "_frozen" => .ok { e with frozen := value }
    | "frozen" => .error .noAttribute
    | _ => .ok e

/-- Makes the model read-only. -/
def freeze (e : Editable) : Editable :=
  { e with frozen := .bool true }

/-- The fields; a replaced schema has none unless it lists something that is not a field. -/
def fields (e : Editable) : Except EditFault (List (Field TypeExpr)) :=
  match e.schema with
  | .given fs => .ok fs
  | .replaced value =>
    match value with
    | .arr _ | .obj _ | .str _ => if value.truthy then .error .noAttribute else .ok []
    | _ => .error .notListed

/-- The first field of a name. -/
def field? (e : Editable) (name : String) : Except EditFault (Option (Field TypeExpr)) := do
  let fs ← e.fields
  return fs.find? (·.name == name)

/-- The model as it stands, if its kind and fields are still what they were declared to be. -/
def model (e : Editable) : Except EditFault Model :=
  match e.kind with
  | .given kind => do
    let schema ← e.fields
    return { id := e.id, name := e.name, kind, schema }
  | .replaced _ => .error .noAttribute

end Editable

end Editing

end DeclGraph
