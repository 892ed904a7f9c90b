import DeclGraph.Text.Points
import DeclGraph.TypeExpr.Basic

/-!
# Models and graphs

A `Draft` is a declared entity whose types have been resolved and not linked.  A
`Model` is one entity of a graph: its fields, type parameters and base types, and
its edges to the models it refers to and to those that refer to it.

A `Graph` is an ordered list of models.  Edges and type links are `Link`s, so a
graph is finite data however its models refer to each other.

Models and graphs are generic in the type of their texts.  Extraction gives ordinary
texts; artifacts are written from graphs of code points and read as such, and
`Graph.spelled` is an extracted graph in that form.
-/

namespace DeclGraph

/-- A resolved entity before linking. -/
structure Draft where
  name : String
  kind : Kind
  typeParams : List (TypeParam TypeExpr) := []
  schema : List (Field TypeExpr) := []
  heritage : List TypeExpr := []
deriving Repr, Inhabited

/-- A declared entity with its edges. -/
structure Model (ν : Type := String) where
  id : Json ν
  name : Json ν
  kind : Kind
  typeParams : List (TypeParam (TypeExpr ν) ν) := []
  schema : List (Field (TypeExpr ν) ν) := []
  heritage : List (TypeExpr ν) := []
  /-- The models this one refers to, in order of discovery. -/
  dependencies : List (Link ν) := []
  /-- The models that refer to this one, in order of discovery. -/
  dependants : List (Link ν) := []
  /-- Whether the model can still be changed. -/
  frozen : Bool := false
deriving Repr, Inhabited

namespace Model

variable {ν μ : Type}

/-- The pointer to a model. -/
def link (m : Model ν) : Link ν :=
  ⟨m.id, m.name⟩

/-- A draft as a model without edges. -/
def ofDraft (d : Draft) : Model :=
  { id := .str d.name, name := .str d.name, kind := d.kind, typeParams := d.typeParams
    schema := d.schema, heritage := d.heritage }

/-- Makes a model read-only. -/
def freeze (m : Model ν) : Model ν :=
  { m with frozen := true }

/-- Changes the texts of a model. -/
def map (f : ν → μ) (m : Model ν) : Model μ :=
  { id := m.id.map f
    name := m.name.map f
    kind := m.kind
    typeParams := m.typeParams.map (·.map f)
    schema := mapFields f m.schema
    heritage := mapTypes f m.heritage
    dependencies := m.dependencies.map (·.map f)
    dependants := m.dependants.map (·.map f)
    frozen := m.frozen }

/-- The first field of a name. -/
def field? (m : Model) (name : String) : Option (Field TypeExpr) :=
  m.schema.find? (·.name == name)

end Model

/-- The models of one extraction, in order. -/
structure Graph (ν : Type := String) where
  models : List (Model ν)
deriving Repr, Inhabited

namespace Graph

variable {ν μ : Type}

/-- The first model of a name. -/
def get? (g : Graph) (name : String) : Option Model :=
  g.models.find? fun m => m.name.sameKey (.str name)

/-- Whether a value is the name of a model. -/
def contains (g : Graph) (name : Json) : Bool :=
  match name with
  | .str s => (g.get? s).isSome
  | _ => false

/-- The names of the models, in order. -/
def names (g : Graph ν) : List (Json ν) :=
  g.models.map (·.name)

def size (g : Graph ν) : Nat :=
  g.models.length

/-- Whether every edge leads to a model of the graph. -/
def closed [DecidableEq ν] (g : Graph ν) : Bool :=
  g.models.all fun m =>
    (m.dependencies ++ m.dependants).all fun l =>
      g.models.any fun n => n.id.sameKey l.id

/-- Changes the texts of a graph. -/
def map (f : ν → μ) (g : Graph ν) : Graph μ :=
  ⟨g.models.map (·.map f)⟩

/-- A graph with its texts as code points. -/
def spelled (g : Graph) : Graph Points :=
  g.map .plain

end Graph

end DeclGraph
