import DeclGraph.Kind
import DeclGraph.Json.Basic

/-!
# Type expressions

The resolved form of a type.  Resolution produces references to declared models
by name (`pending`); linking replaces each of them by a link to the model itself.

A link carries the identifier and the name of the model it points at.  Both are
texts in every graph that an extraction produces; an artifact may give a model
any JSON value for them.

Types are generic in the type of the texts in them, as JSON values are;
`TypeExpr.map` changes these texts.
-/

namespace DeclGraph

/-- A pointer to a model of a graph. -/
structure Link (ν : Type := String) where
  id : Json ν
  name : Json ν
deriving Repr, Inhabited

/-- A resolved type. -/
inductive TypeExpr (ν : Type := String) where
  /-- A built-in or compound type kept as its source text, with the declared
  models named inside it. -/
  | verbatim (text : ν) (references : List (TypeExpr ν))
  /-- A declared model. -/
  | model (target : Link ν)
  /-- A declared model by name, before linking. -/
  | pending (name : ν)
  /-- A type parameter in scope. -/
  | param (name : ν)
  /-- A sequence of elements of one type. -/
  | array (element : TypeExpr ν)
  /-- An association from keys to values. -/
  | keyed (key value : TypeExpr ν)
  /-- A named reference with type arguments, and the model of that name if there
  is one. -/
  | generic (name : ν) (args : List (TypeExpr ν)) (target : Option (Link ν))
  /-- A signature. -/
  | function (args : List (Field (TypeExpr ν) ν)) (result : TypeExpr ν)
deriving Repr, Inhabited

namespace TypeExpr

/-- The type of a member or parameter without an annotation. -/
def unannotated : TypeExpr :=
  verbatim "any" []

end TypeExpr

section Texts

variable {ν μ : Type}

/-- Changes the texts of a link. -/
def Link.map (f : ν → μ) (l : Link ν) : Link μ :=
  ⟨l.id.map f, l.name.map f⟩

mutual

/-- Changes the texts of a type. -/
def TypeExpr.map (f : ν → μ) : TypeExpr ν → TypeExpr μ
  | .verbatim text references => .verbatim (f text) (mapTypes f references)
  | .model target => .model (target.map f)
  | .pending name => .pending (f name)
  | .param name => .param (f name)
  | .array element => .array (element.map f)
  | .keyed key value => .keyed (key.map f) (value.map f)
  | .generic name args target => .generic (f name) (mapTypes f args) (target.map (·.map f))
  | .function args result => .function (mapFields f args) (result.map f)

/-- Changes the texts of several types. -/
def mapTypes (f : ν → μ) : List (TypeExpr ν) → List (TypeExpr μ)
  | [] => []
  | t :: ts => t.map f :: mapTypes f ts

/-- Changes the texts of several entries. -/
def mapFields (f : ν → μ) : List (Field (TypeExpr ν) ν) → List (Field (TypeExpr μ) μ)
  | [] => []
  | ⟨name, t, optional⟩ :: fs => ⟨f name, t.map f, optional⟩ :: mapFields f fs

end

/-- Changes the texts of a type parameter. -/
def TypeParam.map (f : ν → μ) (p : TypeParam (TypeExpr ν) ν) : TypeParam (TypeExpr μ) μ :=
  ⟨f p.name, p.bound.map (·.map f), p.default.map (·.map f)⟩

end Texts

end DeclGraph
