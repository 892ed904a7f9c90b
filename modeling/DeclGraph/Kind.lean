/-!
# Declaration kinds, named entries and type parameters

The small vocabulary shared by syntax, resolved types and models.  Named entries
and type parameters are generic in how they hold a type: as a syntax node that
may be absent, or as a resolved type.  They are generic, too, in the type of their
names.
-/

namespace DeclGraph

/-- The kinds of declarations that give a model. -/
inductive Kind where
  | interfaceDecl
  | aliasDecl
  | classDecl
deriving DecidableEq, Repr, Inhabited

namespace Kind

/-- The word for a kind in messages and artifacts. -/
def word : Kind → String
  | interfaceDecl => "interface"
  | aliasDecl => "alias"
  | classDecl => "class"

/-- The kind a word stands for. -/
def ofWord? (s : String) : Option Kind :=
  [interfaceDecl, aliasDecl, classDecl].find? (·.word == s)

@[simp]
theorem ofWord?_word (k : Kind) : ofWord? k.word = some k := by
  cases k <;> decide

theorem word_of_ofWord? {s : String} {k : Kind} (h : ofWord? s = some k) : k.word = s := by
  simpa using List.find?_some h

end Kind

/-- A named, typed entry: a field of a model or a parameter of a signature. -/
structure Field (τ : Type) (ν : Type := String) where
  name : ν
  type : τ
  optional : Bool
deriving DecidableEq, Repr, Inhabited

/-- A declared type parameter with its bound and its default. -/
structure TypeParam (τ : Type) (ν : Type := String) where
  name : ν
  bound : Option τ
  default : Option τ
deriving DecidableEq, Repr, Inhabited

end DeclGraph
