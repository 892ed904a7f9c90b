import DeclGraph.Kind
import DeclGraph.Syntax.Node

/-!
# Declarations

Top-level declarations as they are read from a syntax tree: members, type
parameters and base types in source order, with their type expressions still in
the form of syntax nodes.
-/

namespace DeclGraph

open Syntax (Node)

/-- A body member that becomes a field. -/
inductive Member where
  | property (name : String) (type : Option Node) (optional : Bool)
  | method (name : String) (optional : Bool) (typeParams : List (TypeParam Node))
      (params : List (Field (Option Node))) (result : Option Node)
  /-- An index signature: the name and type of its key, and the type of its values. -/
  | index (key : String) (keyType valueType : Option Node)
deriving Repr, Inhabited

/-- The name of the field that a member becomes. -/
def Member.name : Member → String
  | property name _ _ => name
  | method name _ _ _ _ => name
  | index key _ _ => "[" ++ key ++ "]"

/-- A base type: a name with type arguments. -/
structure Heritage where
  name : String
  args : List Node
deriving Repr, Inhabited

/-- A top-level declaration.  The members of an alias are those of an object type;
an alias of any other type has that type as its value. -/
structure Declaration where
  kind : Kind
  name : String
  line : Int
  typeParams : List (TypeParam Node) := []
  members : List Member := []
  value : Option Node := none
  heritage : List Heritage := []
deriving Repr, Inhabited

end DeclGraph
