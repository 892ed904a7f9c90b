import DeclGraph.Declaration.Basic
import DeclGraph.Pass

/-!
# Groups of declarations

Declarations of one name are merged into one model.  `collect` gathers them into
groups: the groups in the order in which their names first appear, and within a
group the declarations in source order.  Two declarations of one name must be of
one kind.
-/

namespace DeclGraph

section Group

/-- The declarations of one name. -/
structure Group where
  name : String
  kind : Kind
  declarations : List Declaration
deriving Repr, Inhabited

/-- Adds a declaration to the group of its name, or as a new group at the end. -/
def addDeclaration (d : Declaration) : List Group → Pass (List Group)
  | [] => return [⟨d.name, d.kind, [d]⟩]
  | g :: gs =>
    if g.name == d.name then
      if g.kind == d.kind then do
        Pass.report [.merged d.name d.line]
        return { g with declarations := g.declarations ++ [d] } :: gs
      else Pass.fail (.conflict d.name g.kind d.kind d.line)
    else do
      let rest ← addDeclaration d gs
      return g :: rest

/-- Adds declarations one after the other. -/
def addDeclarations : List Group → List Declaration → Pass (List Group)
  | gs, [] => return gs
  | gs, d :: ds => do
    let gs ← addDeclaration d gs
    addDeclarations gs ds

/-- Gathers declarations into groups by name. -/
def collect (ds : List Declaration) : Pass (List Group) :=
  addDeclarations [] ds

end Group

end DeclGraph
