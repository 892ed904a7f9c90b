import DeclGraph.Model.Linking
import DeclGraph.TypeExpr.Resolve

/-!
# Extraction

The whole pass from a syntax tree to a graph: read the declarations, gather them
by name, resolve one draft per name, link the drafts, and freeze the models.
`extract` runs every stage to its end or fails; no half-linked graph comes out.
-/

namespace DeclGraph

open Syntax (Node)

/-- Options of an extraction. -/
structure Options where
  /-- The greatest depth to which a type may nest. -/
  depthLimit : Int := 64
  /-- Whether base types count as dependencies. -/
  withHeritage : Bool := true
deriving DecidableEq, Repr, Inhabited

/-- Resolves groups, taking their own names as the declared ones. -/
def resolveGroups (limit : Int) (groups : List Group) : Pass (List Draft) :=
  Pass.each (resolveGroup ⟨groups.map (·.name), limit⟩) groups

/-- The graph of a list of declarations. -/
def assemble (options : Options) (ds : List Declaration) : Pass Graph := do
  let groups ← collect ds
  let drafts ← resolveGroups options.depthLimit groups
  let models ← link drafts options.withHeritage
  Pass.report [.parsed models.length]
  return ⟨models.map Model.freeze⟩

/-- The graph of a syntax tree. -/
def extract (options : Options) (root : Node) : Pass Graph := do
  let ds ← readDeclarations root
  assemble options ds

end DeclGraph
