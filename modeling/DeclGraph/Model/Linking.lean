import DeclGraph.Model.Basic
import DeclGraph.Pass

/-!
# Linking drafts into models

`link` replaces every reference by name with a link to the model of that name and
finds the edges between the models.

* All names are known before any reference is looked at, so references may point
  forward and may form cycles.  If several drafts share a name, the last one is
  meant.
* A reference to a name that nothing has becomes text, and is reported; the name
  of a generic reference is looked up quietly.
* An edge goes from a model to every other model it mentions.  Edges are found by
  walking the fields, then the type parameters, then the base types; the mentions
  in base types count only on request.

Edges are kept by position in the list of drafts, in order of discovery and each
only once.
-/

namespace DeclGraph

section Mentions

/-- A place where a type names a model. -/
inductive Mention where
  /-- A reference by name. -/
  | reference (name : String)
  /-- The name of a generic reference. -/
  | generic (name : String)
deriving DecidableEq, Repr

/-- The name that is mentioned. -/
def Mention.name : Mention → String
  | reference name => name
  | generic name => name

mutual

/-- The mentions in a type, depth first: the arguments of a generic reference
before its name, keys before values, parameters before results. -/
def TypeExpr.mentions : TypeExpr → List Mention
  | .verbatim _ references => mentionsAll references
  | .model _ => []
  | .pending name => [.reference name]
  | .param _ => []
  | .array element => element.mentions
  | .keyed key value => key.mentions ++ value.mentions
  | .generic name args _ => mentionsAll args ++ [.generic name]
  | .function args result => mentionsFields args ++ result.mentions

/-- The mentions in several types. -/
def mentionsAll : List TypeExpr → List Mention
  | [] => []
  | t :: ts => t.mentions ++ mentionsAll ts

/-- The mentions in the types of several entries. -/
def mentionsFields : List (Field TypeExpr) → List Mention
  | [] => []
  | ⟨_, t, _⟩ :: fs => t.mentions ++ mentionsFields fs

end

/-- The mentions in a type parameter: in its bound, then in its default. -/
def TypeParam.mentions (p : TypeParam TypeExpr) : List Mention :=
  mentionsAll p.bound.toList ++ mentionsAll p.default.toList

/-- The mentions that always count: those in fields and type parameters. -/
def Draft.ownMentions (d : Draft) : List Mention :=
  mentionsFields d.schema ++ d.typeParams.flatMap TypeParam.mentions

/-- The mentions in base types. -/
def Draft.heritageMentions (d : Draft) : List Mention :=
  mentionsAll d.heritage

end Mentions

section Substitution

mutual

/-- Replaces references by name with what `find` gives for the name. -/
def TypeExpr.link (find : String → Option Link) : TypeExpr → TypeExpr
  | .verbatim text references => .verbatim text (linkAll find references)
  | .model target => .model target
  | .pending name =>
    match find name with
    | some target => .model target
    | none => .verbatim name []
  | .param name => .param name
  | .array element => .array (element.link find)
  | .keyed key value => .keyed (key.link find) (value.link find)
  | .generic name args _ => .generic name (linkAll find args) (find name)
  | .function args result => .function (linkFields find args) (result.link find)

/-- Links several types. -/
def linkAll (find : String → Option Link) : List TypeExpr → List TypeExpr
  | [] => []
  | t :: ts => t.link find :: linkAll find ts

/-- Links the types of several entries. -/
def linkFields (find : String → Option Link) : List (Field TypeExpr) → List (Field TypeExpr)
  | [] => []
  | ⟨name, t, optional⟩ :: fs => ⟨name, t.link find, optional⟩ :: linkFields find fs

end

theorem linkAll_eq_map (find : String → Option Link) (ts : List TypeExpr) :
    linkAll find ts = ts.map (TypeExpr.link find) := by
  induction ts with
  | nil => rfl
  | cons t ts ih => simp [linkAll, ih]

theorem linkFields_eq_map (find : String → Option Link) (fs : List (Field TypeExpr)) :
    linkFields find fs = fs.map fun f => { f with type := f.type.link find } := by
  induction fs with
  | nil => rfl
  | cons f fs ih =>
    cases f
    simp [linkFields, ih]

/-- Links the bound and the default of a type parameter. -/
def TypeParam.link (find : String → Option Link) (p : TypeParam TypeExpr) : TypeParam TypeExpr :=
  { p with
    bound := p.bound.map (TypeExpr.link find)
    default := p.default.map (TypeExpr.link find) }

end Substitution

section Edges

/-- The edges found so far, as pairs of positions in order of discovery. -/
structure Edges where
  pairs : List (Nat × Nat) := []
deriving DecidableEq, Repr, Inhabited

namespace Edges

/-- Adds an edge unless it is known or leads back to where it starts. -/
def add (es : Edges) (source target : Nat) : Edges :=
  if source = target ∨ (source, target) ∈ es.pairs then es
  else ⟨es.pairs ++ [(source, target)]⟩

/-- Where the edges of a model lead. -/
def targets (es : Edges) (source : Nat) : List Nat :=
  (es.pairs.filter (·.1 == source)).map (·.2)

/-- Where the edges to a model start. -/
def sources (es : Edges) (target : Nat) : List Nat :=
  (es.pairs.filter (·.2 == target)).map (·.1)

/-- The number of edges. -/
def count (es : Edges) : Nat :=
  es.pairs.length

end Edges

end Edges

section Link

/-- The position of the last draft of a name. -/
def positionOf? (drafts : List Draft) (name : String) : Option Nat :=
  go 0 none drafts
where
  /-- Walks on from position `i`, with the last hit so far. -/
  go (i : Nat) (hit : Option Nat) : List Draft → Option Nat
  | [] => hit
  | d :: ds => go (i + 1) (if d.name == name then some i else hit) ds

/-- The link to the draft of a name. -/
def linkTo? (drafts : List Draft) (name : String) : Option Link :=
  if drafts.any (·.name == name) then some ⟨.str name, .str name⟩ else none

/-- Records the mentions of the model at `source`: edges to the models that are
mentioned, if they count, and reports of names that nothing has. -/
def follow (drafts : List Draft) (model : String) (source : Nat) (counts : Bool) :
    Edges → List Mention → Edges × List Event
  | es, [] => (es, [])
  | es, m :: ms =>
    match positionOf? drafts m.name, m with
    | some target, _ =>
      follow drafts model source counts (if counts then es.add source target else es) ms
    | none, .reference name =>
      let (es, reports) := follow drafts model source counts es ms
      (es, .unresolved model name :: reports)
    | none, .generic _ => follow drafts model source counts es ms

/-- Walks the drafts from position `i` on and records what they mention. -/
def followAll (drafts : List Draft) (withHeritage : Bool) :
    Nat → Edges → List Draft → Edges × List Event
  | _, es, [] => (es, [])
  | i, es, d :: ds =>
    let (es, own) := follow drafts d.name i true es d.ownMentions
    let (es, inherited) := follow drafts d.name i withHeritage es d.heritageMentions
    let (es, rest) := followAll drafts withHeritage (i + 1) es ds
    (es, own ++ inherited ++ rest)

/-- The link to the draft at a position. -/
def linkAt? (drafts : List Draft) (i : Nat) : Option Link :=
  drafts[i]?.map fun d => ⟨.str d.name, .str d.name⟩

/-- The model of the draft at a position. -/
def linkDraft (drafts : List Draft) (es : Edges) (i : Nat) (d : Draft) : Model :=
  { id := .str d.name
    name := .str d.name
    kind := d.kind
    schema := linkFields (linkTo? drafts) d.schema
    typeParams := d.typeParams.map (TypeParam.link (linkTo? drafts))
    heritage := linkAll (linkTo? drafts) d.heritage
    dependencies := (es.targets i).filterMap (linkAt? drafts)
    dependants := (es.sources i).filterMap (linkAt? drafts) }

/-- Links drafts into models with their edges. -/
def link (drafts : List Draft) (withHeritage : Bool) : Pass (List Model) := do
  let (es, reports) := followAll drafts withHeritage 0 {} drafts
  Pass.report (reports ++ [.linked drafts.length es.count])
  return drafts.mapIdx fun i d => linkDraft drafts es i d

end Link

end DeclGraph
