import DeclGraph.Declaration.Group
import DeclGraph.Model.Basic
import DeclGraph.TypeExpr.Written

/-!
# Resolving types

`resolve` turns a written type into a type expression, given the names of all
declared models, the type parameters in scope, and the greatest depth to which a
type may nest.

* A name in scope is a type parameter, whether or not a model has it too; any
  other declared name is a pending reference, and every other name stays text.
* `T[]`, `Array<T>` and `ReadonlyArray<T>` are one thing, and so are a type and
  the same type in parentheses or under `readonly`.
* Signatures bring their own type parameters into scope.
* Verbatim types keep the declared names that occur in them as references, each
  once, in order of first occurrence.

Fields, base types and type parameters of declarations are resolved from these,
and the declarations of one name are merged into one draft.
-/

namespace DeclGraph

open Syntax (Node)

section Types

/-- What a type is resolved against. -/
structure Context where
  /-- The names of all declared models. -/
  known : List String
  /-- The greatest depth to which a type may nest. -/
  limit : Int
deriving Repr, Inhabited

/-- The reference names that denote arrays of their single argument. -/
def arrayNames : List String :=
  ["Array", "ReadonlyArray"]

namespace Context

/-- The type a bare name denotes. -/
def nameType (ctx : Context) (scope : List String) (name : String) : TypeExpr :=
  if scope.contains name then .param name
  else if ctx.known.contains name then .pending name
  else .verbatim name []

/-- The type that a name with type arguments denotes. -/
def referenceType (ctx : Context) (scope : List String) (name : String)
    (args : List TypeExpr) : TypeExpr :=
  match args with
  | [] => ctx.nameType scope name
  | [arg] => if arrayNames.contains name then .array arg else .generic name [arg] none
  | args => .generic name args none

/-- The references kept with a verbatim type in which `names` occur. -/
def references (ctx : Context) (scope names : List String) : List TypeExpr :=
  (names.filter fun n => ctx.known.contains n && !scope.contains n).eraseDups.map .pending

/-- Refuses a type that stands too deep. -/
def checkDepth (ctx : Context) (depth line : Nat) : Pass Unit :=
  if ctx.limit < depth then Pass.fail (.tooDeep ctx.limit line) else pure ()

end Context

mutual

/-- Resolves a written type that stands at a depth. -/
def resolve (ctx : Context) (scope : List String) (depth : Nat) : Written → Pass TypeExpr
  | .absent => return .unannotated
  | .wrapped line inner => do
    ctx.checkDepth depth line
    resolve ctx scope (depth + 1) inner
  | .hollow line text => do
    ctx.checkDepth depth line
    return .verbatim text []
  | .name line name => do
    ctx.checkDepth depth line
    return ctx.nameType scope name
  | .array line element => do
    ctx.checkDepth depth line
    let element ← resolve ctx scope (depth + 1) element
    return .array element
  | .bareArray line => do
    ctx.checkDepth depth line
    Pass.fail .noElement
  | .reference line name args => do
    ctx.checkDepth depth line
    let args ← resolveAll ctx scope (depth + 1) args
    return ctx.referenceType scope name args
  | .function line typeParams params result => do
    ctx.checkDepth depth line
    let params ← resolveParams ctx (typeParams ++ scope) (depth + 1) params
    let result ← resolve ctx (typeParams ++ scope) (depth + 1) result
    return .function params result
  | .keyed line skipped key value => do
    ctx.checkDepth depth line
    Pass.report (skipped.map .memberSkipped)
    let key ← resolve ctx scope (depth + 1) key
    let value ← resolve ctx scope (depth + 1) value
    return .keyed key value
  | .verbatim line skipped text names => do
    ctx.checkDepth depth line
    Pass.report (skipped.map .memberSkipped)
    return .verbatim text (ctx.references scope names)

/-- Resolves written types from left to right. -/
def resolveAll (ctx : Context) (scope : List String) (depth : Nat) :
    List Written → Pass (List TypeExpr)
  | [] => return []
  | w :: ws => do
    let t ← resolve ctx scope depth w
    let ts ← resolveAll ctx scope depth ws
    return t :: ts

/-- Resolves the types of parameters from left to right. -/
def resolveParams (ctx : Context) (scope : List String) (depth : Nat) :
    List (Field Written) → Pass (List (Field TypeExpr))
  | [] => return []
  | ⟨name, w, optional⟩ :: fs => do
    let t ← resolve ctx scope depth w
    let ts ← resolveParams ctx scope depth fs
    return ⟨name, t, optional⟩ :: ts

end

end Types

section Declarations

/-- The field name that holds the type of an alias. -/
def aliasField : String :=
  "==>"

/-- A parameter with its type as written. -/
def writtenParam (p : Field (Option Node)) : Field Written :=
  ⟨p.name, .ofNode? p.type, p.optional⟩

/-- Resolves a node that may be missing, at depth zero. -/
def resolveNode (ctx : Context) (scope : List String) (n : Option Node) : Pass TypeExpr :=
  resolve ctx scope 0 (.ofNode? n)

/-- Resolves a node that may be missing to a type that may be missing. -/
def resolveNode? (ctx : Context) (scope : List String) :
    Option Node → Pass (Option TypeExpr)
  | none => return none
  | some n => do
    let t ← resolveNode ctx scope (some n)
    return some t

/-- Resolves the bound and the default of a type parameter. -/
def resolveTypeParam (ctx : Context) (scope : List String) (p : TypeParam Node) :
    Pass (TypeParam TypeExpr) := do
  let bound ← resolveNode? ctx scope p.bound
  let default ← resolveNode? ctx scope p.default
  return ⟨p.name, bound, default⟩

/-- Resolves a member to a field.  The parts of a method or an index signature
stand one level deep. -/
def resolveMember (ctx : Context) (scope : List String) : Member → Pass (Field TypeExpr)
  | .property name type optional => do
    let t ← resolveNode ctx scope type
    return ⟨name, t, optional⟩
  | .method name optional typeParams params result => do
    let inner := typeParams.map (·.name) ++ scope
    let args ← resolveParams ctx inner 1 (params.map writtenParam)
    let result ← resolve ctx inner 1 (.ofNode? result)
    return ⟨name, .function args result, optional⟩
  | .index key keyType valueType => do
    let k ← resolve ctx scope 1 (.ofNode? keyType)
    let v ← resolve ctx scope 1 (.ofNode? valueType)
    return ⟨"[" ++ key ++ "]", .keyed k v, false⟩

/-- Resolves a base type.  Its type arguments stand one level deep. -/
def resolveHeritage (ctx : Context) (scope : List String) (h : Heritage) : Pass TypeExpr := do
  let args ← resolveAll ctx scope 1 (h.args.map .ofNode)
  return ctx.referenceType scope h.name args

/-- Adds type parameters whose names are new. -/
def mergeTypeParams (seen : List (TypeParam TypeExpr)) :
    List (TypeParam TypeExpr) → List (TypeParam TypeExpr)
  | [] => seen
  | p :: ps =>
    if seen.any (·.name == p.name) then mergeTypeParams seen ps
    else mergeTypeParams (seen ++ [p]) ps

/-- Resolves a declaration in the scope of its own type parameters and adds it
to the draft of its name. -/
def resolveDeclaration (ctx : Context) (draft : Draft) (d : Declaration) : Pass Draft := do
  let scope := d.typeParams.map (·.name)
  let typeParams ← Pass.each (resolveTypeParam ctx scope) d.typeParams
  let value ← resolveNode? ctx scope d.value
  let fields ← Pass.each (resolveMember ctx scope) d.members
  let heritage ← Pass.each (resolveHeritage ctx scope) d.heritage
  return { draft with
    typeParams := mergeTypeParams draft.typeParams typeParams
    schema := draft.schema ++ value.toList.map (⟨aliasField, ·, false⟩) ++ fields
    heritage := draft.heritage ++ heritage }

/-- Resolves declarations into a draft, one after the other. -/
def resolveDeclarations (ctx : Context) : Draft → List Declaration → Pass Draft
  | draft, [] => return draft
  | draft, d :: ds => do
    let draft ← resolveDeclaration ctx draft d
    resolveDeclarations ctx draft ds

/-- Resolves the declarations of one name into one draft. -/
def resolveGroup (ctx : Context) (g : Group) : Pass Draft :=
  resolveDeclarations ctx { name := g.name, kind := g.kind } g.declarations

end Declarations

end DeclGraph
