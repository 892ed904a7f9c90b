import DeclGraph.Artifact.Fault
import DeclGraph.Json.Printer
import DeclGraph.Model.Basic

/-!
# Writing artifacts

An artifact is a graph as JSON.  Links and edges are written as the identifiers of
the models they lead to, so graphs with cycles are finite text.  Optional parts
are left out when they are empty: references of a verbatim type, bounds and
defaults of type parameters, targets of generic references, and flags that are
off.

A type that still refers to a model by name cannot be written; the first such
type in output order is reported.
-/

namespace DeclGraph

/-- The version of the artifact format. -/
def formatVersion : String :=
  "1"

/-- An entry of an object of an artifact. -/
abbrev entry (key : String) (value : Json Points) : Points × Json Points :=
  (key, value)

section Types

mutual

/-- A type as JSON. -/
def TypeExpr.toJson : TypeExpr Points → Except ArtifactFault (Json Points)
  | .verbatim text references => do
    let refs ← toJsonAll references
    let head := [entry "kind" (.str "primitive"), entry "name" (.str text)]
    return .obj (if refs.isEmpty then head else head ++ [entry "references" (.arr refs)])
  | .model target => return .obj [entry "kind" (.str "model"), entry "ref" target.id]
  | .pending name => .error (.unlinked name)
  | .param name => return .obj [entry "kind" (.str "generic_param"), entry "name" (.str name)]
  | .array element => do
    let element ← element.toJson
    return .obj [entry "kind" (.str "array"), entry "elementType" element]
  | .keyed key value => do
    let key ← key.toJson
    let value ← value.toJson
    return .obj
      [entry "kind" (.str "keyed_collection"), entry "keyType" key, entry "valueType" value]
  | .generic name args target => do
    let args ← toJsonAll args
    let head := [entry "kind" (.str "generic"), entry "referenceName" (.str name),
      entry "arguments" (.arr args)]
    return .obj (head ++ (target.map fun l => entry "ref" l.id).toList)
  | .function args result => do
    let args ← toJsonFields args
    let result ← result.toJson
    return .obj
      [entry "kind" (.str "function"), entry "arguments" (.arr args), entry "returnType" result]

/-- Several types as JSON. -/
def toJsonAll : List (TypeExpr Points) → Except ArtifactFault (List (Json Points))
  | [] => return []
  | t :: ts => do
    let j ← t.toJson
    let js ← toJsonAll ts
    return j :: js

/-- Several named entries as JSON. -/
def toJsonFields :
    List (Field (TypeExpr Points) Points) → Except ArtifactFault (List (Json Points))
  | [] => return []
  | ⟨name, t, optional⟩ :: fs => do
    let j ← t.toJson
    let flag := if optional then [entry "optional" (.bool true)] else []
    let js ← toJsonFields fs
    return .obj ([entry "name" (.str name), entry "type" j] ++ flag) :: js

end

/-- A part under its key, if it is there. -/
def partToJson (key : String) :
    Option (TypeExpr Points) → Except ArtifactFault (List (Points × Json Points))
  | none => return []
  | some t => do
    let j ← t.toJson
    return [entry key j]

/-- A type parameter as JSON. -/
def TypeParam.toJson (p : TypeParam (TypeExpr Points) Points) :
    Except ArtifactFault (Json Points) := do
  let bound ← partToJson "constraint" p.bound
  let default ← partToJson "default" p.default
  return .obj ([entry "name" (.str p.name)] ++ bound ++ default)

/-- Several type parameters as JSON. -/
def toJsonTypeParams :
    List (TypeParam (TypeExpr Points) Points) → Except ArtifactFault (List (Json Points))
  | [] => return []
  | p :: ps => do
    let j ← p.toJson
    let js ← toJsonTypeParams ps
    return j :: js

end Types

section Graphs

/-- A model as JSON. -/
def Model.toJson (m : Model Points) : Except ArtifactFault (Json Points) := do
  let typeParams ← toJsonTypeParams m.typeParams
  let schema ← toJsonFields m.schema
  let heritage ← toJsonAll m.heritage
  return .obj
    [entry "id" m.id, entry "name" m.name, entry "kind" (.str m.kind.word),
      entry "typeParameters" (.arr typeParams), entry "schema" (.arr schema),
      entry "heritage" (.arr heritage),
      entry "dependencies" (.arr (m.dependencies.map (·.id))),
      entry "dependants" (.arr (m.dependants.map (·.id)))]

/-- Several models as JSON. -/
def toJsonModels : List (Model Points) → Except ArtifactFault (List (Json Points))
  | [] => return []
  | m :: ms => do
    let j ← m.toJson
    let js ← toJsonModels ms
    return j :: js

/-- A graph as JSON. -/
def Graph.toJson (g : Graph Points) : Except ArtifactFault (Json Points) := do
  let models ← toJsonModels g.models
  return .obj [entry "v" (.str formatVersion), entry "models" (.arr models)]

/-- A graph as artifact text. -/
def Graph.write (l : Layout) (g : Graph Points) : Except ArtifactFault String := do
  let j ← g.toJson
  return j.render l

end Graphs

end DeclGraph
