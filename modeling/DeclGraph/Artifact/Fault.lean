import DeclGraph.Json.Display

/-!
# Faults of artifacts

Why a graph cannot be written as an artifact, and why a text is not one.
-/

namespace DeclGraph

/-- Why an artifact cannot be written or read. -/
inductive ArtifactFault where
  /-- A type still refers to a model by name. -/
  | unlinked (name : Points)
  /-- The text is not JSON. -/
  | notJson
  /-- The artifact is not an object. -/
  | notObject
  /-- The format version is not the one that is read. -/
  | version (found : Json Points)
  /-- A model's kind is not one of the declaration kinds. -/
  | unknownKind (found : Json Points)
  /-- A type's kind is not one of the type kinds. -/
  | unknownType (found : Json Points)
  /-- A reference leads to no model. -/
  | unknownModel (id : Json Points)
  /-- An object lacks a key. -/
  | missingKey (key : String)
  /-- A value is not an object, a list or an identifier where one is needed. -/
  | wrongShape
  /-- A name is not a text, or a flag not a truth value. -/
  | invalidValue
deriving Repr, Inhabited

/-- The wording of a fault, where it has one. -/
def ArtifactFault.message? : ArtifactFault → Option String
  | unlinked name =>
    some ("Cannot serialize unlinked type reference: PendingModelRef(kind='pending', name=" ++
      Text.quote name ++ ")")
  | version found => some ("Unsupported artifact format version: " ++ found.display)
  | unknownKind found => some (found.display ++ " is not a valid ModelKind")
  | unknownType found => some ("Unknown type reference kind: " ++ found.display)
  | unknownModel id => some ("Unknown model id in artifact: " ++ id.display)
  | missingKey key => some (Text.quote key)
  | _ => none

end DeclGraph
