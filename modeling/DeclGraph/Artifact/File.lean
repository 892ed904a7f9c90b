import DeclGraph.Artifact.Reader
import DeclGraph.Files.Disk
import DeclGraph.Text.Utf8

/-!
# Artifact files

An artifact is kept in a text file.  `Host.readArtifact` restores the graph from the
file.
-/

namespace DeclGraph

section Files

/-- Why a file gives no graph. -/
inductive ArtifactFileFault where
  | unreadable (fault : ReadFault)
  | undecodable (fault : Text.DecodeFault)
  | artifact (fault : ArtifactFault)
deriving Repr

variable {m : Type → Type} [Monad m]

/-- Restores a graph from an artifact file. -/
def Host.readArtifact (h : Host m) (checks : Checks) (p : Path) :
    m (Except ArtifactFileFault (Graph Points)) := do
  match ← h.read p with
  | .error f => return .error (.unreadable f)
  | .ok bytes =>
    match readText bytes with
    | .error f => return .error (.undecodable f)
    | .ok text =>
      match Graph.read checks text with
      | .error f => return .error (.artifact f)
      | .ok g => return .ok g

end Files

end DeclGraph
