import DeclGraph.Extraction
import DeclGraph.Text.Digest

/-!
# Sessions

A session holds a source text and hands out its graph.  The graph is extracted
when it is first asked for and kept, together with the digest of its text; it is
dropped when the text is replaced by one with another digest.  A failed
extraction changes nothing.

A text with surrogates has no UTF-8 form, and so neither a digest nor a graph.
Setting such a text fails after the source has been replaced and before the kept
graph is looked at.

Every successful extraction has a stamp of its own, so that two accesses hand out
the same graph exactly when their stamps agree.

`serve` answers one query, and `run` serves several in turn.
-/

namespace DeclGraph

open Syntax (Node)

section Sources

/-- Why a source text gives no graph. -/
inductive SourceFault where
  /-- The text has no UTF-8 form. -/
  | unencodable
  | pass (fault : Fault)
deriving DecidableEq, Repr

/-- How the extraction of a source text ends; `parse` gives the syntax tree of a text
that has a UTF-8 form. -/
def extractText (parse : String → Node) (options : Options) :
    Points → Except SourceFault Graph
  | .plain text => (extract options (parse text)).outcome.mapError .pass
  | .cut _ _ _ => .error .unencodable

end Sources

section Session

/-- A graph that is kept for later accesses. -/
structure Cached where
  digest : String
  stamp : Nat
  graph : Graph
deriving Repr, Inhabited

/-- A source text with its options, and the graph extracted from it. -/
structure Session where
  options : Options
  source : Points
  cache : Option Cached := none
  /-- The number of extractions that have succeeded. -/
  extractions : Nat := 0
deriving Repr, Inhabited

/-- What an access reports, and what it hands out. -/
structure Access (α : Type) where
  events : List Event
  outcome : Except SourceFault α

namespace Session

/-- Replaces the source text.  The kept graph stays if the digest of the text does, or
if the text has none. -/
def setSource (s : Session) (source : Points) : Session × Except SourceFault Unit :=
  match source.encode? with
  | some text =>
    ({ s with source, cache := s.cache.filter fun c => c.digest == Text.digest text }, .ok ())
  | none => ({ s with source }, .error .unencodable)

/-- The graph of the current text with its stamp: the kept one, or a new one. -/
def access (parse : String → Node) (s : Session) : Session × Access (Nat × Graph) :=
  match s.cache with
  | some c => (s, ⟨[.cacheHit c.digest], .ok (c.stamp, c.graph)⟩)
  | none =>
    match s.source.encode? with
    | none => (s, ⟨[], .error .unencodable⟩)
    | some text =>
      let pass := extract s.options (parse text)
      match pass.outcome with
      | .ok g =>
        let cached : Cached := ⟨Text.digest text, s.extractions, g⟩
        ({ s with cache := some cached, extractions := s.extractions + 1 },
          ⟨pass.events, .ok (s.extractions, g)⟩)
      | .error f => (s, ⟨pass.events, .error (.pass f)⟩)

/-- The models of the current text in graph order, with the stamp of their graph. -/
def models (parse : String → Node) (s : Session) : Session × Access (Nat × List Model) :=
  let (s, ⟨events, outcome⟩) := s.access parse
  (s, ⟨events, outcome.map fun (stamp, graph) => (stamp, graph.models)⟩)

end Session

/-- What can be asked of a session. -/
inductive Query where
  | setSource (text : Points)
  | source
  | graph
  | models
deriving DecidableEq, Repr, Inhabited

/-- What a session replies. -/
inductive Reply where
  | set (outcome : Except SourceFault Unit)
  | source (text : Points)
  | graph (outcome : Except SourceFault (Nat × Graph))
  | models (outcome : Except SourceFault (Nat × List Model))

namespace Session

/-- Answers a query. -/
def serve (parse : String → Node) (s : Session) : Query → Session × Reply
  | .setSource text =>
    let (s, outcome) := s.setSource text
    (s, .set outcome)
  | .source => (s, .source s.source)
  | .graph =>
    let (s, access) := s.access parse
    (s, .graph access.outcome)
  | .models =>
    let (s, access) := s.models parse
    (s, .models access.outcome)

/-- The session after several queries. -/
def run (parse : String → Node) (s : Session) (qs : List Query) : Session :=
  qs.foldl (fun s q => (s.serve parse q).1) s

end Session

end Session

end DeclGraph
