import DeclGraph.Kind
import DeclGraph.Text.Quoted

/-!
# Passes

Every stage of an extraction is a `Pass`: it reports events as it goes and ends
with a result or a fault.  The events of a pass that fails are those it reported
before it failed.

Composition runs the second pass on the first one's result and puts its events
after the first one's; a fault ends the composition.
-/

namespace DeclGraph

section Event

/-- Something worth recording during a pass. -/
inductive Event where
  /-- A body member that becomes no field. -/
  | memberSkipped (member : String)
  /-- A declaration without a name. -/
  | declarationSkipped (kind : Kind) (line : Nat)
  /-- The number of declarations read. -/
  | declarations (count : Nat)
  /-- A further declaration of a known name. -/
  | merged (name : String) (line : Int)
  /-- A reference to a name that no model has. -/
  | unresolved (model name : String)
  /-- The number of models linked and of edges found. -/
  | linked (models edges : Nat)
  /-- The number of models of the finished graph. -/
  | parsed (models : Nat)
  /-- A graph handed out again without a new pass. -/
  | cacheHit (digest : String)
deriving DecidableEq, Repr

/-- A value recorded with an event. -/
inductive Detail where
  | text (s : String)
  | number (n : Int)
deriving DecidableEq, Repr

namespace Event

/-- The event's name in a log. -/
def name : Event → String
  | memberSkipped _ => "syntax.member_skipped"
  | declarationSkipped _ _ => "syntax.declaration_skipped"
  | declarations _ => "syntax.declarations"
  | merged _ _ => "collector.merge"
  | unresolved _ _ => "linker.unresolved"
  | linked _ _ => "linker.linked"
  | parsed _ => "registry.parsed"
  | cacheHit _ => "registry.cache_hit"

/-- The values recorded with an event, by key. -/
def details : Event → List (String × Detail)
  | memberSkipped member => [("member", .text member)]
  | declarationSkipped kind line => [("kind", .text kind.word), ("line", .number line)]
  | declarations count => [("count", .number count)]
  | merged name line => [("name", .text name), ("line", .number line)]
  | unresolved model name => [("model", .text model), ("name", .text name)]
  | linked models edges => [("models", .number models), ("edges", .number edges)]
  | parsed models => [("models", .number models)]
  | cacheHit digest => [("digest", .text digest)]

end Event

end Event

section Fault

/-- What is wrong at the first faulty place of a source text. -/
inductive Trouble where
  /-- A token that should stand there and does not. -/
  | missing (kind : String)
  /-- Text that fits no rule. -/
  | unexpected (text : String)
deriving DecidableEq, Repr

/-- Why a pass fails. -/
inductive Fault where
  /-- The source text is not valid. -/
  | malformed (trouble : Trouble) (line column : Nat)
  /-- A name is declared with two different kinds. -/
  | conflict (name : String) (first second : Kind) (line : Int)
  /-- A type expression nests deeper than the limit. -/
  | tooDeep (limit : Int) (line : Nat)
  /-- An array type without an element type. -/
  | noElement
  /-- An instantiated base class without a target. -/
  | noTarget
deriving DecidableEq, Repr

/-- The wording of a trouble; of unexpected text the first forty characters are shown. -/
def Trouble.message : Trouble → String
  | missing kind => "missing " ++ Text.quote kind
  | unexpected text => "unexpected " ++ Text.quote (String.ofList (text.toList.take 40))

/-- The wording of a fault. -/
def Fault.message : Fault → String
  | malformed trouble line column =>
    s!"Line {line}, column {column}: Syntax error: " ++ trouble.message
  | conflict name first second line =>
    s!"Line {line}: '{name}' is declared as " ++ second.word ++
      " but was first declared as " ++ first.word
  | tooDeep limit line => s!"Line {line}: type expression nests deeper than {limit} levels"
  | noElement => "list index out of range"
  | noTarget => "not enough values to unpack (expected at least 1, got 0)"

end Fault

/-- A computation that reports events and ends with a result or a fault. -/
structure Pass (α : Type) where
  events : List Event
  outcome : Except Fault α

namespace Pass

variable {α β : Type}

/-- A result without events. -/
def pure (a : α) : Pass α :=
  ⟨[], .ok a⟩

/-- A fault. -/
def fail (f : Fault) : Pass α :=
  ⟨[], .error f⟩

/-- Reports events. -/
def report (es : List Event) : Pass Unit :=
  ⟨es, .ok ()⟩

/-- Runs the second pass on the first one's result. -/
def bind (p : Pass α) (f : α → Pass β) : Pass β :=
  match p.outcome with
  | .ok a => ⟨p.events ++ (f a).events, (f a).outcome⟩
  | .error e => ⟨p.events, .error e⟩

instance : Monad Pass where
  pure := Pass.pure
  bind := Pass.bind

@[simp]
theorem outcome_pure (a : α) : (Pure.pure a : Pass α).outcome = .ok a :=
  rfl

@[simp]
theorem events_pure (a : α) : (Pure.pure a : Pass α).events = [] :=
  rfl

@[simp]
theorem outcome_fail (f : Fault) : (fail f : Pass α).outcome = .error f :=
  rfl

@[simp]
theorem outcome_report (es : List Event) : (report es).outcome = .ok () :=
  rfl

@[simp]
theorem outcome_bind (p : Pass α) (f : α → Pass β) :
    (p >>= f).outcome = p.outcome.bind fun a => (f a).outcome := by
  show (Pass.bind p f).outcome = _
  unfold Pass.bind
  cases p.outcome <;> rfl

/-- Runs a pass on every item in turn and collects the results. -/
def each (f : α → Pass β) : List α → Pass (List β)
  | [] => Pure.pure []
  | a :: as => do
    let b ← f a
    let bs ← each f as
    return b :: bs

end Pass

end DeclGraph
