import DeclGraph.Extraction
import DeclGraph.Yaml.Value

/-!
# Configuration files

A configuration is a mapping with the keys `max-type-depth`, a positive whole
number, and `include-heritage`, a truth value.  Either may be left out, and so may
the whole mapping.  `Options.ofYaml` reads the options off a text, with a reader for
its value.
-/

namespace DeclGraph

open Yaml (Value)

section Config

/-- Why a configuration is refused. -/
inductive ConfigFault where
  | invalid
  | notMapping
  /-- Keys that have no meaning, in order. -/
  | unknownKeys (keys : List Points)
  /-- Keys that have no meaning, of which some are not texts. -/
  | strangeKeys
  | badDepth
  | badHeritage
  /-- A value in the text does not have the form that its tag asks for. -/
  | illFormed (cause : Yaml.Fault)
deriving Repr, DecidableEq, Inhabited

/-- The key of the deepest nesting of types. -/
def depthKey : String :=
  "max-type-depth"

/-- The key that says whether base types count as dependencies. -/
def heritageKey : String :=
  "include-heritage"

/-- The text of a key, if it is one. -/
def keyText? : Value → Option Points
  | .str s => some s
  | _ => none

/-- Whether a key has a meaning. -/
def isKnownKey (key : Value) : Bool :=
  match keyText? key with
  | some s => s == .plain depthKey || s == .plain heritageKey
  | none => false

/-- Checks that all keys have a meaning. -/
def checkKeys (entries : List (Value × Value)) : Except ConfigFault Unit :=
  let unknown := (entries.map (·.1)).filter fun k => !isKnownKey k
  if unknown.isEmpty then .ok ()
  else
    match unknown.mapM keyText? with
    | some keys => .error (.unknownKeys (keys.eraseDups.mergeSort fun a b => !b.before a))
    | none => .error .strangeKeys

/-- The deepest nesting that a value allows. -/
def readDepth : Option Value → Except ConfigFault Int
  | none => .ok ({} : Options).depthLimit
  | some (.int n) => if 1 ≤ n then .ok n else .error .badDepth
  | some _ => .error .badDepth

/-- Whether base types count as dependencies, by a value. -/
def readHeritageChoice : Option Value → Except ConfigFault Bool
  | none => .ok ({} : Options).withHeritage
  | some (.bool b) => .ok b
  | some _ => .error .badHeritage

/-- The options that a value gives; no value gives the defaults. -/
def Options.ofValue : Option Value → Except ConfigFault Options
  | none => .ok {}
  | some .null => .ok {}
  | some (.map entries) => do
    checkKeys entries
    let depthLimit ← readDepth (Value.get? entries depthKey)
    let withHeritage ← readHeritageChoice (Value.get? entries heritageKey)
    return { depthLimit, withHeritage }
  | some _ => .error .notMapping

/-- The options that a text gives. -/
def Options.ofYaml (readYaml : Yaml.Reader) (text : String) : Except ConfigFault Options :=
  match readYaml text with
  | .ok v => Options.ofValue v
  | .error .malformed => .error .invalid
  | .error cause => .error (.illFormed cause)

/-- What is said of a refused configuration with a label; nothing is said where
the fault is not one of configurations. -/
def ConfigFault.message? (label : String) : ConfigFault → Option Points
  | .invalid => some s!"Invalid YAML in {label}"
  | .notMapping => some s!"{label}: config must be a YAML mapping"
  | .unknownKeys keys => some (.plain s!"{label}: unknown key(s): " ++ .join ", " keys)
  | .badDepth => some s!"{label}: 'max-type-depth' must be a positive integer"
  | .badHeritage => some s!"{label}: 'include-heritage' must be a boolean"
  | .strangeKeys => none
  | .illFormed _ => none

end Config

end DeclGraph
