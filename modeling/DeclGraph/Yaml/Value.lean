import DeclGraph.Yaml.Node
import DeclGraph.Yaml.Scalar

/-!
# Values

A `Reader` gives the value of a text; what is said of configurations holds for any
reader.  `Value.read?` is the one that the program uses.

* A mapping takes over the entries of the mappings that it merges; its own
  entries come last, and of two entries with one key the last one counts.
* Collections cannot be keys.
* A text may be well formed and still have no value.  Faults are looked for level
  by level from the outside, and on each level from left to right.
-/

namespace DeclGraph
namespace Yaml

section Values

/-- A value.  Numbers that need not be whole, bytes and times are kept as written. -/
inductive Value where
  | null
  | bool (b : Bool)
  | int (n : Int)
  | float (text : String)
  | bytes (text : String)
  | time (text : String)
  | str (s : Points)
  | list (items : List Value)
  | set (items : List Value)
  | map (entries : List (Value × Value))
  /-- The collection around this value that is the value. -/
  | again
deriving Repr, Inhabited

/-- The value at a key that is a text: the last entry counts. -/
def Value.get? (entries : List (Value × Value)) (key : String) : Option Value :=
  (entries.reverse.find? fun
    | (.str s, _) => s == .plain key
    | _ => false).map (·.2)

/-- What gives the value of a text, or none if the text holds nothing.  A text that is not
YAML is `Fault.malformed`; every other fault is another failure of the reader. -/
abbrev Reader := String → Except Fault (Option Value)

end Values

section Tags

/-- The tag of a node. -/
def Node.tag : Node → Tag
  | .scalar (some t) _ _ => .ofWritten t
  | .scalar none text plain => if plain then .ofPlain text else .str
  | .sequence t _ => (t.map Tag.ofWritten).getD .sequence
  | .mapping t _ => (t.map Tag.ofWritten).getD .mapping
  | .again => .other

/-- The text that a scalar is built from: its own, or of a mapping that of its value entry. -/
def Node.text? : Nat → Node → Except Fault String
  | 0, _ => .error .malformed
  | fuel + 1, n =>
    match n with
    | .scalar _ text _ => .ok text
    | .mapping _ entries =>
      match entries.find? fun (k, _) => k.tag == .value with
      | some (_, v) => v.text? fuel
      | none => .error .malformed
    | _ => .error .malformed

/-- The tags of collections. -/
def Tag.isCollection : Tag → Bool
  | .sequence | .mapping | .set | .pairs => true
  | _ => false

/-- The value of a node that is not built as a collection. -/
def Node.scalarValue (fuel : Nat) (n : Node) : Except Fault Value := do
  match n.tag with
  | .null =>
    let _ ← n.text? fuel
    return .null
  | .bool => return .bool (← readBool (← n.text? fuel))
  | .int => return .int (← readInt (← n.text? fuel))
  | .float =>
    let text ← n.text? fuel
    checkFloat text
    return .float text
  | .binary =>
    let text ← n.text? fuel
    checkBinary text
    return .bytes text
  | .time =>
    let text ← n.text? fuel
    checkTime text
    return .time text
  | .str => return .str (← n.text? fuel)
  | _ => .error .malformed

end Tags

section Merging

/-- The entries of a mapping after merging. -/
def mergeEntries : Nat → List (Node × Node) → Except Fault (List (Node × Node))
  | 0, _ => .error .malformed
  | fuel + 1, entries => do
    let merged ← entries.filterMapM fun (k, v) =>
      if k.tag == .merge then
        match v with
        | .mapping _ es => do return some (← mergeEntries fuel es)
        | .sequence _ items => do
          let parts ← items.mapM fun
            | .mapping _ es => mergeEntries fuel es
            | .again => .ok []
            | _ => .error .malformed
          return some parts.reverse.flatten
        | .again => .ok (some [])
        | .scalar _ _ _ => .error .malformed
      else .ok none
    let own := entries.filterMap fun (k, v) =>
      if k.tag == .merge then none
      else if k.tag == .value then
        match k with
        | .scalar _ text _ => some (.scalar none text false, v)
        | k => some (k, v)
      else some (k, v)
    return merged.flatten ++ own

end Merging

section Checking

/-- Faults by level: on each level the first one counts. -/
abbrev Levels := List (Option Fault)

/-- The faults of two parts side by side. -/
def Levels.beside : Levels → Levels → Levels
  | [], bs => bs
  | as, [] => as
  | a :: as, b :: bs => a.or b :: Levels.beside as bs

/-- The faults of several parts side by side. -/
def Levels.all (parts : List Levels) : Levels :=
  parts.foldr Levels.beside []

/-- A fault at the level of the parts. -/
def Levels.here (f : Fault) : Levels :=
  [some f]

/-- The faults of the value of a node. -/
def Node.faults : Nat → Node → Levels
  | 0, _ => []
  | fuel + 1, n =>
    match n with
    | .again => []
    | n =>
      let part (n : Node) : Levels := n.faults fuel
      let entries (es : List (Node × Node)) : Levels :=
        match mergeEntries fuel es with
        | .error f => .here f
        | .ok es =>
          Levels.all (es.map fun (k, v) =>
            let key : Levels :=
              match k with
              | .again => .here .malformed
              | k => if k.tag.isCollection then .here .malformed else part k
            key.beside (part v))
      let pair (n : Node) : Levels :=
        match n with
        | .mapping _ [(k, v)] => (part k).beside (part v)
        | _ => .here .malformed
      match n.tag, n with
      | .sequence, .sequence _ items => none :: Levels.all (items.map part)
      | .mapping, .mapping _ es => none :: entries es
      | .set, .mapping _ es => none :: entries es
      | .pairs, .sequence _ items => none :: Levels.all (items.map pair)
      | tag, n =>
        if tag.isCollection then [none, some .malformed]
        else
          match n.scalarValue fuel with
          | .ok _ => []
          | .error f => .here f

/-- The value of a node without faults. -/
def Node.value : Nat → Node → Value
  | 0, _ => .null
  | fuel + 1, n =>
    let entries (es : List (Node × Node)) : List (Value × Value) :=
      match mergeEntries fuel es with
      | .ok es => es.map fun (k, v) => (k.value fuel, v.value fuel)
      | .error _ => []
    match n.tag, n with
    | _, .again => .again
    | .sequence, .sequence _ items => .list (items.map (·.value fuel))
    | .mapping, .mapping _ es => .map (entries es)
    | .set, .mapping _ es => .set ((entries es).map (·.1))
    | .pairs, .sequence _ items => .list (items.map (·.value fuel))
    | _, n =>
      match n.scalarValue fuel with
      | .ok v => v
      | .error _ => .null

end Checking

section Reading

/-- The value of a text; none if the text holds nothing. -/
def Value.read? : Reader := fun text => do
  let fuel := text.length + 2
  match ← Node.read? text with
  | none => return none
  | some n =>
    match (n.faults fuel).findSome? id with
    | some f => .error f
    | none => return some (n.value fuel)

end Reading

end Yaml
end DeclGraph
