import DeclGraph.Yaml.Layout

/-!
# Nodes

A node is a scalar, a sequence or a mapping, each with the tag that is written at
it, if any.  `Node.read?` gives the one node that a text holds.

An alias stands for the node with its anchor.  Inside that very node it is a node
of its own kind, `again`, since the node is not complete there.
-/

namespace DeclGraph
namespace Yaml

section Nodes

/-- A piece of a document. -/
inductive Node where
  /-- A scalar; a plain one without a tag gets its tag from its text. -/
  | scalar (tag : Option String) (text : String) (plain : Bool)
  | sequence (tag : Option String) (items : List Node)
  | mapping (tag : Option String) (entries : List (Node × Node))
  /-- The node around this place that has an anchor. -/
  | again
deriving Repr, Inhabited

/-- The node where nothing is written. -/
def Node.empty : Node :=
  .scalar none "" true

end Nodes

section Reading

/-- What is left to read, and the nodes with anchors met so far. -/
structure Remaining where
  tokens : List Token
  handles : List (String × String) := []
  anchors : List (String × Node) := []
deriving Inhabited

namespace Remaining

def head (r : Remaining) : Token :=
  r.tokens.head?.getD .streamEnd

def next (r : Remaining) : Remaining :=
  { r with tokens := r.tokens.tail }

/-- The fault of a text that does not go on as it must. -/
def fault (r : Remaining) : Fault :=
  match r.head with
  | .fault cause => cause
  | _ => .malformed

/-- Reads one given token. -/
def expect (r : Remaining) (t : Token) : Except Fault Remaining :=
  if r.head == t then .ok r.next else .error r.fault

/-- Whether the next token is one of some. -/
def sees (r : Remaining) (ts : List Token) : Bool :=
  ts.contains r.head

/-- Notes the node of an anchor. -/
def bind (r : Remaining) (anchor : Option String) (n : Node) : Remaining :=
  match anchor with
  | some a => { r with anchors := (a, n) :: r.anchors.filter (·.1 != a) }
  | none => r

end Remaining

/-- The tag that a handle and a suffix write. -/
def expandTag (handles : List (String × String)) (handle : Option String) (suffix : String) :
    Except Fault String :=
  match handle with
  | none => .ok suffix
  | some h =>
    match handles.lookup h with
    | some expansion => .ok (expansion ++ suffix)
    | none => .error .malformed

/-- The anchor and the tag before a node, in either order. -/
def readProperties (r : Remaining) : Except Fault ((Option String × Option String) × Remaining) :=
  let tag? (r : Remaining) : Except Fault (Option String × Remaining) :=
    match r.head with
    | .tag handle suffix => do
      let t ← expandTag r.handles handle suffix
      return (some t, r.next)
    | _ => .ok (none, r)
  match r.head with
  | .anchor a => do
    let (tag, r) ← tag? r.next
    return ((some a, tag), r)
  | _ => do
    let (tag, r) ← tag? r
    match tag, r.head with
    | some _, .anchor a => return ((some a, tag), r.next)
    | _, _ => return ((none, tag), r)

/-- A tag that asks for the default is none. -/
def givenTag (tag : Option String) : Option String :=
  if tag == some "!" then none else tag

mutual

/-- Reads a node.  `block` says whether block collections may stand here, and
`indentless` whether the items of a sequence may stand at the column of the
mapping around it. -/
def readNode : Nat → Bool → Bool → Remaining → Except Fault (Node × Remaining)
  | 0, _, _, r => .error r.fault
  | fuel + 1, block, indentless, r =>
    match r.head with
    | .alias a =>
      match r.anchors.lookup a with
      | some n => .ok (n, r.next)
      | none => .error .malformed
    | _ => do
      let ((anchor, tag), r) ← readProperties r
      if anchor.any fun a => (r.anchors.lookup a).isSome then .error .malformed
      else
        let collection (read : Remaining → Except Fault (Node × Remaining)) :
            Except Fault (Node × Remaining) := do
          let (n, r) ← read (r.bind anchor .again)
          return (n, r.bind anchor n)
        let sequence (read : Remaining → Except Fault (List Node × Remaining)) :
            Except Fault (Node × Remaining) :=
          collection fun r => do
            let (items, r) ← read r
            return (.sequence (givenTag tag) items, r)
        let mapping (read : Remaining → Except Fault (List (Node × Node) × Remaining)) :
            Except Fault (Node × Remaining) :=
          collection fun r => do
            let (entries, r) ← read r
            return (.mapping (givenTag tag) entries, r)
        match r.head with
        | .blockEntry =>
          if indentless then sequence (readIndentless fuel)
          else if anchor.isSome || tag.isSome then
            let n := Node.scalar (givenTag tag) "" true
            .ok (n, r.bind anchor n)
          else .error .malformed
        | .scalar text plain =>
          let n := Node.scalar (givenTag tag) text (plain || tag == some "!")
          .ok (n, (r.bind anchor n).next)
        | .flowSequenceStart => sequence fun r => readFlowItems fuel true r.next
        | .flowMappingStart => mapping fun r => readFlowEntries fuel true r.next
        | head =>
          if block && head == .blockSequenceStart then
            sequence fun r => readBlockItems fuel r.next
          else if block && head == .blockMappingStart then
            mapping fun r => readBlockEntries fuel r.next
          else if anchor.isSome || tag.isSome then
            let n := Node.scalar (givenTag tag) "" true
            .ok (n, r.bind anchor n)
          else .error r.fault

/-- Reads a node, or the empty node if the next token is one of some. -/
def readNodeUnless : Nat → Bool → Bool → List Token → Remaining →
    Except Fault (Node × Remaining)
  | 0, _, _, _, r => .error r.fault
  | fuel + 1, block, indentless, stops, r =>
    if r.sees stops then .ok (.empty, r) else readNode fuel block indentless r

/-- Reads the items of a block sequence. -/
def readBlockItems : Nat → Remaining → Except Fault (List Node × Remaining)
  | 0, r => .error r.fault
  | fuel + 1, r =>
    if r.head == .blockEntry then do
      let (n, r) ← readNodeUnless fuel true false [.blockEntry, .blockEnd] r.next
      let (ns, r) ← readBlockItems fuel r
      return (n :: ns, r)
    else do
      let r ← r.expect .blockEnd
      return ([], r)

/-- Reads the items of a sequence at the column of the mapping around it. -/
def readIndentless : Nat → Remaining → Except Fault (List Node × Remaining)
  | 0, r => .error r.fault
  | fuel + 1, r =>
    if r.head == .blockEntry then do
      let (n, r) ← readNodeUnless fuel true false [.blockEntry, .key, .value, .blockEnd] r.next
      let (ns, r) ← readIndentless fuel r
      return (n :: ns, r)
    else .ok ([], r)

/-- Reads the entries of a block mapping. -/
def readBlockEntries : Nat → Remaining → Except Fault (List (Node × Node) × Remaining)
  | 0, r => .error r.fault
  | fuel + 1, r =>
    let stops := [Token.key, .value, .blockEnd]
    if r.head == .key then do
      let (k, r) ← readNodeUnless fuel true true stops r.next
      let (v, r) ←
        if r.head == .value then readNodeUnless fuel true true stops r.next else .ok (.empty, r)
      let (es, r) ← readBlockEntries fuel r
      return ((k, v) :: es, r)
    else do
      let r ← r.expect .blockEnd
      return ([], r)

/-- Reads the items of a flow sequence; an item with a key is a mapping of one entry. -/
def readFlowItems : Nat → Bool → Remaining → Except Fault (List Node × Remaining)
  | 0, _, r => .error r.fault
  | fuel + 1, first, r =>
    if r.head == .flowSequenceEnd then .ok ([], r.next)
    else do
      let r ← if first then .ok r else r.expect .flowEntry
      if r.head == .flowSequenceEnd then return ([], r.next)
      else
        let stops := [Token.flowEntry, .flowSequenceEnd]
        let (n, r) ←
          if r.head == .key then do
            let (k, r) ← readNodeUnless fuel false false (.value :: stops) r.next
            let (v, r) ←
              if r.head == .value then readNodeUnless fuel false false stops r.next
              else .ok (.empty, r)
            pure (Node.mapping none [(k, v)], r)
          else readNode fuel false false r
        let (ns, r) ← readFlowItems fuel false r
        return (n :: ns, r)

/-- Reads the entries of a flow mapping. -/
def readFlowEntries : Nat → Bool → Remaining → Except Fault (List (Node × Node) × Remaining)
  | 0, _, r => .error r.fault
  | fuel + 1, first, r =>
    if r.head == .flowMappingEnd then .ok ([], r.next)
    else do
      let r ← if first then .ok r else r.expect .flowEntry
      if r.head == .flowMappingEnd then return ([], r.next)
      else
        let stops := [Token.flowEntry, .flowMappingEnd]
        let ((k, v), r) ←
          if r.head == .key then do
            let (k, r) ← readNodeUnless fuel false false (.value :: stops) r.next
            let (v, r) ←
              if r.head == .value then readNodeUnless fuel false false stops r.next
              else .ok (.empty, r)
            pure ((k, v), r)
          else do
            let (k, r) ← readNode fuel false false r
            pure ((k, Node.empty), r)
        let (es, r) ← readFlowEntries fuel false r
        return ((k, v) :: es, r)

end

end Reading

section Documents

/-- The directives before a document: at most one version, of the first major
version, and each handle at most once. -/
def readDirectives (versioned : Bool) (handles : List (String × String)) :
    List Token → Except Fault (List (String × String) × List Token)
  | .version major :: ts =>
    if versioned || major != 1 then .error .malformed else readDirectives true handles ts
  | .tagHandle handle expansion :: ts =>
    if (handles.lookup handle).isSome then .error .malformed
    else readDirectives versioned ((handle, expansion) :: handles) ts
  | .directive :: ts => readDirectives versioned handles ts
  | ts => .ok (handles, ts)

/-- The handles that need no directive. -/
def defaultHandles : List (String × String) :=
  [("!", "!"), ("!!", "tag:yaml.org,2002:")]

/-- Whether a document starts with a directive or a mark. -/
def startsExplicitly : Token → Bool
  | .version _ | .tagHandle _ _ | .directive | .documentStart => true
  | _ => false

/-- The content of a document. -/
def readContent (fuel : Nat) (r : Remaining) : Except Fault (Node × Remaining) :=
  if startsExplicitly r.head || r.sees [.documentEnd, .streamEnd] then .ok (.empty, r)
  else readNode fuel true false r

/-- Reads the one document of a stream of tokens, if there is one. -/
def readDocument (ts : List Token) : Except Fault (Option Node) := do
  let fuel := 3 * ts.length + 3
  if ts.head? == some .streamEnd then return none
  else
    let (n, r) ←
      if ts.head?.any startsExplicitly then do
        let (handles, ts) ← readDirectives false [] ts
        let r : Remaining := { tokens := ts, handles := handles ++ defaultHandles }
        let r ← r.expect .documentStart
        readContent fuel r
      else readNode fuel true false { tokens := ts, handles := defaultHandles }
    let rest : Remaining := { tokens := r.tokens.dropWhile (· == .documentEnd) }
    if rest.head == .streamEnd then return some n else .error rest.fault

/-- The node that a text holds; none if the text is empty. -/
def Node.read? (text : String) : Except Fault (Option Node) :=
  readDocument (tokens text)

end Documents

end Yaml
end DeclGraph
