import DeclGraph.Yaml.Lexeme

/-!
# From text to tokens

`tokens` cuts a text into tokens.  Indentation becomes tokens that open and close
block collections.  Whether a token starts a key is known only when the colon
after it is met, so places where a key may start are kept in mind, one for each
level of flow collections, and the tokens of a key are put in afterwards.  A key
ends on its line and within 1024 characters.
-/

namespace DeclGraph
namespace Yaml

section Layout

/-- A place where a key may start. -/
structure KeyStart where
  /-- How many tokens stand before the key. -/
  token : Nat
  /-- Whether nothing but a key may stand there. -/
  required : Bool
  index : Nat
  line : Nat
  column : Nat
deriving Repr, Inhabited

/-- What is known after some tokens. -/
structure Layout where
  place : Place
  /-- How many flow collections are open. -/
  flow : Nat := 0
  /-- The column of the innermost block collection. -/
  indent : Int := -1
  /-- The columns of the block collections around it, innermost first. -/
  indents : List Int := []
  /-- Where keys may have started, by the number of open flow collections. -/
  keys : List (Nat × KeyStart) := []
  /-- Whether a key may start at the next token. -/
  keyAllowed : Bool := true
  tokens : List Token := []
deriving Repr, Inhabited

namespace Layout

/-- Adds a token. -/
def push (l : Layout) (t : Token) : Layout :=
  { l with tokens := l.tokens ++ [t] }

/-- Puts a token in before others. -/
def insert (l : Layout) (i : Nat) (t : Token) : Layout :=
  { l with tokens := l.tokens.take i ++ t :: l.tokens.drop i }

/-- The start of a key at the present level. -/
def key? (l : Layout) : Option KeyStart :=
  l.keys.lookup l.flow

/-- Gives up the start of a key at the present level. -/
def dropKey (l : Layout) : Except Fault Layout :=
  match l.key? with
  | some k =>
    if k.required then .error .malformed
    else .ok { l with keys := l.keys.filter (·.1 != l.flow) }
  | none => .ok l

/-- Notes that a key may start here. -/
def saveKey (l : Layout) : Except Fault Layout :=
  if l.keyAllowed then do
    let required := l.flow == 0 && l.indent == (l.place.column : Int)
    let l ← l.dropKey
    let k : KeyStart :=
      ⟨l.tokens.length, required, l.place.index, l.place.line, l.place.column⟩
    return { l with keys := (l.flow, k) :: l.keys }
  else .ok l

/-- Whether a key that started somewhere can no longer end. -/
def isStale (l : Layout) (k : KeyStart) : Bool :=
  k.line != l.place.line || 1024 < l.place.index - k.index

/-- Gives up all starts of keys that can no longer end. -/
def dropStaleKeys (l : Layout) : Except Fault Layout :=
  if l.keys.any fun (_, k) => l.isStale k && k.required then .error .malformed
  else .ok { l with keys := l.keys.filter fun (_, k) => !l.isStale k }

/-- Closes the block collections that a column lies left of. -/
def unwind (l : Layout) (column : Int) : List Int → Layout
  | [] => l
  | outer :: indents =>
    if l.flow == 0 && column < l.indent then
      unwind { l.push .blockEnd with indent := outer, indents } column indents
    else l

/-- Closes the block collections that a column lies left of. -/
def closeTo (l : Layout) (column : Int) : Layout :=
  l.unwind column l.indents

/-- Opens a block collection if a column lies right of the present one; says whether it did. -/
def openAt (l : Layout) (column : Nat) : Bool × Layout :=
  if l.indent < (column : Int) then
    (true, { l with indent := column, indents := l.indent :: l.indents })
  else (false, l)

/-- Goes to the next token: over spaces, comments and line breaks. -/
def toToken (l : Layout) : Nat → Layout
  | 0 => l
  | fuel + 1 =>
    let p := (l.place.skipRun (· == ' ')).skipComment
    match p.lineBreak with
    | ([], _) => { l with place := p }
    | (_, p) => toToken { l with place := p, keyAllowed := l.keyAllowed || l.flow == 0 } fuel

/-- Adds a token of some characters. -/
def mark (l : Layout) (n : Nat) (t : Token) : Layout :=
  { l.push t with place := l.place.skip n }

/-- Ends all that the start or end of a document ends. -/
def endContent (l : Layout) : Except Fault Layout := do
  let l ← (l.closeTo (-1)).dropKey
  return { l with keyAllowed := false }

/-- Adds what a reader reads. -/
def read (l : Layout) (reader : Place → Except Fault (Token × Place)) : Except Fault Layout := do
  let (t, p) ← reader l.place
  return { l.push t with place := p }

/-- A token that may be or start a key. -/
def readKeyable (l : Layout) (reader : Place → Except Fault (Token × Place)) :
    Except Fault Layout := do
  let l ← l.saveKey
  ({ l with keyAllowed := false }).read reader

/-- The start of a flow collection. -/
def openFlow (l : Layout) (t : Token) : Except Fault Layout := do
  let l ← l.saveKey
  return { l.mark 1 t with flow := l.flow + 1, keyAllowed := true }

/-- The end of a flow collection. -/
def closeFlow (l : Layout) (t : Token) : Except Fault Layout := do
  let l ← l.dropKey
  return { l.mark 1 t with flow := l.flow - 1, keyAllowed := false }

/-- Opens a block collection at the present column, outside flow collections. -/
def openBlock (l : Layout) (start : Token) : Except Fault Layout :=
  if l.flow != 0 then .ok l
  else if !l.keyAllowed then .error .malformed
  else
    match l.openAt l.place.column with
    | (true, l) => .ok (l.push start)
    | (false, l) => .ok l

/-- The mark of an item of a block sequence. -/
def blockEntry (l : Layout) : Except Fault Layout := do
  let l ← l.openBlock .blockSequenceStart
  let l ← ({ l with keyAllowed := true }).dropKey
  return l.mark 1 .blockEntry

/-- The mark of a key. -/
def keyMark (l : Layout) : Except Fault Layout := do
  let l ← l.openBlock .blockMappingStart
  let l ← ({ l with keyAllowed := l.flow == 0 }).dropKey
  return l.mark 1 .key

/-- The mark of a value: it makes what started before it a key, or it stands alone. -/
def valueMark (l : Layout) : Except Fault Layout :=
  match l.key? with
  | some k =>
    let l := { l with keys := l.keys.filter (·.1 != l.flow), keyAllowed := false }
    let l := l.insert k.token .key
    let l :=
      if l.flow == 0 then
        match l.openAt k.column with
        | (true, l) => l.insert k.token .blockMappingStart
        | (false, l) => l
      else l
    .ok (l.mark 1 .value)
  | none => do
    let l ← l.openBlock .blockMappingStart
    let l ← ({ l with keyAllowed := l.flow == 0 }).dropKey
    return l.mark 1 .value

/-- A plain scalar. -/
def plain (l : Layout) : Except Fault Layout := do
  let l ← l.saveKey
  let (cs, broke, p) :=
    scanPlainPieces (l.flow != 0) (l.indent + 1) (l.place.rest.length + 1) false [] l.place
  return { l.push (.scalar (String.ofList cs) true) with place := p, keyAllowed := broke }

/-- A block scalar. -/
def block (l : Layout) (folded : Bool) : Except Fault Layout := do
  let l ← ({ l with keyAllowed := true }).dropKey
  l.read fun p => do
    let (s, p) ← scanBlock folded l.indent p
    return (.scalar s false, p)

/-- A scalar in quotes. -/
def quoted (l : Layout) (quote : Char) : Except Fault Layout :=
  l.readKeyable fun p => do
    let (s, p) ← scanQuoted quote p
    return (.scalar s false, p)

/-- Whether a plain scalar may start with a character. -/
def startsPlain (l : Layout) (c : Char) : Bool :=
  !(isGap c || isBreak c || "-?:,[]\x7b\x7d#&*!|>'\"%@\x60".toList.contains c) ||
    (!endsWord (l.place.look 1) && (c == '-' || (l.flow == 0 && (c == '?' || c == ':'))))

/-- The next token, at a place where one starts with a character. -/
def token (l : Layout) (c : Char) : Except Fault Layout :=
  let atStart := l.place.column == 0
  let before := endsWord (l.place.look 1)
  if c == '%' && atStart then do
    let l ← l.endContent
    l.read scanDirective
  else if c == '-' && atStart && l.place.atMark '-' then do
    let l ← l.endContent
    return l.mark 3 .documentStart
  else if c == '.' && atStart && l.place.atMark '.' then do
    let l ← l.endContent
    return l.mark 3 .documentEnd
  else if c == '[' then l.openFlow .flowSequenceStart
  else if c == '\x7b' then l.openFlow .flowMappingStart
  else if c == ']' then l.closeFlow .flowSequenceEnd
  else if c == '\x7d' then l.closeFlow .flowMappingEnd
  else if c == ',' then do
    let l ← ({ l with keyAllowed := true }).dropKey
    return l.mark 1 .flowEntry
  else if c == '-' && before then l.blockEntry
  else if c == '?' && (l.flow != 0 || before) then l.keyMark
  else if c == ':' && (l.flow != 0 || before) then l.valueMark
  else if c == '*' then l.readKeyable fun p => do
    let (name, p) ← scanAnchor p
    return (.alias name, p)
  else if c == '&' then l.readKeyable fun p => do
    let (name, p) ← scanAnchor p
    return (.anchor name, p)
  else if c == '!' then l.readKeyable scanTag
  else if c == '|' && l.flow == 0 then l.block false
  else if c == '>' && l.flow == 0 then l.block true
  else if c == '\'' then l.quoted '\''
  else if c == '"' then l.quoted '"'
  else if l.startsPlain c then l.plain
  else .error .malformed

/-- One more token, and those that indentation adds before it; says whether the
text goes on. -/
def advance (l : Layout) : Except Fault (Bool × Layout) := do
  let l ← (l.toToken (l.place.rest.length + 1)).dropStaleKeys
  let l := l.closeTo l.place.column
  match l.place.head? with
  | some c => do
    let l ← l.token c
    return (true, l)
  | none => do
    let l ← l.endContent
    return (false, l.push .streamEnd)

/-- All tokens of the rest of a text. -/
def finish : Nat → Layout → List Token
  | 0, l => l.tokens
  | fuel + 1, l =>
    match l.advance with
    | .error f => l.tokens ++ [.fault f]
    | .ok (true, l) => finish fuel l
    | .ok (false, l) => l.tokens

end Layout

/-- The tokens of a text. -/
def tokens (text : String) : List Token :=
  let cs := text.toList
  if cs.all isAllowed then
    let start : Place := { rest := cs }
    let start := if start.head?.any (·.toNat == 0xFEFF) then start.step else start
    Layout.finish (cs.length + 1) { place := start }
  else [.fault .malformed]

end Layout

end Yaml
end DeclGraph
