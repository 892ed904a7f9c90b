import DeclGraph.Text.Utf8
import DeclGraph.Yaml.Place
import DeclGraph.Yaml.Token

/-!
# Scalars, tags and directives

Each reader here starts at a place where its construct starts and gives what it
read and the place after it.

A scalar may be written plainly, in quotes, or as a block of indented lines.
Where a scalar goes on after a line break, the break stands for a space, and a
break with empty lines after it stands for those lines.
-/

namespace DeclGraph
namespace Yaml

section Lines

/-- Ends a line on which only a comment may be left. -/
def endLine (p : Place) : Except Fault Place :=
  let p := (p.skipRun (· == ' ')).skipComment
  if endsLine p.head? then .ok p.lineBreak.2 else .error .malformed

/-- A nonempty run of name characters. -/
def scanName (p : Place) : Except Fault (String × Place) :=
  match p.takeRun isNameChar with
  | ([], _) => .error .malformed
  | (run, p) => .ok (String.ofList run, p)

/-- A nonempty run of digits. -/
def scanDigits (p : Place) : Except Fault (Nat × Place) :=
  match p.takeRun Char.isDigit with
  | ([], _) => .error .malformed
  | (run, p) => .ok (run.foldl (fun n c => 10 * n + (c.toNat - '0'.toNat)) 0, p)

end Lines

section Tags

/-- A tag handle: a mark, or a name between two marks. -/
def scanTagHandle (p : Place) : Except Fault (String × Place) :=
  if p.head? != some '!' then .error .malformed
  else if p.look 1 == some ' ' then .ok ("!", p.step)
  else
    let (run, after) := p.step.takeRun isNameChar
    if after.head? == some '!' then .ok (String.ofList ('!' :: run ++ ['!']), after.step)
    else .error .malformed

/-- The bytes of percent escapes. -/
def scanEscapedBytes : Nat → Place → Except Fault (List UInt8 × Place)
  | 0, p => .ok ([], p)
  | fuel + 1, p =>
    match p.rest with
    | '%' :: a :: b :: _ =>
      if isHexDigit a && isHexDigit b then do
        let (bytes, p) ← scanEscapedBytes fuel (p.skip 3)
        return (UInt8.ofNat (hexNumber [a, b]) :: bytes, p)
      else .error .malformed
    | '%' :: _ => .error .malformed
    | _ => .ok ([], p)

/-- The characters of a tag, with percent escapes decoded. -/
def scanTagChars : Nat → Place → Except Fault (List Char × Place)
  | 0, p => .ok ([], p)
  | fuel + 1, p =>
    match p.rest with
    | '%' :: _ => do
      let (bytes, p) ← scanEscapedBytes p.rest.length p
      match Text.decode bytes with
      | .ok s =>
        let (cs, p) ← scanTagChars fuel p
        return (s.toList ++ cs, p)
      | .error _ => .error .malformed
    | c :: _ =>
      if isTagChar c then do
        let (cs, p) ← scanTagChars fuel p.step
        return (c :: cs, p)
      else .ok ([], p)
    | [] => .ok ([], p)

/-- A nonempty text of a tag. -/
def scanTagText (p : Place) : Except Fault (String × Place) :=
  if p.head?.any isTagChar then do
    let (cs, p) ← scanTagChars p.rest.length p
    return (String.ofList cs, p)
  else .error .malformed

/-- Whether a tag that starts here has a handle with a name or a second mark. -/
def hasNamedHandle (p : Place) : Bool :=
  (p.step.rest.takeWhile fun c => !(c == ' ' || isBreak c)).contains '!'

/-- A tag. -/
def scanTag (p : Place) : Except Fault (Token × Place) := do
  let (token, after) ←
    if p.look 1 == some '<' then do
      let (text, q) ← scanTagText (p.skip 2)
      if q.head? == some '>' then .ok (Token.tag none text, q.step) else .error .malformed
    else if endsWord (p.look 1) then .ok (Token.tag none "!", p.step)
    else do
      let (handle, q) ← if hasNamedHandle p then scanTagHandle p else .ok ("!", p.step)
      let (text, q) ← scanTagText q
      .ok (Token.tag (some handle) text, q)
  if endsName after.head? then .ok (token, after) else .error .malformed

/-- An anchor or an alias, without its mark. -/
def scanAnchor (p : Place) : Except Fault (String × Place) := do
  let (name, after) ← scanName p.step
  let stops := after.head?.all fun c =>
    isGap c || isBreak c || "?:,]\x7d%@\x60".toList.contains c
  if stops then .ok (name, after) else .error .malformed

/-- A directive. -/
def scanDirective (p : Place) : Except Fault (Token × Place) := do
  let (name, p) ← scanName p.step
  if !endsName p.head? then .error .malformed
  else
    let (token, p) ←
      if name == "YAML" then do
        let (major, p) ← scanDigits (p.skipRun (· == ' '))
        if p.head? != some '.' then .error .malformed
        else
          let (_, p) ← scanDigits p.step
          if endsName p.head? then .ok (Token.version major, p) else .error .malformed
      else if name == "TAG" then do
        let (handle, p) ← scanTagHandle (p.skipRun (· == ' '))
        if p.head? != some ' ' then .error .malformed
        else
          let (expansion, p) ← scanTagText (p.skipRun (· == ' '))
          if endsName p.head? then .ok (Token.tagHandle handle expansion, p)
          else .error .malformed
      else .ok (Token.directive, p.skipRun fun c => !isBreak c)
    let p ← endLine p
    return (token, p)

end Tags

section Quoted

/-- The empty lines after a line break inside quotes. -/
def scanQuotedBreaks : Nat → Place → Except Fault (List Char × Place)
  | 0, p => .ok ([], p)
  | fuel + 1, p =>
    if p.atSeparator then .error .malformed
    else
      let p := p.skipRun isGap
      match p.lineBreak with
      | ([], _) => .ok ([], p)
      | (b, p) => do
        let (bs, p) ← scanQuotedBreaks fuel p
        return (b ++ bs, p)

/-- What a line break and the empty lines after it stand for: a single break is a
space, and else the first is dropped unless it is of the rare kinds. -/
def foldBreaks (first rest : List Char) : List Char :=
  if first != ['\n'] then first ++ rest
  else if rest.isEmpty then [' ']
  else rest

/-- The characters that one character after a backslash stands for. -/
def simpleEscape? (c : Char) : Option Char :=
  match c with
  | '0' => some '\x00'
  | 'a' => some '\x07'
  | 'b' => some '\x08'
  | 't' => some '\t'
  | '\t' => some '\t'
  | 'n' => some '\n'
  | 'v' => some '\x0b'
  | 'f' => some '\x0c'
  | 'r' => some '\r'
  | 'e' => some '\x1b'
  | ' ' => some ' '
  | '"' => some '"'
  | '\\' => some '\\'
  | '/' => some '/'
  | 'N' => some '\u0085'
  | '_' => some '\u00a0'
  | 'L' => some '\u2028'
  | 'P' => some '\u2029'
  | _ => none

/-- How many digits follow a letter that escapes a code point. -/
def escapeLength? (c : Char) : Option Nat :=
  match c with
  | 'x' => some 2
  | 'u' => some 4
  | 'U' => some 8
  | _ => none

/-- The character of a code point. -/
def charOfCode (n : Nat) : Except Fault Char :=
  if 0x80000000 ≤ n then .error .hugeCodePoint
  else if 0x110000 ≤ n then .error .largeCodePoint
  else if n.isValidChar then .ok (Char.ofNat n)
  else .ok '\ufffd'

/-- An escape in double quotes. -/
def scanEscape (p : Place) : Except Fault (List Char × Place) :=
  match p.step.rest with
  | [] => .error .malformed
  | c :: cs =>
    match simpleEscape? c, escapeLength? c with
    | some e, _ => .ok ([e], p.skip 2)
    | none, some n =>
      let digits := cs.take n
      if digits.length == n && digits.all isHexDigit then do
        let c ← charOfCode (hexNumber digits)
        return ([c], p.skip (2 + n))
      else .error .malformed
    | none, none =>
      if isBreak c then scanQuotedBreaks (cs.length + 1) p.step.lineBreak.2
      else .error .malformed

/-- The rest of a quoted scalar, up to and with the closing quote. -/
def scanQuotedTail (quote : Char) : Nat → Place → Except Fault (List Char × Place)
  | 0, _ => .error .malformed
  | fuel + 1, p =>
    let more (cs : List Char) (p : Place) : Except Fault (List Char × Place) := do
      let (rest, p) ← scanQuotedTail quote fuel p
      return (cs ++ rest, p)
    match p.rest with
    | [] => .error .malformed
    | c :: cs =>
      if c == quote then
        if quote == '\'' && cs.head? == some quote then more [quote] (p.skip 2)
        else .ok ([], p.step)
      else if quote == '"' && c == '\\' then do
        let (e, p) ← scanEscape p
        more e p
      else if isGap c || isBreak c then do
        let (gap, p) := p.takeRun isGap
        match p.lineBreak with
        | ([], _) => more gap p
        | (b, p) =>
          let (bs, p) ← scanQuotedBreaks (p.rest.length + 1) p
          more (foldBreaks b bs) p
      else more [c] p.step

/-- A scalar in quotes. -/
def scanQuoted (quote : Char) (p : Place) : Except Fault (String × Place) := do
  let (cs, p) ← scanQuotedTail quote (p.rest.length + 1) p.step
  return (String.ofList cs, p)

end Quoted

section Plain

/-- The characters of a plain scalar up to a gap, a colon before a gap, or a mark
of the flow collection around it. -/
def plainRun (inFlow : Bool) : List Char → List Char
  | [] => []
  | c :: cs =>
    let marks (s : String) (c? : Option Char) : Bool := inFlow && c?.any s.toList.contains
    if isGap c || isBreak c || (c == ':' && (endsWord cs.head? || marks ",[]\x7b\x7d" cs.head?)) ||
        marks ",?[]\x7b\x7d" (some c) then []
    else c :: plainRun inFlow cs

/-- The empty lines after a line break in a plain scalar; none if a separator of
documents follows. -/
def scanPlainBreaks : Nat → Place → Option (List Char) × Place
  | 0, p => (some [], p)
  | fuel + 1, p =>
    if p.atSeparator then (none, p)
    else
      let p := p.skipRun (· == ' ')
      match p.lineBreak with
      | ([], _) => (some [], p)
      | (b, p) =>
        let (bs, p) := scanPlainBreaks fuel p
        (bs.map (b ++ ·), p)

/-- The gap after a piece of a plain scalar: what it stands for, whether it breaks
a line, and the place after it. -/
def scanPlainGap (p : Place) : List Char × Bool × Place :=
  let (gap, p) := p.takeRun (· == ' ')
  match p.lineBreak with
  | ([], _) => (gap, false, p)
  | (b, p) =>
    match scanPlainBreaks (p.rest.length + 1) p with
    | (some bs, p) => (foldBreaks b bs, true, p)
    | (none, p) => ([], true, p)

/-- The pieces of a plain scalar; says also whether the last gap broke a line. -/
def scanPlainPieces (inFlow : Bool) (indent : Int) :
    Nat → Bool → List Char → Place → List Char × Bool × Place
  | 0, broke, _, p => ([], broke, p)
  | fuel + 1, broke, gap, p =>
    if p.head? == some '#' then ([], broke, p)
    else
      match plainRun inFlow p.rest with
      | [] => ([], broke, p)
      | run =>
        let (next, broke, q) := scanPlainGap (p.skip run.length)
        if next.isEmpty || q.head? == some '#' || (!inFlow && (q.column : Int) < indent) then
          (gap ++ run, broke, q)
        else
          let (more, broke, q) := scanPlainPieces inFlow indent fuel broke next q
          (gap ++ run ++ more, broke, q)

end Plain

section Block

/-- How the end of a block scalar is kept. -/
inductive Chomping where
  | strip
  | clip
  | keep
deriving Repr, DecidableEq

/-- The marks after the start of a block scalar: chomping and indentation. -/
def scanBlockMarks (p : Place) : Except Fault (Chomping × Option Nat × Place) :=
  let chomping? (c? : Option Char) : Option Chomping :=
    match c? with
    | some '+' => some .keep
    | some '-' => some .strip
    | _ => none
  let digit? (c? : Option Char) : Option Nat :=
    c?.bind fun c => if c.isDigit then some (c.toNat - '0'.toNat) else none
  let (chomping, width, p) : Chomping × Option Nat × Place :=
    match chomping? p.head?, digit? p.head? with
    | some chomping, _ =>
      match digit? (p.look 1) with
      | some n => (chomping, some n, p.skip 2)
      | none => (chomping, none, p.step)
    | none, some n =>
      match chomping? (p.look 1) with
      | some chomping => (chomping, some n, p.skip 2)
      | none => (.clip, some n, p.step)
    | none, none => (.clip, none, p)
  if width == some 0 || !endsName p.head? then .error .malformed
  else .ok (chomping, width, p)

/-- The leading empty lines of a block scalar, and the widest indentation met. -/
def scanBlockIndent : Nat → Nat → Place → List Char × Nat × Place
  | 0, widest, p => ([], widest, p)
  | fuel + 1, widest, p =>
    match p.rest with
    | c :: _ =>
      if c == ' ' then scanBlockIndent fuel (max widest p.step.column) p.step
      else
        match p.lineBreak with
        | ([], _) => ([], widest, p)
        | (b, p) =>
          let (bs, widest, p) := scanBlockIndent fuel widest p
          (b ++ bs, widest, p)
    | [] => ([], widest, p)

/-- Skips at most as many spaces as lead to a column. -/
def skipIndent (indent : Nat) (p : Place) : Place :=
  p.skip (min (indent - p.column) (p.rest.takeWhile (· == ' ')).length)

/-- The empty lines of a block scalar. -/
def scanBlockBreaks (indent : Nat) : Nat → Place → List Char × Place
  | 0, p => ([], p)
  | fuel + 1, p =>
    let p := skipIndent indent p
    match p.lineBreak with
    | ([], _) => ([], p)
    | (b, p) =>
      let (bs, p) := scanBlockBreaks indent fuel p
      (b ++ bs, p)

/-- The lines of a block scalar: the text, the last line break, the empty lines
after it, and the place after them. -/
def scanBlockLines (folded : Bool) (indent : Nat) :
    Nat → List Char → Place → List Char × List Char × List Char × Place
  | 0, breaks, p => ([], [], breaks, p)
  | fuel + 1, breaks, p =>
    if p.column != indent || p.rest.isEmpty then ([], [], breaks, p)
    else
      let starts := !p.head?.any isGap
      let (line, p) := p.takeRun fun c => !isBreak c
      let (b, p) := p.lineBreak
      let (next, p) := scanBlockBreaks indent (p.rest.length + 1) p
      if p.column == indent && !p.rest.isEmpty then
        let join :=
          if folded && b == ['\n'] && starts && !p.head?.any isGap then
            if next.isEmpty then [' '] else []
          else b
        let (text, last, tail, p) := scanBlockLines folded indent fuel next p
        (breaks ++ line ++ join ++ text, last, tail, p)
      else (breaks ++ line, b, next, p)

/-- A block scalar inside a block of a given indentation. -/
def scanBlock (folded : Bool) (outer : Int) (p : Place) : Except Fault (String × Place) := do
  let (chomping, width, p) ← scanBlockMarks p.step
  let p ← endLine p
  let least := (max 1 (outer + 1)).toNat
  let (breaks, indent, p) : List Char × Nat × Place :=
    match width with
    | none =>
      let (breaks, widest, p) := scanBlockIndent (p.rest.length + 1) 0 p
      (breaks, max least widest, p)
    | some n =>
      let indent := least + n - 1
      let (breaks, p) := scanBlockBreaks indent (p.rest.length + 1) p
      (breaks, indent, p)
  let (text, last, tail, p) := scanBlockLines folded indent (p.rest.length + 1) breaks p
  let ending :=
    match chomping with
    | .strip => []
    | .clip => last
    | .keep => last ++ tail
  return (String.ofList (text ++ ending), p)

end Block

end Yaml
end DeclGraph
