import DeclGraph.Syntax.Lexeme
import DeclGraph.Syntax.Outline

/-!
# Patterns

A grammar is a table of patterns, one per rule.  Running a pattern at a place of
a text either fails or consumes some text and gives the outlines of what it read.

* Alternatives are tried in order and the first that fits counts.
* A pattern can look ahead without consuming, and can ask whether a line ends
  before the next token.
* `grow` reads constructs that start with one of their own kind: it reads a first
  part and, as long as a continuation fits, makes what it has the first child of
  a larger node.

Layout and comments between tokens are skipped.  A comment becomes a child of the
innermost node that has a token on either side of it, so comments before the
first token of a node stay outside the node.
-/

namespace DeclGraph
namespace Syntax

section Cursor

/-- A place in a text, after the layout and comments that lead up to a token. -/
structure Cursor where
  rest : List Char
  /-- Byte offset of the rest. -/
  offset : Nat
  /-- The comments before the next token that no node has taken up yet. -/
  comments : List Outline := []
  /-- Whether a line ends between the last token and the next. -/
  newline : Bool := false
deriving Inhabited

/-- What is being skipped: layout, or a comment that started at an offset. -/
inductive Skipping where
  | layout
  | lineComment (start : Nat)
  | blockComment (start : Nat)

/-- The outline of a comment. -/
def commentOutline (start stop : Nat) : Outline :=
  { kind := "comment", start, stop }

/-- Skips layout and comments.  A block comment that is never closed is not skipped:
`resume` is the place before it. -/
def skip (resume : Cursor) (here : Cursor) : Skipping → List Char → Cursor
  | .layout, [] => { here with rest := [] }
  | .layout, '/' :: '/' :: cs =>
    skip here { here with offset := here.offset + 2 } (.lineComment here.offset) cs
  | .layout, '/' :: '*' :: cs =>
    skip { here with rest := '/' :: '*' :: cs } { here with offset := here.offset + 2 }
      (.blockComment here.offset) cs
  | .layout, c :: cs =>
    if isLayout c then
      skip resume
        { here with offset := here.offset + c.utf8Size, newline := here.newline || c == '\n' }
        .layout cs
    else { here with rest := c :: cs }
  | .lineComment start, [] =>
    { here with rest := [], comments := here.comments ++ [commentOutline start here.offset] }
  | .lineComment start, c :: cs =>
    if isLineEnd c then
      skip resume
        { here with
          offset := here.offset + c.utf8Size
          newline := here.newline || c == '\n'
          comments := here.comments ++ [commentOutline start here.offset] }
        .layout cs
    else skip resume { here with offset := here.offset + c.utf8Size } (.lineComment start) cs
  | .blockComment _, [] => resume
  | .blockComment start, '*' :: '/' :: cs =>
    let stop := here.offset + 2
    skip resume
      { here with offset := stop, comments := here.comments ++ [commentOutline start stop] }
      .layout cs
  | .blockComment start, c :: cs =>
    skip resume { here with offset := here.offset + c.utf8Size } (.blockComment start) cs

/-- The place of the first token of a text that starts at an offset. -/
def Cursor.at (offset : Nat) (cs : List Char) : Cursor :=
  skip ⟨cs, offset, [], false⟩ ⟨cs, offset, [], false⟩ .layout cs

/-- The number of bytes of a list of characters. -/
def byteLength : List Char → Nat
  | [] => 0
  | c :: cs => c.utf8Size + byteLength cs

end Cursor

section Pattern

/-- A pattern over rules `R`. -/
inductive Pattern (R : Type) where
  /-- A keyword; no further word character may follow. -/
  | word (text : String)
  /-- A punctuation mark; none of the given characters may follow. -/
  | mark (text : String) (except : String)
  /-- A punctuation mark after which the text is taken as it stands. -/
  | opening (text : String)
  /-- A lexeme that is a node of its own. -/
  | lexeme (kind : String) (scan : Scanner)
  /-- A lexeme after which the text is taken as it stands. -/
  | rawLexeme (kind : String) (scan : Scanner)
  /-- One pattern after the other. -/
  | seq (ps : List (Pattern R))
  /-- The first pattern that fits. -/
  | alt (ps : List (Pattern R))
  /-- As often as it fits. -/
  | many (p : Pattern R)
  /-- The pattern of a rule. -/
  | rule (r : R)
  /-- A node of a kind around what a pattern reads. -/
  | node (kind : String) (p : Pattern R)
  /-- What a pattern reads, known by a field name. -/
  | field (name : String) (p : Pattern R)
  /-- Fits where the pattern does, and consumes nothing. -/
  | ahead (p : Pattern R)
  /-- Fits where the pattern does not, and consumes nothing. -/
  | absent (p : Pattern R)
  /-- Fits if no line ends before the next token. -/
  | sameLine
  /-- Fits if a line ends before the next token. -/
  | newLine
  /-- Fits at the end of the text. -/
  | atEnd
  /-- A first part that continuations make into larger nodes of the given kinds. -/
  | grow (first : Pattern R) (steps : List (String × Pattern R))

/-- What reading gives: the outlines read, and the place after them. -/
abbrev Reader := Cursor → Option (List Outline × Cursor)

/-- Whether an outline is a comment. -/
def Outline.isComment (o : Outline) : Bool :=
  o.kind == "comment"

/-- Puts a node around outlines; comments before its first token stay outside. -/
def Outline.wrap (kind : String) (parts : List Outline) : List Outline :=
  match parts.dropWhile Outline.isComment with
  | [] => parts
  | first :: rest =>
    parts.takeWhile Outline.isComment ++
      [{ kind, start := first.start, stop := (rest.getLast?.getD first).stop
         children := first :: rest }]

/-- Makes outlines known by a field name. -/
def Outline.named? (name : String) (parts : List Outline) : List Outline :=
  parts.map fun o => if o.isComment then o else { o with field := some name }

/-- Takes up a token at a cursor: the comments before it, and its own outline. -/
def Cursor.take (cur : Cursor) (kind : String) (named raw : Bool) (lexeme rest : List Char) :
    List Outline × Cursor :=
  let stop := cur.offset + byteLength lexeme
  let next : Cursor := if raw then ⟨rest, stop, [], false⟩ else Cursor.at stop rest
  (cur.comments ++ [{ kind, start := cur.offset, stop, named }], next)

/-- What follows a given text, if the rest starts with it. -/
def afterText (text : String) (cs : List Char) : Option (List Char) :=
  if text.toList.isPrefixOf cs then some (cs.drop text.length) else none

/-- Reads again and again until the reader fails or consumes nothing. -/
def repeatRead (read : Reader) : Nat → Cursor → List Outline × Cursor
  | 0, cur => ([], cur)
  | fuel + 1, cur =>
    match read cur with
    | none => ([], cur)
    | some (parts, next) =>
      if next.rest.length < cur.rest.length then
        let (more, last) := repeatRead read fuel next
        (parts ++ more, last)
      else ([], cur)

/-- Lets continuations make what has been read into larger nodes. -/
def repeatGrow (step : List Outline → Reader) : Nat → List Outline → Cursor →
    List Outline × Cursor
  | 0, parts, cur => (parts, cur)
  | fuel + 1, parts, cur =>
    match step parts cur with
    | none => (parts, cur)
    | some (larger, next) => repeatGrow step fuel larger next

mutual

/-- Runs a pattern; `rules` reads the rules. -/
def Pattern.run {R : Type} (rules : R → Reader) : Pattern R → Reader
  | .word text => fun cur =>
    match afterText text cur.rest with
    | some rest =>
      if rest.head?.any isWordChar then none
      else some (cur.take text false false text.toList rest)
    | none => none
  | .mark text except => fun cur =>
    match afterText text cur.rest with
    | some rest =>
      if rest.head?.any except.toList.contains then none
      else some (cur.take text false false text.toList rest)
    | none => none
  | .opening text => fun cur =>
    (afterText text cur.rest).map (cur.take text false true text.toList)
  | .lexeme kind scan => fun cur =>
    (scan cur.rest).map fun (lexeme, rest) => cur.take kind true false lexeme rest
  | .rawLexeme kind scan => fun cur =>
    (scan cur.rest).map fun (lexeme, rest) => cur.take kind true true lexeme rest
  | .seq ps => runSeq rules ps
  | .alt ps => runAlt rules ps
  | .many p =>
    let read := p.run rules
    fun cur => some (repeatRead read cur.rest.length cur)
  | .rule r => rules r
  | .node kind p =>
    let read := p.run rules
    fun cur => (read cur).map fun (parts, next) => (Outline.wrap kind parts, next)
  | .field name p =>
    let read := p.run rules
    fun cur => (read cur).map fun (parts, next) => (Outline.named? name parts, next)
  | .ahead p =>
    let read := p.run rules
    fun cur => (read cur).map fun _ => ([], cur)
  | .absent p =>
    let read := p.run rules
    fun cur => if (read cur).isSome then none else some ([], cur)
  | .sameLine => fun cur => if cur.newline then none else some ([], cur)
  | .newLine => fun cur => if cur.newline then some ([], cur) else none
  | .atEnd => fun cur => if cur.rest.isEmpty then some ([], cur) else none
  | .grow first steps =>
    let read := first.run rules
    let step := runSteps rules steps
    fun cur => (read cur).map fun (parts, next) => repeatGrow step next.rest.length parts next

/-- Runs patterns one after the other. -/
def runSeq {R : Type} (rules : R → Reader) : List (Pattern R) → Reader
  | [] => fun cur => some ([], cur)
  | p :: ps =>
    let first := p.run rules
    let rest := runSeq rules ps
    fun cur =>
      match first cur with
      | none => none
      | some (parts, next) => (rest next).map fun (more, last) => (parts ++ more, last)

/-- Runs the first pattern that fits. -/
def runAlt {R : Type} (rules : R → Reader) : List (Pattern R) → Reader
  | [] => fun _ => none
  | p :: ps =>
    let first := p.run rules
    let rest := runAlt rules ps
    fun cur =>
      match first cur with
      | none => rest cur
      | some result => some result

/-- Runs the first continuation that fits, and puts a node around all. -/
def runSteps {R : Type} (rules : R → Reader) : List (String × Pattern R) →
    List Outline → Reader
  | [] => fun _ _ => none
  | (kind, p) :: steps =>
    let first := p.run rules
    let rest := runSteps rules steps
    fun parts cur =>
      match first cur with
      | none => rest parts cur
      | some (more, next) => some (Outline.wrap kind (parts ++ more), next)

end

/-- Reads a rule of a grammar, rules nested at most `fuel` deep. -/
def readRule {R : Type} (grammar : R → Pattern R) : Nat → R → Reader
  | 0, _ => fun _ => none
  | fuel + 1, r => (grammar r).run (readRule grammar fuel)

end Pattern

section Shorthand

namespace Pattern

variable {R : Type}

/-- A mark that may stand before anything. -/
def sym (text : String) : Pattern R :=
  .mark text ""

/-- Something that may be left out. -/
def opt (p : Pattern R) : Pattern R :=
  .alt [p, .seq []]

/-- One or more, with separators between neighbours. -/
def sepBy1 (p separator : Pattern R) : Pattern R :=
  .seq [p, .many (.seq [separator, p])]

/-- A list with commas between its items and perhaps one at the end, perhaps empty. -/
def commaList (p : Pattern R) : Pattern R :=
  opt (.seq [sepBy1 p (sym ","), opt (sym ",")])

end Pattern

end Shorthand

end Syntax
end DeclGraph
