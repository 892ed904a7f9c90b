/-!
# Lexemes

Scanners for the smallest pieces of a source text.  A scanner looks at the start
of a text and, if its lexeme stands there, gives the lexeme's characters and what
follows them.

Identifiers are runs of characters that are neither layout, nor ASCII
punctuation, nor ASCII control characters, and do not start with a digit; escapes
of code points may stand for single characters.
-/

namespace DeclGraph
namespace Syntax

/-- Cuts a lexeme off the start of a text. -/
abbrev Scanner := List Char → Option (List Char × List Char)

section Characters

/-- The characters that may stand between tokens. -/
def isLayout (c : Char) : Bool :=
  let n := c.toNat
  (0x09 ≤ n && n ≤ 0x0D) || n == 0x20 || n == 0x85 || n == 0xA0 || n == 0x1680 ||
    (0x2000 ≤ n && n ≤ 0x200B) || n == 0x2028 || n == 0x2029 || n == 0x202F ||
    n == 0x205F || n == 0x2060 || n == 0x3000 || n == 0xFEFF

/-- The ASCII characters that punctuate. -/
def isPunctuation (c : Char) : Bool :=
  ":;`\"'@#.,|^&<=>+-*/\\%?!~()[]\x7b\x7d".toList.contains c

/-- The characters of a word. -/
def isWordChar (c : Char) : Bool :=
  0x20 ≤ c.toNat && !isLayout c && !isPunctuation c

/-- The characters that end a line comment or a string. -/
def isLineEnd (c : Char) : Bool :=
  c == '\n' || c == '\r' || c.toNat == 0x2028 || c.toNat == 0x2029

def isHexDigit (c : Char) : Bool :=
  c.isDigit || ('a' ≤ c && c ≤ 'f') || ('A' ≤ c && c ≤ 'F')

def isOctalDigit (c : Char) : Bool :=
  '0' ≤ c && c ≤ '7'

def isBinaryDigit (c : Char) : Bool :=
  c == '0' || c == '1'

end Characters

section Words

/-- An escape of a code point by four hexadecimal digits or by digits in braces. -/
def scanCodePoint : Scanner
  | '\\' :: 'u' :: '\x7b' :: cs =>
    let ds := cs.takeWhile isHexDigit
    match cs.dropWhile isHexDigit with
    | '\x7d' :: rest =>
      if ds.isEmpty then none else some ('\\' :: 'u' :: '\x7b' :: (ds ++ ['\x7d']), rest)
    | _ => none
  | '\\' :: 'u' :: a :: b :: c :: d :: rest =>
    if [a, b, c, d].all isHexDigit then some (['\\', 'u', a, b, c, d], rest) else none
  | _ => none

/-- The characters of a word from its start or middle on, at most `fuel` pieces. -/
def scanWordChars : Nat → List Char → List Char × List Char
  | 0, cs => ([], cs)
  | fuel + 1, cs =>
    match cs with
    | [] => ([], [])
    | c :: rest =>
      if isWordChar c then
        let (w, rest) := scanWordChars fuel rest
        (c :: w, rest)
      else
        match scanCodePoint cs with
        | some (e, rest) =>
          let (w, rest) := scanWordChars fuel rest
          (e ++ w, rest)
        | none => ([], cs)

/-- A word: an identifier or a keyword. -/
def scanWord : Scanner := fun cs =>
  match cs with
  | [] => none
  | c :: _ =>
    if c.isDigit then none
    else
      match scanWordChars cs.length cs with
      | ([], _) => none
      | (w, rest) => some (w, rest)

/-- A private name: a hash and a word. -/
def scanPrivateName : Scanner
  | '#' :: cs => (scanWord cs).map fun (w, rest) => ('#' :: w, rest)
  | _ => none

end Words

section Strings

/-- What a backslash and the characters after it stand for, as text. -/
def scanEscape : Scanner
  | '\\' :: 'x' :: a :: b :: rest =>
    if isHexDigit a && isHexDigit b then some (['\\', 'x', a, b], rest) else none
  | '\\' :: 'u' :: rest => scanCodePoint ('\\' :: 'u' :: rest)
  | '\\' :: '\r' :: '\n' :: rest => some (['\\', '\r', '\n'], rest)
  | '\\' :: 'x' :: _ => none
  | '\\' :: c :: rest => some (['\\', c], rest)
  | _ => none

/-- The rest of a string up to and with its closing quote, at most `fuel` pieces. -/
def scanStringTail (quote : Char) : Nat → Scanner
  | 0, _ => none
  | fuel + 1, cs =>
    match cs with
    | [] => none
    | c :: rest =>
      if c == quote then some ([c], rest)
      else if c == '\\' then
        match scanEscape cs with
        | some (e, rest) =>
          (scanStringTail quote fuel rest).map fun (s, rest) => (e ++ s, rest)
        | none => none
      else if c == '\n' || c == '\r' then none
      else (scanStringTail quote fuel rest).map fun (s, rest) => (c :: s, rest)

/-- A string in single or double quotes. -/
def scanString : Scanner
  | '"' :: cs => (scanStringTail '"' (cs.length + 1) cs).map fun (s, rest) => ('"' :: s, rest)
  | '\'' :: cs => (scanStringTail '\'' (cs.length + 1) cs).map fun (s, rest) => ('\'' :: s, rest)
  | _ => none

/-- A piece of template text: up to a closing mark or the start of a
substitution, at most `fuel` pieces and at least one. -/
def scanTemplateChars : Nat → List Char → List Char × List Char
  | 0, cs => ([], cs)
  | fuel + 1, cs =>
    match cs with
    | [] => ([], [])
    | '\x60' :: _ => ([], cs)
    | '$' :: '\x7b' :: _ => ([], cs)
    | '\\' :: c :: rest =>
      let (s, rest) := scanTemplateChars fuel rest
      ('\\' :: c :: s, rest)
    | c :: rest =>
      let (s, rest) := scanTemplateChars fuel rest
      (c :: s, rest)

/-- A nonempty piece of template text. -/
def scanTemplateText : Scanner := fun cs =>
  match scanTemplateChars cs.length cs with
  | ([], _) => none
  | (s, rest) => some (s, rest)

/-- The body of a regular expression up to and with its closing slash; `inClass`
says whether it stands inside brackets. -/
def scanPatternTail : Bool → Scanner
  | _, [] => none
  | inClass, '\\' :: c :: rest =>
    if isLineEnd c then none
    else (scanPatternTail inClass rest).map fun (s, rest) => ('\\' :: c :: s, rest)
  | inClass, c :: rest =>
    if isLineEnd c then none
    else if c == '/' && !inClass then some ([c], rest)
    else
      let inClass := c == '[' || (inClass && c != ']')
      (scanPatternTail inClass rest).map fun (s, rest) => (c :: s, rest)

/-- A regular expression with its flags. -/
def scanPattern : Scanner
  | '/' :: c :: cs =>
    if c == '*' || c == '/' then none
    else
      match scanPatternTail false (c :: cs) with
      | some (body, rest) =>
        let flags := rest.takeWhile fun c => 'a' ≤ c && c ≤ 'z'
        some ('/' :: (body ++ flags), rest.drop flags.length)
      | none => none
  | _ => none

end Strings

section Numbers

/-- Digits, with single underscores between them. -/
def scanDigits (isDigit : Char → Bool) : List Char → List Char × List Char
  | [] => ([], [])
  | '_' :: d :: cs =>
    if isDigit d then
      let (ds, rest) := scanDigits isDigit cs
      ('_' :: d :: ds, rest)
    else ([], '_' :: d :: cs)
  | c :: cs =>
    if isDigit c then
      let (ds, rest) := scanDigits isDigit cs
      (c :: ds, rest)
    else ([], c :: cs)

/-- An exponent, if one stands at the start. -/
def scanExponent (cs : List Char) : List Char × List Char :=
  let digits (mark : List Char) (rest : List Char) : List Char × List Char :=
    match scanDigits Char.isDigit rest with
    | ([], _) => ([], cs)
    | (ds, rest) => (mark ++ ds, rest)
  match cs with
  | 'e' :: '+' :: rest => digits ['e', '+'] rest
  | 'e' :: '-' :: rest => digits ['e', '-'] rest
  | 'e' :: rest => digits ['e'] rest
  | 'E' :: '+' :: rest => digits ['E', '+'] rest
  | 'E' :: '-' :: rest => digits ['E', '-'] rest
  | 'E' :: rest => digits ['E'] rest
  | _ => ([], cs)

/-- A number with a base mark, perhaps of arbitrary size. -/
def scanBased (mark : Char) (isDigit : Char → Bool) (cs : List Char) :
    Option (List Char × List Char) :=
  match scanDigits isDigit cs with
  | ([], _) => none
  | (ds, 'n' :: rest) => some ('0' :: mark :: (ds ++ ['n']), rest)
  | (ds, rest) => some ('0' :: mark :: ds, rest)

/-- A number in any of its notations. -/
def scanNumber : Scanner
  | '0' :: 'x' :: cs => scanBased 'x' isHexDigit cs
  | '0' :: 'X' :: cs => scanBased 'X' isHexDigit cs
  | '0' :: 'o' :: cs => scanBased 'o' isOctalDigit cs
  | '0' :: 'O' :: cs => scanBased 'O' isOctalDigit cs
  | '0' :: 'b' :: cs => scanBased 'b' isBinaryDigit cs
  | '0' :: 'B' :: cs => scanBased 'B' isBinaryDigit cs
  | '.' :: d :: cs =>
    if d.isDigit then
      let (ds, rest) := scanDigits Char.isDigit (d :: cs)
      let (e, rest) := scanExponent rest
      some ('.' :: (ds ++ e), rest)
    else none
  | cs =>
    match scanDigits Char.isDigit cs with
    | ([], _) => none
    | (ds, 'n' :: rest) => some (ds ++ ['n'], rest)
    | (ds, '.' :: rest) =>
      let (fs, rest) := scanDigits Char.isDigit rest
      let (e, rest) := scanExponent rest
      some (ds ++ '.' :: (fs ++ e), rest)
    | (ds, rest) =>
      let (e, rest) := scanExponent rest
      some (ds ++ e, rest)

end Numbers

end Syntax
end DeclGraph
