import DeclGraph.Syntax.Pattern

/-!
# Words, marks and the ends of statements

The smallest patterns of the grammar, and the names of its rules.

Some constructs end where a line ends.  `semicolon` reads such an end: a
semicolon, a line end, a closing brace ahead, or the end of the text.  A line end
does not count if the next token can only continue what stands before it.
-/

namespace DeclGraph
namespace TypeScript

open Syntax (Scanner scanWord scanPrivateName scanString scanNumber isWordChar)
open Syntax.Pattern

section Rules

/-- The rules of the grammar.  `ends` says whether a line end may end what is read. -/
inductive Rule where
  | type (ends : Bool)
  | union (ends : Bool)
  | intersection (ends : Bool)
  | operand (ends : Bool)
  | indexed (ends : Bool)
  | simpleType (ends : Bool)
  | result (ends : Bool)
  | typeArguments
  | typeParameters
  | members
  | parameters
  | binding
  | classMembers
  | decorator
  | heritageTarget
  | expression (ends : Bool)
  | conditional (ends : Bool)
  | unary (ends : Bool)
  | access (ends : Bool)
  | simpleExpression
  | template
  | arguments
  | block
  | statement
  | declaration
deriving Repr, DecidableEq

/-- A pattern of the grammar. -/
abbrev Phrase := Syntax.Pattern Rule

end Rules

section Words

/-- The words that name nothing in an expression. -/
def reservedWords : List String :=
  ["break", "case", "catch", "class", "const", "continue", "debugger", "default", "delete",
    "do", "else", "enum", "export", "extends", "false", "finally", "for", "function", "if",
    "import", "in", "instanceof", "new", "null", "return", "super", "switch", "this", "throw",
    "true", "try", "typeof", "var", "void", "while", "with"]

/-- The words that start a type of their own and name none. -/
def reservedTypes : List String :=
  ["typeof", "keyof", "readonly", "infer", "new", "unique", "this", "null", "undefined", "true",
    "false", "void", "import", "const", "function", "class", "extends", "in"]

/-- A word that is not in a list. -/
def scanWordExcept (words : List String) : Scanner := fun cs =>
  match scanWord cs with
  | some (w, rest) => if words.contains (String.ofList w) then none else some (w, rest)
  | none => none

/-- One given word. -/
def scanExactly (text : String) : Scanner := fun cs =>
  match scanWord cs with
  | some (w, rest) => if String.ofList w == text then some (w, rest) else none
  | none => none

/-- A word as a named leaf. -/
def anyWord (kind : String) : Phrase :=
  .lexeme kind scanWord

/-- A given word as a named leaf. -/
def namedWord (kind text : String) : Phrase :=
  .lexeme kind (scanExactly text)

/-- A name in an expression. -/
def identifier : Phrase :=
  .lexeme "identifier" (scanWordExcept reservedWords)

/-- A name that something is bound to. -/
def boundName : Phrase :=
  .lexeme "identifier" (scanWordExcept ["this"])

/-- The name of a declared type. -/
def typeName : Phrase :=
  anyWord "type_identifier"

/-- A name after a point. -/
def memberWord : Phrase :=
  .alt [anyWord "property_identifier", .lexeme "private_property_identifier" scanPrivateName]

def stringLiteral : Phrase :=
  .lexeme "string" scanString

def numberLiteral : Phrase :=
  .lexeme "number" scanNumber

end Words

section Marks

def openBrace : Phrase :=
  sym "\x7b"

def closeBrace : Phrase :=
  sym "\x7d"

/-- A phrase in parentheses. -/
def parens (p : Phrase) : Phrase :=
  .seq [sym "(", p, sym ")"]

/-- A phrase in brackets. -/
def brackets (p : Phrase) : Phrase :=
  .seq [sym "[", p, sym "]"]

/-- A phrase in braces. -/
def braces (p : Phrase) : Phrase :=
  .seq [openBrace, p, closeBrace]

/-- Where a line end may end a construct, what follows stays on the line. -/
def onLine (ends : Bool) : Phrase :=
  if ends then .sameLine else .seq []

end Marks

section Ends

/-- Whether a text goes on with a letter. -/
def startsWithLetter (cs : List Char) : Bool :=
  cs.head?.any fun c => c.isAlpha || (0x80 ≤ c.toNat && isWordChar c)

/-- Whether a token at the start of a line can only continue the line before. -/
def continuesLine : List Char → Bool
  | '+' :: '+' :: _ => false
  | '+' :: _ => true
  | '-' :: '-' :: _ => false
  | '-' :: _ => true
  | '!' :: '=' :: _ => true
  | 'i' :: 'n' :: 's' :: 't' :: 'a' :: 'n' :: 'c' :: 'e' :: 'o' :: 'f' :: cs =>
    !startsWithLetter cs
  | 'i' :: 'n' :: cs => !startsWithLetter cs
  | c :: _ => "\x60,.;*%><=?^|&/".toList.contains c
  | [] => false

/-- A token that can only continue the line before it. -/
def continuation : Phrase :=
  .lexeme "continuation" fun cs => if continuesLine cs then some ([], cs) else none

/-- The end of a statement or a member. -/
def semicolon : Phrase :=
  .alt [sym ";", .seq [.newLine, .absent continuation], .ahead closeBrace, .atEnd]

end Ends

section Names

/-- A name computed by an expression. -/
def computedName : Phrase :=
  .node "computed_property_name" (brackets (.rule (.expression false)))

/-- The name of a member. -/
def propertyName : Phrase :=
  .alt [memberWord, stringLiteral, numberLiteral, computedName]

/-- What the name of a member, or a star before it, can start with. -/
def nameStart : Phrase :=
  .alt [anyWord "", .lexeme "" scanPrivateName, stringLiteral, numberLiteral, sym "[", sym "*"]

/-- A modifier of a member: it stands on the line of the name that follows. -/
def modifier (p : Phrase) : Phrase :=
  .seq [p, .sameLine, .ahead nameStart]

def accessModifier : Phrase :=
  .node "accessibility_modifier" (.alt [.word "public", .word "private", .word "protected"])

def overrideModifier : Phrase :=
  .node "override_modifier" (.word "override")

/-- A modifier that may be left out. -/
def optModifier (p : Phrase) : Phrase :=
  opt (modifier p)

end Names

end TypeScript
end DeclGraph
