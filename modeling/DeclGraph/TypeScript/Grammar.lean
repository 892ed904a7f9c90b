import DeclGraph.TypeScript.Statement

/-!
# The grammar and the parser

`grammar` gives each rule its pattern.  `parse` reads a whole text: the result is
a program whose children are the statements and the comments outside them, or,
for a text that the grammar does not fit, one faulty node over the whole text.
-/

namespace DeclGraph
namespace TypeScript

open Syntax (Node Outline Cursor readRule repeatRead byteLength isLineEnd)

section Grammar

/-- The pattern of each rule. -/
def grammar : Rule → Phrase
  | .type ends => typePhrase ends
  | .union ends => unionPhrase ends
  | .intersection ends => intersectionPhrase ends
  | .operand ends => operandPhrase ends
  | .indexed ends => indexedPhrase ends
  | .simpleType ends => simpleTypePhrase ends
  | .result ends => resultPhrase ends
  | .typeArguments => typeArgumentsPhrase
  | .typeParameters => typeParametersPhrase
  | .members => membersPhrase
  | .parameters => parametersPhrase
  | .binding => bindingPhrase
  | .classMembers => classMembersPhrase
  | .decorator => decoratorPhrase
  | .heritageTarget => heritageTargetPhrase
  | .expression ends => expressionPhrase ends
  | .conditional ends => conditionalPhrase ends
  | .unary ends => unaryPhrase ends
  | .access ends => accessPhrase ends
  | .simpleExpression => simpleExpressionPhrase
  | .template => templatePhrase
  | .arguments => argumentsPhrase
  | .block => blockPhrase
  | .statement => statementPhrase
  | .declaration => declarationPhrase

end Grammar

section Parser

/-- How many rules can nest before one of them consumes a character, at most. -/
def ruleDepth : Nat := 40

/-- The line that names an interpreter, at the start of a text. -/
def interpreterLine (cs : List Char) : List Char :=
  match cs with
  | '#' :: '!' :: _ => cs.takeWhile fun c => !isLineEnd c
  | _ => []

/-- The outline of a text: of a program, or of a faulty text. -/
def outline (cs : List Char) : Outline :=
  let shebang := interpreterLine cs
  let skipped := byteLength shebang
  let body := cs.drop shebang.length
  let read := readRule grammar (ruleDepth * (cs.length + 1)) .statement
  let (statements, last) := repeatRead read body.length (Cursor.at skipped body)
  let size := byteLength cs
  if last.rest.isEmpty then
    { kind := "program", start := 0, stop := size
      children :=
        (if shebang.isEmpty then []
          else [{ kind := "hash_bang_line", start := 0, stop := skipped }]) ++
          statements ++ last.comments }
  else { kind := "ERROR", start := 0, stop := size }

/-- The syntax tree of a text. -/
def parse (text : String) : Node :=
  (outline text.toList).read text.toList

end Parser

end TypeScript
end DeclGraph
