import DeclGraph.TypeScript.Class

/-!
# Expressions

The patterns of expressions.  Declarations hold expressions as initial values,
base classes, computed names and the bodies of methods; nothing is read off them
but their extent, so binary operators form flat chains.
-/

namespace DeclGraph
namespace TypeScript

open Syntax (scanPattern scanPrivateName scanTemplateText)
open Syntax.Pattern

section Operators

/-- The operators between two operands. -/
def binaryOperator : Phrase :=
  .alt [sym "===", sym "!==", sym "==", sym "!=", .mark "**" "=", .mark "<<" "=", .mark ">>>" "=",
    .mark ">>" ">=", sym "<=", sym ">=", sym "<", sym ">", .mark "&&" "=", .mark "||" "=",
    .mark "??" "=", .mark "&" "&=", .mark "|" "|=", .mark "^" "=", .mark "+" "+=",
    .mark "-" "-=", .mark "*" "*=", .mark "/" "=", .mark "%" "=", .word "instanceof", .word "in"]

/-- The operators that assign. -/
def assignmentOperator : Phrase :=
  .alt [.mark "=" "=>", sym "+=", sym "-=", sym "**=", sym "*=", sym "/=", sym "%=", sym "<<=",
    sym ">>>=", sym ">>=", sym "&&=", sym "||=", sym "??=", sym "&=", sym "|=", sym "^="]

/-- The operators before an operand. -/
def unaryOperator : Phrase :=
  .alt [.mark "!" "=", sym "~", .mark "-" "-=", .mark "+" "+=", .word "typeof", .word "void",
    .word "delete"]

/-- Expressions with commas between them. -/
def sequence (ends : Bool) : Phrase :=
  sepBy1 (.rule (.expression ends)) (sym ",")

def arrowFunction (ends : Bool) : Phrase :=
  .node "arrow_function"
    (.seq [
      opt (.seq [.word "async", .sameLine, .ahead (.alt [identifier, sym "(", sym "<"])]),
      .alt [.field "parameter" identifier, callSignature false], sym "=>",
      .field "body" (.alt [.rule .block, .rule (.expression ends)])])

def yieldExpression (ends : Bool) : Phrase :=
  .node "yield_expression"
    (.seq [.word "yield", opt (.seq [.sameLine, opt (sym "*"), .rule (.expression ends)])])

def expressionPhrase (ends : Bool) : Phrase :=
  .alt [arrowFunction ends, yieldExpression ends,
    .grow (.rule (.conditional ends))
      [("assignment_expression", .seq [assignmentOperator, .rule (.expression ends)])]]

def conditionalPhrase (ends : Bool) : Phrase :=
  .grow
    (.grow (.rule (.unary ends))
      [("binary_expression", .seq [binaryOperator, .rule (.unary ends)]),
        ("as_expression", .seq [onLine ends, .word "as", .rule (.type ends)]),
        ("satisfies_expression", .seq [onLine ends, .word "satisfies", .rule (.type ends)])])
    [("ternary_expression",
      .seq [.mark "?" "?.", .rule (.expression false), sym ":", .rule (.expression ends)])]

def unaryPhrase (ends : Bool) : Phrase :=
  let step : Phrase := .alt [sym "++", sym "--"]
  .alt [
    .node "unary_expression" (.seq [unaryOperator, .rule (.unary ends)]),
    .node "update_expression" (.seq [step, .rule (.unary ends)]),
    .node "await_expression" (.seq [.word "await", .rule (.unary ends)]),
    .node "type_assertion" (.seq [.rule .typeArguments, .rule (.unary ends)]),
    .grow (.rule (.access ends)) [("update_expression", .seq [.sameLine, step])]]

end Operators

section Access

/-- A member of a value, by its name or by an index. -/
def memberSteps : List (String × Phrase) :=
  [("member_expression", .seq [.alt [.mark "." ".", sym "?."], memberWord]),
    ("subscript_expression", .seq [opt (sym "?."), brackets (sequence false)])]

/-- A call of a value. -/
def callSteps : List (String × Phrase) :=
  [("call_expression",
      .seq [opt (sym "?."), opt (.rule .typeArguments), .rule .arguments]),
    ("call_expression", .seq [opt (.rule .typeArguments), .rule .template])]

/-- What can follow a value with type arguments that is not called. -/
def afterInstantiation : Phrase :=
  .alt [sym ")", sym "]", sym ",", sym ";", sym ":", closeBrace, sym ".", sym "?", sym "=",
    .newLine, .atEnd]

def accessPhrase (ends : Bool) : Phrase :=
  .grow (.rule .simpleExpression)
    (memberSteps ++ callSteps ++
      [("non_null_expression", .seq [onLine ends, .mark "!" "="]),
        ("instantiation_expression", .seq [.rule .typeArguments, .ahead afterInstantiation])])

/-- The expression of a base class: type arguments after it are not part of it. -/
def heritageTargetPhrase : Phrase :=
  .grow (.rule .simpleExpression)
    (memberSteps ++ callSteps ++ [("non_null_expression", .mark "!" "=")])

def newExpression : Phrase :=
  .node "new_expression"
    (.seq [.word "new",
      .alt [.seq [sym ".", .word "target"],
        .seq [.grow (.rule .simpleExpression) memberSteps, opt (.rule .typeArguments),
          opt (.rule .arguments)]]])

end Access

section Simple

def spread : Phrase :=
  .node "spread_element" (.seq [sym "...", .rule (.expression false)])

def argumentsPhrase : Phrase :=
  .node "arguments" (parens (commaList (.alt [spread, .rule (.expression false)])))

def templatePhrase : Phrase :=
  .node "template_string"
    (.seq [.opening "\x60",
      .many
        (.alt [.rawLexeme "string_fragment" scanTemplateText,
          .node "template_substitution"
            (.seq [sym "$\x7b", sequence false, .opening "\x7d"])]),
      sym "\x60"])

def arrayLiteral : Phrase :=
  .node "array"
    (brackets (.many (.alt [sym ",",
      .seq [.alt [spread, .rule (.expression false)], .ahead (.alt [sym ",", sym "]"])]])))

def objectItem : Phrase :=
  .alt [spread,
    .node "method_definition"
      (.seq [methodModifiers, .field "name" propertyName, callSignature false,
        .field "body" (.rule .block)]),
    .node "pair" (.seq [.field "key" propertyName, sym ":", .rule (.expression false)]),
    .seq [identifier, opt (initializer false)]]

def objectLiteral : Phrase :=
  .node "object" (braces (commaList objectItem))

def functionExpression : Phrase :=
  .node "function_expression"
    (.seq [opt (.seq [.word "async", .sameLine]), .word "function", opt (sym "*"),
      opt (.field "name" identifier), callSignature false, .field "body" (.rule .block)])

def parenthesized : Phrase :=
  .node "parenthesized_expression" (parens (.seq [sequence false, opt (colonType false)]))

def simpleExpressionPhrase : Phrase :=
  .alt [parenthesized, arrayLiteral, objectLiteral, functionExpression, classExpression,
    newExpression, .rule .template, .lexeme "regex" scanPattern, numberLiteral, stringLiteral,
    .seq [namedWord "import" "import", .ahead (.alt [sym "(", sym "."])],
    namedWord "this" "this", namedWord "super" "super", namedWord "null" "null",
    namedWord "true" "true", namedWord "false" "false",
    .lexeme "private_property_identifier" scanPrivateName, identifier]

end Simple

section Bindings

/-- A binding with a value for when there is none. -/
def defaulted (p : Phrase) : Phrase :=
  .seq [p, opt (.seq [sym "=", .rule (.expression false)])]

def restBinding : Phrase :=
  .node "rest_pattern" (.seq [sym "...", .rule .binding])

def bindingPhrase : Phrase :=
  .alt [restBinding,
    .node "object_pattern"
      (braces (commaList (.alt [restBinding,
        .node "pair_pattern"
          (.seq [.field "key" propertyName, sym ":", .field "value" (defaulted (.rule .binding))]),
        defaulted (.lexeme "shorthand_property_identifier_pattern" Syntax.scanWord)]))),
    .node "array_pattern"
      (brackets (.many (.alt [sym ",",
        .seq [defaulted (.rule .binding), .ahead (.alt [sym ",", sym "]"])]]))),
    boundName]

end Bindings

end TypeScript
end DeclGraph
