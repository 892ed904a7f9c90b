import DeclGraph.TypeScript.Expression

/-!
# Declarations and statements

The patterns of declarations, of the wrappers that export them or make them
ambient, and of all other statements.
-/

namespace DeclGraph
namespace TypeScript

open Syntax.Pattern

section Declarations

def interfaceDeclaration : Phrase :=
  .node "interface_declaration"
    (.seq [.word "interface", .field "name" typeName,
      opt (.field "type_parameters" (.rule .typeParameters)),
      opt (.node "extends_type_clause"
        (.seq [.word "extends", sepBy1 (.field "type" namedType) (sym ",")])),
      .field "body" (.node "interface_body" (.rule .members))])

def aliasDeclaration : Phrase :=
  .node "type_alias_declaration"
    (.seq [.word "type", .sameLine, .field "name" typeName,
      opt (.field "type_parameters" (.rule .typeParameters)), sym "=",
      .field "value" (.rule (.type true)), semicolon])

def enumDeclaration : Phrase :=
  let item : Phrase :=
    .seq [propertyName, opt (.seq [sym "=", .rule (.expression false)])]
  .node "enum_declaration"
    (.seq [opt (.word "const"), .word "enum", .field "name" boundName,
      .field "body" (.node "enum_body" (braces (commaList item)))])

/-- The head of a function. -/
def functionHead : Phrase :=
  .seq [opt (.seq [.word "async", .sameLine]), .word "function", opt (sym "*"),
    .field "name" identifier]

def functionDeclaration : Phrase :=
  .alt [
    .node "function_declaration"
      (.seq [functionHead, callSignature false, .field "body" (.rule .block)]),
    .node "function_signature" (.seq [functionHead, callSignature true, semicolon])]

/-- A variable with its type and value. -/
def declarator : Phrase :=
  .node "variable_declarator"
    (.seq [.field "name" (.seq [.absent (.word "enum"), .rule .binding]),
      opt (.mark "!" "="), opt (.field "type" (.seq [.sameLine, colonType true])),
      opt (initializer true)])

def variableDeclaration : Phrase :=
  .node "lexical_declaration"
    (.seq [.alt [.word "let", .word "const", .word "var"], sepBy1 declarator (sym ","),
      semicolon])

/-- A path of names. -/
def namePath : Phrase :=
  .grow identifier [("nested_identifier", .seq [sym ".", memberWord])]

def moduleDeclaration : Phrase :=
  .node "module"
    (.seq [.alt [.word "namespace", .word "module"], .sameLine,
      .field "name" (.alt [stringLiteral, namePath]),
      .alt [.field "body" (.rule .block), semicolon]])

def importAlias : Phrase :=
  .node "import_alias"
    (.seq [.word "import", identifier, sym "=", .absent (.seq [.word "require", sym "("]),
      namePath, semicolon])

/-- A declaration of something that exists elsewhere. -/
def ambientDeclaration : Phrase :=
  .node "ambient_declaration"
    (.seq [.word "declare", .sameLine,
      .alt [.rule .declaration, .seq [.word "global", .rule .block]]])

def declarationPhrase : Phrase :=
  .alt [interfaceDeclaration, aliasDeclaration, classDeclaration, abstractClassDeclaration,
    enumDeclaration, functionDeclaration, variableDeclaration, moduleDeclaration, importAlias,
    ambientDeclaration]

end Declarations

section Modules

/-- A name of something in a module. -/
def moduleName : Phrase :=
  .alt [stringLiteral, anyWord "identifier"]

/-- The module that names come from. -/
def fromClause : Phrase :=
  .seq [.word "from", .field "source" stringLiteral,
    opt (.seq [.alt [.word "with", .word "assert"], .node "object" (braces (commaList
      (.seq [propertyName, sym ":", stringLiteral])))])]

/-- Names in braces, each perhaps under another name. -/
def nameClause (kind item : String) : Phrase :=
  let renamed : Phrase := .seq [moduleName, opt (.seq [.word "as", moduleName])]
  .node kind
    (braces (commaList (.node item
      (.alt [.seq [.alt [.word "type", .word "typeof"], .absent (.word "as"), renamed], renamed]))))

def importStatement : Phrase :=
  let star : Phrase := .node "namespace_import" (.seq [sym "*", .word "as", identifier])
  let names : Phrase := .alt [star, nameClause "named_imports" "import_specifier"]
  let clause : Phrase :=
    .node "import_clause" (.alt [names, .seq [identifier, opt (.seq [sym ",", names])]])
  let required : Phrase :=
    .node "import_require_clause"
      (.seq [identifier, sym "=", .word "require", parens (.field "source" stringLiteral)])
  let sources : Phrase :=
    .alt [.seq [clause, fromClause], required, .field "source" stringLiteral]
  .node "import_statement"
    (.seq [.word "import",
      .alt [.seq [.alt [.word "type", .word "typeof"], sources], sources], semicolon])

/-- The words that start declarations only. -/
def declarationWords : List Phrase :=
  [.word "interface", .word "abstract", .word "enum"]

def exportStatement : Phrase :=
  let star : Phrase :=
    .seq [sym "*", opt (.seq [.word "as", moduleName]), fromClause, semicolon]
  let clause : Phrase :=
    .seq [nameClause "export_clause" "export_specifier", opt fromClause, semicolon]
  let whole : Phrase :=
    .seq [.word "default",
      .alt [.field "declaration" (.rule .declaration),
        .seq [.absent (.alt declarationWords), .field "value" (.rule (.expression true)),
          semicolon]]]
  .node "export_statement"
    (.seq [decorators, .word "export",
      .alt [whole, star, clause, .seq [.word "type", .alt [star, clause]],
        .seq [sym "=", .rule (.expression true), semicolon],
        .seq [.word "as", .word "namespace", identifier, semicolon],
        .field "declaration" (.rule .declaration)]])

end Modules

section Statements

def blockPhrase : Phrase :=
  .node "statement_block" (braces (.many (.rule .statement)))

/-- A condition or subject in parentheses. -/
def subject : Phrase :=
  .node "parenthesized_expression" (parens (sequence false))

def elseBranch : Phrase :=
  opt (.seq [.word "else", .rule .statement])

/-- What a loop runs over, in parentheses. -/
def loopHead : Phrase :=
  let declared : Phrase := .alt [.word "let", .word "const", .word "var"]
  let range : Phrase := .seq [.alt [.word "in", .word "of"], sequence false]
  let bindings : Phrase :=
    sepBy1
      (.seq [.rule .binding, opt (colonType false), opt (initializer false)]) (sym ",")
  .alt [parens (.seq [declared, .rule .binding, opt (colonType false), range]),
    parens (.seq [.rule (.access false), range]),
    parens (.seq [opt (.alt [.seq [declared, bindings], sequence false]), sym ";",
      opt (sequence false), sym ";", opt (sequence false)])]

def loopStatement : Phrase :=
  .alt [
    .node "for_statement" (.seq [.word "for", opt (.word "await"), loopHead, .rule .statement]),
    .node "while_statement" (.seq [.word "while", subject, .rule .statement]),
    .node "do_statement"
      (.seq [.word "do", .rule .statement, .word "while", subject, opt (sym ";")])]

def tryStatement : Phrase :=
  let handler : Phrase :=
    .node "catch_clause"
      (.seq [.word "catch", opt (parens (.seq [.rule .binding, opt (colonType false)])),
        .rule .block])
  let finisher : Phrase := .node "finally_clause" (.seq [.word "finally", .rule .block])
  .node "try_statement"
    (.seq [.word "try", .rule .block, .alt [.seq [handler, opt finisher], finisher]])

def switchStatement : Phrase :=
  let label : Phrase := .alt [.seq [.word "case", sequence false], .word "default"]
  .node "switch_statement"
    (.seq [.word "switch", subject,
      .node "switch_body"
        (braces (.many (.node "switch_case" (.seq [label, sym ":", .many (.rule .statement)]))))])

/-- A statement that leaves what it stands in. -/
def leavingStatement : Phrase :=
  .alt [
    .node "return_statement"
      (.seq [.word "return", opt (.seq [.sameLine, sequence true]), semicolon]),
    .node "throw_statement" (.seq [.word "throw", .sameLine, sequence true, semicolon]),
    .node "break_statement"
      (.seq [.alt [.word "break", .word "continue"], opt (.seq [.sameLine, identifier]),
        semicolon]),
    .node "debugger_statement" (.seq [.word "debugger", semicolon])]

/-- An expression as a statement; it does not start like a declaration. -/
def expressionStatement : Phrase :=
  .node "expression_statement"
    (.seq [
      .absent (.alt (declarationWords ++ [.word "function", .word "class", openBrace, sym "@"])),
      sequence true, semicolon])

def statementPhrase : Phrase :=
  .alt [.rule .block, .node "empty_statement" (sym ";"), exportStatement, .rule .declaration,
    importStatement,
    .node "if_statement" (.seq [.word "if", subject, .rule .statement, elseBranch]),
    loopStatement, tryStatement, switchStatement, leavingStatement,
    .node "with_statement" (.seq [.word "with", subject, .rule .statement]),
    .node "labeled_statement" (.seq [identifier, sym ":", .rule .statement]),
    expressionStatement]

end Statements

end TypeScript
end DeclGraph
