import DeclGraph.TypeScript.Token

/-!
# Types

The patterns of types, of signatures, and of the members of object types.

From loosest to tightest: conditional types, unions, intersections, prefixed and
function types, indexing, and simple types.  A function type, and a type after
the word for read-only, reach as far to the right as they can.
-/

namespace DeclGraph
namespace TypeScript

open Syntax (scanTemplateText)
open Syntax.Pattern

section Operators

/-- A type: a union, perhaps with a condition. -/
def typePhrase (ends : Bool) : Phrase :=
  .grow (.rule (.union ends))
    [("conditional_type",
      .seq [onLine ends, .word "extends", .field "right" (.rule (.union false)), sym "?",
        .field "consequence" (.rule (.type false)), sym ":",
        .field "alternative" (.rule (.type ends))])]

/-- Operands joined by a mark, which may also stand before the first. -/
def joined (kind : String) (mark operand : Phrase) : Phrase :=
  .grow (.alt [.node kind (.seq [mark, operand]), operand]) [(kind, .seq [mark, operand])]

def unionPhrase (ends : Bool) : Phrase :=
  joined "union_type" (.mark "|" "|") (.rule (.intersection ends))

def intersectionPhrase (ends : Bool) : Phrase :=
  joined "intersection_type" (.mark "&" "&") (.rule (.operand ends))

def functionType (ends : Bool) : Phrase :=
  .node "function_type"
    (.seq [opt (.field "type_parameters" (.rule .typeParameters)),
      .field "parameters" (.rule .parameters), sym "=>",
      .field "return_type" (.rule (.result ends))])

def constructorType (ends : Bool) : Phrase :=
  .node "constructor_type"
    (.seq [opt (.word "abstract"), .word "new",
      opt (.field "type_parameters" (.rule .typeParameters)),
      .field "parameters" (.rule .parameters), sym "=>", .field "type" (.rule (.type ends))])

def readonlyType (ends : Bool) : Phrase :=
  .node "readonly_type" (.seq [.word "readonly", .rule (.type ends)])

def inferType (ends : Bool) : Phrase :=
  .node "infer_type"
    (.seq [.word "infer", typeName,
      opt (.seq [onLine ends, .word "extends", .rule (.union ends)])])

/-- An operand of a union or intersection. -/
def operandPhrase (ends : Bool) : Phrase :=
  .alt [functionType ends, constructorType ends, readonlyType ends, inferType ends,
    .rule (.indexed ends)]

/-- A simple type with arrays and look-ups made of it. -/
def indexedPhrase (ends : Bool) : Phrase :=
  .grow (.rule (.simpleType ends))
    [("array_type", .seq [onLine ends, sym "[", sym "]"]),
      ("lookup_type", .seq [onLine ends, brackets (.rule (.type false))])]

end Operators

section Simple

def predefinedWords : List String :=
  ["any", "number", "boolean", "string", "symbol", "void", "unknown", "never", "object"]

def predefinedType : Phrase :=
  .node "predefined_type"
    (.alt (.seq [.word "unique", .word "symbol"] :: predefinedWords.map .word))

def literalType : Phrase :=
  .node "literal_type"
    (.alt [stringLiteral, numberLiteral,
      .node "unary_expression" (.seq [.alt [sym "-", sym "+"], numberLiteral]),
      namedWord "true" "true", namedWord "false" "false", namedWord "null" "null",
      namedWord "undefined" "undefined"])

/-- A piece of a template type that stands for a type. -/
def templateHole : Phrase :=
  .node "template_type"
    (.seq [sym "$\x7b", .rule (.type false), .opening "\x7d"])

def templateType : Phrase :=
  .node "template_literal_type"
    (.seq [.opening "\x60",
      .many (.alt [.rawLexeme "string_fragment" scanTemplateText, templateHole]), sym "\x60"])

/-- A name of a type that is not the start of another type.  Only the last part
of a name inside modules names a type. -/
def typeReference : Phrase :=
  .seq [.absent (.alt (reservedTypes.map .word)),
    .alt [
      .node "nested_type_identifier"
        (.seq [.many (.seq [anyWord "identifier", sym ".", .ahead (.seq [anyWord "", sym "."])]),
          anyWord "identifier", sym ".", .field "name" typeName]),
      typeName]]

/-- A type by its name, perhaps with type arguments. -/
def namedType : Phrase :=
  .alt [
    .node "generic_type"
      (.seq [.field "name" typeReference, .field "type_arguments" (.rule .typeArguments)]),
    typeReference]

/-- A module's contents, by the module's path. -/
def importedModule : Phrase :=
  .grow (.node "call_expression" (.seq [namedWord "import" "import", .rule .arguments]))
    [("member_expression", .seq [sym ".", memberWord])]

/-- The type of a value. -/
def typeQuery : Phrase :=
  .node "type_query"
    (.seq [.word "typeof",
      .grow (.alt [importedModule, anyWord "identifier"])
        [("member_expression", .seq [.alt [sym ".", sym "?."], memberWord]),
          ("subscript_expression",
            .seq [.sameLine, sym "[", .alt [predefinedType, stringLiteral, numberLiteral],
              sym "]"])],
      opt (.rule .typeArguments)])

/-- An item of a tuple type: it may have a label, be optional, or stand for many. -/
def tupleItem : Phrase :=
  let label : Phrase :=
    .field "name"
      (.alt [.node "rest_pattern" (.seq [sym "...", anyWord "identifier"]), anyWord "identifier"])
  let marked : Phrase := .node "type_annotation" (.seq [sym ":", .rule (.type false)])
  .alt [
    .node "required_parameter" (.seq [label, .field "type" marked]),
    .node "optional_parameter"
      (.seq [.field "name" (anyWord "identifier"), sym "?", .field "type" marked]),
    .node "rest_type" (.seq [sym "...", .rule (.type false)]),
    .grow (.rule (.type false)) [("optional_type", sym "?")]]

def simpleTypePhrase (ends : Bool) : Phrase :=
  .alt [
    .node "parenthesized_type" (parens (.rule (.type false))),
    .node "tuple_type" (brackets (commaList tupleItem)),
    .node "object_type" (.rule .members),
    templateType,
    .node "index_type_query" (.seq [.word "keyof", .rule (.indexed ends)]),
    typeQuery, predefinedType, literalType, namedWord "this_type" "this", importedModule,
    .word "const", namedType]

def typeArgumentsPhrase : Phrase :=
  .node "type_arguments"
    (.seq [sym "<", sepBy1 (.rule (.type false)) (sym ","), opt (sym ","), sym ">"])

end Simple

section Signatures

/-- A colon and a type. -/
def colonType (ends : Bool) : Phrase :=
  .node "type_annotation" (.seq [sym ":", .rule (.type ends)])

/-- A statement about the type of a parameter or of the receiver. -/
def typePredicate (ends : Bool) : Phrase :=
  .node "type_predicate"
    (.seq [.field "name" (.alt [namedWord "this" "this", anyWord "identifier"]), onLine ends,
      .word "is", .field "type" (.rule (.type ends))])

/-- A statement that holds if a call returns. -/
def assertion (ends : Bool) : Phrase :=
  .node "asserts"
    (.seq [.word "asserts", .sameLine,
      .alt [typePredicate ends, namedWord "this" "this",
        .seq [.absent (.word "is"), anyWord "identifier"]]])

/-- What a function type returns. -/
def resultPhrase (ends : Bool) : Phrase :=
  .alt [assertion ends, typePredicate ends, .rule (.type ends)]

/-- A colon and what a signature returns. -/
def colonResult (ends : Bool) : Phrase :=
  .alt [
    .node "asserts_annotation" (.seq [sym ":", assertion ends]),
    .node "type_predicate_annotation" (.seq [sym ":", typePredicate ends]),
    colonType ends]

/-- Type parameters, parameters and result. -/
def callSignature (ends : Bool) : Phrase :=
  .seq [opt (.field "type_parameters" (.rule .typeParameters)),
    .field "parameters" (.rule .parameters),
    opt (.field "return_type" (.seq [onLine ends, colonResult ends]))]

def typeParameter : Phrase :=
  .node "type_parameter"
    (.seq [opt (.seq [.word "const", .ahead (anyWord "")]), .field "name" typeName,
      opt (.field "constraint"
        (.node "constraint" (.seq [.alt [.word "extends", sym ":"], .rule (.type false)]))),
      opt (.field "value" (.node "default_type" (.seq [sym "=", .rule (.type false)])))])

def typeParametersPhrase : Phrase :=
  .node "type_parameters"
    (.seq [sym "<", sepBy1 typeParameter (sym ","), opt (sym ","), sym ">"])

/-- A value after an equals sign. -/
def initializer (ends : Bool) : Phrase :=
  .seq [.mark "=" "=>", .field "value" (.rule (.expression ends))]

/-- A parameter of a signature. -/
def parameter : Phrase :=
  let before (p : Phrase) : Phrase :=
    opt (.seq [p, .ahead (.alt [anyWord "", openBrace, sym "["])])
  let name : Phrase :=
    .seq [.many (.field "decorator" (.rule .decorator)), before accessModifier,
      before overrideModifier, before (.word "readonly"),
      .field "pattern" (.alt [namedWord "this" "this", .rule .binding])]
  let rest : Phrase := .seq [opt (.field "type" (colonType false)), opt (initializer false)]
  .alt [.node "optional_parameter" (.seq [name, sym "?", rest]),
    .node "required_parameter" (.seq [name, rest])]

def parametersPhrase : Phrase :=
  .node "formal_parameters" (parens (commaList parameter))

end Signatures

section Members

/-- An index signature or the clause of a mapped type. -/
def indexSignature : Phrase :=
  let key : Phrase :=
    .alt [
      .seq [.field "name" (anyWord "identifier"), sym ":",
        .field "index_type" (.rule (.type false))],
      .node "mapped_type_clause"
        (.seq [.field "name" typeName, .word "in", .field "type" (.rule (.type false)),
          opt (.seq [.word "as", .field "alias" (.rule (.type false))])])]
  let marked (kind mark : String) : Phrase := .node kind (.seq [sym mark, .rule (.type true)])
  .node "index_signature"
    (.seq [
      opt (.seq [opt (.field "sign" (.alt [sym "+", sym "-"])), .word "readonly", .sameLine,
        .ahead (sym "[")]),
      brackets key,
      .field "type"
        (.alt [marked "omitting_type_annotation" "-?:", marked "adding_type_annotation" "+?:",
          marked "opting_type_annotation" "?:", colonType true])])

def callSignatureMember : Phrase :=
  .node "call_signature" (callSignature true)

def constructSignature : Phrase :=
  .node "construct_signature"
    (.seq [opt (.seq [.word "abstract", .sameLine]), .word "new", .sameLine,
      opt (.field "type_parameters" (.rule .typeParameters)),
      .field "parameters" (.rule .parameters),
      opt (.field "type" (.seq [.sameLine, colonType true]))])

/-- The words before the name of a member that is not abstract. -/
def memberModifiers : Phrase :=
  .seq [optModifier accessModifier, optModifier (.word "static"), optModifier overrideModifier,
    optModifier (.word "readonly")]

/-- The words before the name of a method. -/
def methodModifiers : Phrase :=
  .seq [optModifier (.word "async"),
    opt (.alt [modifier (.word "get"), modifier (.word "set"), sym "*"])]

/-- The name of a method and its signature. -/
def methodRest : Phrase :=
  .seq [.field "name" propertyName, opt (sym "?"), .alt [.sameLine, .ahead (sym "<")],
    callSignature true]

def methodSignature : Phrase :=
  .node "method_signature" (.seq [memberModifiers, methodModifiers, methodRest])

def propertySignature : Phrase :=
  .node "property_signature"
    (.seq [memberModifiers, .field "name" propertyName, opt (sym "?"),
      opt (.field "type" (.seq [.sameLine, colonType true]))])

/-- A member of an object type or interface. -/
def typeMember : Phrase :=
  .alt [indexSignature, callSignatureMember, constructSignature, methodSignature,
    propertySignature]

/-- The members of an object type or interface, in braces. -/
def membersPhrase : Phrase :=
  let separator : Phrase := .alt [sym ",", semicolon]
  braces
    (opt (.seq [opt (.alt [sym ",", sym ";"]), sepBy1 typeMember separator, opt separator]))

end Members

end TypeScript
end DeclGraph
