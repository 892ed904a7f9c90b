import DeclGraph.TypeScript.Type

/-!
# Classes

The patterns of classes: decorators, base types, and members.

A decorator before a class belongs to the class, one before a field to the field,
and one before a method stands beside the method.
-/

namespace DeclGraph
namespace TypeScript

open Syntax.Pattern

section Decorators

def decoratorPhrase : Phrase :=
  .node "decorator"
    (.seq [sym "@",
      .alt [.node "parenthesized_expression" (parens (.rule (.expression false))),
        .grow identifier
          [("member_expression", .seq [sym ".", memberWord]),
            ("call_expression", .seq [opt (.rule .typeArguments), .rule .arguments])]]])

def decorators : Phrase :=
  .many (.field "decorator" (.rule .decorator))

end Decorators

section Heritage

/-- The base classes: expressions, each perhaps with type arguments. -/
def extendsClause : Phrase :=
  .node "extends_clause"
    (.seq [.word "extends",
      sepBy1
        (.seq [.field "value" (.rule .heritageTarget),
          opt (.field "type_arguments" (.rule .typeArguments))])
        (sym ",")])

def implementsClause : Phrase :=
  .node "implements_clause" (.seq [.word "implements", sepBy1 (.rule (.type false)) (sym ",")])

def classHeritage : Phrase :=
  .node "class_heritage"
    (.alt [.seq [extendsClause, opt implementsClause], implementsClause])

end Heritage

section Members

def methodDefinition : Phrase :=
  .node "method_definition"
    (.seq [memberModifiers, methodModifiers, methodRest, .field "body" (.rule .block)])

def abstractMethodSignature : Phrase :=
  .node "abstract_method_signature"
    (.seq [optModifier accessModifier, modifier (.word "abstract"), optModifier overrideModifier,
      opt (.alt [modifier (.word "get"), modifier (.word "set"), sym "*"]), methodRest])

def fieldDefinition : Phrase :=
  .node "public_field_definition"
    (.seq [decorators,
      opt (.alt [.seq [modifier (.word "declare"), optModifier accessModifier],
        .seq [modifier accessModifier, optModifier (.word "declare")]]),
      .alt [.seq [modifier (.word "abstract"), optModifier (.word "readonly")],
        .seq [modifier (.word "readonly"), modifier (.word "abstract")],
        modifier (.word "accessor"),
        .seq [optModifier (.word "static"), optModifier overrideModifier,
          optModifier (.word "readonly")]],
      .field "name" propertyName, opt (.alt [sym "?", .mark "!" "="]),
      opt (.field "type" (.seq [.sameLine, colonType true])), opt (initializer true)])

def staticBlock : Phrase :=
  .node "class_static_block" (.seq [.word "static", .field "body" (.rule .block)])

def classMembersPhrase : Phrase :=
  let stop : Phrase := .alt [sym ",", semicolon]
  .node "class_body"
    (braces
      (.many
        (.alt [sym ";", staticBlock, .seq [decorators, methodDefinition, opt (sym ";")],
          .seq [indexSignature, stop], .seq [abstractMethodSignature, stop],
          .seq [methodSignature, stop], .seq [fieldDefinition, stop]])))

end Members

section Classes

/-- The name of a class. -/
def className : Phrase :=
  .lexeme "type_identifier" (scanWordExcept ["extends", "implements"])

/-- What follows the name of a class. -/
def classRest : Phrase :=
  .seq [opt (.field "type_parameters" (.rule .typeParameters)), opt classHeritage,
    .field "body" (.rule .classMembers)]

def classDeclaration : Phrase :=
  .node "class_declaration"
    (.seq [decorators, .word "class", .field "name" className, classRest])

def abstractClassDeclaration : Phrase :=
  .node "abstract_class_declaration"
    (.seq [decorators, .word "abstract", .word "class", .field "name" className, classRest])

/-- A class as a value; it need not have a name. -/
def classExpression : Phrase :=
  .node "class" (.seq [decorators, .word "class", opt (.field "name" className), classRest])

end Classes

end TypeScript
end DeclGraph
