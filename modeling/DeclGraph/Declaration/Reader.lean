import DeclGraph.Declaration.Basic
import DeclGraph.Pass

/-!
# Reading declarations

`readDeclarations` walks a syntax tree and returns its top-level declarations in
source order.

* A faulty tree is refused, with the first faulty place.
* Export and ambient wrappers are transparent; nothing else is looked into.
* A class without a name declares nothing.
* Members that become no field are reported as skipped: constructors, setters,
  call and construct signatures, and static blocks.
-/

namespace DeclGraph

open Syntax (Node)

section Types

/-- The kinds of nodes that put a colon before a type. -/
def annotationKinds : List String :=
  ["type_annotation", "opting_type_annotation", "omitting_type_annotation",
    "adding_type_annotation", "asserts_annotation", "type_predicate_annotation"]

/-- Whether a node puts a colon before a type. -/
def Syntax.Node.isAnnotation (n : Node) : Bool :=
  annotationKinds.contains n.kind

/-- The type node under an annotation; any other node is a type node itself. -/
def Syntax.Node.annotated? (n : Node) : Option Node :=
  if n.isAnnotation then n.namedChildren.head? else some n

theorem Syntax.Node.size_le_of_annotated? {n t : Node} (h : n.annotated? = some t) :
    t.size ≤ n.size := by
  unfold Syntax.Node.annotated? at h
  split at h
  · exact Nat.le_of_lt (Syntax.Node.size_lt_of_mem_namedChildren (List.mem_of_head? h))
  · cases h
    exact Nat.le_refl _

/-- The node that holds a parameter's name: of a rest pattern, what it collects. -/
def patternName (pattern : Node) : Node :=
  if pattern.kind == "rest_pattern" then pattern.namedChildren.head?.getD pattern else pattern

/-- One parameter of a signature. -/
def readParameter? (n : Node) : Option (Field (Option Node)) :=
  if n.kind == "required_parameter" || n.kind == "optional_parameter" then
    (n.child? "pattern").map fun pattern =>
      { name := (patternName pattern).text
        type := (n.child? "type").bind Syntax.Node.annotated?
        optional := n.kind == "optional_parameter" }
  else none

/-- The parameters of a signature. -/
def readParameters (params : Option Node) : List (Field (Option Node)) :=
  match params with
  | none => []
  | some n => n.namedChildren.filterMap readParameter?

/-- One type parameter; its bound and default are the last things their clauses hold. -/
def readTypeParam? (n : Node) : Option (TypeParam Node) :=
  if n.kind == "type_parameter" then
    some
      { name := ((n.child? "name").map (·.text)).getD ""
        bound := (n.child? "constraint").bind (·.namedChildren.getLast?)
        default := (n.child? "value").bind (·.namedChildren.getLast?) }
  else none

/-- The type parameters of a declaration or signature. -/
def readTypeParams (params : Option Node) : List (TypeParam Node) :=
  match params with
  | none => []
  | some n => n.namedChildren.filterMap readTypeParam?

end Types

section Members

/-- What a node of a body contributes. -/
inductive BodyItem where
  | member (m : Member)
  /-- A member that becomes no field, by what it is called in the log. -/
  | skipped (label : String)
  | nothing
deriving Repr, Inhabited

/-- Drops the first and the last character. -/
def unquote (s : String) : String :=
  String.ofList (s.toList.drop 1).dropLast

/-- The name of a member; quotes around it do not count. -/
def memberName (n : Node) : String :=
  match n.child? "name" with
  | none => ""
  | some name => if name.kind == "string" then unquote name.text else name.text

/-- Whether a keyword or mark stands in a member before its parameters, type or body. -/
def hasToken (n : Node) (token : String) : Bool :=
  let head := n.children.takeWhile fun c =>
    !(["statement_block", "type_annotation", "formal_parameters"].contains c.kind)
  head.any fun c => !c.named && c.kind == token

/-- The parts of an index signature met so far. -/
structure IndexParts where
  key : String := "key"
  keyType : Option Node := none
  valueType : Option Node := none

/-- Reads the parts of an index signature: the last key name and the last
annotation count, and of anything else the first is the key's type.  A mapped
type is not an index signature. -/
def readIndexParts : IndexParts → List Node → Option IndexParts
  | parts, [] => some parts
  | parts, n :: ns =>
    if n.kind == "identifier" then readIndexParts { parts with key := n.text } ns
    else if n.isAnnotation then readIndexParts { parts with valueType := n.annotated? } ns
    else if n.kind == "mapped_type_clause" then none
    else readIndexParts { parts with keyType := parts.keyType.orElse fun _ => some n } ns

def propertyKinds : List String :=
  ["property_signature", "public_field_definition"]

def methodKinds : List String :=
  ["method_signature", "abstract_method_signature", "method_definition"]

def skippedKinds : List String :=
  ["call_signature", "construct_signature", "class_static_block"]

/-- Reads one node of a body. -/
def readBodyItem (n : Node) : BodyItem :=
  if propertyKinds.contains n.kind then
    .member (.property (memberName n) ((n.child? "type").bind Syntax.Node.annotated?)
      (hasToken n "?"))
  else if methodKinds.contains n.kind then
    let name := memberName n
    let result := (n.child? "return_type").bind Syntax.Node.annotated?
    if name == "constructor" || hasToken n "set" then .skipped name
    else if hasToken n "get" then .member (.property name result false)
    else
      .member (.method name (hasToken n "?") (readTypeParams (n.child? "type_parameters"))
        (readParameters (n.child? "parameters")) result)
  else if n.kind == "index_signature" then
    match readIndexParts {} n.namedChildren with
    | some parts => .member (.index parts.key parts.keyType parts.valueType)
    | none => .nothing
  else if skippedKinds.contains n.kind then .skipped n.kind
  else .nothing

/-- The nodes of a body. -/
def readBody (body : Option Node) : List BodyItem :=
  match body with
  | none => []
  | some n => n.namedChildren.map readBodyItem

/-- The members among the items of a body. -/
def membersOf (items : List BodyItem) : List Member :=
  items.filterMap fun
    | .member m => some m
    | _ => none

/-- The labels of the skipped members among the items of a body. -/
def skippedOf (items : List BodyItem) : List String :=
  items.filterMap fun
    | .skipped label => some label
    | _ => none

end Members

section Heritage

/-- A base type written as a type: its name and its type arguments. -/
def readBaseType (n : Node) : Heritage :=
  if n.kind == "generic_type" then
    { name := ((n.child? "name").map (·.text)).getD n.text
      args := ((n.child? "type_arguments").map (·.namedChildren)).getD [] }
  else ⟨n.text, []⟩

/-- Gives the last base type its type arguments. -/
def setLastArgs (bases : List Heritage) (args : List Node) : List Heritage :=
  match bases.getLast? with
  | none => []
  | some h => bases.dropLast ++ [{ h with args }]

/-- Reads a clause of base classes: expressions, each with the type arguments
that follow it or that it is instantiated with. -/
def readBaseClasses : List Heritage → List Node → Except Fault (List Heritage)
  | bases, [] => .ok bases
  | bases, n :: ns =>
    if n.kind == "type_arguments" then readBaseClasses (setLastArgs bases n.namedChildren) ns
    else if n.kind == "instantiation_expression" then
      match n.namedChildren with
      | [] => .error .noTarget
      | target :: rest =>
        let args :=
          match rest with
          | r :: _ => if r.kind == "type_arguments" then r.namedChildren else []
          | [] => []
        readBaseClasses (bases ++ [⟨target.text, args⟩]) ns
    else readBaseClasses (bases ++ [⟨n.text, []⟩]) ns

/-- The base types of the clauses of a class. -/
def readClassHeritage : List Node → Except Fault (List Heritage)
  | [] => .ok []
  | n :: ns => do
    let first ←
      if n.kind == "extends_clause" then readBaseClasses [] n.namedChildren
      else if n.kind == "implements_clause" then .ok (n.namedChildren.map readBaseType)
      else .ok []
    let rest ← readClassHeritage ns
    return first ++ rest

/-- The base types of a declaration. -/
def readHeritage : List Node → Except Fault (List Heritage)
  | [] => .ok []
  | n :: ns => do
    let first ←
      if n.kind == "extends_type_clause" then .ok (n.namedChildren.map readBaseType)
      else if n.kind == "class_heritage" then readClassHeritage n.namedChildren
      else .ok []
    let rest ← readHeritage ns
    return first ++ rest

end Heritage

section Declarations

/-- The kind of declaration that a kind of node is. -/
def declarationKind? (nodeKind : String) : Option Kind :=
  if nodeKind == "interface_declaration" then some .interfaceDecl
  else if nodeKind == "type_alias_declaration" then some .aliasDecl
  else if ["class_declaration", "abstract_class_declaration", "class"].contains nodeKind then
    some .classDecl
  else none

mutual

/-- The declaration node under export and ambient wrappers.  What an export
declares comes first, then a named class that it exports as a value, then
whatever its parts hold. -/
def unwrap : Node → Option Node
  | ⟨kind, source, start, field, named, missing, broken, children⟩ =>
    let self : Node := ⟨kind, source, start, field, named, missing, broken, children⟩
    if (declarationKind? kind).isSome then some self
    else if kind == "export_statement" then
      match unwrapField "declaration" children with
      | some found => found
      | none =>
        match self.child? "value" with
        | some value =>
          if value.kind == "class" && (value.child? "name").isSome then some value
          else unwrapFirst children
        | none => unwrapFirst children
    else if kind == "ambient_declaration" then unwrapFirst children
    else none

/-- The declaration under the first child known by a field name, if there is such a child. -/
def unwrapField (field : String) : List Node → Option (Option Node)
  | [] => none
  | n :: ns => if n.field == some field then some (unwrap n) else unwrapField field ns

/-- The first declaration under one of several nodes. -/
def unwrapFirst : List Node → Option Node
  | [] => none
  | n :: ns =>
    if n.named then
      match unwrap n with
      | some found => some found
      | none => unwrapFirst ns
    else unwrapFirst ns

end

/-- Reads one declaration node; a node without a name declares nothing. -/
def readDeclaration (kind : Kind) (n : Node) : Pass (Option Declaration) :=
  match n.child? "name" with
  | none => do
    Pass.report [.declarationSkipped kind n.line]
    return none
  | some name =>
    let head : Declaration :=
      { kind, name := name.text, line := n.line
        typeParams := readTypeParams (n.child? "type_parameters") }
    let withBody (items : List BodyItem) (heritage : Except Fault (List Heritage)) :
        Pass (Option Declaration) := do
      Pass.report ((skippedOf items).map .memberSkipped)
      match heritage with
      | .ok heritage => return some { head with members := membersOf items, heritage }
      | .error f => Pass.fail f
    match kind with
    | .aliasDecl =>
      match n.child? "value" with
      | some value =>
        if value.kind == "object_type" then withBody (readBody (some value)) (.ok [])
        else return some { head with value := some value }
      | none => return some head
    | _ => withBody (readBody (n.child? "body")) (readHeritage n.namedChildren)

/-- Reads one top-level node. -/
def readTopLevel (n : Node) : Pass (Option Declaration) :=
  match unwrap n with
  | none => return none
  | some found =>
    match declarationKind? found.kind with
    | some kind => readDeclaration kind found
    | none => return none

/-- The fault of a tree: what is wrong at its first faulty place. -/
def malformedAt (bad : Node) : Fault :=
  let trouble := if bad.missing then .missing bad.kind else .unexpected bad.text
  .malformed trouble (bad.start.row + 1) (bad.start.column + 1)

/-- Reads the top-level declarations of a syntax tree, in source order. -/
def readDeclarations (root : Node) : Pass (List Declaration) :=
  if root.hasError then Pass.fail (malformedAt root.firstError)
  else do
    let read ← Pass.each readTopLevel root.namedChildren
    let declarations := read.filterMap id
    Pass.report [.declarations declarations.length]
    return declarations

end Declarations

end DeclGraph
