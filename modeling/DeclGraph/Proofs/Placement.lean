import DeclGraph.Proofs.Stripping

/-!
# Where nodes stand

Types are read from nodes, and a fault in a type names the line on which it starts.
Nothing else about the place of a node is looked at, and neither is the name under which
its parent knows it.

* `Syntax.Node.atMargin` moves a tree to the margin: every node starts its line.
* `Syntax.Node.core` also leaves out the name that the parent has for the tree.

Moving to the margin commutes with everything that is read, so a node is read as its core
is (`ofNode_core`), and nodes of a body with one core give members that are read alike.
-/

namespace DeclGraph

open Syntax (Node)

section Margin

namespace Syntax.Node

mutual

/-- A tree in which every node starts its line. -/
def atMargin : Node → Node
  | ⟨kind, source, start, field, named, missing, broken, children⟩ =>
    ⟨kind, source, ⟨start.row, 0⟩, field, named, missing, broken, allAtMargin children⟩

/-- Several trees in which every node starts its line. -/
def allAtMargin : List Node → List Node
  | [] => []
  | n :: ns => n.atMargin :: allAtMargin ns

end

theorem allAtMargin_eq_map (ns : List Node) : allAtMargin ns = ns.map atMargin := by
  induction ns with
  | nil => rfl
  | cons n ns ih => rw [allAtMargin, ih, List.map_cons]

/-- A tree at the margin, by whatever name its parent knows it. -/
def core (n : Node) : Node :=
  { n.atMargin with field := none }

variable (n : Node)

@[simp]
theorem kind_atMargin : n.atMargin.kind = n.kind := by
  cases n
  rfl

@[simp]
theorem text_atMargin : n.atMargin.text = n.text := by
  cases n
  rfl

@[simp]
theorem line_atMargin : n.atMargin.line = n.line := by
  cases n
  rfl

@[simp]
theorem field_atMargin : n.atMargin.field = n.field := by
  cases n
  rfl

@[simp]
theorem named_atMargin : n.atMargin.named = n.named := by
  cases n
  rfl

@[simp]
theorem children_atMargin : n.atMargin.children = n.children.map atMargin := by
  cases n
  exact allAtMargin_eq_map _

@[simp]
theorem isAnnotation_atMargin : n.atMargin.isAnnotation = n.isAnnotation := by
  unfold isAnnotation
  rw [kind_atMargin]

@[simp]
theorem namedChildren_atMargin : n.atMargin.namedChildren = n.namedChildren.map atMargin := by
  simp only [namedChildren, children_atMargin, List.filter_map, Function.comp_def, named_atMargin]

@[simp]
theorem child?_atMargin (field : String) :
    n.atMargin.child? field = (n.child? field).map atMargin := by
  simp only [child?, children_atMargin, List.find?_map, Function.comp_def, field_atMargin]

@[simp]
theorem annotated?_atMargin : n.atMargin.annotated? = n.annotated?.map atMargin := by
  unfold annotated?
  rw [isAnnotation_atMargin, namedChildren_atMargin, List.head?_map]
  split
  · rfl
  · rfl

theorem bind_annotated?_atMargin (slot : Option Node) :
    (slot.map atMargin).bind annotated? = (slot.bind annotated?).map atMargin := by
  cases slot with
  | none => rfl
  | some n => exact n.annotated?_atMargin

theorem typeNames_atMargin : n.atMargin.typeNames = n.typeNames := by
  induction n using childInduct with
  | step n ih =>
      have hchildren : n.atMargin.namedChildren.flatMap typeNames =
          n.namedChildren.flatMap typeNames := by
        rw [namedChildren_atMargin, List.flatMap_map]
        exact List.flatMap_congr fun c hc => ih c (mem_children_of_mem_namedChildren hc)
      rw [typeNames_eq, typeNames_eq n, kind_atMargin, text_atMargin, hchildren]

end Syntax.Node

end Margin

section Reading

variable (n : Node)

theorem filterMap_atMargin
    {α β : Type} {f : Node → Option β} {g : Node → Option α} {φ : α → β}
    (h : ∀ c : Node, f c.atMargin = (g c).map φ)
    (ns : List Node) :
    (ns.map Syntax.Node.atMargin).filterMap f = (ns.filterMap g).map φ := by
  rw [List.filterMap_map, List.map_filterMap]
  exact List.filterMap_congr fun c _ => h c

@[simp]
theorem text_patternName_atMargin : (patternName n.atMargin).text = (patternName n).text := by
  unfold patternName
  rw [n.kind_atMargin, n.namedChildren_atMargin, List.head?_map]
  split
  · cases n.namedChildren.head? with
    | none => exact n.text_atMargin
    | some c => exact c.text_atMargin
  · exact n.text_atMargin

theorem readParameter?_atMargin :
    readParameter? n.atMargin = (readParameter? n).map (Field.mapNode Syntax.Node.atMargin) := by
  unfold readParameter?
  simp only [Syntax.Node.kind_atMargin, Syntax.Node.child?_atMargin,
    Syntax.Node.bind_annotated?_atMargin, Option.map_map, Function.comp_def,
    text_patternName_atMargin]
  split
  · rw [Option.map_map]
    rfl
  · rfl

theorem readParameters_atMargin (params : Option Node) :
    readParameters (params.map Syntax.Node.atMargin) =
      (readParameters params).map (Field.mapNode Syntax.Node.atMargin) := by
  cases params with
  | none => rfl
  | some n =>
      show n.atMargin.namedChildren.filterMap readParameter? = _
      rw [n.namedChildren_atMargin]
      exact filterMap_atMargin readParameter?_atMargin _

theorem readTypeParam?_atMargin :
    readTypeParam? n.atMargin =
      (readTypeParam? n).map (TypeParam.mapNodes Syntax.Node.atMargin) := by
  have hlast (field : String) :
      (n.atMargin.child? field).bind (·.namedChildren.getLast?) =
        ((n.child? field).bind (·.namedChildren.getLast?)).map Syntax.Node.atMargin := by
    rw [n.child?_atMargin]
    cases n.child? field with
    | none => rfl
    | some c =>
        show c.atMargin.namedChildren.getLast? = _
        rw [c.namedChildren_atMargin, List.getLast?_map]
        rfl
  unfold readTypeParam?
  rw [hlast, hlast, n.kind_atMargin, n.child?_atMargin, Option.map_map]
  simp only [Function.comp_def, Syntax.Node.text_atMargin]
  split
  · rfl
  · rfl

theorem readTypeParams_atMargin (params : Option Node) :
    readTypeParams (params.map Syntax.Node.atMargin) =
      (readTypeParams params).map (TypeParam.mapNodes Syntax.Node.atMargin) := by
  cases params with
  | none => rfl
  | some n =>
      show n.atMargin.namedChildren.filterMap readTypeParam? = _
      rw [n.namedChildren_atMargin]
      exact filterMap_atMargin readTypeParam?_atMargin _

theorem memberName_atMargin : memberName n.atMargin = memberName n := by
  unfold memberName
  rw [n.child?_atMargin]
  cases n.child? "name" with
  | none => rfl
  | some name => simp

theorem hasToken_atMargin (token : String) : hasToken n.atMargin token = hasToken n token := by
  simp [hasToken, List.takeWhile_map, Function.comp_def]

/-- The parts of an index signature at the margin. -/
def IndexParts.atMargin (parts : IndexParts) : IndexParts :=
  ⟨parts.key, parts.keyType.map Syntax.Node.atMargin, parts.valueType.map Syntax.Node.atMargin⟩

theorem readIndexParts_atMargin (parts : IndexParts) (ns : List Node) :
    readIndexParts parts.atMargin (ns.map Syntax.Node.atMargin) =
      (readIndexParts parts ns).map IndexParts.atMargin := by
  induction ns generalizing parts with
  | nil => rfl
  | cons n ns ih =>
      rw [List.map_cons, readIndexParts, readIndexParts, n.kind_atMargin, n.isAnnotation_atMargin,
        n.text_atMargin, n.annotated?_atMargin]
      split
      · exact ih { parts with key := n.text }
      · split
        · exact ih { parts with valueType := n.annotated? }
        · split
          · rfl
          · rw [← ih]
            unfold IndexParts.atMargin
            cases parts.keyType with
            | none => rfl
            | some k => rfl

theorem readBodyItem_atMargin :
    readBodyItem n.atMargin = (readBodyItem n).mapNodes Syntax.Node.atMargin := by
  have hindex : readIndexParts {} (n.namedChildren.map Syntax.Node.atMargin) =
      (readIndexParts {} n.namedChildren).map IndexParts.atMargin :=
    readIndexParts_atMargin {} n.namedChildren
  unfold readBodyItem
  rw [n.kind_atMargin, memberName_atMargin, hasToken_atMargin, hasToken_atMargin, hasToken_atMargin,
    n.child?_atMargin, n.child?_atMargin, n.child?_atMargin, n.child?_atMargin,
    Syntax.Node.bind_annotated?_atMargin, Syntax.Node.bind_annotated?_atMargin,
    readTypeParams_atMargin, readParameters_atMargin, n.namedChildren_atMargin]
  split
  · rfl
  · split
    · dsimp only
      split
      · rfl
      · split
        · rfl
        · rfl
    · split
      · rw [hindex]
        cases readIndexParts {} n.namedChildren with
        | none => rfl
        | some parts => rfl
      · split
        · rfl
        · rfl

theorem readBody_atMargin :
    readBody (some n.atMargin) =
      (readBody (some n)).map (BodyItem.mapNodes Syntax.Node.atMargin) := by
  show n.atMargin.namedChildren.map readBodyItem = (n.namedChildren.map readBodyItem).map _
  rw [n.namedChildren_atMargin, List.map_map, List.map_map]
  exact List.map_congr_left fun c _ => readBodyItem_atMargin c

theorem membersOf_mapNodes (φ : Node → Node) (items : List BodyItem) :
    membersOf (items.map (BodyItem.mapNodes φ)) = (membersOf items).map (Member.mapNodes φ) := by
  unfold membersOf
  rw [List.filterMap_map, List.map_filterMap]
  refine List.filterMap_congr fun item _ => ?_
  cases item with
  | member m => rfl
  | skipped label => rfl
  | nothing => rfl

theorem skippedOf_mapNodes (φ : Node → Node) (items : List BodyItem) :
    skippedOf (items.map (BodyItem.mapNodes φ)) = skippedOf items := by
  unfold skippedOf
  rw [List.filterMap_map]
  refine List.filterMap_congr fun item _ => ?_
  cases item with
  | member m => rfl
  | skipped label => rfl
  | nothing => rfl

end Reading

section Types

variable (n : Node)

theorem functionTypeParams_atMargin : functionTypeParams n.atMargin = functionTypeParams n := by
  have hnode : ((n.atMargin.child? "type_parameters").orElse fun _ =>
        n.atMargin.namedChildren.find? (·.kind == "type_parameters")) =
      ((n.child? "type_parameters").orElse fun _ =>
        n.namedChildren.find? (·.kind == "type_parameters")).map Syntax.Node.atMargin := by
    rw [n.child?_atMargin, n.namedChildren_atMargin, List.find?_map]
    simp only [Function.comp_def, Syntax.Node.kind_atMargin]
    cases n.child? "type_parameters" with
    | none => rfl
    | some c => rfl
  unfold functionTypeParams
  dsimp only
  rw [hnode, readTypeParams_atMargin, List.map_map]
  rfl

theorem referenceArgs_atMargin :
    referenceArgs n.atMargin = (referenceArgs n).map Syntax.Node.atMargin := by
  unfold referenceArgs
  rw [n.child?_atMargin]
  cases n.child? "type_arguments" with
  | none => rfl
  | some args => exact args.namedChildren_atMargin

theorem objectShape_atMargin :
    objectShape n.atMargin = (objectShape n).mapNodes Syntax.Node.atMargin := by
  unfold objectShape
  dsimp only
  rw [readBody_atMargin, membersOf_mapNodes, skippedOf_mapNodes, n.line_atMargin, n.text_atMargin,
    n.typeNames_atMargin]
  generalize membersOf (readBody (some n)) = members
  rcases members with _ | ⟨member, _ | ⟨other, rest⟩⟩
  · rfl
  · cases member with
    | property name type optional => rfl
    | method name optional typeParams params result => rfl
    | index label key value => rfl
  · cases member with
    | property name type optional => rfl
    | method name optional typeParams params result => rfl
    | index label key value => rfl

theorem typeShape_atMargin :
    typeShape n.atMargin = (typeShape n).mapNodes Syntax.Node.atMargin := by
  unfold typeShape
  rw [n.kind_atMargin, n.line_atMargin, n.text_atMargin, n.namedChildren_atMargin,
    List.getLast?_map, List.head?_map, n.child?_atMargin, n.child?_atMargin, n.child?_atMargin,
    referenceArgs_atMargin, functionTypeParams_atMargin, readParameters_atMargin,
    objectShape_atMargin, n.typeNames_atMargin]
  split
  · cases n.namedChildren.getLast? with
    | none => rfl
    | some inner => rfl
  · split
    · rfl
    · split
      · cases n.namedChildren.head? with
        | none => rfl
        | some element => rfl
      · split
        · cases n.child? "name" with
          | none => rfl
          | some name => exact congrArg (Shape.reference _ · _) name.text_atMargin
        · split
          · rfl
          · split
            · rfl
            · rfl

/-- A node is read as it is at the margin. -/
theorem readsAlike_atMargin (n : Node) : ReadsAlike Syntax.Node.atMargin n := by
  induction n using Syntax.Node.typeInduct with
  | absent n ht =>
      have htm : n.atMargin.annotated? = none := by rw [n.annotated?_atMargin, ht]; rfl
      exact (Written.ofNode_of_absent htm).trans (Written.ofNode_of_absent ht).symm
  | type n t ht ih =>
      have htm : n.atMargin.annotated? = some t.atMargin := by rw [n.annotated?_atMargin, ht]; rfl
      unfold ReadsAlike
      rw [Written.ofNode_of_type htm, Written.ofNode_of_type ht, typeShape_atMargin]
      exact written_mapNodes ih

end Types

section Cores

theorem typeNames_setField (n : Node) (field : Option String) :
    ({ n with field := field } : Node).typeNames = n.typeNames := by
  rw [typeNames_eq, typeNames_eq n]
  rfl

/-- How a parent knows a node is no part of the type that the node is read as. -/
theorem ofNode_setField (n : Node) (field : Option String) :
    Written.ofNode { n with field := field } = Written.ofNode n := by
  have hshape : typeShape { n with field := field } = typeShape n := by
    unfold typeShape objectShape
    rw [typeNames_setField]
    rfl
  cases hann : n.isAnnotation with
  | true =>
      have hn : n.annotated? = n.namedChildren.head? := if_pos hann
      have hset : ({ n with field := field } : Node).annotated? = n.namedChildren.head? :=
        if_pos hann
      rw [Written.ofNode_eq, Written.ofNode_eq, Syntax.Node.shape, Syntax.Node.shape, hn, hset]
  | false =>
      have hn : n.annotated? = some n := if_neg (Bool.eq_false_iff.1 hann)
      have hset : ({ n with field := field } : Node).annotated? = some { n with field := field } :=
        if_neg (Bool.eq_false_iff.1 hann)
      rw [Written.ofNode_of_type hn, Written.ofNode_of_type hset, hshape]

theorem ofNode_core (n : Node) : Written.ofNode n.core = Written.ofNode n :=
  (ofNode_setField n.atMargin none).trans (readsAlike_atMargin n)

/-- Nodes with one core are read as one type. -/
theorem ofNode?_eq_of_core
    {a b : Option Node}
    (h : a.map Syntax.Node.core = b.map Syntax.Node.core) :
    Written.ofNode? a = Written.ofNode? b := by
  rw [← ofNode?_map fun m _ => ofNode_core m, h, ofNode?_map fun m _ => ofNode_core m]

theorem map_ofNode_eq_of_core
    {as bs : List Node}
    (h : as.map Syntax.Node.core = bs.map Syntax.Node.core) :
    as.map Written.ofNode = bs.map Written.ofNode := by
  have hcore (ns : List Node) :
      ns.map Written.ofNode = (ns.map Syntax.Node.core).map Written.ofNode := by
    rw [List.map_map]
    exact List.map_congr_left fun n _ => (ofNode_core n).symm
  rw [hcore as, h, ← hcore bs]

/-- Type parameter lists with one core have the same names. -/
theorem names_readTypeParams_eq_of_core
    {a b : Option Node}
    (h : a.map Syntax.Node.core = b.map Syntax.Node.core) :
    (readTypeParams a).map (·.name) = (readTypeParams b).map (·.name) := by
  have hcore (o : Option Node) :
      (readTypeParams o).map (·.name) = (readTypeParams (o.map Syntax.Node.core)).map (·.name) := by
    have hfield : readTypeParams (o.map Syntax.Node.core) =
        readTypeParams (o.map Syntax.Node.atMargin) := by
      cases o <;> rfl
    rw [hfield, readTypeParams_atMargin, List.map_map]
    rfl
  rw [hcore a, h, ← hcore b]

/-- Parameter lists with one core are the same parameters, of types that are read alike. -/
theorem writtenParams_eq_of_core
    {a b : Option Node}
    (h : a.map Syntax.Node.core = b.map Syntax.Node.core) :
    (readParameters a).map writtenParam = (readParameters b).map writtenParam := by
  have hcore (o : Option Node) :
      (readParameters o).map writtenParam =
        (readParameters (o.map Syntax.Node.core)).map writtenParam := by
    have hfield : readParameters (o.map Syntax.Node.core) =
        readParameters (o.map Syntax.Node.atMargin) := by
      cases o <;> rfl
    rw [hfield, readParameters_atMargin, writtenParams_mapNode fun f _ m _ => readsAlike_atMargin m]
  rw [hcore a, h, ← hcore b]

theorem readBodyItem_core (n : Node) :
    readBodyItem n.core = (readBodyItem n).mapNodes Syntax.Node.atMargin :=
  readBodyItem_atMargin n

end Cores

end DeclGraph
