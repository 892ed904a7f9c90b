import DeclGraph.Proofs.Comments
import DeclGraph.Proofs.ObjectTypes
import DeclGraph.Proofs.Placement

/-!
# Surface forms of one type

Some types can be written in two ways, and each way is read by other functions: a
signature as a method or as the type of a property, an association as an index signature
or as an object type around it, and a reference as a base type or as a type.

Where the two forms have the same parts, they are resolved by one and the same pass, so
they agree in results, faults and events.  Parts are the same if they have one core: they
have the same text on the same lines.  The forms count depth from different places, which
does not show as soon as depth zero is allowed.

* `SameSignature` relates a method and a function type.
* `Syntax.Node.Sole` picks the index signature in an object type.
* `Targets` gives the base types of a clause by their names and type arguments, and
  `SpellsReference` says how a type is written that refers to them.
-/

namespace DeclGraph

open Syntax (Node)

section Members

/-- A method that is no getter, setter or constructor. -/
def Syntax.Node.IsMethod (n : Node) : Prop :=
  n.kind ∈ methodKinds ∧ memberName n ≠ "constructor" ∧ hasToken n "set" = false ∧
    hasToken n "get" = false

/-- A property with a type. -/
def Syntax.Node.IsPropertyOf (p t : Node) : Prop :=
  p.kind ∈ propertyKinds ∧ (p.child? "type").bind Syntax.Node.annotated? = some t

/-- The list of type parameters of a function type. -/
def typeParamsOf (f : Node) : Option Node :=
  (f.child? "type_parameters").orElse fun _ =>
    f.namedChildren.find? (·.kind == "type_parameters")

/-- A method and a function type have the same type parameters, parameters and result.
The result of a method stands after a colon. -/
structure SameSignature (m f : Node) : Prop where
  typeParams :
    (m.child? "type_parameters").map Syntax.Node.core = (typeParamsOf f).map Syntax.Node.core
  params :
    (m.child? "parameters").map Syntax.Node.core = (f.child? "parameters").map Syntax.Node.core
  result :
    ((m.child? "return_type").bind Syntax.Node.annotated?).map Syntax.Node.core =
      (f.child? "return_type").map Syntax.Node.core

/-- Resolves the type of the field that a node of a body gives. -/
def resolveField? (ctx : Context) (scope : List String) (n : Node) : Option (Pass TypeExpr) :=
  (fieldOf? n).map fun m => (resolveMember ctx scope m).map (·.type)

variable {ctx : Context} {scope : List String} {m f p s o i t : Node}

theorem checkDepth_zero_bind
    {α : Type} {k : Unit → Pass α}
    (h : 0 ≤ ctx.limit)
    (line : Nat) :
    ctx.checkDepth 0 line >>= k = k () := by
  unfold Context.checkDepth
  rw [if_neg (by omega)]
  rfl

theorem resolveField?_property
    (h : p.IsPropertyOf t) :
    resolveField? ctx scope p = some (resolveNode ctx scope (some t)) := by
  have hfield := fieldOf?_eq_some_iff.2 (readBodyItem_property h.1)
  unfold resolveField?
  rw [hfield, h.2, Option.map_some, resolveMember, Pass.map_bind]
  exact congrArg some (Pass.bind_pure _)

/-- A method is resolved as a written signature is. -/
theorem resolveField?_method
    (hlimit : 0 ≤ ctx.limit)
    (h : m.IsMethod)
    (line : Nat) :
    resolveField? ctx scope m =
      some (resolve ctx scope 0 (.function line
        ((readTypeParams (m.child? "type_parameters")).map (·.name))
        ((readParameters (m.child? "parameters")).map writtenParam)
        (.ofNode? ((m.child? "return_type").bind Syntax.Node.annotated?)))) := by
  obtain ⟨hkind, hname, hset, hget⟩ := h
  have hfield := fieldOf?_eq_some_iff.2 (readBodyItem_method hkind (by simp [hname, hset]) hget)
  unfold resolveField?
  rw [hfield, Option.map_some, resolve, checkDepth_zero_bind hlimit, resolveMember]
  simp only [Pass.map_bind, Pass.map_pure]

/-- An index signature is resolved as a written association is. -/
theorem resolveField?_index
    (hlimit : 0 ≤ ctx.limit)
    (h : s.IsIndex)
    (line : Nat) :
    resolveField? ctx scope s =
      some (resolve ctx scope 0 (.keyed line [] (.ofNode? s.indexParts.keyType)
        (.ofNode? s.indexParts.valueType))) := by
  have hfield := fieldOf?_eq_some_iff.2 (readBodyItem_index h)
  unfold resolveField?
  rw [hfield, Option.map_some, resolve, checkDepth_zero_bind hlimit, resolveMember]
  simp only [Pass.map_bind, Pass.map_pure]
  rfl

/-- Nodes of a body with one core are resolved alike. -/
theorem resolveField?_eq_of_core
    (h : i.core = s.core) :
    resolveField? ctx scope i = resolveField? ctx scope s := by
  have hcore (n : Node) : resolveField? ctx scope n.core = resolveField? ctx scope n := by
    unfold resolveField? fieldOf?
    rw [readBodyItem_core]
    cases readBodyItem n with
    | member m =>
        show some ((resolveMember ctx scope (m.mapNodes Syntax.Node.atMargin)).map _) = _
        rw [resolveMember_mapNodes fun n _ => readsAlike_atMargin n]
        rfl
    | skipped label => rfl
    | nothing => rfl
  rw [← hcore i, h, hcore s]

theorem skippedOf_readBody_of_sole
    (hindex : i.IsIndex)
    (h : o.Sole Syntax.Node.IsComment i) :
    skippedOf (readBody (some o)) = [] := by
  obtain ⟨before, after, hchildren, haside⟩ := h
  refine List.filterMap_eq_nil_iff.2 fun item hitem => ?_
  obtain ⟨c, hc, rfl⟩ := List.mem_map.1 hitem
  rw [hchildren] at hc
  have hc : c = i ∨ c ∈ before ++ after := by
    simp only [List.mem_append, List.mem_cons] at hc ⊢
    tauto
  rcases hc with rfl | hc
  · rw [readBodyItem_index hindex]
  · have hkind : c.kind = "comment" := haside c hc
    rw [readBodyItem_comment (by simp [Syntax.Node.isConstruct, hkind])]

/-- A method is resolved by the pass that resolves a property of the same function type. -/
theorem resolveField?_signature
    (hlimit : 0 ≤ ctx.limit)
    (hm : m.IsMethod)
    (hf : f.kind = "function_type")
    (hsame : SameSignature m f)
    (hp : p.IsPropertyOf f) :
    resolveField? ctx scope p = resolveField? ctx scope m := by
  have hwritten : Written.ofNode f =
      .function f.line (functionTypeParams f)
        ((readParameters (f.child? "parameters")).map writtenParam)
        (.ofNode? (f.child? "return_type")) := by
    rw [Written.ofNode_of_kind (by simp [hf, annotationKinds]), typeShape_function hf]
    rfl
  have hnames : functionTypeParams f =
      (readTypeParams (m.child? "type_parameters")).map (·.name) :=
    (names_readTypeParams_eq_of_core hsame.typeParams).symm
  rw [resolveField?_property hp, resolveField?_method hlimit hm f.line,
    writtenParams_eq_of_core hsame.params, ofNode?_eq_of_core hsame.result, ← hnames, ← hwritten]
  rfl

/-- An index signature is resolved by the pass that resolves a property of the object type
around it. -/
theorem resolveField?_association
    (hlimit : 0 ≤ ctx.limit)
    (ho : o.kind = "object_type")
    (hi : i.IsIndex)
    (hsole : o.Sole Syntax.Node.IsComment i)
    (hsame : i.core = s.core)
    (hp : p.IsPropertyOf o) :
    resolveField? ctx scope p = resolveField? ctx scope s := by
  have hfield := fieldOf?_eq_some_iff.2 (readBodyItem_index hi)
  have hkeyed : KeyedBy o i.indexParts.keyType i.indexParts.valueType :=
    ⟨ho, _, membersOf_eq_singleton_iff.2 ⟨i, hsole.mono fun c _ => fieldless_of_isComment, hfield⟩⟩
  rw [resolveField?_property hp, ← resolveField?_eq_of_core hsame,
    resolveField?_index hlimit hi o.line]
  show some (resolve ctx scope 0 (.ofNode o)) = _
  rw [Written.ofNode_of_kind (by simp [ho, annotationKinds]), typeShape_keyed hkeyed,
    skippedOf_readBody_of_sole hi hsole]
  rfl

end Members

section Heritage

/-- A clause of a declaration that lists base types. -/
inductive ClauseOf (d : Node) : Node → Prop
  | types
      {c : Node}
      (hc : c ∈ d.namedChildren)
      (hkind : c.kind = "extends_type_clause") :
      ClauseOf d c
  | classes
      {h c : Node}
      (hh : h ∈ d.namedChildren)
      (hheritage : h.kind = "class_heritage")
      (hc : c ∈ h.namedChildren)
      (hkind : c.kind = "extends_clause" ∨ c.kind = "implements_clause") :
      ClauseOf d c

/-- The name and the type arguments of a base type that is written as a type. -/
inductive NamesType : Node → String → List Node → Prop
  | generic
      {n : Node}
      (hkind : n.kind = "generic_type") :
      NamesType n (referenceLabel n) (referenceArgs n)
  | plain
      {n : Node}
      (hkind : n.kind ≠ "generic_type") :
      NamesType n n.text []

/-- The name of a base class and the type arguments that it is instantiated with. -/
inductive NamesClass : Node → String → List Node → Prop
  | instantiated
      {n target : Node} {rest : List Node}
      (hkind : n.kind = "instantiation_expression")
      (hchildren : n.namedChildren = target :: rest) :
      NamesClass n target.text (instantiationArgs rest)
  | plain
      {n : Node}
      (hkind : n.kind ≠ "instantiation_expression") :
      NamesClass n n.text []

/-- The type arguments of a base class: of the lists that follow it the last one counts,
and if there is none, its own. -/
def argsAfter (own : List Node) : List Node → List Node
  | [] => own
  | n :: ns => if n.kind == "type_arguments" then argsAfter n.namedChildren ns else own

/-- A clause has a target with this name and these type arguments. -/
inductive Targets (c : Node) : String → List Node → Prop
  | base_type
      {n : Node} {name : String} {args : List Node}
      (hkind : c.kind = "extends_type_clause" ∨ c.kind = "implements_clause")
      (hn : n ∈ c.namedChildren)
      (hnames : NamesType n name args) :
      Targets c name args
  | base_class
      {n : Node} {before after : List Node} {name : String} {own : List Node}
      (hkind : c.kind = "extends_clause")
      (hchildren : c.namedChildren = before ++ n :: after)
      (hn : n.kind ≠ "type_arguments")
      (hnames : NamesClass n name own) :
      Targets c name (argsAfter own after)

/-- A type that refers to a name with type arguments: the name with the arguments after it,
or the name on its own if there are none. -/
inductive SpellsReference (name : String) (args : List Node) : Node → Prop
  | generic
      {t : Node}
      (hkind : t.kind = "generic_type")
      (hname : referenceLabel t = name)
      (hargs : (referenceArgs t).map Syntax.Node.core = args.map Syntax.Node.core) :
      SpellsReference name args t
  | name
      {t : Node}
      (hkind : t.kind = "type_identifier")
      (hname : t.text = name)
      (hargs : args = []) :
      SpellsReference name args t

variable {ctx : Context} {scope : List String} {n : Node} {name : String} {args own : List Node}
  {bases result : List Heritage}

theorem readBaseType_of_namesType
    (h : NamesType n name args) :
    readBaseType n = ⟨name, args⟩ := by
  unfold readBaseType
  cases h with
  | generic hkind => simp [hkind, referenceLabel, referenceArgs]
  | plain hkind => simp [hkind]

/-- The base classes after one more node of a clause. -/
def addBaseClass (bases : List Heritage) (n : Node) : Except Fault (List Heritage) :=
  if n.kind == "type_arguments" then .ok (setLastArgs bases n.namedChildren)
  else if n.kind == "instantiation_expression" then
    match n.namedChildren with
    | [] => .error .noTarget
    | target :: rest => .ok (bases ++ [⟨target.text, instantiationArgs rest⟩])
  else .ok (bases ++ [⟨n.text, []⟩])

theorem readBaseClasses_eq (bases : List Heritage) (ns : List Node) :
    readBaseClasses bases ns = ns.foldlM addBaseClass bases := by
  induction ns generalizing bases with
  | nil => rfl
  | cons n ns ih =>
      rw [readBaseClasses, List.foldlM_cons, addBaseClass]
      split
      · exact ih _
      · split
        · cases n.namedChildren with
          | nil => rfl
          | cons target rest => exact ih _
        · exact ih _

theorem addBaseClass_of_namesClass
    (hn : n.kind ≠ "type_arguments")
    (h : NamesClass n name own) :
    addBaseClass bases n = .ok (bases ++ [⟨name, own⟩]) := by
  unfold addBaseClass
  cases h with
  | instantiated hkind hchildren => simp [hkind, hchildren]
  | plain hkind => simp [hkind, hn]

/-- A further node sets the type arguments of the last base class, or it is one more. -/
theorem addBaseClass_concat
    {last : Heritage}
    (h : addBaseClass (bases ++ [last]) n = .ok result) :
    (n.kind = "type_arguments" ∧ result = bases ++ [{ last with args := n.namedChildren }]) ∨
      (n.kind ≠ "type_arguments" ∧ ∃ next, result = bases ++ [last] ++ [next]) := by
  unfold addBaseClass at h
  split at h
  · rename_i hkind
    cases h
    exact .inl ⟨beq_iff_eq.1 hkind, by simp [setLastArgs]⟩
  · rename_i hkind
    refine .inr ⟨by simpa using hkind, ?_⟩
    split at h
    · split at h
      · cases h
      · cases h
        exact ⟨_, rfl⟩
    · cases h
      exact ⟨_, rfl⟩

/-- Only the last base class can still change. -/
theorem mem_foldlM_addBaseClass_of_mem
    {h last : Heritage} {ns : List Node}
    (hmem : h ∈ bases)
    (hresult : ns.foldlM addBaseClass (bases ++ [last]) = .ok result) :
    h ∈ result := by
  induction ns generalizing bases last with
  | nil =>
      cases hresult
      exact List.mem_append_left _ hmem
  | cons n ns ih =>
      rw [List.foldlM_cons] at hresult
      obtain ⟨next, hnext, hresult⟩ := except_bind_eq_ok_iff.1 hresult
      rcases addBaseClass_concat hnext with ⟨-, rfl⟩ | ⟨-, other, rfl⟩
      · exact ih hmem hresult
      · exact ih (List.mem_append_left _ hmem) hresult

theorem mem_foldlM_addBaseClass_concat
    {ns : List Node}
    (hresult : ns.foldlM addBaseClass (bases ++ [⟨name, own⟩]) = .ok result) :
    ⟨name, argsAfter own ns⟩ ∈ result := by
  induction ns generalizing own with
  | nil =>
      cases hresult
      simp [argsAfter]
  | cons n ns ih =>
      rw [List.foldlM_cons] at hresult
      obtain ⟨next, hnext, hresult⟩ := except_bind_eq_ok_iff.1 hresult
      rcases addBaseClass_concat hnext with ⟨hkind, rfl⟩ | ⟨hkind, other, rfl⟩
      -- A list of type arguments replaces those so far; any other node ends the base class.
      · have hargs : argsAfter own (n :: ns) = argsAfter n.namedChildren ns := by
          simp [argsAfter, hkind]
        rw [hargs]
        exact ih hresult
      · have hargs : argsAfter own (n :: ns) = own := by
          simp [argsAfter, hkind]
        rw [hargs]
        exact mem_foldlM_addBaseClass_of_mem (by simp) hresult

/-- Every target of a class's clause is read. -/
theorem mem_readClassClause
    {c : Node}
    (hkind : c.kind = "extends_clause" ∨ c.kind = "implements_clause")
    (h : Targets c name args)
    (hread : readClassClause c = .ok result) :
    ⟨name, args⟩ ∈ result := by
  unfold readClassClause at hread
  cases h with
  | base_type htype hn hnames =>
      have himplements : c.kind = "implements_clause" := by
        rcases hkind with hkind | hkind
        · simp [hkind] at htype
        · exact hkind
      simp only [himplements] at hread
      cases hread
      exact List.mem_map.2 ⟨_, hn, readBaseType_of_namesType hnames⟩
  | base_class hextends hchildren hn hnames =>
      rw [if_pos (beq_iff_eq.2 hextends), readBaseClasses_eq, hchildren,
        List.foldlM_append] at hread
      obtain ⟨earlier, -, hread⟩ := except_bind_eq_ok_iff.1 hread
      rw [List.foldlM_cons, addBaseClass_of_namesClass hn hnames] at hread
      exact mem_foldlM_addBaseClass_concat hread

theorem mem_gatherBases
    {read : Node → Except Fault (List Heritage)} {ns : List Node} {h : Heritage}
    (hresult : gatherBases read ns = .ok result)
    (hn : n ∈ ns)
    (hread : ∀ first, read n = .ok first → h ∈ first) :
    h ∈ result := by
  induction ns generalizing result with
  | nil => cases hn
  | cons m ns ih =>
      obtain ⟨first, hfirst, hresult⟩ := except_bind_eq_ok_iff.1 hresult
      obtain ⟨rest, hrest, hresult⟩ := except_bind_eq_ok_iff.1 hresult
      cases hresult
      rcases List.mem_cons.1 hn with rfl | hn
      · exact List.mem_append_left _ (hread first hfirst)
      · exact List.mem_append_right _ (ih hrest hn)

/-- Every target of a clause is read as a base type of the declaration. -/
theorem mem_readHeritage
    {d c : Node}
    (hc : ClauseOf d c)
    (h : Targets c name args)
    (hread : readHeritage d.namedChildren = .ok bases) :
    ⟨name, args⟩ ∈ bases := by
  rw [readHeritage_eq] at hread
  cases hc with
  | types hmem hkind =>
      refine mem_gatherBases hread hmem fun first hfirst => ?_
      unfold readHeritagePart at hfirst
      rw [if_pos (beq_iff_eq.2 hkind)] at hfirst
      cases hfirst
      cases h with
      | base_type _ hn hnames => exact List.mem_map.2 ⟨_, hn, readBaseType_of_namesType hnames⟩
      | base_class hextends => simp [hkind] at hextends
  | classes hheritage hkindh hmem hkind =>
      refine mem_gatherBases hread hheritage fun first hfirst => ?_
      unfold readHeritagePart at hfirst
      simp only [hkindh] at hfirst
      change readClassHeritage _ = _ at hfirst
      rw [readClassHeritage_eq] at hfirst
      exact mem_gatherBases hfirst hmem fun _ hclause => mem_readClassClause hkind h hclause

/-- A base type is resolved by the pass that resolves a type which refers to it. -/
theorem resolveHeritage_eq_resolveNode
    {a t : Node}
    (hlimit : 0 ≤ ctx.limit)
    (ha : a.annotated? = some t)
    (h : SpellsReference name args t) :
    resolveHeritage ctx scope ⟨name, args⟩ = resolveNode ctx scope (some a) := by
  show _ = resolve ctx scope 0 (.ofNode a)
  rw [Written.ofNode_of_type ha]
  cases h with
  | generic hkind hname hargs =>
      rw [typeShape_generic hkind, Shape.written, resolve, checkDepth_zero_bind hlimit, hname,
        map_ofNode_eq_of_core hargs]
      rfl
  | name hkind hname hargs =>
      rw [typeShape_name (.inl hkind), Shape.written, resolve, checkDepth_zero_bind hlimit, hname,
        hargs]
      rfl

end Heritage

section Agreement

/-- The two forms of one type are resolved alike, in every scope and at every limit that
allows depth zero:

* a method, and a property whose type is the function type with the same signature;
* an index signature, and a property whose type is the object type around it;
* a base type of a declaration, and a type that refers to the same name with the same type
  arguments.

Each time one pass resolves both, so results and depth faults are the same. -/
theorem surface_forms_agree
    (ctx : Context) (scope : List String)
    (hlimit : 0 ≤ ctx.limit) :
    (∀ m f p : Node, m.IsMethod → f.kind = "function_type" → SameSignature m f →
      p.IsPropertyOf f →
      ∃ pass, resolveField? ctx scope m = some pass ∧ resolveField? ctx scope p = some pass ∧
        ∀ t, pass.outcome = .ok t → ∃ args result, t = .function args result) ∧
    (∀ s i o p : Node, i.IsIndex → i.core = s.core → o.kind = "object_type" →
      o.Sole Syntax.Node.IsComment i → p.IsPropertyOf o →
      ∃ pass, resolveField? ctx scope s = some pass ∧ resolveField? ctx scope p = some pass ∧
        ∀ t, pass.outcome = .ok t → ∃ key value, t = .keyed key value) ∧
    (∀ (d c : Node) (name : String) (args : List Node) (bases : List Heritage),
      ClauseOf d c → Targets c name args → readHeritage d.namedChildren = .ok bases →
      ⟨name, args⟩ ∈ bases ∧
      ∀ a t : Node, a.annotated? = some t → SpellsReference name args t →
        resolveHeritage ctx scope ⟨name, args⟩ = resolveNode ctx scope (some a)) := by
  refine ⟨?_, ?_, ?_⟩
  · intro m f p hm hf hsame hp
    have hmethod : resolveField? ctx scope m = some _ := resolveField?_method hlimit hm f.line
    refine ⟨_, hmethod, (resolveField?_signature hlimit hm hf hsame hp).trans hmethod, ?_⟩
    intro t ht
    obtain ⟨-, args, result, -, -, rfl⟩ := resolve_function_eq_ok_iff.1 ht
    exact ⟨args, result, rfl⟩
  · intro s i o p hi hsame ho hsole hp
    -- The line given here would show in a fault at depth zero only, so any line does.
    have hindex : resolveField? ctx scope i = some _ := resolveField?_index hlimit hi o.line
    have hassociation : resolveField? ctx scope p = resolveField? ctx scope s :=
      resolveField?_association hlimit ho hi hsole hsame hp
    rw [← resolveField?_eq_of_core hsame] at hassociation ⊢
    refine ⟨_, hindex, hassociation.trans hindex, ?_⟩
    intro t ht
    obtain ⟨-, key, value, -, -, rfl⟩ := resolve_keyed_eq_ok_iff.1 ht
    exact ⟨key, value, rfl⟩
  · intro d c name args bases hc htargets hread
    exact ⟨mem_readHeritage hc htargets hread, fun a t ha hspells =>
      resolveHeritage_eq_resolveNode hlimit ha hspells⟩

/-- A node that starts at a column of the first line. -/
def Syntax.Node.fromColumn (column : Nat) (n : Node) : Node :=
  { n with start := ⟨0, column⟩ }

/-- A list with the type parameter `T`. -/
def typeParamList : Node :=
  .build "type_parameters" "<T>" (some "type_parameters")
    [.build "type_parameter" "T" none [.build "type_identifier" "T" (some "name") []]]

/-- A list with the parameter `x` of type `T[]`. -/
def paramList : Node :=
  .build "formal_parameters" "(x: T[])" (some "parameters")
    [.build "required_parameter" "x: T[]" none
      [.build "identifier" "x" (some "pattern") [],
        .build "type_annotation" ": T[]" (some "type")
          [.build "array_type" "T[]" none [.build "type_identifier" "T" none []]]]]

/-- The method `m<T>(x: T[]): A`. -/
def genericMethod : Node :=
  .build "method_signature" "m<T>(x: T[]): A" none
    [.build "property_identifier" "m" (some "name") [],
      typeParamList.fromColumn 1,
      paramList.fromColumn 4,
      .build "type_annotation" ": A" (some "return_type") [.build "type_identifier" "A" none []]]

/-- The type `<T>(x: T[]) => A`, which does not give its type parameters a field name. -/
def genericFunction : Node :=
  .build "function_type" "<T>(x: T[]) => A" none
    [{ typeParamList with field := none },
      paramList.fromColumn 3,
      .build "type_identifier" "A" (some "return_type") []]

/-- The signature `[k: string]: A`. -/
def indexToA : Node :=
  .build "index_signature" "[k: string]: A" none
    [.build "identifier" "k" (some "name") [],
      .build "predefined_type" "string" (some "index_type") [],
      .build "type_annotation" ": A" (some "type") [.build "type_identifier" "A" none []]]

/-- The type `{ [k: string]: A }`. -/
def objectToA : Node :=
  .build "object_type" "{ [k: string]: A }" none [indexToA.fromColumn 2]

/-- A property of a type. -/
def propertyOf (t : Node) : Node :=
  .build "property_signature" "" none
    [.build "property_identifier" "p" (some "name") [],
      .build "type_annotation" "" (some "type") [t]]

/-- The name of a class, as an expression. -/
def baseName : Node :=
  .build "identifier" "Base" (some "value") []

/-- The list `<A>` of type arguments, where the argument starts at a column. -/
def argsFrom (column : Nat) : Node :=
  .build "type_arguments" "<A>" (some "type_arguments")
    [Syntax.Node.fromColumn column (.build "type_identifier" "A" none [])]

/-- The clause `extends Base<A>`. -/
def extendsBase : Node :=
  .build "extends_clause" "extends Base<A>" none [baseName, argsFrom 13]

/-- The heritage of a class that extends `Base<A>`. -/
def heritageOfBase : Node :=
  .build "class_heritage" "extends Base<A>" none [extendsBase]

/-- A class that extends `Base<A>`. -/
def extendingClass : Node :=
  .build "class_declaration" "class C extends Base<A> {}" none
    [.build "type_identifier" "C" (some "name") [], heritageOfBase]

/-- The type `Base<A>`. -/
def baseOfA : Node :=
  .build "generic_type" "Base<A>" none
    [.build "type_identifier" "Base" (some "name") [], argsFrom 5]

theorem surface_forms_agree_examples :
    (∃ pass, resolveField? ⟨["A", "Base"], 2⟩ [] genericMethod = some pass ∧
      resolveField? ⟨["A", "Base"], 2⟩ [] (propertyOf genericFunction) = some pass ∧
      ∀ t, pass.outcome = .ok t → ∃ args result, t = .function args result) ∧
    (∃ pass, resolveField? ⟨["A", "Base"], 2⟩ [] indexToA = some pass ∧
      resolveField? ⟨["A", "Base"], 2⟩ [] (propertyOf objectToA) = some pass ∧
      ∀ t, pass.outcome = .ok t → ∃ key value, t = .keyed key value) ∧
    (∃ bases, readHeritage extendingClass.namedChildren = .ok bases ∧
      ⟨"Base", (argsFrom 13).namedChildren⟩ ∈ bases) ∧
    resolveHeritage ⟨["A", "Base"], 2⟩ [] ⟨"Base", (argsFrom 13).namedChildren⟩ =
      resolveNode ⟨["A", "Base"], 2⟩ [] (some baseOfA) := by
  obtain ⟨hmethod, hindex, hbase⟩ := surface_forms_agree ⟨["A", "Base"], 2⟩ [] (by decide)
  have hname : baseName.text = "Base" := by decide +kernel
  have hclause : ClauseOf extendingClass extendsBase :=
    .classes (h := heritageOfBase) (.tail _ (.head _)) rfl (.head _) (.inl rfl)
  have hchildren : extendsBase.namedChildren = [] ++ baseName :: [argsFrom 13] := rfl
  have htargets : Targets extendsBase baseName.text (argsAfter [] [argsFrom 13]) :=
    .base_class rfl hchildren (by decide) (.plain (by decide))
  have hread : readHeritage extendingClass.namedChildren =
      .ok [⟨baseName.text, (argsFrom 13).namedChildren⟩] := rfl
  have hspells : SpellsReference baseName.text (argsFrom 13).namedChildren baseOfA :=
    .generic rfl (by decide +kernel) rfl
  obtain ⟨hmem, hresolve⟩ := hbase _ _ _ _ _ hclause htargets hread
  rw [← hname]
  refine ⟨?_, ?_, ⟨_, hread, hmem⟩, hresolve baseOfA baseOfA (if_neg (by decide)) hspells⟩
  · exact hmethod genericMethod genericFunction (propertyOf genericFunction)
      ⟨by decide, by decide, by decide, by decide⟩ rfl ⟨rfl, rfl, rfl⟩ ⟨by decide, rfl⟩
  · exact hindex indexToA (indexToA.fromColumn 2) objectToA (propertyOf objectToA) (by decide) rfl
      rfl ⟨[], [], rfl, by simp⟩ ⟨by decide, rfl⟩

end Agreement

end DeclGraph
