import DeclGraph.Declaration.Reader

/-!
# Written types

A type as it stands in the source, seen at the resolver's level of detail: which
construct it is, the line it starts on, and the written types it is made of.
`Written.ofNode` reads a syntax node this way.

Compound types that are not taken apart are `verbatim`: their text, and the type
names that occur in it in source order.  The names are collected with a list of
nodes still to visit, the next one first.
-/

namespace DeclGraph

open Syntax (Node sizeList)

section Names

/-- The type names in a list of nodes, in source order.  The parts of a qualified
name are not type names, and nothing below a type name is looked at. -/
def collectNames (pending : List Node) : List String :=
  match pending with
  | [] => []
  | n :: rest =>
    if n.kind == "nested_type_identifier" then collectNames rest
    else if n.kind == "type_identifier" then n.text :: collectNames rest
    else collectNames (n.namedChildren ++ rest)
termination_by sizeList pending
decreasing_by
  all_goals have := n.sizeList_namedChildren_lt
  all_goals simp
  all_goals omega

/-- The type names in a node. -/
def Syntax.Node.typeNames (n : Node) : List String :=
  collectNames [n]

end Names

section Written

/-- A type expression of a source text. -/
inductive Written where
  /-- No type at all. -/
  | absent
  /-- A type in parentheses or under `readonly`. -/
  | wrapped (line : Nat) (inner : Written)
  /-- Parentheses or `readonly` around nothing. -/
  | hollow (line : Nat) (text : String)
  /-- A name on its own. -/
  | name (line : Nat) (name : String)
  | array (line : Nat) (element : Written)
  /-- An array type without an element. -/
  | bareArray (line : Nat)
  /-- A name with a list of type arguments. -/
  | reference (line : Nat) (name : String) (args : List Written)
  /-- A signature with its own type parameters. -/
  | function (line : Nat) (typeParams : List String) (params : List (Field Written))
      (result : Written)
  /-- An object type with one index signature as its only member. -/
  | keyed (line : Nat) (skipped : List String) (key value : Written)
  /-- Any other type: its text and the type names in it. -/
  | verbatim (line : Nat) (skipped : List String) (text : String) (names : List String)
deriving Repr, Inhabited

end Written

section Below

/-! Everything a written type is made of lies below its node. -/

theorem size_lt_of_mem_readParameters {f : Field (Option Node)} {params : Node} {c : Node}
    (hf : f ∈ readParameters (some params)) (hc : f.type = some c) : c.size < params.size := by
  obtain ⟨p, hp, hfp⟩ := List.mem_filterMap.1 hf
  have hlt := Syntax.Node.size_lt_of_mem_namedChildren hp
  unfold readParameter? at hfp
  split at hfp
  · obtain ⟨pattern, _, rfl⟩ := Option.map_eq_some_iff.1 hfp
    obtain ⟨t, ht, hct⟩ := Option.bind_eq_some_iff.1 hc
    have := Syntax.Node.size_lt_of_child? ht
    have := Syntax.Node.size_le_of_annotated? hct
    omega
  · cases hfp

theorem mem_of_readIndexParts {parts result : IndexParts} {ns : List Node}
    (h : readIndexParts parts ns = some result) :
    (∀ c, result.keyType = some c → parts.keyType = some c ∨ c ∈ ns) ∧
      (∀ c, result.valueType = some c →
        parts.valueType = some c ∨ ∃ n ∈ ns, n.annotated? = some c) := by
  induction ns generalizing parts with
  | nil =>
    cases h
    exact ⟨fun c hc => .inl hc, fun c hc => .inl hc⟩
  | cons n ns ih =>
    unfold readIndexParts at h
    split at h
    · have := ih h
      refine ⟨fun c hc => ?_, fun c hc => ?_⟩
      · rcases this.1 c hc with h | h
        · exact .inl h
        · exact .inr (by simp [h])
      · rcases this.2 c hc with h | ⟨m, hm, h⟩
        · exact .inl h
        · exact .inr ⟨m, by simp [hm], h⟩
    · split at h
      · have := ih h
        refine ⟨fun c hc => ?_, fun c hc => ?_⟩
        · rcases this.1 c hc with h | h
          · exact .inl h
          · exact .inr (by simp [h])
        · rcases this.2 c hc with h | ⟨m, hm, h⟩
          · exact .inr ⟨n, by simp, h⟩
          · exact .inr ⟨m, by simp [hm], h⟩
      · split at h
        · cases h
        · have := ih h
          refine ⟨fun c hc => ?_, fun c hc => ?_⟩
          · rcases this.1 c hc with h | h
            · revert h
              cases hk : parts.keyType with
              | none => intro h; exact .inr (by cases h; simp)
              | some k => intro h; exact .inl (by simpa using h)
            · exact .inr (by simp [h])
          · rcases this.2 c hc with h | ⟨m, hm, h⟩
            · exact .inl h
            · exact .inr ⟨m, by simp [hm], h⟩

/-- The types of an index signature read from a node lie below it. -/
theorem size_lt_of_readBodyItem_index {n c : Node} {key : String} {kt vt : Option Node}
    (h : readBodyItem n = .member (.index key kt vt)) (hc : kt = some c ∨ vt = some c) :
    c.size < n.size := by
  unfold readBodyItem at h
  split at h
  · cases h
  · split at h
    · simp only at h
      split at h
      · cases h
      · split at h <;> cases h
    · split at h
      · split at h
        · rename_i parts hparts
          cases h
          have hmem := mem_of_readIndexParts hparts
          rcases hc with hc | hc
          · rcases hmem.1 c hc with h | h
            · cases h
            · exact Syntax.Node.size_lt_of_mem_namedChildren h
          · rcases hmem.2 c hc with h | ⟨m, hm, h⟩
            · cases h
            · have := Syntax.Node.size_lt_of_mem_namedChildren hm
              have := Syntax.Node.size_le_of_annotated? h
              omega
        · cases h
      · split at h <;> cases h

theorem size_lt_of_membersOf_index {n c : Node} {key : String} {kt vt : Option Node}
    (h : membersOf (readBody (some n)) = [.index key kt vt])
    (hc : kt = some c ∨ vt = some c) : c.size < n.size := by
  have hmem : Member.index key kt vt ∈ membersOf (readBody (some n)) := by
    rw [h]
    simp
  obtain ⟨item, hitem, heq⟩ := List.mem_filterMap.1 hmem
  obtain ⟨m, hm, rfl⟩ := List.mem_map.1 hitem
  have hread : readBodyItem m = .member (.index key kt vt) := by
    revert heq
    cases readBodyItem m with
    | member x => intro h; cases h; rfl
    | skipped x => intro h; cases h
    | nothing => intro h; cases h
  have := size_lt_of_readBodyItem_index hread hc
  have := Syntax.Node.size_lt_of_mem_namedChildren hm
  omega

end Below

section Shape

/-- One level of a written type: the construct, and the nodes it is made of. -/
inductive Shape where
  | absent
  | wrapped (line : Nat) (inner : Node)
  | hollow (line : Nat) (text : String)
  | name (line : Nat) (name : String)
  | array (line : Nat) (element : Node)
  | bareArray (line : Nat)
  | reference (line : Nat) (name : String) (args : List Node)
  | function (line : Nat) (typeParams : List String) (params : List (Field (Option Node)))
      (result : Option Node)
  | keyed (line : Nat) (skipped : List String) (key value : Option Node)
  | verbatim (line : Nat) (skipped : List String) (text : String) (names : List String)
deriving Repr, Inhabited

/-- The nodes a construct is made of. -/
def Shape.parts : Shape → List Node
  | wrapped _ inner => [inner]
  | array _ element => [element]
  | reference _ _ args => args
  | function _ _ params result => params.filterMap (·.type) ++ result.toList
  | keyed _ _ key value => key.toList ++ value.toList
  | _ => []

/-- The names of the type parameters of a function type, which the grammar does
not always expose as a field. -/
def functionTypeParams (n : Node) : List String :=
  let node := (n.child? "type_parameters").orElse fun _ =>
    n.namedChildren.find? (·.kind == "type_parameters")
  (readTypeParams node).map (·.name)

/-- The type arguments of a reference. -/
def referenceArgs (n : Node) : List Node :=
  ((n.child? "type_arguments").map (·.namedChildren)).getD []

/-- The construct of an object type: keyed when its only member is an index signature. -/
def objectShape (t : Node) : Shape :=
  let items := readBody (some t)
  match membersOf items with
  | [.index _ key value] => .keyed t.line (skippedOf items) key value
  | _ => .verbatim t.line (skippedOf items) t.text t.typeNames

/-- The construct of a type node. -/
def typeShape (t : Node) : Shape :=
  if t.kind == "parenthesized_type" || t.kind == "readonly_type" then
    match t.namedChildren.getLast? with
    | some inner => .wrapped t.line inner
    | none => .hollow t.line t.text
  else if t.kind == "type_identifier" || t.kind == "identifier" then .name t.line t.text
  else if t.kind == "array_type" then
    match t.namedChildren.head? with
    | some element => .array t.line element
    | none => .bareArray t.line
  else if t.kind == "generic_type" then
    .reference t.line (((t.child? "name").map (·.text)).getD t.text) (referenceArgs t)
  else if t.kind == "function_type" then
    .function t.line (functionTypeParams t) (readParameters (t.child? "parameters"))
      (t.child? "return_type")
  else if t.kind == "object_type" then objectShape t
  else .verbatim t.line [] t.text t.typeNames

/-- The construct of a node, under an annotation if it is one. -/
def Syntax.Node.shape (n : Node) : Shape :=
  match n.annotated? with
  | none => .absent
  | some t => typeShape t

theorem size_lt_of_mem_referenceArgs {n c : Node} (h : c ∈ referenceArgs n) :
    c.size < n.size := by
  unfold referenceArgs at h
  cases hargs : n.child? "type_arguments" with
  | none => simp [hargs] at h
  | some args =>
    simp only [hargs, Option.map_some, Option.getD_some] at h
    have := Syntax.Node.size_lt_of_child? hargs
    have := Syntax.Node.size_lt_of_mem_namedChildren h
    omega

theorem size_lt_of_mem_objectShape {t c : Node} (h : c ∈ (objectShape t).parts) :
    c.size < t.size := by
  unfold objectShape at h
  simp only at h
  split at h
  · rename_i hm
    rcases List.mem_append.1 h with h | h
    · exact size_lt_of_membersOf_index hm (.inl (Option.mem_toList.1 h))
    · exact size_lt_of_membersOf_index hm (.inr (Option.mem_toList.1 h))
  · cases h

theorem size_lt_of_mem_typeShape {t c : Node} (h : c ∈ (typeShape t).parts) :
    c.size < t.size := by
  unfold typeShape at h
  split at h
  · split at h
    · rename_i hc
      cases List.mem_singleton.1 h
      exact Syntax.Node.size_lt_of_mem_namedChildren (List.mem_of_getLast? hc)
    · cases h
  · split at h
    · cases h
    · split at h
      · split at h
        · rename_i hc
          cases List.mem_singleton.1 h
          exact Syntax.Node.size_lt_of_mem_namedChildren (List.mem_of_head? hc)
        · cases h
      · split at h
        · exact size_lt_of_mem_referenceArgs h
        · split at h
          · rcases List.mem_append.1 h with h | h
            · obtain ⟨f, hf, hc⟩ := List.mem_filterMap.1 h
              cases hp : t.child? "parameters" with
              | none => simp [hp, readParameters] at hf
              | some p =>
                rw [hp] at hf
                have := size_lt_of_mem_readParameters hf hc
                have := Syntax.Node.size_lt_of_child? hp
                omega
            · exact Syntax.Node.size_lt_of_child? (Option.mem_toList.1 h)
          · split at h
            · exact size_lt_of_mem_objectShape h
            · cases h

/-- The nodes a construct is made of are smaller than its own node. -/
theorem Syntax.Node.size_lt_of_mem_shape {n c : Node} (h : c ∈ n.shape.parts) :
    c.size < n.size := by
  unfold Syntax.Node.shape at h
  split at h
  · cases h
  · rename_i t ht
    have := size_lt_of_mem_typeShape h
    have := Syntax.Node.size_le_of_annotated? ht
    omega

end Shape

section OfNode

/-- Reads a syntax node as a written type. -/
def Written.ofNode (n : Node) : Written :=
  match _hshape : n.shape with
  | .absent => .absent
  | .wrapped line inner => .wrapped line (Written.ofNode inner)
  | .hollow line text => .hollow line text
  | .name line label => .name line label
  | .array line element => .array line (Written.ofNode element)
  | .bareArray line => .bareArray line
  | .reference line label args =>
    .reference line label (args.attach.map fun ⟨c, _⟩ => Written.ofNode c)
  | .function line typeParams params result =>
    .function line typeParams
      (params.attach.map fun ⟨f, _⟩ =>
        ⟨f.name, (f.type.attach.map fun ⟨c, _⟩ => Written.ofNode c).getD .absent, f.optional⟩)
      ((result.attach.map fun ⟨c, _⟩ => Written.ofNode c).getD .absent)
  | .keyed line skipped key value =>
    .keyed line skipped ((key.attach.map fun ⟨c, _⟩ => Written.ofNode c).getD .absent)
      ((value.attach.map fun ⟨c, _⟩ => Written.ofNode c).getD .absent)
  | .verbatim line skipped text names => .verbatim line skipped text names
termination_by n.size
decreasing_by
  all_goals apply Syntax.Node.size_lt_of_mem_shape
  all_goals simp only [_hshape, Shape.parts]
  · simp
  · simp
  · assumption
  · rename_i hf hc
    exact List.mem_append.2 (.inl (List.mem_filterMap.2 ⟨f, hf, hc⟩))
  · rename_i hc
    exact List.mem_append.2 (.inr (Option.mem_toList.2 hc))
  · rename_i hc
    exact List.mem_append.2 (.inl (Option.mem_toList.2 hc))
  · rename_i hc
    exact List.mem_append.2 (.inr (Option.mem_toList.2 hc))

/-- Reads a node that may be missing. -/
def Written.ofNode? (n : Option Node) : Written :=
  (n.map Written.ofNode).getD .absent

/-- The written type of a construct. -/
def Shape.written : Shape → Written
  | .absent => .absent
  | .wrapped line inner => .wrapped line (.ofNode inner)
  | .hollow line text => .hollow line text
  | .name line label => .name line label
  | .array line element => .array line (.ofNode element)
  | .bareArray line => .bareArray line
  | .reference line label args => .reference line label (args.map .ofNode)
  | .function line typeParams params result =>
    .function line typeParams (params.map fun f => ⟨f.name, .ofNode? f.type, f.optional⟩)
      (.ofNode? result)
  | .keyed line skipped key value => .keyed line skipped (.ofNode? key) (.ofNode? value)
  | .verbatim line skipped text names => .verbatim line skipped text names

/-- A node is read by its construct, and what the construct is made of likewise. -/
theorem Written.ofNode_eq (n : Node) : Written.ofNode n = n.shape.written := by
  rw [Written.ofNode]
  split <;> rename_i h <;>
    simp [h, Shape.written, Written.ofNode?]

end OfNode

end DeclGraph
