import DeclGraph.TypeExpr.Written
import Mathlib.Tactic.Tauto

/-!
# The constructs of type nodes

`typeShape` reads one level of a type node by its kind.  Here is one equation for
each construct, and the case distinction that goes with them (`construct_cases`): a
type is a wrapper, a name, an array, a reference with arguments, a signature, an
association, or it is kept as text.  `Syntax.Node.typeInduct` is the induction that
follows the constructs.
-/

namespace DeclGraph

open Syntax (Node)

section Constructs

/-- An object type whose only member is an index signature with this key and value. -/
def KeyedBy (t : Node) (key value : Option Node) : Prop :=
  t.kind = "object_type" ∧ ∃ label, membersOf (readBody (some t)) = [.index label key value]

/-- The kinds of types that are always taken apart. -/
def takenApart : List String :=
  ["parenthesized_type", "readonly_type", "type_identifier", "identifier", "array_type",
    "generic_type", "function_type"]

/-- A type that stays text: it is not taken apart, and not an association. -/
def KeptAsText (t : Node) : Prop :=
  t.kind ∉ takenApart ∧ ∀ key value, ¬ KeyedBy t key value

/-- The name of a reference with type arguments. -/
def referenceLabel (t : Node) : String :=
  ((t.child? "name").map (·.text)).getD t.text

/-- The type parameters that a type brings into scope for its parts. -/
def signatureParams (t : Node) : List String :=
  if t.kind = "function_type" then functionTypeParams t else []

/-- The parts of a type that resolution goes on with. -/
inductive GoesTo (t : Node) : Node → Prop
  | inner
      {m : Node}
      (hkind : t.kind = "parenthesized_type" ∨ t.kind = "readonly_type")
      (hm : t.namedChildren.getLast? = some m) :
      GoesTo t m
  | element
      {m : Node}
      (hkind : t.kind = "array_type")
      (hm : t.namedChildren.head? = some m) :
      GoesTo t m
  | argument
      {m : Node}
      (hkind : t.kind = "generic_type")
      (hm : m ∈ referenceArgs t) :
      GoesTo t m
  | parameter
      {f : Field (Option Node)} {m : Node}
      (hkind : t.kind = "function_type")
      (hf : f ∈ readParameters (t.child? "parameters"))
      (hm : f.type = some m) :
      GoesTo t m
  | result
      {m : Node}
      (hkind : t.kind = "function_type")
      (hm : t.child? "return_type" = some m) :
      GoesTo t m
  | entry
      {key value : Option Node} {m : Node}
      (hkeyed : KeyedBy t key value)
      (hm : key = some m ∨ value = some m) :
      GoesTo t m

/-- The type parameters that a construct brings into scope. -/
def Shape.params : Shape → List String
  | .function _ typeParams _ _ => typeParams
  | _ => []

end Constructs

section Shapes

variable {t : Node}

theorem typeShape_wrapper
    (h : t.kind = "parenthesized_type" ∨ t.kind = "readonly_type") :
    typeShape t =
      (t.namedChildren.getLast?.map (Shape.wrapped t.line)).getD (.hollow t.line t.text) := by
  unfold typeShape
  rw [if_pos (by rcases h with h | h <;> simp [h])]
  cases t.namedChildren.getLast? with
  | none => rfl
  | some inner => rfl

theorem typeShape_name
    (h : t.kind = "type_identifier" ∨ t.kind = "identifier") :
    typeShape t = .name t.line t.text := by
  unfold typeShape
  rcases h with h | h
  · simp [h]
  · simp [h]

theorem typeShape_array
    (h : t.kind = "array_type") :
    typeShape t =
      (t.namedChildren.head?.map (Shape.array t.line)).getD (.bareArray t.line) := by
  unfold typeShape
  cases t.namedChildren.head? with
  | none => simp [h]
  | some element => simp [h]

theorem typeShape_generic
    (h : t.kind = "generic_type") :
    typeShape t = .reference t.line (referenceLabel t) (referenceArgs t) := by
  unfold typeShape referenceLabel
  simp [h]

theorem typeShape_function
    (h : t.kind = "function_type") :
    typeShape t = .function t.line (functionTypeParams t) (readParameters (t.child? "parameters"))
      (t.child? "return_type") := by
  unfold typeShape
  simp [h]

theorem typeShape_object (h : t.kind = "object_type") : typeShape t = objectShape t := by
  unfold typeShape
  simp [h]

theorem typeShape_other
    (h : t.kind ∉ takenApart)
    (hobject : t.kind ≠ "object_type") :
    typeShape t = .verbatim t.line [] t.text t.typeNames := by
  have h : ∀ kind ∈ takenApart, t.kind ≠ kind := fun kind hmem heq => h (heq ▸ hmem)
  unfold typeShape
  simp_all [takenApart]

theorem objectShape_of_keyed
    {key value : Option Node}
    (h : KeyedBy t key value) :
    objectShape t = .keyed t.line (skippedOf (readBody (some t))) key value := by
  obtain ⟨-, label, hmembers⟩ := h
  unfold objectShape
  dsimp only
  rw [hmembers]

theorem objectShape_of_not_keyed
    (hkind : t.kind = "object_type")
    (h : ∀ key value, ¬ KeyedBy t key value) :
    objectShape t = .verbatim t.line (skippedOf (readBody (some t))) t.text t.typeNames := by
  unfold objectShape
  dsimp only
  split
  · rename_i label key value hmembers
    exact absurd ⟨hkind, label, hmembers⟩ (h key value)
  · rfl

/-- What is kept as text is read as text. -/
theorem exists_typeShape_of_keptAsText
    (h : KeptAsText t) :
    ∃ skipped, typeShape t = .verbatim t.line skipped t.text t.typeNames := by
  by_cases hobject : t.kind = "object_type"
  · exact ⟨_, (typeShape_object hobject).trans (objectShape_of_not_keyed hobject h.2)⟩
  · exact ⟨_, typeShape_other h.1 hobject⟩

theorem typeShape_keyed
    {key value : Option Node}
    (h : KeyedBy t key value) :
    typeShape t = .keyed t.line (skippedOf (readBody (some t))) key value :=
  (typeShape_object h.1).trans (objectShape_of_keyed h)

/-- One case for each construct. -/
theorem construct_cases (t : Node) :
    (t.kind = "parenthesized_type" ∨ t.kind = "readonly_type") ∨
    (t.kind = "type_identifier" ∨ t.kind = "identifier") ∨
    t.kind = "array_type" ∨
    t.kind = "generic_type" ∨
    t.kind = "function_type" ∨
    (∃ key value, KeyedBy t key value) ∨
    KeptAsText t := by
  by_cases hkeyed : ∃ key value, KeyedBy t key value
  · exact .inr (.inr (.inr (.inr (.inr (.inl hkeyed)))))
  · by_cases hkind : t.kind ∈ takenApart
    · simp only [takenApart, List.mem_cons, List.not_mem_nil, or_false] at hkind
      tauto
    · refine .inr (.inr (.inr (.inr (.inr (.inr ⟨hkind, ?_⟩)))))
      exact fun key value h => hkeyed ⟨key, value, h⟩

theorem goesTo_iff {m : Node} : GoesTo t m ↔ m ∈ (typeShape t).parts := by
  constructor
  · intro h
    cases h with
    | inner hkind hm =>
        rw [typeShape_wrapper hkind, hm]
        exact List.mem_singleton_self m
    | element hkind hm =>
        rw [typeShape_array hkind, hm]
        exact List.mem_singleton_self m
    | argument hkind hm =>
        rw [typeShape_generic hkind]
        exact hm
    | parameter hkind hf hm =>
        rw [typeShape_function hkind]
        exact List.mem_append_left _ (List.mem_filterMap.2 ⟨_, hf, hm⟩)
    | result hkind hm =>
        rw [typeShape_function hkind]
        exact List.mem_append_right _ (Option.mem_toList.2 hm)
    | entry hkeyed hm =>
        rw [typeShape_keyed hkeyed]
        rcases hm with hm | hm
        · exact List.mem_append_left _ (Option.mem_toList.2 hm)
        · exact List.mem_append_right _ (Option.mem_toList.2 hm)
  · intro h
    rcases construct_cases t with hkind | hkind | hkind | hkind | hkind | ⟨key, value, hkeyed⟩ | hkept
    · rw [typeShape_wrapper hkind] at h
      cases hlast : t.namedChildren.getLast? with
      | none =>
          rw [hlast] at h
          cases h
      | some inner =>
          rw [hlast] at h
          cases List.mem_singleton.1 h
          exact .inner hkind hlast
    · rw [typeShape_name hkind] at h
      cases h
    · rw [typeShape_array hkind] at h
      cases hhead : t.namedChildren.head? with
      | none =>
          rw [hhead] at h
          cases h
      | some element =>
          rw [hhead] at h
          cases List.mem_singleton.1 h
          exact .element hkind hhead
    · rw [typeShape_generic hkind] at h
      exact .argument hkind h
    · rw [typeShape_function hkind] at h
      rcases List.mem_append.1 h with h | h
      · obtain ⟨f, hf, hm⟩ := List.mem_filterMap.1 h
        exact .parameter hkind hf hm
      · exact .result hkind (Option.mem_toList.1 h)
    · rw [typeShape_keyed hkeyed] at h
      rcases List.mem_append.1 h with h | h
      · exact .entry hkeyed (.inl (Option.mem_toList.1 h))
      · exact .entry hkeyed (.inr (Option.mem_toList.1 h))
    · obtain ⟨skipped, hshape⟩ := exists_typeShape_of_keptAsText hkept
      rw [hshape] at h
      cases h

theorem signatureParams_eq (t : Node) : signatureParams t = (typeShape t).params := by
  unfold signatureParams
  by_cases hkind : t.kind = "function_type"
  · rw [if_pos hkind, typeShape_function hkind]
    rfl
  · rw [if_neg hkind]
    rcases construct_cases t with hw | hn | ha | hg | hf | ⟨key, value, hkeyed⟩ | hkept
    · rw [typeShape_wrapper hw]
      cases t.namedChildren.getLast? <;> rfl
    · rw [typeShape_name hn]
      rfl
    · rw [typeShape_array ha]
      cases t.namedChildren.head? <;> rfl
    · rw [typeShape_generic hg]
      rfl
    · exact absurd hf hkind
    · rw [typeShape_keyed hkeyed]
      rfl
    · obtain ⟨skipped, hshape⟩ := exists_typeShape_of_keptAsText hkept
      rw [hshape]
      rfl

end Shapes

section Induction

variable {n t : Node}

theorem Written.ofNode_of_absent (h : n.annotated? = none) : Written.ofNode n = .absent := by
  rw [Written.ofNode_eq, Syntax.Node.shape, h]
  rfl

theorem Written.ofNode_of_type
    (h : n.annotated? = some t) :
    Written.ofNode n = (typeShape t).written := by
  rw [Written.ofNode_eq, Syntax.Node.shape, h]

/-- A node of a kind that puts no colon before a type is read as a type itself. -/
theorem Written.ofNode_of_kind
    (h : t.kind ∉ annotationKinds) :
    Written.ofNode t = (typeShape t).written := by
  refine Written.ofNode_of_type (if_neg ?_)
  unfold Syntax.Node.isAnnotation
  simpa using h

/-- Induction on nodes as types: what holds where there is no type, and of a type
whenever it holds of the nodes that its construct is made of, holds of every node.  These
nodes need not be children: arguments and parameters lie deeper. -/
@[elab_as_elim]
theorem Syntax.Node.typeInduct
    {P : Node → Prop}
    (absent : ∀ n : Node, n.annotated? = none → P n)
    (type : ∀ n t : Node, n.annotated? = some t → (∀ c ∈ (typeShape t).parts, P c) → P n)
    (n : Node) :
    P n := by
  induction hsize : n.size using Nat.strongRecOn generalizing n with
  | ind size ih =>
      cases ht : n.annotated? with
      | none => exact absent n ht
      | some t =>
          refine type n t ht fun c hc => ih c.size ?_ c rfl
          have hlt := size_lt_of_mem_typeShape hc
          have hle := Syntax.Node.size_le_of_annotated? ht
          omega

end Induction

end DeclGraph
