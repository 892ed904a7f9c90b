import DeclGraph.Proofs.LinkedNames
import DeclGraph.Proofs.NestingDepth
import DeclGraph.Proofs.Stripping

/-!
# Object types

An object type is an association or it is kept as text, and which of the two it is
depends on the fields that its children give.

* A child that gives no field is `Fieldless`: a comment, a call or construct signature,
  a constructor, a setter, a mapped type, or a node of a kind that no body has.
* `Sole aside t i` says that `i` is the only named child of `t`, apart from those that do
  not count.

An object type is an association exactly when an index signature is its sole child apart
from the fieldless ones.  Comments are fieldless, so an index signature that stands alone
is enough; it is not necessary, since a construct signature beside it goes unnoticed.
-/

namespace DeclGraph

open Syntax (Node)

section Fields

/-- A mapped type, which has the form of an index signature. -/
def Syntax.Node.IsMapped (n : Node) : Prop :=
  ∃ c ∈ n.namedChildren, c.kind = "mapped_type_clause"

/-- An index signature that is not a mapped type. -/
def Syntax.Node.IsIndex (n : Node) : Prop :=
  n.kind = "index_signature" ∧ ¬ n.IsMapped

/-- A node of a body that gives no field.  It is not a property; if it is a method, then it
is a constructor or a setter; and if it is an index signature, then it is a mapped type. -/
def Syntax.Node.Fieldless (n : Node) : Prop :=
  n.kind ∉ propertyKinds ∧
    (n.kind ∈ methodKinds → memberName n = "constructor" ∨ hasToken n "set" = true) ∧
    (n.kind = "index_signature" → n.IsMapped)

/-- A comment between the members of a body. -/
def Syntax.Node.IsComment (n : Node) : Prop :=
  n.kind = "comment"

instance (n : Node) : Decidable n.IsMapped :=
  inferInstanceAs (Decidable (∃ c ∈ n.namedChildren, c.kind = "mapped_type_clause"))

instance (n : Node) : Decidable n.IsIndex :=
  inferInstanceAs (Decidable (_ ∧ _))

instance (n : Node) : Decidable n.Fieldless :=
  inferInstanceAs (Decidable (_ ∧ _ ∧ _))

/-- Apart from nodes that do not count, a node has one named child. -/
def Syntax.Node.Sole (aside : Node → Prop) (t i : Node) : Prop :=
  ∃ before after, t.namedChildren = before ++ i :: after ∧ ∀ c ∈ before ++ after, aside c

/-- The member that an item of a body is. -/
def memberOf? : BodyItem → Option Member
  | .member m => some m
  | _ => none

/-- The member that a node of a body gives. -/
def fieldOf? (n : Node) : Option Member :=
  memberOf? (readBodyItem n)

variable {n t i : Node}

theorem fieldOf?_eq_some_iff
    {m : Member} :
    fieldOf? n = some m ↔ readBodyItem n = .member m := by
  unfold fieldOf?
  cases readBodyItem n <;> simp [memberOf?]

theorem Syntax.Node.Sole.mono
    {P Q : Node → Prop}
    (h : t.Sole P i)
    (hPQ : ∀ c ∈ t.namedChildren, P c → Q c) :
    t.Sole Q i := by
  obtain ⟨before, after, hchildren, haside⟩ := h
  refine ⟨before, after, hchildren, fun c hc => hPQ c ?_ (haside c hc)⟩
  rw [hchildren]
  simp only [List.mem_append, List.mem_cons] at hc ⊢
  tauto

theorem readBodyItem_property
    (h : n.kind ∈ propertyKinds) :
    readBodyItem n =
      .member (.property (memberName n) ((n.child? "type").bind Syntax.Node.annotated?)
        (hasToken n "?")) := by
  unfold readBodyItem
  simp [h]

theorem readBodyItem_method
    (h : n.kind ∈ methodKinds)
    (hskipped : ¬ (memberName n = "constructor" ∨ hasToken n "set" = true))
    (hget : hasToken n "get" = false) :
    readBodyItem n =
      .member (.method (memberName n) (hasToken n "?") (readTypeParams (n.child? "type_parameters"))
        (readParameters (n.child? "parameters"))
        ((n.child? "return_type").bind Syntax.Node.annotated?)) := by
  have hproperty : n.kind ∉ propertyKinds := by
    intro hmem
    simp only [propertyKinds, methodKinds, List.mem_cons, List.not_mem_nil, or_false] at h hmem
    rcases hmem with hkind | hkind <;> simp [hkind] at h
  unfold readBodyItem
  simp [hproperty, h, hskipped, hget]

/-- The parts of an index signature. -/
def Syntax.Node.indexParts (n : Node) : IndexParts :=
  n.namedChildren.foldl IndexParts.add {}

theorem readIndexParts_namedChildren (n : Node) :
    readIndexParts {} n.namedChildren = if n.IsMapped then none else some n.indexParts :=
  readIndexParts_eq {} n.namedChildren

theorem readBodyItem_index
    (h : n.IsIndex) :
    readBodyItem n =
      .member (.index n.indexParts.key n.indexParts.keyType n.indexParts.valueType) := by
  unfold readBodyItem
  simp [h.1, h.2, readIndexParts_namedChildren, propertyKinds, methodKinds]

/-- What is read as an index is an index signature, and not a mapped type. -/
theorem isIndex_of_fieldOf?
    {label : String} {key value : Option Node}
    (h : fieldOf? n = some (.index label key value)) :
    n.IsIndex := by
  have hread := fieldOf?_eq_some_iff.1 h
  unfold readBodyItem at hread
  split at hread
  · cases hread
  · split at hread
    · dsimp only at hread
      split at hread
      · cases hread
      · split at hread <;> cases hread
    · split at hread
      · rename_i hkind
        refine ⟨beq_iff_eq.1 hkind, fun hmapped => ?_⟩
        rw [readIndexParts_namedChildren, if_pos hmapped] at hread
        cases hread
      · split at hread <;> cases hread

/-- The fieldless nodes are those that give no member. -/
theorem fieldless_iff : n.Fieldless ↔ fieldOf? n = none := by
  unfold Syntax.Node.Fieldless fieldOf?
  by_cases hproperty : n.kind ∈ propertyKinds
  · simp [memberOf?, readBodyItem_property hproperty, hproperty]
  by_cases hmethod : n.kind ∈ methodKinds
  · have hindex : n.kind ≠ "index_signature" := by
      intro hkind
      simp [hkind, methodKinds] at hmethod
    unfold readBodyItem
    by_cases hskipped : memberName n = "constructor" ∨ hasToken n "set" = true
    · simp [memberOf?, hproperty, hmethod, hindex, hskipped]
    · cases hget : hasToken n "get" with
      | true => simp [memberOf?, hproperty, hmethod, hskipped]
      | false => simp [memberOf?, hproperty, hmethod, hskipped]
  by_cases hindex : n.kind = "index_signature"
  · by_cases hmapped : n.IsMapped
    · unfold readBodyItem
      simp [memberOf?, hindex, hmapped, readIndexParts_namedChildren, propertyKinds, methodKinds]
    · simp [memberOf?, readBodyItem_index ⟨hindex, hmapped⟩, hindex, hmapped]
  · unfold readBodyItem
    by_cases hskipped : n.kind ∈ skippedKinds
    · simp [memberOf?, hproperty, hmethod, hindex, hskipped]
    · simp [memberOf?, hproperty, hmethod, hindex, hskipped]

theorem fieldless_of_isComment (h : n.IsComment) : n.Fieldless := by
  have hkind : n.kind = "comment" := h
  simp [Syntax.Node.Fieldless, hkind, propertyKinds, methodKinds]

theorem membersOf_readBody (t : Node) :
    membersOf (readBody (some t)) = t.namedChildren.filterMap fieldOf? := by
  unfold membersOf readBody
  rw [List.filterMap_map]
  rfl

/-- A body has one member exactly when one child gives it and all others are fieldless. -/
theorem membersOf_eq_singleton_iff
    {m : Member} :
    membersOf (readBody (some t)) = [m]
      ↔
    ∃ i, t.Sole Syntax.Node.Fieldless i ∧ fieldOf? i = some m := by
  rw [membersOf_readBody, List.filterMap_eq_cons_iff]
  constructor
  · rintro ⟨before, i, after, hchildren, hbefore, hi, hafter⟩
    refine ⟨i, ⟨before, after, hchildren, fun c hc => fieldless_iff.2 ?_⟩, hi⟩
    rcases List.mem_append.1 hc with hc | hc
    · exact hbefore c hc
    · exact List.filterMap_eq_nil_iff.1 hafter c hc
  · rintro ⟨i, ⟨before, after, hchildren, haside⟩, hi⟩
    obtain ⟨hbefore, hafter⟩ := List.forall_mem_append.1 haside
    refine ⟨before, i, after, hchildren, fun c hc => fieldless_iff.1 (hbefore c hc), hi, ?_⟩
    exact List.filterMap_eq_nil_iff.2 fun c hc => fieldless_iff.1 (hafter c hc)

/-- An object type is an association exactly when an index signature gives its only field. -/
theorem exists_keyedBy_iff
    (hkind : t.kind = "object_type") :
    (∃ key value, KeyedBy t key value) ↔ ∃ i, i.IsIndex ∧ t.Sole Syntax.Node.Fieldless i := by
  constructor
  · rintro ⟨key, value, -, label, hmembers⟩
    obtain ⟨i, hsole, hi⟩ := membersOf_eq_singleton_iff.1 hmembers
    exact ⟨i, isIndex_of_fieldOf? hi, hsole⟩
  · rintro ⟨i, hindex, hsole⟩
    have hfield := fieldOf?_eq_some_iff.2 (readBodyItem_index hindex)
    exact ⟨_, _, hkind, _, membersOf_eq_singleton_iff.2 ⟨i, hsole, hfield⟩⟩

end Fields

section Resolving

variable {ctx : Context} {scope : List String} {n t : Node} {r : TypeExpr}

theorem exists_keyed_of_resolveNode
    {key value : Option Node}
    (ht : n.annotated? = some t)
    (hkeyed : KeyedBy t key value)
    (h : (resolveNode ctx scope (some n)).outcome = .ok r) :
    ∃ k v, r = .keyed k v := by
  change (resolve ctx scope 0 (.ofNode n)).outcome = .ok r at h
  rw [Written.ofNode_of_type ht, typeShape_keyed hkeyed] at h
  obtain ⟨-, k, v, -, -, rfl⟩ := resolve_keyed_eq_ok_iff.1 h
  exact ⟨k, v, rfl⟩

theorem eq_verbatim_of_resolveNode
    (ht : n.annotated? = some t)
    (hkind : t.kind = "object_type")
    (hkeyed : ¬ ∃ key value, KeyedBy t key value)
    (h : (resolveNode ctx scope (some n)).outcome = .ok r) :
    r = .verbatim t.text (ctx.references scope t.typeNames) := by
  change (resolve ctx scope 0 (.ofNode n)).outcome = .ok r at h
  have hnot : ∀ key value, ¬ KeyedBy t key value := fun key value hk => hkeyed ⟨key, value, hk⟩
  rw [Written.ofNode_of_type ht, typeShape_object hkind, objectShape_of_not_keyed hkind hnot] at h
  exact (resolve_verbatim_eq_ok_iff.1 h).2

/-- An object type is resolved to an association exactly when an index signature that is
not a mapped type is its sole child apart from the fieldless ones, and any other object
type stays text, with the references in it.  With room for its demand it is resolved.

If comments are its only fieldless children, this is the case exactly when the index
signature is the sole child apart from comments. -/
theorem object_type_keyed_iff
    (n t : Node)
    (ht : n.annotated? = some t)
    (hkind : t.kind = "object_type")
    (ctx : Context) (scope : List String) :
    (n.Every Syntax.Node.HasElement → n.demand ≤ ctx.limit →
      ∃ r, (resolveNode ctx scope (some n)).outcome = .ok r) ∧
    ∀ r, (resolveNode ctx scope (some n)).outcome = .ok r →
      ((∃ k v, r = .keyed k v) ↔ ∃ i, i.IsIndex ∧ t.Sole Syntax.Node.Fieldless i) ∧
      ((¬ ∃ i, i.IsIndex ∧ t.Sole Syntax.Node.Fieldless i) →
        r = .verbatim t.text (ctx.references scope t.typeNames)) ∧
      ((∃ i, i.IsIndex ∧ t.Sole Syntax.Node.IsComment i) → ∃ k v, r = .keyed k v) ∧
      ((∀ c ∈ t.namedChildren, c.Fieldless → c.IsComment) →
        ((∃ k v, r = .keyed k v) ↔ ∃ i, i.IsIndex ∧ t.Sole Syntax.Node.IsComment i)) := by
  refine ⟨fun hn hdemand => exists_resolveNode_of_demand_le ctx.known scope ht hn hdemand, ?_⟩
  intro r hr
  have hiff : (∃ k v, r = .keyed k v) ↔ ∃ i, i.IsIndex ∧ t.Sole Syntax.Node.Fieldless i := by
    rw [← exists_keyedBy_iff hkind]
    constructor
    · rintro ⟨k, v, rfl⟩
      by_contra hkeyed
      cases eq_verbatim_of_resolveNode ht hkind hkeyed hr
    · rintro ⟨key, value, hkeyed⟩
      exact exists_keyed_of_resolveNode ht hkeyed hr
  have hcomments : (∃ i, i.IsIndex ∧ t.Sole Syntax.Node.IsComment i) →
      ∃ i, i.IsIndex ∧ t.Sole Syntax.Node.Fieldless i := by
    rintro ⟨i, hindex, hsole⟩
    exact ⟨i, hindex, hsole.mono fun c _ => fieldless_of_isComment⟩
  refine ⟨hiff, fun hsole => ?_, fun hsole => hiff.2 (hcomments hsole), fun honly => ?_⟩
  · rw [← exists_keyedBy_iff hkind] at hsole
    exact eq_verbatim_of_resolveNode ht hkind hsole hr
  · refine hiff.trans ⟨?_, hcomments⟩
    rintro ⟨i, hindex, hsole⟩
    exact ⟨i, hindex, hsole.mono honly⟩

/-- The construct signature beside an index signature is no comment, and gives no field
either: so the object type is resolved to an association, although it has two members. -/
theorem object_type_keyed_iff_besideIndex :
    besideIndex.annotated? = some besideIndex ∧ besideIndex.kind = "object_type" ∧
    (∃ i, i.IsIndex ∧ besideIndex.Sole Syntax.Node.Fieldless i) ∧
    (¬ ∃ i, i.IsIndex ∧ besideIndex.Sole Syntax.Node.IsComment i) ∧
    ∃ r, (resolveNode ⟨["A", "B"], 64⟩ [] (some besideIndex)).outcome = .ok r ∧
      ∃ k v, r = .keyed k v := by
  have ht : besideIndex.annotated? = some besideIndex := if_neg (by decide)
  have hkind : besideIndex.kind = "object_type" := rfl
  obtain ⟨hresolves, hresult⟩ :=
    object_type_keyed_iff besideIndex besideIndex ht hkind ⟨["A", "B"], 64⟩ []
  obtain ⟨r, hr⟩ := hresolves (by decide +kernel) (by decide +kernel)
  have hsole : ∃ i, i.IsIndex ∧ besideIndex.Sole Syntax.Node.Fieldless i :=
    ⟨_, by decide, [], [_], rfl, by decide⟩
  refine ⟨ht, hkind, hsole, ?_, r, hr, (hresult r hr).1.2 hsole⟩
  rintro ⟨i, hindex, before, after, hchildren, haside⟩
  -- Neither child is a comment, so each of them would have to be the index signature.
  have hall : ∀ c ∈ besideIndex.namedChildren, c.kind = "index_signature" ∨ c.kind = "comment" := by
    rw [hchildren]
    intro c hc
    simp only [List.mem_append, List.mem_cons] at hc haside
    rcases hc with hc | rfl | hc
    · exact .inr (haside c (.inl hc))
    · exact .inl hindex.1
    · exact .inr (haside c (.inr hc))
  exact absurd hall (by decide)

end Resolving

end DeclGraph
