import DeclGraph.Proofs.Constructs
import DeclGraph.Proofs.Resolution

/-!
# Names that are mentioned

Resolving a type node keeps some of the names in the node as mentions: references by
name, and names of generic references.  Which ones depends on the constructs, on the
declared names and on the type parameters in scope.

* `Gives` is about one construct.  A name alone, or in a text, is mentioned if it is
  declared and no type parameter.  A name with type arguments is mentioned whatever it
  is, except that an array of one argument loses its name.
* `Named` follows the constructs into the parts that resolution goes on with.

The mentions of a resolved type are exactly the names that are `Named` in its node.
-/

namespace DeclGraph

open Syntax (Node)

section Constructs

/-- The names that a type mentions by itself, when some names are declared. -/
inductive Gives (known : List String) (name : String) (scope : List String) (t : Node) : Prop
  | alone
      (hkind : t.kind = "type_identifier" ∨ t.kind = "identifier")
      (htext : t.text = name)
      (hfree : name ∈ known ∧ name ∉ scope)
  | reference
      (hkind : t.kind = "generic_type")
      (hlabel : referenceLabel t = name)
      (hfree : referenceArgs t = [] → name ∈ known ∧ name ∉ scope)
      (harray : (referenceArgs t).length = 1 → name ∉ arrayNames)
  | text
      (hkept : KeptAsText t)
      (hmem : name ∈ t.typeNames)
      (hfree : name ∈ known ∧ name ∉ scope)

/-- A name is mentioned by a node, or by a part that resolution goes on with. -/
inductive Named (known : List String) (name : String) : List String → Node → Prop
  | here
      {scope : List String} {n t : Node}
      (ht : n.annotated? = some t)
      (hgives : Gives known name scope t) :
      Named known name scope n
  | part
      {scope : List String} {n t m : Node}
      (ht : n.annotated? = some t)
      (hm : GoesTo t m)
      (hnamed : Named known name (signatureParams t ++ scope) m) :
      Named known name scope n

/-- The names that a construct mentions by itself. -/
def Shape.Gives (known : List String) (name : String) (scope : List String) : Shape → Prop
  | .name _ label => label = name ∧ name ∈ known ∧ name ∉ scope
  | .reference _ label args =>
    label = name ∧ (args = [] → name ∈ known ∧ name ∉ scope) ∧
      (args.length = 1 → name ∉ arrayNames)
  | .verbatim _ _ _ names => name ∈ names ∧ name ∈ known ∧ name ∉ scope
  | _ => False

variable {t : Node} {known : List String} {name : String} {scope : List String}

theorem gives_iff : Gives known name scope t ↔ (typeShape t).Gives known name scope := by
  constructor
  · intro h
    cases h with
    | alone hkind htext hfree =>
        rw [typeShape_name hkind]
        exact ⟨htext, hfree⟩
    | reference hkind hlabel hfree harray =>
        rw [typeShape_generic hkind]
        exact ⟨hlabel, hfree, harray⟩
    | text hkept hmem hfree =>
        obtain ⟨skipped, hshape⟩ := exists_typeShape_of_keptAsText hkept
        rw [hshape]
        exact ⟨hmem, hfree⟩
  · intro h
    rcases construct_cases t with hkind | hkind | hkind | hkind | hkind | ⟨key, value, hkeyed⟩ | hkept
    · rw [typeShape_wrapper hkind] at h
      cases hlast : t.namedChildren.getLast? <;> simp [hlast, Shape.Gives] at h
    · rw [typeShape_name hkind] at h
      exact .alone hkind h.1 h.2
    · rw [typeShape_array hkind] at h
      cases hhead : t.namedChildren.head? <;> simp [hhead, Shape.Gives] at h
    · rw [typeShape_generic hkind] at h
      exact .reference hkind h.1 h.2.1 h.2.2
    · rw [typeShape_function hkind] at h
      exact h.elim
    · rw [typeShape_keyed hkeyed] at h
      exact h.elim
    · obtain ⟨skipped, hshape⟩ := exists_typeShape_of_keptAsText hkept
      rw [hshape] at h
      exact .text hkept h.1 h.2

/-- What a node with a type mentions, the type mentions by itself or its parts do. -/
theorem named_iff
    {n : Node}
    (ht : n.annotated? = some t) :
    Named known name scope n
      ↔
    (typeShape t).Gives known name scope ∨
      ∃ m ∈ (typeShape t).parts, Named known name ((typeShape t).params ++ scope) m := by
  rw [← gives_iff, ← signatureParams_eq]
  constructor
  · intro h
    cases h with
    | here ht' hgives =>
        cases ht.symm.trans ht'
        exact .inl hgives
    | part ht' hm hnamed =>
        cases ht.symm.trans ht'
        exact .inr ⟨_, goesTo_iff.1 hm, hnamed⟩
  · rintro (hgives | ⟨m, hm, hnamed⟩)
    · exact .here ht hgives
    · exact .part ht (goesTo_iff.2 hm) hnamed

end Constructs

section Mentioned

/-- A resolved type refers to a name, or has it as the name of a generic reference. -/
def TypeExpr.MentionsName (name : String) (t : TypeExpr) : Prop :=
  ∃ m ∈ t.mentions, m.name = name

theorem exists_mentionsAll_iff {name : String} {ts : List TypeExpr} :
    (∃ m ∈ mentionsAll ts, m.name = name) ↔ ∃ t ∈ ts, t.MentionsName name := by
  rw [TypeExpr.mentionsAll_eq_flatMap]
  simp only [List.mem_flatMap, TypeExpr.MentionsName]
  constructor
  · rintro ⟨m, ⟨t, ht, hm⟩, hname⟩
    exact ⟨t, ht, m, hm, hname⟩
  · rintro ⟨t, ht, m, hm, hname⟩
    exact ⟨m, ⟨t, ht, hm⟩, hname⟩

theorem mentionsName_function_iff
    {name : String} {args : List (Field TypeExpr)} {result : TypeExpr} :
    (TypeExpr.function args result).MentionsName name
      ↔
    (∃ f ∈ args, f.type.MentionsName name) ∨ result.MentionsName name := by
  unfold TypeExpr.MentionsName
  rw [TypeExpr.mentions, TypeExpr.mentionsFields_eq_flatMap]
  simp only [List.mem_append, List.mem_flatMap, or_and_right, exists_or]
  refine or_congr ⟨?_, ?_⟩ Iff.rfl
  · rintro ⟨m, ⟨f, hf, hm⟩, hname⟩
    exact ⟨f, hf, m, hm, hname⟩
  · rintro ⟨f, hf, m, hm, hname⟩
    exact ⟨m, ⟨f, hf, hm⟩, hname⟩

theorem mentionsName_keyed_iff {name : String} {key value : TypeExpr} :
    (TypeExpr.keyed key value).MentionsName name
      ↔
    key.MentionsName name ∨ value.MentionsName name := by
  unfold TypeExpr.MentionsName
  rw [TypeExpr.mentions]
  simp only [List.mem_append, or_and_right, exists_or]

variable {ctx : Context} {scope : List String} {name : String}

/-- A name is mentioned by the type of a name alone if it is that name, declared, and no
type parameter. -/
theorem mentionsName_nameType (label : String) :
    (ctx.nameType scope label).MentionsName name
      ↔
    label = name ∧ name ∈ ctx.known ∧ name ∉ scope := by
  unfold Context.nameType TypeExpr.MentionsName
  by_cases hscope : label ∈ scope
  · rw [if_pos (List.contains_iff_mem.2 hscope)]
    constructor
    · rintro ⟨m, hm, -⟩
      cases hm
    · rintro ⟨rfl, -, hnot⟩
      exact absurd hscope hnot
  · rw [if_neg (mt List.contains_iff_mem.1 hscope)]
    by_cases hlabel : label ∈ ctx.known
    · rw [if_pos (List.contains_iff_mem.2 hlabel)]
      constructor
      · rintro ⟨m, hm, hname⟩
        cases List.mem_singleton.1 hm
        cases hname
        exact ⟨rfl, hlabel, hscope⟩
      · rintro ⟨rfl, -⟩
        exact ⟨.reference label, List.mem_singleton_self _, rfl⟩
    · rw [if_neg (mt List.contains_iff_mem.1 hlabel)]
      constructor
      · rintro ⟨m, hm, -⟩
        cases hm
      · rintro ⟨rfl, hknown, -⟩
        exact absurd hknown hlabel

theorem mentionsName_generic_iff
    {label : String} {args : List TypeExpr} {target : Option Link} :
    (TypeExpr.generic label args target).MentionsName name
      ↔
    label = name ∨ ∃ t ∈ args, t.MentionsName name := by
  rw [← exists_mentionsAll_iff]
  unfold TypeExpr.MentionsName
  rw [TypeExpr.mentions]
  simp only [List.mem_append, List.mem_singleton, or_and_right, exists_or, exists_eq_left]
  exact Or.comm

/-- With type arguments a name is mentioned even if it is a type parameter. -/
theorem mentionsName_referenceType (label : String) (args : List TypeExpr) :
    (ctx.referenceType scope label args).MentionsName name
      ↔
    (label = name ∧ (args = [] → name ∈ ctx.known ∧ name ∉ scope) ∧
      (args.length = 1 → name ∉ arrayNames)) ∨
      ∃ t ∈ args, t.MentionsName name := by
  unfold Context.referenceType
  split
  · rw [mentionsName_nameType]
    simp
  · rename_i arg
    split
    · rename_i hlabel
      -- The name of an array is lost.
      have harray : ¬ (label = name ∧ name ∉ arrayNames) := by
        rintro ⟨rfl, hnot⟩
        exact hnot (List.contains_iff_mem.1 hlabel)
      show (∃ m ∈ arg.mentions, m.name = name) ↔ _
      simpa [TypeExpr.MentionsName] using fun h hnot => absurd ⟨h, hnot⟩ harray
    · rename_i hlabel
      have harray : label = name → name ∉ arrayNames := by
        rintro rfl hmem
        exact hlabel (List.contains_iff_mem.2 hmem)
      have hkeeps : label = name ↔ label = name ∧ name ∉ arrayNames :=
        ⟨fun h => ⟨h, harray h⟩, And.left⟩
      rw [mentionsName_generic_iff, hkeeps]
      simp
  · rename_i hnil hone
    have hlength : args.length ≠ 1 := by
      intro hlength
      obtain ⟨arg, rfl⟩ := List.length_eq_one_iff.1 hlength
      exact hone arg rfl
    rw [mentionsName_generic_iff]
    refine or_congr ⟨fun h => ⟨h, fun hargs => absurd hargs hnil, fun h => absurd h hlength⟩, And.left⟩
      Iff.rfl

theorem mentionsName_verbatim_references (text : String) (names : List String) :
    (TypeExpr.verbatim text (ctx.references scope names)).MentionsName name
      ↔
    name ∈ names ∧ name ∈ ctx.known ∧ name ∉ scope := by
  unfold TypeExpr.MentionsName
  rw [TypeExpr.mentions, exists_mentionsAll_iff]
  constructor
  · rintro ⟨t, ht, m, hm, hname⟩
    obtain ⟨label, hlabel, hknown, hscope, rfl⟩ := mem_references_iff.1 ht
    cases List.mem_singleton.1 hm
    cases hname
    exact ⟨hlabel, hknown, hscope⟩
  · rintro ⟨hmem, hknown, hscope⟩
    exact ⟨.pending name, mem_references_iff.2 ⟨name, hmem, hknown, hscope, rfl⟩,
      .reference name, List.mem_singleton_self _, rfl⟩

end Mentioned

section Resolved

variable {ctx : Context} {name : String}

/-- Resolving a node mentions exactly the names that are named in it, in any scope
and at any depth. -/
def ResolvesNamed (ctx : Context) (name : String) (n : Node) : Prop :=
  ∀ scope depth t, (resolve ctx scope depth (.ofNode n)).outcome = .ok t →
    (t.MentionsName name ↔ Named ctx.known name scope n)

variable {scope : List String} {depth : Nat} {t : TypeExpr}

theorem mentionsName_ofNode?
    {n : Option Node}
    (hn : ∀ m ∈ n, ResolvesNamed ctx name m)
    (h : (resolve ctx scope depth (.ofNode? n)).outcome = .ok t) :
    t.MentionsName name ↔ ∃ m, n = some m ∧ Named ctx.known name scope m := by
  cases n with
  | none =>
      cases resolve_absent_eq_ok_iff.1 h
      constructor
      · rintro ⟨m, hm, -⟩
        cases hm
      · rintro ⟨m, hm, -⟩
        cases hm
  | some m =>
      rw [hn m rfl scope depth t h]
      simp

/-- The parameters of a signature mention what is named in their types. -/
theorem mentionsName_params
    {params : List (Field (Option Node))} {fs : List (Field TypeExpr)}
    (hparams : ∀ f ∈ params, ∀ m ∈ f.type, ResolvesNamed ctx name m)
    (h : List.Forall₂ (ResolvesParam ctx scope depth) (params.map writtenParam) fs) :
    (∃ f ∈ fs, f.type.MentionsName name)
      ↔
    ∃ f ∈ params, ∃ m, f.type = some m ∧ Named ctx.known name scope m := by
  rw [List.forall₂_map_left_iff] at h
  exact exists_mem_iff_of_forall₂ h fun p hp _ hresolves =>
    mentionsName_ofNode? (hparams p hp) hresolves.2.2

/-- The nodes of a signature that are resolved: the types of its parameters and its result. -/
def signatureTypes (params : List (Field (Option Node))) (result : Option Node) : List Node :=
  params.filterMap (·.type) ++ result.toList

theorem exists_mem_signatureTypes_iff
    {params : List (Field (Option Node))} {result : Option Node} {p : Node → Prop} :
    (∃ m ∈ signatureTypes params result, p m)
      ↔
    (∃ f ∈ params, ∃ m, f.type = some m ∧ p m) ∨ ∃ m, result = some m ∧ p m := by
  unfold signatureTypes
  constructor
  · rintro ⟨m, hm, h⟩
    rcases List.mem_append.1 hm with hm | hm
    · obtain ⟨f, hf, hm⟩ := List.mem_filterMap.1 hm
      exact .inl ⟨f, hf, m, hm, h⟩
    · exact .inr ⟨m, Option.mem_toList.1 hm, h⟩
  · rintro (⟨f, hf, m, hm, h⟩ | ⟨m, hm, h⟩)
    · exact ⟨m, List.mem_append_left _ (List.mem_filterMap.2 ⟨f, hf, hm⟩), h⟩
    · exact ⟨m, List.mem_append_right _ (Option.mem_toList.2 hm), h⟩

/-- What a construct mentions, it gives by itself or one of its parts does. -/
theorem mentionsName_of_shape
    {shape : Shape}
    (hparts : ∀ m ∈ shape.parts, ResolvesNamed ctx name m)
    (h : (resolve ctx scope depth shape.written).outcome = .ok t) :
    t.MentionsName name
      ↔
    shape.Gives ctx.known name scope ∨ ∃ m ∈ shape.parts, Named ctx.known name (shape.params ++ scope) m := by
  cases shape with
  | absent =>
      cases resolve_absent_eq_ok_iff.1 h
      simp [TypeExpr.MentionsName, TypeExpr.unannotated, TypeExpr.mentions, mentionsAll,
        Shape.Gives, Shape.parts]
  | wrapped line inner =>
      rw [hparts inner (List.mem_singleton_self _) _ _ t (resolve_wrapped_eq_ok_iff.1 h).2]
      simp [Shape.Gives, Shape.parts, Shape.params]
  | hollow line text =>
      cases (resolve_hollow_eq_ok_iff.1 h).2
      simp [TypeExpr.MentionsName, TypeExpr.mentions, mentionsAll, Shape.Gives, Shape.parts]
  | name line label =>
      cases (resolve_name_eq_ok_iff.1 h).2
      rw [mentionsName_nameType]
      simp [Shape.Gives, Shape.parts]
  | array line element =>
      obtain ⟨-, e, he, rfl⟩ := resolve_array_eq_ok_iff.1 h
      show e.MentionsName name ↔ _
      rw [hparts element (List.mem_singleton_self _) _ _ e he]
      simp [Shape.Gives, Shape.parts, Shape.params]
  | bareArray line => exact absurd h resolve_bareArray_ne_ok
  | reference line label args =>
      obtain ⟨-, ts, hts, rfl⟩ := resolve_reference_eq_ok_iff.1 h
      rw [List.forall₂_map_left_iff] at hts
      have hnil : ts = [] ↔ args = [] := by
        rw [← List.length_eq_zero_iff, ← List.length_eq_zero_iff, hts.length_eq]
      rw [mentionsName_referenceType, hnil, ← hts.length_eq]
      refine or_congr Iff.rfl ?_
      exact exists_mem_iff_of_forall₂ hts fun m hm t hresolves => hparts m hm _ _ t hresolves
  | function line typeParams params result =>
      obtain ⟨-, fs, r, hfs, hr, rfl⟩ := resolve_function_eq_ok_iff.1 h
      have hparam : ∀ f ∈ params, ∀ m ∈ f.type, ResolvesNamed ctx name m := fun f hf m hm =>
        hparts m (List.mem_append_left _ (List.mem_filterMap.2 ⟨f, hf, hm⟩))
      have hresult : ∀ m ∈ result, ResolvesNamed ctx name m := fun m hm =>
        hparts m (List.mem_append_right _ (Option.mem_toList.2 hm))
      rw [mentionsName_function_iff, mentionsName_params hparam hfs, mentionsName_ofNode? hresult hr,
        ← exists_mem_signatureTypes_iff]
      exact (iff_of_eq (false_or _)).symm
  | keyed line skipped key value =>
      obtain ⟨-, k, v, hk, hv, rfl⟩ := resolve_keyed_eq_ok_iff.1 h
      have hkey : ∀ m ∈ key, ResolvesNamed ctx name m := fun m hm =>
        hparts m (List.mem_append_left _ (Option.mem_toList.2 hm))
      have hvalue : ∀ m ∈ value, ResolvesNamed ctx name m := fun m hm =>
        hparts m (List.mem_append_right _ (Option.mem_toList.2 hm))
      rw [mentionsName_keyed_iff, mentionsName_ofNode? hkey hk, mentionsName_ofNode? hvalue hv]
      simp only [Shape.Gives, Shape.parts, Shape.params, List.mem_append, Option.mem_toList,
        or_and_right, exists_or, false_or, List.nil_append]
  | verbatim line skipped text names =>
      cases (resolve_verbatim_eq_ok_iff.1 h).2
      rw [mentionsName_verbatim_references]
      simp [Shape.Gives, Shape.parts]

/-- Resolution mentions exactly the names that are named. -/
theorem resolvesNamed (n : Node) : ResolvesNamed ctx name n := by
  induction n using Syntax.Node.typeInduct with
  | absent n hnone =>
      intro scope depth t h
      rw [Written.ofNode_of_absent hnone] at h
      cases resolve_absent_eq_ok_iff.1 h
      constructor
      · rintro ⟨m, hm, -⟩
        cases hm
      · intro hnamed
        cases hnamed with
        | here ht _ => cases hnone.symm.trans ht
        | part ht _ _ => cases hnone.symm.trans ht
  | type n u hu ih =>
      intro scope depth t h
      rw [Written.ofNode_of_type hu] at h
      rw [mentionsName_of_shape ih h, named_iff hu]

end Resolved

end DeclGraph
