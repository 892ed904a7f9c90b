import DeclGraph.Proofs.LinkedNames
import DeclGraph.Proofs.NodeParts

/-!
# Names that type parameters shadow

A type parameter hides the model of its name from what stands in its scope.  So a
type in which every occurrence of a name is bound should have no link to the model of
that name.

* `Unbound` is about the node alone: the name occurs in it as a type name, and neither
  the scope nor a signature around the occurrence declares a type parameter of the name.
* `Escapes` are the ways in which a name is linked although no occurrence is unbound.
  A type parameter that is given type arguments is taken for a model, because only the
  linker looks up the name of a generic reference and it knows no scope.  And a type
  that is kept as text gives all names in it, also those of type parameters that the
  text itself declares.

The names that are linked although every occurrence is bound are exactly those that
escape.
-/

namespace DeclGraph

open Syntax (Node)

section Occurrences

/-- The kinds of signatures that may declare type parameters. -/
def signatureKinds : List String :=
  ["function_type", "constructor_type", "method_signature", "abstract_method_signature",
    "method_definition", "function_signature", "call_signature", "construct_signature"]

/-- The type parameters that a signature declares for what stands in it. -/
def declaredParams (n : Node) : List String :=
  if n.kind ∈ signatureKinds then functionTypeParams n else []

/-- A name occurs in a node as a type name, or as the name of a reference with type
arguments, and is not bound by the scope or by a signature around the occurrence. -/
inductive Unbound (name : String) : List String → Node → Prop
  | here
      {scope : List String} {n : Node}
      (hkind : n.kind = "type_identifier")
      (htext : n.text = name)
      (hscope : name ∉ scope) :
      Unbound name scope n
  | label
      {scope : List String} {n : Node}
      (hkind : n.kind = "generic_type")
      (hlabel : referenceLabel n = name)
      (hscope : name ∉ scope) :
      Unbound name scope n
  | inside
      {scope : List String} {n c : Node}
      (hkind : n.kind ≠ "nested_type_identifier")
      (hc : c ∈ n.children)
      (hunbound : Unbound name (declaredParams n ++ scope) c) :
      Unbound name scope n

variable {name : String} {scope scope' : List String} {n m t : Node}

/-- Of a scope only the name itself matters. -/
theorem Unbound.of_scope
    (h : Unbound name scope n)
    (hscope : name ∈ scope' → name ∈ scope) :
    Unbound name scope' n := by
  induction h generalizing scope' with
  | here hkind htext hnot => exact .here hkind htext fun hmem => hnot (hscope hmem)
  | label hkind hlabel hnot => exact .label hkind hlabel fun hmem => hnot (hscope hmem)
  | inside hkind hc _ ih =>
      refine .inside hkind hc (ih fun hmem => ?_)
      rcases List.mem_append.1 hmem with hmem | hmem
      · exact List.mem_append_left _ hmem
      · exact List.mem_append_right _ (hscope hmem)

theorem unbound_iff :
    Unbound name scope n
      ↔
    name ∉ scope ∧ (n.kind = "type_identifier" ∧ n.text = name ∨
        n.kind = "generic_type" ∧ referenceLabel n = name) ∨
      n.kind ≠ "nested_type_identifier" ∧
        ∃ c ∈ n.children, Unbound name (declaredParams n ++ scope) c := by
  constructor
  · intro h
    cases h with
    | here hkind htext hscope => exact .inl ⟨hscope, .inl ⟨hkind, htext⟩⟩
    | label hkind hlabel hscope => exact .inl ⟨hscope, .inr ⟨hkind, hlabel⟩⟩
    | inside hkind hc h => exact .inr ⟨hkind, _, hc, h⟩
  · rintro (⟨hscope, ⟨hkind, htext⟩ | ⟨hkind, hlabel⟩⟩ | ⟨hkind, c, hc, h⟩)
    · exact .here hkind htext hscope
    · exact .label hkind hlabel hscope
    · exact .inside hkind hc h

mutual

/-- Looks for an unbound occurrence of a name. -/
def Syntax.Node.hasUnbound (name : String) (scope : List String) : Node → Bool
  | ⟨kind, source, start, field, named, missing, broken, children⟩ =>
    let n : Node := ⟨kind, source, start, field, named, missing, broken, children⟩
    decide (name ∉ scope ∧ (n.kind = "type_identifier" ∧ n.text = name ∨
      n.kind = "generic_type" ∧ referenceLabel n = name)) ||
      decide (kind ≠ "nested_type_identifier") && anyUnbound name (declaredParams n ++ scope) children

/-- Looks for an unbound occurrence of a name in several nodes. -/
def anyUnbound (name : String) (scope : List String) : List Node → Bool
  | [] => false
  | n :: ns => n.hasUnbound name scope || anyUnbound name scope ns

end

theorem anyUnbound_eq_any (ns : List Node) :
    anyUnbound name scope ns = ns.any (·.hasUnbound name scope) := by
  induction ns with
  | nil => rfl
  | cons n ns ih => rw [anyUnbound, ih, List.any_cons]

theorem hasUnbound_eq_true_iff : n.hasUnbound name scope = true ↔ Unbound name scope n := by
  induction n using Syntax.Node.childInduct generalizing scope with
  | step n ih =>
      obtain ⟨kind, source, start, field, named, missing, broken, children⟩ := n
      rw [Syntax.Node.hasUnbound, unbound_iff, Bool.or_eq_true, Bool.and_eq_true, decide_eq_true_iff,
        decide_eq_true_iff, anyUnbound_eq_any, List.any_eq_true]
      refine or_congr Iff.rfl (and_congr Iff.rfl (exists_congr fun c => and_congr_right fun hc => ?_))
      exact ih c hc

instance (name : String) (scope : List String) (n : Node) : Decidable (Unbound name scope n) :=
  decidable_of_iff (n.hasUnbound name scope = true) hasUnbound_eq_true_iff

end Occurrences

section Hiding

variable {name : String} {scope : List String} {n m t c : Node}

/-- What stands in a node does not see a name outside: the node is a qualified name, or
it binds the name. -/
def Hides (name : String) (w : Node) : Prop :=
  w.kind = "nested_type_identifier" ∨ name ∈ declaredParams w

/-- A node that stands strictly between two others. -/
def Between (t w m : Node) : Prop :=
  (∃ c ∈ t.children, w.Within c) ∧ ∃ c ∈ w.children, m.Within c

theorem Unbound.of_child
    (hc : c ∈ n.children)
    (hhides : ¬ Hides name n)
    (h : Unbound name scope c) :
    Unbound name scope n := by
  obtain ⟨hkind, hparams⟩ := not_or.1 hhides
  refine .inside hkind hc (h.of_scope fun hmem => ?_)
  exact (List.mem_append.1 hmem).resolve_left hparams

/-- An unbound occurrence below a node is unbound in the node, unless something on the
way hides it. -/
theorem Unbound.of_within
    (hm : m.Within n)
    (h : Unbound name scope m) :
    Unbound name scope n ∨
      ∃ w, w.Within n ∧ (∃ c ∈ w.children, m.Within c) ∧ Hides name w := by
  induction hm with
  | self => exact .inl h
  | @child c n hc hm ih =>
      rcases ih with hunbound | ⟨w, hw, hbelow, hhides⟩
      · by_cases hhides : Hides name n
        · exact .inr ⟨n, .self n, ⟨c, hc, hm⟩, hhides⟩
        · exact .inl (hunbound.of_child hc hhides)
      · exact .inr ⟨w, .child hc hw, hbelow, hhides⟩

/-- An annotation hides nothing. -/
theorem Unbound.of_annotated?
    (ht : n.annotated? = some t)
    (h : Unbound name scope t) :
    Unbound name scope n := by
  have hkinds : ∀ kind ∈ annotationKinds,
      kind ≠ "nested_type_identifier" ∧ kind ∉ signatureKinds := by decide
  unfold Syntax.Node.annotated? at ht
  split at ht
  · rename_i hann
    obtain ⟨hnested, hsignature⟩ := hkinds n.kind (List.contains_iff_mem.1 hann)
    refine h.of_child (Syntax.Node.mem_children_of_mem_namedChildren (List.mem_of_head? ht)) ?_
    rintro (hkind | hparam)
    · exact hnested hkind
    · unfold declaredParams at hparam
      rw [if_neg hsignature] at hparam
      cases hparam
  · cases ht
    exact h

/-- Resolution brings the type parameters of a signature that it takes apart into scope. -/
theorem declaredParams_of_goesTo
    (hm : GoesTo t m) :
    t.kind ≠ "nested_type_identifier" ∧ declaredParams t = signatureParams t := by
  have hsignature : t.kind = "function_type" → t.kind ≠ "nested_type_identifier" ∧
      declaredParams t = signatureParams t := by
    intro hkind
    unfold declaredParams signatureParams
    rw [if_pos hkind, if_pos (by rw [hkind]; decide), hkind]
    exact ⟨by decide, rfl⟩
  have hother : ∀ kind ∈ ["parenthesized_type", "readonly_type", "array_type", "generic_type",
      "object_type"], t.kind = kind → t.kind ≠ "nested_type_identifier" ∧
      declaredParams t = signatureParams t := by
    intro kind hmem hkind
    have hkinds : ∀ kind ∈ ["parenthesized_type", "readonly_type", "array_type", "generic_type",
        "object_type"], kind ≠ "nested_type_identifier" ∧ kind ∉ signatureKinds ∧
        kind ≠ "function_type" := by decide
    obtain ⟨hnested, hsignature, hfunction⟩ := hkinds kind hmem
    unfold declaredParams signatureParams
    rw [hkind, if_neg hsignature, if_neg hfunction]
    exact ⟨hnested, rfl⟩
  cases hm with
  | inner hkind _ => exact hkind.elim (hother _ (by decide)) (hother _ (by decide))
  | element hkind _ => exact hother _ (by decide) hkind
  | argument hkind _ => exact hother _ (by decide) hkind
  | parameter hkind _ _ => exact hsignature hkind
  | result hkind _ => exact hsignature hkind
  | entry hkeyed _ => exact hother _ (by decide) hkeyed.1

/-- An unbound occurrence in a part is unbound in the type, unless something between
them hides it. -/
theorem Unbound.of_goesTo
    (hm : GoesTo t m)
    (h : Unbound name (signatureParams t ++ scope) m) :
    Unbound name scope t ∨ ∃ w, Between t w m ∧ Hides name w := by
  obtain ⟨hkind, hparams⟩ := declaredParams_of_goesTo hm
  have hmem := goesTo_iff.1 hm
  cases within_of_mem_typeShape hmem with
  | self => exact absurd (size_lt_of_mem_typeShape hmem) (Nat.lt_irrefl _)
  | @child c _ hc hmc =>
      rcases h.of_within hmc with hunbound | ⟨w, hw, hbelow, hhides⟩
      · rw [← hparams] at hunbound
        exact .inl (.inside hkind hc hunbound)
      · exact .inr ⟨w, ⟨⟨c, hc, hw⟩, hbelow⟩, hhides⟩

/-- A type name that a search comes to is unbound, unless a node on the way binds it. -/
theorem unbound_of_searched
    {w : Node}
    (hw : Searched n w)
    (hkind : w.kind = "type_identifier")
    (htext : w.text = name)
    (hscope : name ∉ scope) :
    Unbound name scope n ∨
      ∃ s, Searched n s ∧ name ∈ declaredParams s ∧ Searched s w := by
  induction hw with
  | self => exact .inl (.here hkind htext hscope)
  | @inside n c w hnested hname hc hw ih =>
      by_cases hbinds : name ∈ declaredParams n
      · exact .inr ⟨n, .self n, hbinds, .inside hnested hname hc hw⟩
      · rcases ih hkind htext with hunbound | ⟨s, hs, hbinds, hsw⟩
        · have hc := Syntax.Node.mem_children_of_mem_namedChildren hc
          exact .inl (hunbound.of_child hc (not_or.2 ⟨hnested, hbinds⟩))
        · exact .inr ⟨s, .inside hnested hname hc hs, hbinds, hsw⟩

end Hiding

section Escaping

/-- The ways in which a name is mentioned although it may be bound. -/
inductive Escapes (known : List String) (name : String) : List String → Node → Prop
  /-- A type parameter has type arguments. -/
  | applied
      {scope : List String} {n t : Node}
      (ht : n.annotated? = some t)
      (hkind : t.kind = "generic_type")
      (hlabel : referenceLabel t = name)
      (hargs : referenceArgs t ≠ [])
      (harray : (referenceArgs t).length = 1 → name ∉ arrayNames)
      (hscope : name ∈ scope) :
      Escapes known name scope n
  /-- A type that is kept as text binds the name by itself, or something in it does. -/
  | quoted
      {scope : List String} {n t s w : Node}
      (ht : n.annotated? = some t)
      (hkept : KeptAsText t)
      (hs : Searched t s)
      (hbinds : name ∈ declaredParams s)
      (hw : Searched s w)
      (hkind : w.kind = "type_identifier")
      (htext : w.text = name)
      (hfree : name ∈ known ∧ name ∉ scope) :
      Escapes known name scope n
  /-- An identifier stands where a type should. -/
  | identifier
      {scope : List String} {n t : Node}
      (ht : n.annotated? = some t)
      (hkind : t.kind = "identifier")
      (htext : t.text = name)
      (hfree : name ∈ known ∧ name ∉ scope) :
      Escapes known name scope n
  /-- Something between a type and a part of it hides the name. -/
  | across
      {scope : List String} {n t w m : Node}
      (ht : n.annotated? = some t)
      (hm : GoesTo t m)
      (hw : Between t w m)
      (hhides : Hides name w)
      (hnamed : Named known name (signatureParams t ++ scope) m) :
      Escapes known name scope n
  /-- The name escapes in a part. -/
  | part
      {scope : List String} {n t m : Node}
      (ht : n.annotated? = some t)
      (hm : GoesTo t m)
      (hescapes : Escapes known name (signatureParams t ++ scope) m) :
      Escapes known name scope n

variable {known : List String} {name : String} {scope : List String} {n t : Node}

theorem Searched.trans
    {l m : Node}
    (hlm : Searched l m)
    (hmn : Searched m n) :
    Searched l n := by
  induction hlm with
  | self => exact hmn
  | inside hnested hname hc _ ih => exact .inside hnested hname hc (ih hmn)

/-- A name that escapes is mentioned. -/
theorem Escapes.named (h : Escapes known name scope n) : Named known name scope n := by
  induction h with
  | applied ht hkind hlabel hargs harray _ =>
      exact .here ht (.reference hkind hlabel (fun hnil => absurd hnil hargs) harray)
  | quoted ht hkept hs _ hw hkind htext hfree =>
      exact .here ht (.text hkept (mem_typeNames_iff.2 ⟨_, hs.trans hw, hkind, htext⟩) hfree)
  | identifier ht hkind htext hfree => exact .here ht (.alone (.inr hkind) htext hfree)
  | across ht hm _ _ hnamed => exact .part ht hm hnamed
  | part ht hm _ ih => exact .part ht hm ih

/-- What a type mentions by itself is unbound in it, or escapes. -/
theorem unbound_or_escapes_of_gives
    (ht : n.annotated? = some t)
    (h : Gives known name scope t) :
    Unbound name scope t ∨ Escapes known name scope n := by
  cases h with
  | alone hkind htext hfree =>
      rcases hkind with hkind | hkind
      · exact .inl (.here hkind htext hfree.2)
      · exact .inr (.identifier ht hkind htext hfree)
  | reference hkind hlabel hfree harray =>
      by_cases hscope : name ∈ scope
      · have hargs : referenceArgs t ≠ [] := fun hnil => (hfree hnil).2 hscope
        exact .inr (.applied ht hkind hlabel hargs harray hscope)
      · exact .inl (.label hkind hlabel hscope)
  | text hkept hmem hfree =>
      obtain ⟨w, hw, hkind, htext⟩ := mem_typeNames_iff.1 hmem
      rcases unbound_of_searched hw hkind htext hfree.2 with hunbound | ⟨s, hs, hbinds, hsw⟩
      · exact .inl hunbound
      · exact .inr (.quoted ht hkept hs hbinds hsw hkind htext hfree)

/-- What is mentioned is unbound, or escapes. -/
theorem Named.unbound_or_escapes
    (h : Named known name scope n) :
    Unbound name scope n ∨ Escapes known name scope n := by
  induction h with
  | here ht hgives =>
      exact (unbound_or_escapes_of_gives ht hgives).imp_left (Unbound.of_annotated? ht)
  | part ht hm hnamed ih =>
      rcases ih with hunbound | hescapes
      · rcases hunbound.of_goesTo hm with hunbound | ⟨w, hw, hhides⟩
        · exact .inl (hunbound.of_annotated? ht)
        · exact .inr (.across ht hm hw hhides hnamed)
      · exact .inr (.part ht hm hescapes)

end Escaping

section Shadowing

variable {name : String} {scope : List String} {depth : Nat} {n : Node} {t : TypeExpr}

/-- Mentions lead to the draft of a name exactly if the name is mentioned. -/
theorem position_mem_mentions_iff
    {drafts : List Draft} {k : Nat}
    (hk : positionOf? drafts name = some k) :
    k ∈ t.mentions.filterMap (positionOf? drafts ·.name) ↔ t.MentionsName name := by
  rw [List.mem_filterMap]
  refine exists_congr fun m => and_congr_right fun _ => ⟨fun hm => ?_, fun hm => hm ▸ hk⟩
  have hat := (name_of_positionOf? hm).symm.trans (name_of_positionOf? hk)
  exact Option.some.inj hat

/-- Let every occurrence of a name in a type be bound.  Then the resolved and linked type
has a link to a model of that name exactly if there is such a model and the name escapes,
and exactly then the name gives an edge to that model. -/
theorem linked_iff_escapes
    (ctx : Context) (drafts : List Draft)
    (h : (resolve ctx scope depth (.ofNode n)).outcome = .ok t)
    (hbound : ¬ Unbound name scope n) :
    ((t.link (linkTo? drafts)).LinksName name ↔
      name ∈ drafts.map (·.name) ∧ Escapes ctx.known name scope n) ∧
    ∀ k, positionOf? drafts name = some k →
      (k ∈ t.mentions.filterMap (positionOf? drafts ·.name) ↔ Escapes ctx.known name scope n) := by
  have hmentions : t.MentionsName name ↔ Escapes ctx.known name scope n := by
    rw [resolvesNamed n scope depth t h]
    exact ⟨fun hnamed => hnamed.unbound_or_escapes.resolve_left hbound, Escapes.named⟩
  constructor
  · rw [linksName_link_iff_mem_and (every_unlinked_of_resolve h), hmentions]
  · intro k hk
    rw [position_mem_mentions_iff hk, hmentions]

/-- A type parameter with a type argument. -/
def appliedParam : Node :=
  .build "generic_type" "T<string>" none
    [.build "type_identifier" "T" (some "name") [],
      .build "type_arguments" "<string>" (some "type_arguments")
        [.build "predefined_type" "string" none []]]

/-- A signature with a type parameter of its own. -/
def identitySignature : Node :=
  .build "function_type" "<T>(x: T) => T" none
    [.build "type_parameters" "<T>" (some "type_parameters")
        [.build "type_parameter" "T" none [.build "type_identifier" "T" (some "name") []]],
      .build "formal_parameters" "(x: T)" (some "parameters")
        [.build "required_parameter" "x: T" none
          [.build "identifier" "x" (some "pattern") [],
            .build "type_annotation" ": T" (some "type") [.build "type_identifier" "T" none []]]],
      .build "type_identifier" "T" (some "return_type") []]

/-- That signature as one of two alternatives, which are kept as text. -/
def quotedSignature : Node :=
  .build "union_type" "(<T>(x: T) => T) | string" none
    [.build "parenthesized_type" "(<T>(x: T) => T)" none [identitySignature],
      .build "predefined_type" "string" none []]

/-- The draft of a model that has the name of the type parameters. -/
def shadowedDrafts : List Draft :=
  [{ name := "T", kind := .interfaceDecl }]

/-- By itself the signature shadows the model.  In a text it does not, and neither does a
type parameter with type arguments. -/
theorem linked_iff_escapes_signature :
    (¬ Unbound "T" [] identitySignature ∧
      ∃ t, (resolve ⟨["T"], 64⟩ [] 0 (.ofNode identitySignature)).outcome = .ok t ∧
        ¬ (t.link (linkTo? shadowedDrafts)).LinksName "T" ∧
        ¬ Escapes ["T"] "T" [] identitySignature) ∧
    (¬ Unbound "T" [] quotedSignature ∧
      ∃ t, (resolve ⟨["T"], 64⟩ [] 0 (.ofNode quotedSignature)).outcome = .ok t ∧
        (t.link (linkTo? shadowedDrafts)).LinksName "T" ∧
        Escapes ["T"] "T" [] quotedSignature) ∧
    (¬ Unbound "T" ["T"] appliedParam ∧
      ∃ t, (resolve ⟨["T"], 64⟩ ["T"] 0 (.ofNode appliedParam)).outcome = .ok t ∧
        (t.link (linkTo? shadowedDrafts)).LinksName "T" ∧
        Escapes ["T"] "T" ["T"] appliedParam) := by
  have hcase : ∀ (scope : List String) (n : Node) (linked : Bool), ¬ Unbound "T" scope n →
      (resolve ⟨["T"], 64⟩ scope 0 (.ofNode n)).outcome.toOption.map
        (fun t => decide ((t.link (linkTo? shadowedDrafts)).LinksName "T")) = some linked →
      ∃ t, (resolve ⟨["T"], 64⟩ scope 0 (.ofNode n)).outcome = .ok t ∧
        ((t.link (linkTo? shadowedDrafts)).LinksName "T" ↔ linked = true) ∧
        (Escapes ["T"] "T" scope n ↔ linked = true) := by
    intro scope n linked hbound heval
    obtain ⟨t, ht, rfl⟩ := Pass.exists_ok_of_toOption_map heval
    have hiff := (linked_iff_escapes ⟨["T"], 64⟩ shadowedDrafts ht hbound).1
    rw [and_iff_right (by decide)] at hiff
    refine ⟨t, ht, ?_, ?_⟩
    · rw [decide_eq_true_iff]
    · rw [decide_eq_true_iff, hiff]
  have hidentity : ¬ Unbound "T" [] identitySignature := by decide +kernel
  have hquoted : ¬ Unbound "T" [] quotedSignature := by decide +kernel
  have happlied : ¬ Unbound "T" ["T"] appliedParam := by decide +kernel
  obtain ⟨t, ht, hlinks, hescapes⟩ :=
    hcase [] identitySignature false hidentity (by decide +kernel)
  obtain ⟨u, hu, hlinks', hescapes'⟩ :=
    hcase [] quotedSignature true hquoted (by decide +kernel)
  obtain ⟨v, hv, hlinks'', hescapes''⟩ :=
    hcase ["T"] appliedParam true happlied (by decide +kernel)
  refine ⟨⟨hidentity, t, ht, ?_, ?_⟩, ⟨hquoted, u, hu, hlinks'.2 rfl, hescapes'.2 rfl⟩,
    happlied, v, hv, hlinks''.2 rfl, hescapes''.2 rfl⟩
  · rw [hlinks]
    decide
  · rw [hescapes]
    decide

end Shadowing

end DeclGraph
