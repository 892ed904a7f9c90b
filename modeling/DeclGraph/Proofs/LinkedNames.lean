import DeclGraph.Proofs.EdgeDiscovery
import DeclGraph.Proofs.MentionedNames

/-!
# Names that are linked

Resolving a type node and linking the result keeps some of the type names in the
node.  This module says which.

* `Free` is about the node alone: a name occurs in it as a type name, outside
  qualified names, and no signature around the occurrence declares it.
* `Reached` follows the constructs.  A type that is kept as text gives all the names
  in it; every other construct goes on with some of its parts only: what stands last
  in parentheses, the first thing of an array, the arguments of a reference, the
  parameters and the result of a signature, the key and the value of an index
  signature.
* `PassedOver` is a free occurrence in a part that no construct goes on with.

The names that are linked are those that are reached, and a free name that is not
reached is passed over.  What is passed over are the bounds of type parameters of
signatures, the signatures beside the index signature of an object type, and
what stands beside the one part that is looked at in parentheses or in an array.
-/

namespace DeclGraph

open Syntax (Node)

section Occurrences

/-- A name occurs in a node as a type name, outside qualified names, and is not bound
by the scope or by a node around the occurrence. -/
inductive Free (name : String) : List String → Node → Prop
  | here
      {scope : List String} {n : Node}
      (hkind : n.kind = "type_identifier")
      (htext : n.text = name)
      (hscope : name ∉ scope) :
      Free name scope n
  | inside
      {scope : List String} {n c : Node}
      (hkind : n.kind ≠ "nested_type_identifier")
      (hc : c ∈ n.children)
      (hfree : Free name (functionTypeParams n ++ scope) c) :
      Free name scope n

/-- What is free in a scope is free in a smaller one. -/
theorem Free.mono
    {name : String} {scope scope' : List String} {n : Node}
    (hfree : Free name scope' n)
    (hsub : scope ⊆ scope') :
    Free name scope n := by
  induction hfree generalizing scope with
  | here hkind htext hscope => exact .here hkind htext fun hmem => hscope (hsub hmem)
  | inside hkind hc _ ih =>
      refine .inside hkind hc (ih ?_)
      exact List.append_subset.2
        ⟨List.subset_append_left _ _, List.subset_append_of_subset_right _ hsub⟩

/-- The nodes that a search for type names comes to: it looks at constructs only, and
at nothing below a name. -/
inductive Searched : Node → Node → Prop
  | self (n : Node) : Searched n n
  | inside
      {n c w : Node}
      (hnested : n.kind ≠ "nested_type_identifier")
      (hname : n.kind ≠ "type_identifier")
      (hc : c ∈ n.namedChildren)
      (hw : Searched c w) :
      Searched n w

theorem searched_of_name
    {n w : Node}
    (hkind : n.kind = "nested_type_identifier" ∨ n.kind = "type_identifier")
    (hw : Searched n w) :
    w = n := by
  cases hw with
  | self => rfl
  | inside hnested hname _ _ =>
      rcases hkind with hkind | hkind
      · exact absurd hkind hnested
      · exact absurd hkind hname

theorem mem_collectNames_iff {name : String} {pending : List Node} :
    name ∈ collectNames pending
      ↔
    ∃ n ∈ pending, ∃ w, Searched n w ∧ w.kind = "type_identifier" ∧ w.text = name := by
  induction pending using collectNames.induct with
  | case1 => simp [collectNames]
  | case2 n rest hnested ih =>
      rw [collectNames, if_pos hnested, ih, List.exists_mem_cons_iff]
      constructor
      · exact .inr
      · rintro (⟨w, hw, hkind, -⟩ | hrest)
        · rw [searched_of_name (.inl (eq_of_beq hnested)) hw, eq_of_beq hnested] at hkind
          exact absurd hkind (by decide)
        · exact hrest
  | case3 n rest hnested hname ih =>
      rw [collectNames, if_neg hnested, if_pos hname, List.mem_cons, ih, List.exists_mem_cons_iff]
      constructor
      · rintro (rfl | hrest)
        · exact .inl ⟨n, .self n, eq_of_beq hname, rfl⟩
        · exact .inr hrest
      · rintro (⟨w, hw, -, htext⟩ | hrest)
        · rw [searched_of_name (.inr (eq_of_beq hname)) hw] at htext
          exact .inl htext.symm
        · exact .inr hrest
  | case4 n rest hnested hname ih =>
      have hnested : n.kind ≠ "nested_type_identifier" := by simpa using hnested
      have hname : n.kind ≠ "type_identifier" := by simpa using hname
      rw [collectNames, if_neg (by simpa using hnested), if_neg (by simpa using hname), ih,
        List.exists_mem_cons_iff]
      constructor
      · rintro ⟨c, hc, w, hw, hfound⟩
        rcases List.mem_append.1 hc with hc | hc
        · exact .inl ⟨w, .inside hnested hname hc hw, hfound⟩
        · exact .inr ⟨c, hc, w, hw, hfound⟩
      · rintro (⟨w, hw, hkind, htext⟩ | ⟨c, hc, hfound⟩)
        · cases hw with
          | self => exact absurd hkind hname
          | @inside _ c _ _ _ hc hw =>
              exact ⟨c, List.mem_append_left _ hc, w, hw, hkind, htext⟩
        · exact ⟨c, List.mem_append_right _ hc, hfound⟩

/-- The names in a node are the type names that a search comes to. -/
theorem mem_typeNames_iff {name : String} {n : Node} :
    name ∈ n.typeNames
      ↔
    ∃ w, Searched n w ∧ w.kind = "type_identifier" ∧ w.text = name := by
  unfold Syntax.Node.typeNames
  rw [mem_collectNames_iff]
  simp only [List.mem_singleton, exists_eq_left]

end Occurrences

section Constructs

/-- The names that a type gives by itself.  A reference with arguments gives its name
whether or not a type parameter has it too. -/
inductive Takes (name : String) (scope : List String) (t : Node) : Prop
  | alone
      (hkind : t.kind = "type_identifier" ∨ t.kind = "identifier")
      (htext : t.text = name)
      (hscope : name ∉ scope)
  | reference
      (hkind : t.kind = "generic_type")
      (hlabel : referenceLabel t = name)
      (hscope : referenceArgs t = [] → name ∉ scope)
  | text
      (hkept : KeptAsText t)
      (hmem : name ∈ t.typeNames)
      (hscope : name ∉ scope)

/-- A name is given by a node, or by a part that is gone on with. -/
inductive Reached (name : String) : List String → Node → Prop
  | here
      {scope : List String} {n t : Node}
      (ht : n.annotated? = some t)
      (htakes : Takes name scope t) :
      Reached name scope n
  | part
      {scope : List String} {n t m : Node}
      (ht : n.annotated? = some t)
      (hm : GoesTo t m)
      (hreached : Reached name (signatureParams t ++ scope) m) :
      Reached name scope n

end Constructs

section Named

variable {known : List String} {name : String} {scope : List String} {n t : Node}

theorem takes_iff_gives
    (hknown : name ∈ known)
    (harray : name ∉ arrayNames) :
    Takes name scope t ↔ Gives known name scope t := by
  constructor
  · intro h
    cases h with
    | alone hkind htext hscope => exact .alone hkind htext ⟨hknown, hscope⟩
    | reference hkind hlabel hscope =>
        exact .reference hkind hlabel (fun hargs => ⟨hknown, hscope hargs⟩) fun _ => harray
    | text hkept hmem hscope => exact .text hkept hmem ⟨hknown, hscope⟩
  · intro h
    cases h with
    | alone hkind htext hfree => exact .alone hkind htext hfree.2
    | reference hkind hlabel hfree _ => exact .reference hkind hlabel fun hargs => (hfree hargs).2
    | text hkept hmem hfree => exact .text hkept hmem hfree.2

/-- A declared name that does not denote arrays is mentioned where it is reached. -/
theorem reached_iff_named
    (hknown : name ∈ known)
    (harray : name ∉ arrayNames) :
    Reached name scope n ↔ Named known name scope n := by
  constructor
  · intro h
    induction h with
    | here ht htakes => exact .here ht ((takes_iff_gives hknown harray).1 htakes)
    | part ht hm _ ih => exact .part ht hm ih
  · intro h
    induction h with
    | here ht hgives => exact .here ht ((takes_iff_gives hknown harray).2 hgives)
    | part ht hm _ ih => exact .part ht hm ih

/-- Resolution mentions exactly the names that are reached. -/
theorem resolvesReached
    {ctx : Context}
    (hknown : name ∈ ctx.known)
    (harray : name ∉ arrayNames)
    (n : Node) (scope : List String) (depth : Nat) (t : TypeExpr)
    (h : (resolve ctx scope depth (.ofNode n)).outcome = .ok t) :
    t.MentionsName name ↔ Reached name scope n := by
  rw [reached_iff_named hknown harray]
  exact resolvesNamed n scope depth t h

end Named

section PassedOver

/-- A node lies properly inside another one. -/
inductive Inside : Node → Node → Prop
  | child
      {w m : Node}
      (hm : m ∈ w.children) :
      Inside w m
  | deeper
      {w c m : Node}
      (hc : c ∈ w.children)
      (hm : Inside c m) :
      Inside w m

/-- The nodes in a type that resolution looks at without going on with them: the type
itself, what leads to a part that it goes on with, the name of a reference, and what a
search for names comes to. -/
inductive LooksAt (t : Node) : Node → Prop
  | self : LooksAt t t
  | toPart
      {w m : Node}
      (hname : w.kind ≠ "type_identifier")
      (hm : GoesTo t m)
      (hw : Inside w m) :
      LooksAt t w
  | label
      {w : Node}
      (hkind : t.kind = "generic_type")
      (hw : t.child? "name" = some w) :
      LooksAt t w
  | text
      {w : Node}
      (hkept : KeptAsText t)
      (hw : Searched t w) :
      LooksAt t w

/-- A free occurrence of a name lies in a part that resolution does not look at. -/
inductive PassedOver (name : String) : List String → Node → Prop
  | beside
      {scope : List String} {n c : Node}
      (hn : n.isAnnotation = true)
      (hc : c ∈ n.children)
      (hhead : n.namedChildren.head? ≠ some c)
      (hfree : Free name scope c) :
      PassedOver name scope n
  | part
      {scope : List String} {n t w c : Node}
      (ht : n.annotated? = some t)
      (hw : LooksAt t w)
      (hc : c ∈ w.children)
      (hlook : ¬ LooksAt t c)
      (hgo : ¬ GoesTo t c)
      (hfree : Free name (signatureParams t ++ scope) c) :
      PassedOver name scope n
  | deeper
      {scope : List String} {n t m : Node}
      (ht : n.annotated? = some t)
      (hm : GoesTo t m)
      (hpassed : PassedOver name (signatureParams t ++ scope) m) :
      PassedOver name scope n

variable {name : String} {scope : List String} {n t w : Node}

/-- A type name that is looked at is taken. -/
theorem takes_of_looksAt
    (hlook : LooksAt t w)
    (hkind : w.kind = "type_identifier")
    (htext : w.text = name)
    (hscope : name ∉ scope) :
    Takes name scope t := by
  cases hlook with
  | self => exact .alone (.inl hkind) htext hscope
  | toPart hname _ _ => exact absurd hkind hname
  | label hgeneric hw =>
      refine .reference hgeneric ?_ fun _ => hscope
      unfold referenceLabel
      rw [hw]
      exact htext
  | text hkept hw => exact .text hkept (mem_typeNames_iff.2 ⟨w, hw, hkind, htext⟩) hscope

theorem Free.under_signatureParams
    (h : Free name scope t) :
    Free name (signatureParams t ++ scope) t := by
  unfold signatureParams
  by_cases hkind : t.kind = "function_type"
  · rw [if_pos hkind]
    cases h with
    | here hname _ _ =>
        rw [hkind] at hname
        exact absurd hname (by decide)
    | inside hnested hc hfree =>
        refine .inside hnested hc (hfree.mono ?_)
        simp
  · rw [if_neg hkind]
    exact h

/-- A walk down from a node that is looked at ends at a name that is taken, at a part
that is gone on with, or at a part that is passed over. -/
theorem reached_or_passedOver_of_looksAt
    (ht : n.annotated? = some t)
    (ih : ∀ m, GoesTo t m → Free name (signatureParams t ++ scope) m →
      Reached name (signatureParams t ++ scope) m ∨ PassedOver name (signatureParams t ++ scope) m)
    (hlook : LooksAt t w)
    (hfree : Free name (signatureParams t ++ scope) w) :
    Reached name scope n ∨ PassedOver name scope n := by
  -- The type stays fixed, and the walk goes from one node that is looked at to the next.
  induction hsize : w.size using Nat.strongRecOn generalizing w with
  | ind size walk =>
      cases hfree with
      | here hkind htext hscope =>
          have hscope : name ∉ scope := fun hmem => hscope (List.mem_append_right _ hmem)
          exact .inl (.here ht (takes_of_looksAt hlook hkind htext hscope))
      | @inside _ _ c _ hc hfree =>
          -- What the nodes on the way bind is dropped: only signatures that are taken apart bind.
          have hfree := hfree.mono (List.subset_append_right _ _)
          by_cases hlookc : LooksAt t c
          · have hlt := Syntax.Node.size_lt_of_mem_children hc
            exact walk c.size (hsize ▸ hlt) hlookc hfree rfl
          · by_cases hgo : GoesTo t c
            · rcases ih c hgo hfree with hreached | hpassed
              · exact .inl (.part ht hgo hreached)
              · exact .inr (.deeper ht hgo hpassed)
            · exact .inr (.part ht hlook hc hlookc hgo hfree)

/-- A free name is reached, or an occurrence of it is passed over. -/
theorem reached_or_passedOver
    (h : Free name scope n) :
    Reached name scope n ∨ PassedOver name scope n := by
  induction hsize : n.size using Nat.strongRecOn generalizing n scope with
  | ind size ih =>
      have htype : ∀ t, n.annotated? = some t → Free name scope t →
          Reached name scope n ∨ PassedOver name scope n := by
        intro t ht hfree
        refine reached_or_passedOver_of_looksAt ht ?_ .self hfree.under_signatureParams
        intro m hm hfree
        have hlt := size_lt_of_mem_typeShape (goesTo_iff.1 hm)
        have hle := Syntax.Node.size_le_of_annotated? ht
        exact ih m.size (by omega) hfree rfl
      by_cases hann : n.isAnnotation = true
      · have hhead : n.annotated? = n.namedChildren.head? := if_pos hann
        cases h with
        | here hkind _ _ =>
            unfold Syntax.Node.isAnnotation at hann
            rw [hkind] at hann
            exact absurd hann (by decide)
        | @inside _ _ c _ hc hfree =>
            have hfree := hfree.mono (List.subset_append_right _ _)
            by_cases hc' : n.namedChildren.head? = some c
            · exact htype c (hhead.trans hc') hfree
            · exact .inr (.beside hann hc hc' hfree)
      · exact htype n (if_neg hann) h

end PassedOver

section Linked

/-- A linked type has a link to the model of a name: as a model, among the references
of a text, or as what a generic reference leads to. -/
def TypeExpr.LinksName (name : String) (t : TypeExpr) : Prop :=
  ∃ l ∈ t.met, l.name = .str name

instance (name : String) (t : TypeExpr) : Decidable (t.LinksName name) :=
  inferInstanceAs (Decidable (∃ l ∈ t.met, l.name = .str name))

variable {ctx : Context} {drafts : List Draft} {name : String}

/-- The names that are linked are those that are mentioned and have a model. -/
theorem linksName_link_iff_mem_and
    {t : TypeExpr}
    (h : t.Every (TypeExpr.Unlinked ctx.known)) :
    (t.link (linkTo? drafts)).LinksName name
      ↔
    name ∈ drafts.map (·.name) ∧ t.MentionsName name := by
  have hfresh := TypeExpr.every_ne_model_of_unlinked h
  unfold TypeExpr.LinksName TypeExpr.MentionsName
  rw [met_link hfresh]
  constructor
  · rintro ⟨l, hl, hname⟩
    obtain ⟨m, hm, hfind⟩ := List.mem_filterMap.1 hl
    obtain ⟨hmodel, rfl⟩ := linkTo?_eq_some_iff.1 hfind
    cases Json.str.inj hname
    exact ⟨hmodel, m, hm, rfl⟩
  · rintro ⟨hmodel, m, hm, rfl⟩
    exact ⟨_, List.mem_filterMap.2 ⟨m, hm, linkTo?_eq_some_iff.2 ⟨hmodel, rfl⟩⟩, rfl⟩

theorem linksName_link_iff
    (hmodel : name ∈ drafts.map (·.name))
    {t : TypeExpr}
    (h : t.Every (TypeExpr.Unlinked ctx.known)) :
    (t.link (linkTo? drafts)).LinksName name ↔ t.MentionsName name :=
  (linksName_link_iff_mem_and h).trans (and_iff_right hmodel)

variable {scope : List String} {label : String} {optional : Bool}
  {typeParams : List (TypeParam Node)} {params : List (Field (Option Node))} {result : Option Node}

theorem mentionsName_method
    (hknown : name ∈ ctx.known)
    (harray : name ∉ arrayNames)
    {f : Field TypeExpr}
    (h : (resolveMember ctx scope (.method label optional typeParams params result)).outcome =
      .ok f) :
    f.type.MentionsName name
      ↔
    ∃ m ∈ signatureTypes params result, Reached name (typeParams.map (·.name) ++ scope) m := by
  obtain ⟨args, hargs, hrest⟩ := Pass.outcome_bind_eq_ok_iff.1 h
  obtain ⟨r, hr, hf⟩ := Pass.outcome_bind_eq_ok_iff.1 hrest
  cases hf
  show (TypeExpr.function args r).MentionsName name ↔ _
  rw [mentionsName_function_iff,
    mentionsName_params (fun _ _ m _ => resolvesNamed m) (resolveParams_eq_ok_iff.1 hargs),
    mentionsName_ofNode? (fun m _ => resolvesNamed m) hr, ← exists_mem_signatureTypes_iff]
  simp only [reached_iff_named hknown harray]

/-- The names of models that a resolved and linked type has links to are those that are
reached in its node, and a free name that is not linked is passed over.  For a method
only the types of its parameters and its result count: no bound of its type parameters
is linked. -/
theorem linked_iff_reached
    (ctx : Context) (drafts : List Draft) (name : String)
    (hmodel : name ∈ drafts.map (·.name))
    (hknown : name ∈ ctx.known)
    (harray : name ∉ arrayNames) :
    (∀ scope depth n t, (resolve ctx scope depth (.ofNode n)).outcome = .ok t →
      ((t.link (linkTo? drafts)).LinksName name ↔ Reached name scope n) ∧
      (Free name scope n →
        (t.link (linkTo? drafts)).LinksName name ∨ PassedOver name scope n)) ∧
    (∀ scope label optional typeParams params result f,
      (resolveMember ctx scope (.method label optional typeParams params result)).outcome =
        .ok f →
      ((f.type.link (linkTo? drafts)).LinksName name ↔
        ∃ m ∈ signatureTypes params result, Reached name (typeParams.map (·.name) ++ scope) m) ∧
      ∀ m ∈ signatureTypes params result, Free name (typeParams.map (·.name) ++ scope) m →
        (f.type.link (linkTo? drafts)).LinksName name ∨
          PassedOver name (typeParams.map (·.name) ++ scope) m) := by
  constructor
  · intro scope depth n t h
    have hlinks : (t.link (linkTo? drafts)).LinksName name ↔ Reached name scope n :=
      (linksName_link_iff hmodel (every_unlinked_of_resolve h)).trans
        (resolvesReached hknown harray n scope depth t h)
    refine ⟨hlinks, fun hfree => ?_⟩
    exact (reached_or_passedOver hfree).imp_left hlinks.2
  · intro scope label optional typeParams params result f h
    have hlinks := (linksName_link_iff hmodel (every_unlinked_of_resolveMember h)).trans
      (mentionsName_method hknown harray h)
    refine ⟨hlinks, fun m hm hfree => ?_⟩
    exact (reached_or_passedOver hfree).imp_left fun hreached => hlinks.2 ⟨m, hm, hreached⟩

/-- An object type with an index signature to one model and a construct signature to
another: it reads as an association, and the construct signature is passed over. -/
def besideIndex : Node :=
  .build "object_type" "{ [k: string]: A; new (): B }" none
    [.build "index_signature" "[k: string]: A" none
      [.build "identifier" "k" (some "name") [],
        .build "predefined_type" "string" (some "index_type") [],
        .build "type_annotation" ": A" (some "type") [.build "type_identifier" "A" none []]],
      .build "construct_signature" "new (): B" none
        [.build "formal_parameters" "()" (some "parameters") [],
          .build "type_annotation" ": B" (some "type") [.build "type_identifier" "B" none []]]]

/-- A method whose type parameter has a model as its bound. -/
def boundedMethod : Member :=
  .method "m" false [⟨"T", some (.build "type_identifier" "B" none []), none⟩]
    [⟨"x", some (.build "type_identifier" "T" none []), false⟩]
    (some (.build "type_identifier" "T" none []))

/-- The drafts of the two models. -/
def twoDrafts : List Draft :=
  [{ name := "A", kind := .interfaceDecl }, { name := "B", kind := .interfaceDecl }]

theorem linked_iff_reached_besideIndex :
    (∃ t, (resolve ⟨["A", "B"], 64⟩ [] 0 (.ofNode besideIndex)).outcome = .ok t ∧
      Reached "A" [] besideIndex ∧
      Free "B" [] besideIndex ∧
      ¬ (t.link (linkTo? twoDrafts)).LinksName "B" ∧
      PassedOver "B" [] besideIndex) ∧
    ∃ f, (resolveMember ⟨["A", "B"], 64⟩ [] boundedMethod).outcome = .ok f ∧
      ¬ (f.type.link (linkTo? twoDrafts)).LinksName "B" := by
  have hA := linked_iff_reached ⟨["A", "B"], 64⟩ twoDrafts "A" (by decide) (by decide) (by decide)
  have hB := linked_iff_reached ⟨["A", "B"], 64⟩ twoDrafts "B" (by decide) (by decide) (by decide)
  have hfree : Free "B" [] besideIndex := by
    refine .inside (by decide) (List.mem_cons_of_mem _ (List.mem_singleton_self _)) ?_
    refine .inside (by decide) (List.mem_cons_of_mem _ (List.mem_singleton_self _)) ?_
    refine .inside (by decide) (List.mem_singleton_self _) ?_
    exact .here rfl (by decide +kernel) (by decide +kernel)
  constructor
  · obtain ⟨t, ht, hlinks⟩ := Pass.exists_ok_of_toOption_map
      (p := resolve ⟨["A", "B"], 64⟩ [] 0 (.ofNode besideIndex))
      (f := fun t => (decide ((t.link (linkTo? twoDrafts)).LinksName "A"),
        decide ((t.link (linkTo? twoDrafts)).LinksName "B")))
      (b := (true, false)) (by decide +kernel)
    obtain ⟨hlinked, hlost⟩ := Prod.mk.inj hlinks
    have hlost := of_decide_eq_false hlost
    refine ⟨t, ht, ?_, hfree, hlost, ?_⟩
    · exact (hA.1 [] 0 besideIndex t ht).1.1 (of_decide_eq_true hlinked)
    · exact ((hB.1 [] 0 besideIndex t ht).2 hfree).resolve_left hlost
  · obtain ⟨f, hf, hlost⟩ := Pass.exists_ok_of_toOption_map
      (p := resolveMember ⟨["A", "B"], 64⟩ [] boundedMethod)
      (f := fun f => decide ((f.type.link (linkTo? twoDrafts)).LinksName "B"))
      (b := false) (by decide +kernel)
    exact ⟨f, hf, of_decide_eq_false hlost⟩

end Linked

end DeclGraph
