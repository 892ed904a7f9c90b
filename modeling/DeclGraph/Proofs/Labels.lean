import DeclGraph.Card
import DeclGraph.Proofs.Denotation
import DeclGraph.Proofs.EdgeDiscovery
import DeclGraph.Proofs.LinkedNames
import DeclGraph.Proofs.NestingDepth

/-!
# Labels

The label of a type says in short what was written, and is highlighted where a model is
named.

* The text of a label depends on syntax only.  A name is a type parameter, a reference, a
  link or plain text, as the names in scope, the declared ones and the linked ones have
  it, and it is labelled with the name each time (`TypeExpr.SameLabel`).
* The flag agrees with the graph.  What is highlighted holds a link, and a walk over the
  model meets every link in its fields, so the link is an edge or leads back.
-/

namespace DeclGraph

open Syntax (Node)

section Texts

/-- Types whose labels have the same text, on their own and within other labels. -/
structure TypeExpr.SameLabel (t u : TypeExpr) : Prop where
  text : t.text = u.text
  isFunction : t.isFunction = u.isFunction

theorem textAll_eq_map (ts : List TypeExpr) : textAll ts = ts.map TypeExpr.text := by
  induction ts with
  | nil => rfl
  | cons t ts ih => rw [textAll, ih, List.map_cons]

theorem textFields_eq_map (fs : List (Field TypeExpr)) :
    textFields fs =
      fs.map fun f => f.name ++ (if f.optional then "?" else "") ++ ": " ++ f.type.text := by
  induction fs with
  | nil => rfl
  | cons f fs ih =>
      obtain ⟨name, t, optional⟩ := f
      rw [textFields, ih, List.map_cons]

namespace TypeExpr.SameLabel

variable {t u k k' v v' r r' : TypeExpr} {α : Type} {as : List α}

theorem refl (t : TypeExpr) : t.SameLabel t :=
  ⟨rfl, rfl⟩

theorem array
    (h : t.SameLabel u) :
    (TypeExpr.array t).SameLabel (.array u) := by
  refine ⟨?_, rfl⟩
  rw [TypeExpr.text, TypeExpr.text, h.text, h.isFunction]

theorem keyed
    (hk : k.SameLabel k')
    (hv : v.SameLabel v') :
    (TypeExpr.keyed k v).SameLabel (.keyed k' v') := by
  refine ⟨?_, rfl⟩
  rw [TypeExpr.text, TypeExpr.text, hk.text, hv.text]

theorem generic
    {f g : α → TypeExpr}
    (h : ∀ a ∈ as, (f a).SameLabel (g a))
    (name : String) (target target' : Option Link) :
    (TypeExpr.generic name (as.map f) target).SameLabel (.generic name (as.map g) target') := by
  have htexts : textAll (as.map f) = textAll (as.map g) := by
    rw [textAll_eq_map, textAll_eq_map, List.map_map, List.map_map]
    exact List.map_congr_left fun a ha => (h a ha).text
  refine ⟨?_, rfl⟩
  rw [TypeExpr.text, TypeExpr.text, htexts]

theorem function
    {fs : List (Field α)} {f g : α → TypeExpr}
    (hfs : ∀ a ∈ fs, (f a.type).SameLabel (g a.type))
    (hr : r.SameLabel r') :
    (TypeExpr.function (fs.map fun a => ⟨a.name, f a.type, a.optional⟩) r).SameLabel
      (.function (fs.map fun a => ⟨a.name, g a.type, a.optional⟩) r') := by
  have htexts : textFields (fs.map fun a => ⟨a.name, f a.type, a.optional⟩) =
      textFields (fs.map fun a => ⟨a.name, g a.type, a.optional⟩) := by
    rw [textFields_eq_map, textFields_eq_map, List.map_map, List.map_map]
    refine List.map_congr_left fun a ha => ?_
    simp only [Function.comp_apply, (hfs a ha).text]
  refine ⟨?_, rfl⟩
  rw [TypeExpr.text, TypeExpr.text, htexts, hr.text]

end TypeExpr.SameLabel

/-- A name is labelled with itself, whatever it denotes. -/
theorem sameLabel_nameType (ctx ctx' : Context) (scope scope' : List String) (name : String) :
    (ctx.nameType scope name).SameLabel (ctx'.nameType scope' name) := by
  have hname (ctx : Context) (scope : List String) :
      (ctx.nameType scope name).SameLabel (.param name) := by
    unfold Context.nameType
    split
    · exact ⟨rfl, rfl⟩
    · split
      · exact ⟨rfl, rfl⟩
      · exact ⟨rfl, rfl⟩
  exact ⟨(hname ctx scope).text.trans (hname ctx' scope').text.symm,
    (hname ctx scope).isFunction.trans (hname ctx' scope').isFunction.symm⟩

theorem sameLabel_referenceType
    {α : Type} {as : List α} {f g : α → TypeExpr}
    (h : ∀ a ∈ as, (f a).SameLabel (g a))
    (ctx ctx' : Context) (scope scope' : List String) (name : String) :
    (ctx.referenceType scope name (as.map f)).SameLabel
      (ctx'.referenceType scope' name (as.map g)) := by
  -- Only a single argument can make the reference an array.
  rcases as with _ | ⟨a, _ | ⟨b, as⟩⟩
  · exact sameLabel_nameType ctx ctx' scope scope' name
  · show TypeExpr.SameLabel
      (if arrayNames.contains name then .array (f a) else .generic name [f a] none)
      (if arrayNames.contains name then .array (g a) else .generic name [g a] none)
    split
    · exact (h a (List.mem_singleton_self a)).array
    · exact .generic h name none none
  · exact .generic h name none none

/-- What a written type denotes has one label, whatever is known and in scope. -/
theorem sameLabel_denote (w : Written) (known known' scope scope' : List String) :
    (w.denote known scope).SameLabel (w.denote known' scope') := by
  induction w using Written.induct generalizing scope scope' with
  | absent => exact .refl _
  | wrapped line inner ih => exact ih scope scope'
  | hollow line text => exact .refl _
  | name line name => exact sameLabel_nameType _ _ _ _ name
  | array line element ih => exact (ih scope scope').array
  | bareArray line => exact .refl _
  | reference line name args ih =>
      rw [Written.denote, Written.denote, denoteAll_eq_map, denoteAll_eq_map]
      exact sameLabel_referenceType (fun a ha => ih a ha scope scope') _ _ _ _ name
  | function line typeParams params result ihparams ihresult =>
      rw [Written.denote, Written.denote, denoteParams_eq_map, denoteParams_eq_map]
      exact .function (fun a ha => ihparams a ha _ _) (ihresult _ _)
  | keyed line skipped key value ihkey ihvalue =>
      exact (ihkey scope scope').keyed (ihvalue scope scope')
  | verbatim line skipped text names => exact ⟨rfl, rfl⟩

/-- A registry gives for a name only models of that name. -/
def NamesModels (find : String → Option Link) : Prop :=
  ∀ name l, find name = some l → l.name = .str name

variable {find : String → Option Link}

theorem namesModels_linkTo? (drafts : List Draft) : NamesModels (linkTo? drafts) := by
  intro name l hl
  unfold linkTo? at hl
  split at hl
  · cases hl
    rfl
  · cases hl

/-- Linking a type does not change its label. -/
theorem sameLabel_link
    (hfind : NamesModels find)
    (t : TypeExpr) :
    (t.link find).SameLabel t := by
  induction t using TypeExpr.induct with
  | verbatim text references ih => exact ⟨rfl, rfl⟩
  | model target => exact .refl _
  | pending name =>
      rw [TypeExpr.link]
      cases hl : find name with
      | none => exact ⟨rfl, rfl⟩
      | some l =>
          refine ⟨?_, rfl⟩
          rw [TypeExpr.text, hfind name l hl]
          rfl
  | param name => exact .refl _
  | array element ih => exact ih.array
  | keyed key value ihk ihv => exact ihk.keyed ihv
  | generic name args target ih =>
      rw [TypeExpr.link, linkAll_eq_map]
      nth_rewrite 2 [← List.map_id args]
      exact .generic ih name _ _
  | function args result iha ihr =>
      rw [TypeExpr.link, linkFields_eq_map]
      nth_rewrite 2 [← List.map_id args]
      exact .function (f := TypeExpr.link find) (g := id) iha ihr

/-- A label has the text of its type, which a link takes from its model. -/
theorem label_text_link
    {t : TypeExpr}
    (hfind : NamesModels find)
    (h : ∀ l, t ≠ .model l) :
    t.label.text = .str t.text ∧ (t.link find).label.text = .str t.text := by
  have htext := (sameLabel_link hfind t).text
  cases t with
  | model l => exact absurd rfl (h l)
  | pending name =>
      refine ⟨rfl, ?_⟩
      rw [TypeExpr.link]
      cases hl : find name with
      | none => rfl
      | some l => exact hfind name l hl
  | verbatim text references => exact ⟨rfl, rfl⟩
  | param name => exact ⟨rfl, rfl⟩
  | array element => exact ⟨rfl, congrArg Json.str htext⟩
  | keyed key value => exact ⟨rfl, congrArg Json.str htext⟩
  | generic name args target => exact ⟨rfl, congrArg Json.str htext⟩
  | function args result => exact ⟨rfl, congrArg Json.str htext⟩

end Texts

section Highlights

/-- The model that a type links to itself: as a link, or as the target of a generic
reference. -/
def TypeExpr.target? : TypeExpr → Option Link
  | .model l => some l
  | .generic _ _ target => target
  | _ => none

variable {s t p : TypeExpr} {l : Link}

theorem label_highlighted (t : TypeExpr) : t.label.highlighted = t.highlighted := by
  cases t <;> rfl

theorem highlightedAny_eq_any (ts : List TypeExpr) :
    highlightedAny ts = ts.any TypeExpr.highlighted := by
  induction ts with
  | nil => rfl
  | cons t ts ih => rw [highlightedAny, ih, List.any_cons]

/-- Where a label is highlighted, the type holds a link. -/
theorem exists_target_of_highlighted
    (h : t.highlighted = true) :
    ∃ (s : TypeExpr) (l : Link), s.Within t ∧ s.target? = some l := by
  induction t using TypeExpr.induct with
  | verbatim text references ih =>
      obtain ⟨r, hr, hmodel⟩ := List.any_eq_true.1 h
      cases r with
      | model l => exact ⟨.model l, l, .part hr (.self _), rfl⟩
      | _ => cases hmodel
  | model l => exact ⟨.model l, l, .self _, rfl⟩
  | pending name => cases h
  | param name => cases h
  | array element ih =>
      obtain ⟨s, l, hs, hl⟩ := ih h
      exact ⟨s, l, .part (List.mem_singleton_self _) hs, hl⟩
  | keyed key value _ ihvalue =>
      obtain ⟨s, l, hs, hl⟩ := ihvalue h
      exact ⟨s, l, .part (by simp [TypeExpr.parts]) hs, hl⟩
  | generic name args target ih =>
      rw [TypeExpr.highlighted, Bool.or_eq_true, highlightedAny_eq_any] at h
      rcases h with htarget | hargs
      · obtain ⟨l, rfl⟩ := Option.isSome_iff_exists.1 htarget
        exact ⟨_, l, .self _, rfl⟩
      · obtain ⟨a, ha, hhighlighted⟩ := List.any_eq_true.1 hargs
        obtain ⟨s, l, hs, hl⟩ := ih a ha hhighlighted
        exact ⟨s, l, .part ha hs, hl⟩
  | function args result => cases h

/-- What a walk over a part meets, a walk over the whole meets. -/
theorem mem_met_of_mem_parts
    (hp : p ∈ t.parts)
    (hl : l ∈ p.met) :
    l ∈ t.met := by
  cases t with
  | verbatim text references =>
      rw [TypeExpr.met, metAll_eq_flatMap]
      exact List.mem_flatMap.2 ⟨p, hp, hl⟩
  | array element =>
      cases List.mem_singleton.1 hp
      exact hl
  | keyed key value =>
      rw [TypeExpr.met]
      rcases List.mem_pair.1 hp with rfl | rfl
      · exact List.mem_append_left _ hl
      · exact List.mem_append_right _ hl
  | generic name args target =>
      rw [TypeExpr.met, metAll_eq_flatMap]
      exact List.mem_append_left _ (List.mem_flatMap.2 ⟨p, hp, hl⟩)
  | function args result =>
      rw [TypeExpr.met, metFields_eq_flatMap]
      rcases List.mem_append.1 hp with hp | hp
      · obtain ⟨a, ha, rfl⟩ := List.mem_map.1 hp
        exact List.mem_append_left _ (List.mem_flatMap.2 ⟨a, ha, hl⟩)
      · cases List.mem_singleton.1 hp
        exact List.mem_append_right _ hl
  | model target => cases hp
  | pending name => cases hp
  | param name => cases hp

/-- A walk over a type meets every link in it. -/
theorem mem_met_of_within
    (hs : s.Within t)
    (hl : s.target? = some l) :
    l ∈ t.met := by
  induction hs with
  | self =>
      cases s with
      | model target =>
          cases hl
          exact List.mem_singleton_self _
      | generic name args target =>
          cases hl
          exact List.mem_append_right _ (List.mem_singleton_self _)
      | _ => cases hl
  | part hp _ ih => exact mem_met_of_mem_parts hp ih

/-- Every link in a field of a linked model leads to the model itself or along an edge. -/
theorem eq_link_or_mem_dependencies
    {drafts : List Draft} {withHeritage : Bool} {m : Model} {f : Field TypeExpr}
    (hnames : (drafts.map (·.name)).Nodup)
    (hunlinked : ∀ d ∈ drafts, d.Every (TypeExpr.Unlinked (drafts.map (·.name))))
    (hm : m ∈ linkedModels drafts withHeritage)
    (hf : f ∈ m.schema)
    (hs : s.Within f.type)
    (hl : s.target? = some l) :
    l = m.link ∨ l ∈ m.dependencies := by
  have hmet : l ∈ m.met withHeritage := by
    unfold Model.met
    rw [metFields_eq_flatMap, List.append_assoc]
    exact List.mem_append_left _ (List.mem_flatMap.2 ⟨f, hf, mem_met_of_within hs hl⟩)
  have hfresh : ∀ d ∈ drafts, d.Every fun s => ∀ l, s ≠ .model l :=
    fun d hd t ht => TypeExpr.every_ne_model_of_unlinked (hunlinked d hd t ht)
  rw [dependencies_eq_met hnames hfresh hm, List.mem_eraseDups, List.mem_filter]
  by_cases hself : l = m.link
  · exact .inl hself
  · exact .inr ⟨hmet, by simpa using hself⟩

end Highlights

section Agreement

/-- Whatever a node is resolved against, the resolved type and the linked one have labels
with the text that the written type gives when nothing is known. -/
theorem label_text_of_resolveNode
    {n : Node} {ctx : Context} {scope : List String} {t : TypeExpr} {find : String → Option Link}
    (ht : (resolveNode ctx scope (some n)).outcome = .ok t)
    (hfind : NamesModels find) :
    t.label.text = .str ((Written.ofNode n).denote [] []).text ∧
      (t.link find).label.text = .str ((Written.ofNode n).denote [] []).text := by
  have htext : t.text = ((Written.ofNode n).denote [] []).text := by
    rw [eq_denote_of_resolve ht]
    exact (sameLabel_denote (.ofNode n) ctx.known [] scope []).text
  have hfresh : ∀ l, t ≠ .model l :=
    TypeExpr.every_ne_model_of_unlinked (every_unlinked_of_resolve ht) t (.self t)
  rw [← htext]
  exact label_text_link hfind hfresh

theorem exists_resolveNode
    {n : Node} {ctx : Context}
    (hn : n.Every Syntax.Node.HasElement)
    (hdemand : (n.demand : Int) ≤ ctx.limit)
    (scope : List String) :
    ∃ t, (resolveNode ctx scope (some n)).outcome = .ok t := by
  cases ht : n.annotated? with
  | some t => exact exists_resolveNode_of_demand_le ctx.known scope ht hn hdemand
  | none =>
      refine ⟨.unannotated, ?_⟩
      show (resolve ctx scope 0 (.ofNode n)).outcome = _
      rw [Written.ofNode_of_absent ht]
      exact resolve_absent_eq_ok_iff.2 rfl

/-- A row of a card is highlighted only if its field holds a link that the graph knows. -/
theorem rows_card
    {options : Options} {root : Node} {g : Graph} {m : Model}
    (h : (extract options root).outcome = .ok g)
    (hm : m ∈ g.models) :
    List.Forall₂
      (fun f row => row.type.highlighted = true →
        ∃ (s : TypeExpr) (l : Link), s.Within f.type ∧ s.target? = some l ∧
          (l = m.link ∨ l ∈ m.dependencies))
      m.schema m.card.rows := by
  obtain ⟨-, -, drafts, -, -, -, hnames, hunlinked, rfl⟩ := exists_drafts_of_extract h
  obtain ⟨linked, hlinked, rfl⟩ := List.mem_map.1 hm
  refine List.forall₂_map_right_iff.2 (List.forall₂_same.2 fun f hf hrow => ?_)
  have hhighlighted : f.type.highlighted = true := (label_highlighted f.type).symm.trans hrow
  obtain ⟨s, l, hs, hl⟩ := exists_target_of_highlighted hhighlighted
  have hknown : l = linked.link ∨ l ∈ linked.dependencies :=
    eq_link_or_mem_dependencies hnames hunlinked hlinked hf hs hl
  exact ⟨s, l, hs, hl, hknown⟩

/-- Labels depend on syntax only, and highlighting agrees with the graph.

* A node is resolved wherever the limit leaves room for its demand.
* The types that two resolutions of one node give have labels with the same text, and so
  have the types linked from them, whatever is known, in scope and registered.
* The registry that linking uses gives for a name only models of that name.
* If a row of a card in an extracted graph is highlighted, then the type of its field holds
  a link to the model itself or to one of its dependencies. -/
theorem labels_agree :
    (∀ n : Node, n.Every Syntax.Node.HasElement → ∀ (ctx : Context) (scope : List String),
      (n.demand : Int) ≤ ctx.limit → ∃ t, (resolveNode ctx scope (some n)).outcome = .ok t) ∧
    (∀ (n : Node) (ctx ctx' : Context) (scope scope' : List String) (t t' : TypeExpr),
      (resolveNode ctx scope (some n)).outcome = .ok t →
      (resolveNode ctx' scope' (some n)).outcome = .ok t' →
      ∀ find find', NamesModels find → NamesModels find' →
        t'.label.text = t.label.text ∧
        (t.link find).label.text = t.label.text ∧
        (t'.link find').label.text = t.label.text) ∧
    (∀ drafts, NamesModels (linkTo? drafts)) ∧
    (∀ (options : Options) (root : Node) (g : Graph), (extract options root).outcome = .ok g →
      ∀ m ∈ g.models, List.Forall₂
        (fun f row => row.type.highlighted = true →
          ∃ (s : TypeExpr) (l : Link), s.Within f.type ∧ s.target? = some l ∧
            (l = m.link ∨ l ∈ m.dependencies))
        m.schema m.card.rows) := by
  refine ⟨fun n hn ctx scope hdemand => exists_resolveNode hn hdemand scope, ?_,
    namesModels_linkTo?, fun options root g h m hm => rows_card h hm⟩
  intro n ctx ctx' scope scope' t t' ht ht' find find' hfind hfind'
  obtain ⟨htext, hlinked⟩ := label_text_of_resolveNode ht hfind
  obtain ⟨htext', hlinked'⟩ := label_text_of_resolveNode ht' hfind'
  rw [htext, htext', hlinked, hlinked']
  exact ⟨rfl, rfl, rfl⟩

/-- An association to `A` has one label, whether `A` is a model or a type parameter, and in a
graph where two models refer to each other all rows are highlighted. -/
theorem labels_agree_crossReferences :
    (∃ t u, (resolveNode ⟨["A"], 1⟩ [] (some besideIndex)).outcome = .ok t ∧
      (resolveNode ⟨[], 1⟩ ["A"] (some besideIndex)).outcome = .ok u ∧
      (u.link (linkTo? [])).label.text = t.label.text ∧
      (t.link (linkTo? [{ name := "A", kind := .interfaceDecl }])).label.text = t.label.text) ∧
    ∃ g, (extract {} crossReferences).outcome = .ok g ∧
      (g.models.map fun m => m.card.rows.map (·.type.highlighted)) = [[true], [true]] ∧
      ∀ m ∈ g.models, List.Forall₂
        (fun f row => row.type.highlighted = true →
          ∃ (s : TypeExpr) (l : Link), s.Within f.type ∧ s.target? = some l ∧
            (l = m.link ∨ l ∈ m.dependencies))
        m.schema m.card.rows := by
  obtain ⟨hresolves, htexts, hregistry, hrows⟩ := labels_agree
  obtain ⟨t, ht⟩ := hresolves besideIndex (by decide +kernel) ⟨["A"], 1⟩ [] (by decide +kernel)
  obtain ⟨u, hu⟩ := hresolves besideIndex (by decide +kernel) ⟨[], 1⟩ ["A"] (by decide +kernel)
  obtain ⟨-, ht', hu'⟩ := htexts besideIndex _ _ _ _ t u ht hu _ _
    (hregistry [{ name := "A", kind := .interfaceDecl }]) (hregistry [])
  obtain ⟨g, hg, hflags⟩ := Pass.exists_ok_of_toOption_map
    (p := extract {} crossReferences)
    (f := fun g => g.models.map fun m => m.card.rows.map (·.type.highlighted))
    (b := [[true], [true]]) (by decide +kernel)
  exact ⟨⟨t, u, ht, hu, hu', ht'⟩, g, hg, hflags, hrows {} crossReferences g hg⟩

end Agreement

end DeclGraph
