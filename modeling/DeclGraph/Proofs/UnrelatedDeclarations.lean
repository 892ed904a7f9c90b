import DeclGraph.Proofs.DeclarationOrder
import DeclGraph.Proofs.LinkedNames

/-!
# Unrelated declarations

A declaration whose name stands nowhere in the others does not disturb them: put in
anywhere, it leaves their models as they were, and it may join the dependants of some.

The argument follows the stages again.

* Gathering gives one group more.
* Resolving asks for names that are texts of nodes, or names of base types.  The new
  name is none of them, so every old group has its old draft.
* Linking finds the old links for the old names, and the edges of a model depend on
  its own types only.  So the new model is the only one that can lead to old models and
  did not before.
-/

namespace DeclGraph

open Syntax (Node)

section Texts

variable {n t : Node} {label text : String}

theorem Searched.within
    {w : Node}
    (h : Searched n w) :
    w.Within n := by
  induction h with
  | self n => exact .self n
  | inside _ _ hc _ ih => exact ih.trans (Syntax.Node.within_of_mem_namedChildren hc)

/-- The names that a construct asks for by itself. -/
def Shape.names : Shape → List String
  | .name _ label => [label]
  | .reference _ label _ => [label]
  | .verbatim _ _ _ names => names
  | _ => []

/-- The names that a construct asks for by itself are texts of nodes in it. -/
theorem exists_text_of_mem_names
    (h : label ∈ (typeShape t).names) :
    ∃ m : Node, m.Within t ∧ m.text = label := by
  rcases construct_cases t with hkind | hkind | hkind | hkind | hkind | ⟨key, value, hkeyed⟩ | hkept
  · rw [typeShape_wrapper hkind] at h
    cases hlast : t.namedChildren.getLast? <;> simp [hlast, Shape.names] at h
  · rw [typeShape_name hkind] at h
    exact ⟨t, .self t, (List.mem_singleton.1 h).symm⟩
  · rw [typeShape_array hkind] at h
    cases hhead : t.namedChildren.head? <;> simp [hhead, Shape.names] at h
  · rw [typeShape_generic hkind] at h
    cases List.mem_singleton.1 h
    unfold referenceLabel
    cases hname : t.child? "name" with
    | none => exact ⟨t, .self t, rfl⟩
    | some c => exact ⟨c, Syntax.Node.within_of_child? hname, rfl⟩
  · rw [typeShape_function hkind] at h
    cases h
  · rw [typeShape_keyed hkeyed] at h
    cases h
  · obtain ⟨skipped, hshape⟩ := exists_typeShape_of_keptAsText hkept
    rw [hshape] at h
    obtain ⟨w, hw, -, htext⟩ := mem_typeNames_iff.1 h
    exact ⟨w, hw.within, htext⟩

theorem exists_mem_of_mem_asked_ofNode?
    {o : Option Node}
    (h : label ∈ (Written.ofNode? o).asked) :
    ∃ m ∈ o, label ∈ (Written.ofNode m).asked := by
  cases o with
  | none => cases h
  | some m => exact ⟨m, rfl, h⟩

/-- A construct asks for names by itself or in its parts. -/
theorem mem_asked_written
    {s : Shape}
    (h : label ∈ s.written.asked) :
    label ∈ s.names ∨ ∃ m ∈ s.parts, label ∈ (Written.ofNode m).asked := by
  cases s with
  | absent => cases h
  | wrapped line inner => exact .inr ⟨inner, List.mem_singleton_self _, h⟩
  | hollow line text => cases h
  | name line label => exact .inl h
  | array line element => exact .inr ⟨element, List.mem_singleton_self _, h⟩
  | bareArray line => cases h
  | reference line name args =>
      rw [Shape.written, Written.asked, askedAll_eq_flatMap, List.mem_cons, List.mem_flatMap] at h
      rcases h with rfl | ⟨w, hw, hlabel⟩
      · exact .inl (List.mem_singleton_self _)
      · obtain ⟨m, hm, rfl⟩ := List.mem_map.1 hw
        exact .inr ⟨m, hm, hlabel⟩
  | function line typeParams params result =>
      rw [Shape.written, Written.asked, askedParams_eq_flatMap, List.mem_append,
        List.mem_flatMap] at h
      rcases h with ⟨w, hw, hlabel⟩ | hlabel
      · obtain ⟨f, hf, rfl⟩ := List.mem_map.1 hw
        obtain ⟨m, hm, hlabel⟩ := exists_mem_of_mem_asked_ofNode? hlabel
        exact .inr ⟨m, List.mem_append_left _ (List.mem_filterMap.2 ⟨f, hf, hm⟩), hlabel⟩
      · obtain ⟨m, hm, hlabel⟩ := exists_mem_of_mem_asked_ofNode? hlabel
        exact .inr ⟨m, List.mem_append_right _ (Option.mem_toList.2 hm), hlabel⟩
  | keyed line skipped key value =>
      rw [Shape.written, Written.asked, List.mem_append] at h
      rcases h with hlabel | hlabel
      · obtain ⟨m, hm, hlabel⟩ := exists_mem_of_mem_asked_ofNode? hlabel
        exact .inr ⟨m, List.mem_append_left _ (Option.mem_toList.2 hm), hlabel⟩
      · obtain ⟨m, hm, hlabel⟩ := exists_mem_of_mem_asked_ofNode? hlabel
        exact .inr ⟨m, List.mem_append_right _ (Option.mem_toList.2 hm), hlabel⟩
  | verbatim line skipped text names => exact .inl h

/-- The names that resolving a node asks for are texts of nodes in its tree. -/
theorem exists_text_of_mem_asked
    (h : label ∈ (Written.ofNode n).asked) :
    ∃ m : Node, m.Within n ∧ m.text = label := by
  induction hsize : n.size using Nat.strongRecOn generalizing n with
  | ind size ih =>
      rw [Written.ofNode_eq] at h
      rcases mem_asked_written h with hlabel | ⟨c, hc, hlabel⟩
      · unfold Syntax.Node.shape at hlabel
        split at hlabel
        · cases hlabel
        · rename_i t ht
          obtain ⟨m, hm, htext⟩ := exists_text_of_mem_names hlabel
          exact ⟨m, hm.trans (Syntax.Node.within_of_annotated? ht), htext⟩
      · obtain ⟨m, hm, htext⟩ :=
          ih c.size (hsize ▸ Syntax.Node.size_lt_of_mem_shape hc) hlabel rfl
        exact ⟨m, hm.trans (Syntax.Node.within_of_mem_shape hc), htext⟩

/-- A text stands nowhere in a declaration: it is not the text of a node in there, and not
the name of a base type. -/
structure Declaration.Lacks (text : String) (d : Declaration) : Prop where
  nodes : d.Every (·.text ≠ text)
  bases : ∀ b ∈ d.heritage, b.name ≠ text

theorem Declaration.Lacks.asksOnly
    {d : Declaration}
    (h : d.Lacks text) :
    d.AsksOnly (· ≠ text) := by
  refine ⟨?_, h.bases⟩
  rintro n hn label hlabel rfl
  obtain ⟨m, hm, htext⟩ := exists_text_of_mem_asked hlabel
  exact h.nodes n hn m hm htext

/-- A declaration lacks what is not the text of a node of the tree that it was read from. -/
theorem lacks_of_readDeclaration
    {kind : Kind} {d : Declaration}
    (hread : (readDeclaration kind n).outcome = .ok (some d))
    (h : n.Every (·.text ≠ text)) :
    d.Lacks text := by
  have hin := readIn_of_readDeclaration hread
  refine ⟨fun m hm => h.within (hin.nodes m hm), fun b hb hname => ?_⟩
  obtain ⟨m, hm, htext⟩ := hin.bases b hb
  exact h m hm (htext.trans hname)

end Texts

section Insertion

variable {before after : List Declaration} {d : Declaration} {gs hs : List Group}

/-- What a filter drops may as well not be there. -/
theorem filter_append_cons_of_neg
    {p : Declaration → Bool}
    (hd : p d = false) :
    (before ++ d :: after).filter p = (before ++ after).filter p := by
  rw [List.filter_append, List.filter_append, List.filter_cons_of_neg (by simp [hd])]

/-- A declaration of a new name makes one group more. -/
theorem Gathers.filter_insert
    (hgs : Gathers gs (before ++ after))
    (hhs : Gathers hs (before ++ d :: after))
    (hnew : ∀ e ∈ before ++ after, e.name ≠ d.name) :
    hs.filter (·.name ≠ d.name) = gs := by
  have hold : (before ++ d :: after).filter (·.name ≠ d.name) = before ++ after := by
    rw [filter_append_cons_of_neg (by simp)]
    exact List.filter_eq_self.2 fun e he => decide_eq_true (hnew e he)
  have hnames : ((before ++ d :: after).map (·.name)).eraseDups.filter (· ≠ d.name) =
      ((before ++ after).map (·.name)).eraseDups := by
    rw [filter_eraseDups, List.filter_map]
    exact congrArg (fun ds : List Declaration => (ds.map (·.name)).eraseDups) hold
  have hgroup : ∀ name ∈ ((before ++ after).map (·.name)).eraseDups,
      groupOf (before ++ d :: after) name = groupOf (before ++ after) name := by
    intro name hname
    obtain ⟨e, he, rfl⟩ := List.mem_map.1 (List.mem_eraseDups.1 hname)
    have hne : (d.name == e.name) = false := beq_eq_false_iff_ne.2 (hnew e he).symm
    unfold groupOf
    rw [filter_append_cons_of_neg (p := (·.name == e.name)) hne]
  rw [hhs.eq_map, hgs.eq_map, List.filter_map]
  show List.map _ (List.filter (· ≠ d.name) _) = _
  rw [hnames]
  exact List.map_congr_left hgroup

theorem mem_names_filter_iff
    {name label : String}
    (hne : label ≠ name) :
    label ∈ (hs.filter (·.name ≠ name)).map (·.name) ↔ label ∈ hs.map (·.name) := by
  constructor
  · exact fun h => (List.filter_sublist.map _).subset h
  · intro h
    obtain ⟨g, hg, rfl⟩ := List.mem_map.1 h
    exact List.mem_map_of_mem (List.mem_filter.2 ⟨hg, decide_eq_true hne⟩)

variable {limit : Int} {drafts others : List Draft} {name : String}

/-- Groups that do not ask for a name have the same drafts without the group of that name. -/
theorem drafts_eq_filter
    (hasks : ∀ g ∈ hs.filter (·.name ≠ name), ∀ e ∈ g.declarations, e.AsksOnly (· ≠ name))
    (hdrafts : (resolveGroups limit (hs.filter (·.name ≠ name))).outcome = .ok drafts)
    (hothers : (resolveGroups limit hs).outcome = .ok others) :
    drafts = others.filter (·.name ≠ name) := by
  have hagrees : Context.AgreesOn (· ≠ name)
      ⟨(hs.filter (·.name ≠ name)).map (·.name), limit⟩ ⟨hs.map (·.name), limit⟩ :=
    ⟨rfl, fun label hne => mem_names_filter_iff hne⟩
  have hresolve : resolveGroups limit (hs.filter (·.name ≠ name)) =
      Pass.each (resolveGroup ⟨hs.map (·.name), limit⟩) (hs.filter (·.name ≠ name)) :=
    Pass.each_congr fun g hg => hagrees.resolveGroup_eq (hasks g hg)
  have hkept := List.rel_filter (p := fun g : Group => g.name ≠ name)
    (q := fun u : Draft => u.name ≠ name)
    (fun g u hu => by simp only [(resolveGroup_spec hu).1]) (Pass.outcome_each_eq_ok_iff.1 hothers)
  rw [hresolve] at hdrafts
  exact Except.ok.inj (hdrafts.symm.trans (Pass.outcome_each_eq_ok_iff.2 hkept))

end Insertion

section Linking

open TypeExpr (Made)

variable {known : List String} {P : String → Prop} {find find' : String → Option Link}

/-- Links that agree on the names in a type link it alike. -/
theorem TypeExpr.link_congr
    {t : TypeExpr}
    (hfind : ∀ name, P name → find name = find' name)
    (h : t.Every (Made known P)) :
    t.link find = t.link find' := by
  induction t using TypeExpr.induct with
  | verbatim text references ih =>
      have hparts := (TypeExpr.every_iff.1 h).2
      rw [TypeExpr.link, TypeExpr.link, linkAll_eq_map, linkAll_eq_map]
      exact congrArg _ (List.map_congr_left fun r hr => ih r hr (hparts r hr))
  | model target => rfl
  | pending name =>
      rw [TypeExpr.link, TypeExpr.link, hfind name (TypeExpr.every_iff.1 h).1.2]
  | param name => rfl
  | array element ih =>
      have helement := (TypeExpr.every_iff.1 h).2 element (List.mem_singleton_self _)
      rw [TypeExpr.link, TypeExpr.link, ih helement]
  | keyed key value ihk ihv =>
      have hparts := (TypeExpr.every_iff.1 h).2
      rw [TypeExpr.link, TypeExpr.link, ihk (hparts key (List.mem_pair.2 (.inl rfl))),
        ihv (hparts value (List.mem_pair.2 (.inr rfl)))]
  | generic name args target ih =>
      obtain ⟨⟨-, hname⟩, hparts⟩ := TypeExpr.every_iff.1 h
      rw [TypeExpr.link, TypeExpr.link, linkAll_eq_map, linkAll_eq_map, hfind name hname]
      exact congrArg (TypeExpr.generic name · _)
        (List.map_congr_left fun a ha => ih a ha (hparts a ha))
  | function args result iha ihr =>
      obtain ⟨-, hargs, hresult⟩ := TypeExpr.every_function_iff.1 h
      rw [TypeExpr.link, TypeExpr.link, linkFields_eq_map, linkFields_eq_map, ihr hresult]
      refine congrArg (TypeExpr.function · _) (List.map_congr_left fun a ha => ?_)
      rw [iha a ha (hargs a ha)]

variable {drafts others : List Draft}

theorem linkDraft_congr
    {u : Draft}
    (hfind : ∀ name, P name → linkTo? drafts name = linkTo? others name)
    (h : u.Every (Made known P)) :
    linkDraft drafts {} 0 u = linkDraft others {} 0 u := by
  obtain ⟨hschema, hparams, hheritage⟩ := Draft.every_iff.1 h
  have hfields : linkFields (linkTo? drafts) u.schema = linkFields (linkTo? others) u.schema := by
    rw [linkFields_eq_map, linkFields_eq_map]
    exact List.map_congr_left fun f hf => by rw [TypeExpr.link_congr hfind (hschema f hf)]
  have hbounds : u.typeParams.map (TypeParam.link (linkTo? drafts)) =
      u.typeParams.map (TypeParam.link (linkTo? others)) := by
    refine List.map_congr_left fun p hp => ?_
    obtain ⟨hbound, hdefault⟩ := List.forall_mem_append.1 (hparams p hp)
    unfold TypeParam.link
    rw [Option.map_congr fun t ht => TypeExpr.link_congr hfind (hbound t (Option.mem_toList.2 ht)),
      Option.map_congr fun t ht => TypeExpr.link_congr hfind (hdefault t (Option.mem_toList.2 ht))]
  have hbases : linkAll (linkTo? drafts) u.heritage = linkAll (linkTo? others) u.heritage := by
    rw [linkAll_eq_map, linkAll_eq_map]
    exact List.map_congr_left fun t ht => TypeExpr.link_congr hfind (hheritage t ht)
  unfold linkDraft
  rw [hfields, hbounds, hbases]
  rfl

theorem map_edgeless_linkedModels (withHeritage : Bool) :
    (linkedModels drafts withHeritage).map Model.edgeless = drafts.map (linkDraft drafts {} 0) := by
  rw [linkedModels_eq_map, List.map_map]
  show drafts.zipIdx.map (linkDraft drafts {} 0 ∘ Prod.fst) = _
  rw [← List.map_map, List.zipIdx_map_fst]

end Linking

section Models

/-- Models that differ in their dependants at most, where the second one may have one
dependant more. -/
structure Model.UndisturbedBy (l : Link) (m n : Model) : Prop where
  eq_apart : { m with dependants := [] } = { n with dependants := [] }
  /-- The others are there as before. -/
  dependants_eq : n.dependants.filter (· ≠ l) = m.dependants
  /-- The new one is there once at most. -/
  count_le_one : n.dependants.count l ≤ 1

theorem Model.UndisturbedBy.freeze
    {l : Link} {m n : Model}
    (h : m.UndisturbedBy l n) :
    m.freeze.UndisturbedBy l n.freeze :=
  ⟨congrArg Model.freeze h.eq_apart, h.dependants_eq, h.count_le_one⟩

open TypeExpr (Made)

variable {known : List String} {drafts : List Draft} {name : String} {withHeritage : Bool}

/-- Leaving out the drafts of a name changes no link to another name. -/
theorem linkTo?_filter
    {label : String}
    (hne : label ≠ name) :
    linkTo? (drafts.filter (·.name ≠ name)) label = linkTo? drafts label := by
  have hany : (drafts.filter (·.name ≠ name)).any (·.name == label) =
      drafts.any (·.name == label) := by
    rw [Bool.eq_iff_iff, List.any_eq_true, List.any_eq_true]
    constructor
    · rintro ⟨d, hd, hlabel⟩
      exact ⟨d, (List.mem_filter.1 hd).1, hlabel⟩
    · rintro ⟨d, hd, hlabel⟩
      have hkept : d.name ≠ name := by rwa [eq_of_beq hlabel]
      exact ⟨d, List.mem_filter.2 ⟨hd, decide_eq_true hkept⟩, hlabel⟩
  unfold linkTo?
  rw [hany]

/-- A model has the same types whether or not there is a draft that nothing in them names. -/
theorem edgeless_filter
    (hmade : ∀ d ∈ drafts.filter (·.name ≠ name), d.Every (Made known (· ≠ name))) :
    List.Forall₂ (fun m n => m.edgeless = n.edgeless)
      (linkedModels (drafts.filter (·.name ≠ name)) withHeritage)
      ((linkedModels drafts withHeritage).filter (·.name ≠ .str name)) := by
  have hname : ((fun m : Model => decide (m.name ≠ .str name)) ∘ linkDraft drafts {} 0) =
      fun d => decide (d.name ≠ name) := by
    funext d
    simp [linkDraft]
  have hright : ((linkedModels drafts withHeritage).filter (·.name ≠ .str name)).map Model.edgeless =
      (drafts.filter (·.name ≠ name)).map (linkDraft drafts {} 0) := by
    rw [← hname, ← List.filter_map, ← map_edgeless_linkedModels withHeritage, List.filter_map]
    rfl
  have hmaps : (linkedModels (drafts.filter (·.name ≠ name)) withHeritage).map Model.edgeless =
      ((linkedModels drafts withHeritage).filter (·.name ≠ .str name)).map Model.edgeless := by
    rw [hright, map_edgeless_linkedModels]
    exact List.map_congr_left fun d hd =>
      linkDraft_congr (fun label hne => linkTo?_filter hne) (hmade d hd)
  rw [← List.forall₂_eq_eq_eq, List.forall₂_map_left_iff, List.forall₂_map_right_iff] at hmaps
  exact hmaps

/-- Models other than that of a name are those whose link is not the one to the name. -/
theorem filter_link_ne :
    (linkedModels drafts withHeritage).filter (·.link ≠ ⟨.str name, .str name⟩) =
      (linkedModels drafts withHeritage).filter (·.name ≠ .str name) := by
  refine List.filter_congr fun m hm => ?_
  obtain ⟨p, -, rfl⟩ := exists_of_mem_linkedModels hm
  simp [Model.link, linkDraft]

/-- The dependants of a model are those among other models, and that of a name perhaps. -/
theorem dependants_filter
    (hnames : (drafts.map (·.name)).Nodup)
    {n : Model}
    (hn : n ∈ linkedModels drafts withHeritage) :
    n.dependants.filter (· ≠ ⟨.str name, .str name⟩) =
      (((linkedModels drafts withHeritage).filter (·.name ≠ .str name)).filter
        fun a => n.link ∈ a.dependencies).map Model.link := by
  rw [dependants_eq_filter hnames hn, List.filter_map, ← filter_link_ne, List.filter_comm]
  rfl

/-- Nor does that draft change the dependencies. -/
theorem dependencies_filter
    (hnames : (drafts.map (·.name)).Nodup)
    (hfresh : ∀ d ∈ drafts, d.Every fun s => ∀ l, s ≠ .model l)
    (hmade : ∀ d ∈ drafts.filter (·.name ≠ name), d.Every (Made known (· ≠ name)))
    (withHeritage : Bool) :
    List.Forall₂ (fun m n => m.edgeless = n.edgeless ∧ m.dependencies = n.dependencies)
      (linkedModels (drafts.filter (·.name ≠ name)) withHeritage)
      ((linkedModels drafts withHeritage).filter (·.name ≠ .str name)) := by
  refine (forall₂_mem (edgeless_filter hmade)).imp ?_
  rintro m n ⟨hm, hn, hmn⟩
  refine ⟨hmn, dependencies_eq_of_edgeless ?_ ?_ hm hnames hfresh (List.mem_filter.1 hn).1 hmn⟩
  · exact hnames.sublist (List.filter_sublist.map _)
  · exact fun d hd => hfresh d (List.mem_filter.1 hd).1

/-- Models that agree but for dependants depend on a model alike. -/
theorem map_link_filter_eq
    {ms ns : List Model}
    (h : List.Forall₂ (fun m n => m.edgeless = n.edgeless ∧ m.dependencies = n.dependencies) ms ns)
    (l : Link) :
    (ms.filter fun m => l ∈ m.dependencies).map Model.link =
      (ns.filter fun n => l ∈ n.dependencies).map Model.link := by
  have hkept := List.rel_filter (p := fun m : Model => l ∈ m.dependencies)
    (q := fun n : Model => l ∈ n.dependencies) (fun m n hmn => by simp only [hmn.2]) h
  rw [← List.forall₂_eq_eq_eq, List.forall₂_map_left_iff, List.forall₂_map_right_iff]
  exact hkept.imp fun m n hmn => Model.link_eq_of_edgeless hmn.1

/-- A draft that nothing in the others names leaves their models undisturbed. -/
theorem linkedModels_undisturbed
    (hnames : (drafts.map (·.name)).Nodup)
    (hfresh : ∀ d ∈ drafts, d.Every fun s => ∀ l, s ≠ .model l)
    (hmade : ∀ d ∈ drafts.filter (·.name ≠ name), d.Every (Made known (· ≠ name)))
    (withHeritage : Bool) :
    List.Forall₂ (Model.UndisturbedBy ⟨.str name, .str name⟩)
      (linkedModels (drafts.filter (·.name ≠ name)) withHeritage)
      ((linkedModels drafts withHeritage).filter (·.name ≠ .str name)) := by
  have hpairs := dependencies_filter hnames hfresh hmade withHeritage
  refine (forall₂_mem hpairs).imp ?_
  rintro m n ⟨hm, hn, hedgeless, hdependencies⟩
  have hn := (List.mem_filter.1 hn).1
  have hnames' : ((drafts.filter (·.name ≠ name)).map (·.name)).Nodup :=
    hnames.sublist (List.filter_sublist.map _)
  refine ⟨Model.eq_apart_of_edgeless hedgeless hdependencies, ?_,
    List.nodup_iff_count_le_one.1 (nodup_dependants hnames hn) _⟩
  rw [dependants_filter hnames hn, dependants_eq_filter hnames' hm,
    Model.link_eq_of_edgeless hedgeless, map_link_filter_eq hpairs]

end Models

section Assembly

theorem exists_drafts_of_assemble
    {options : Options} {ds : List Declaration} {g : Graph}
    (h : (assemble options ds).outcome = .ok g) :
    ∃ groups drafts, Gathers groups ds ∧
      (resolveGroups options.depthLimit groups).outcome = .ok drafts ∧
      g = ⟨(linkedModels drafts options.withHeritage).map Model.freeze⟩ := by
  rcases collect_cases ds with ⟨groups, hgroups, hgathers, -⟩ | ⟨_, _, _, _, hconflict, -⟩
  · rw [outcome_assemble_of_collect hgroups] at h
    cases hdrafts : (resolveGroups options.depthLimit groups).outcome with
    | error f =>
        rw [hdrafts] at h
        cases h
    | ok drafts =>
        rw [hdrafts] at h
        cases h
        exact ⟨groups, drafts, hgathers, hdrafts, rfl⟩
  · rw [outcome_assemble_of_conflict hconflict] at h
    cases h

/-- A declaration whose name is new, and stands nowhere in the other declarations, does
not disturb their models.  Put in anywhere, it leaves them in their order, and each one
as it was, except that its own model may join the dependants.

For declarations that were read from a tree, it is enough that the name is not the text
of a node there. -/
theorem assemble_undisturbed :
    (∀ (options : Options) (before after : List Declaration) (d : Declaration) (g k : Graph),
      (∀ e ∈ before ++ after, e.name ≠ d.name ∧ e.Lacks d.name) →
      (assemble options (before ++ after)).outcome = .ok g →
      (assemble options (before ++ d :: after)).outcome = .ok k →
      (k.models.map (·.name)).Nodup ∧
      List.Forall₂ (Model.UndisturbedBy ⟨.str d.name, .str d.name⟩) g.models
        (k.models.filter (·.name ≠ .str d.name))) ∧
    (∀ (kind : Kind) (n : Node) (e : Declaration) (text : String),
      (readDeclaration kind n).outcome = .ok (some e) →
      n.Every (·.text ≠ text) →
      e.Lacks text) := by
  refine ⟨?_, fun _ _ _ _ => lacks_of_readDeclaration⟩
  intro options before after d g k hnew hg hk
  obtain ⟨gs, drafts, hgs, hdrafts, rfl⟩ := exists_drafts_of_assemble hg
  obtain ⟨hs, others, hhs, hothers, rfl⟩ := exists_drafts_of_assemble hk
  have hfilter := hgs.filter_insert hhs fun e he => (hnew e he).1
  have hasks : ∀ h ∈ gs, ∀ e ∈ h.declarations, e.AsksOnly (· ≠ d.name) :=
    fun h hh e he => (hnew e ((hgs.mem_declarations_iff hh).1 he).1).2.asksOnly
  have hmade : ∀ u ∈ drafts, u.Every (TypeExpr.Made (gs.map (·.name)) (· ≠ d.name)) :=
    forall_mem_of_forall₂ (Pass.outcome_each_eq_ok_iff.1 hdrafts)
      fun h hh u hu => (resolveGroup_made (hasks h hh) hu).2.2
  rw [← hfilter] at hasks hdrafts
  have hnames := hhs.nodup_names
  rw [names_resolveGroups hothers] at hnames
  cases drafts_eq_filter hasks hdrafts hothers
  have hlinks := links_linkedModels_freeze (every_unlinked_resolveGroups hothers)
    options.withHeritage
  have hmodels := linkedModels_undisturbed hnames (every_ne_model_resolveGroups hothers) hmade
    options.withHeritage
  refine ⟨nodup_names_of_links hlinks hnames, ?_⟩
  show List.Forall₂ _ (List.map _ _) (List.filter _ (List.map _ _))
  rw [List.filter_map, List.forall₂_map_left_iff, List.forall₂_map_right_iff]
  exact hmodels.imp fun m n hmn => hmn.freeze

/-- An interface that refers to the parted one, and that nothing refers to. -/
def newcomer : Declaration :=
  interfaceWith "C" "a" (.build "type_identifier" "A" none [])

theorem assemble_undisturbed_newcomer :
    (∀ e ∈ [firstPart] ++ [otherInterface, secondPart],
      e.name ≠ newcomer.name ∧ e.Lacks newcomer.name) ∧
    (∃ g k,
      (assemble {} ([firstPart] ++ [otherInterface, secondPart])).outcome = .ok g ∧
      (assemble {} ([firstPart] ++ newcomer :: [otherInterface, secondPart])).outcome = .ok k ∧
      k.models.map (·.dependants.map (·.id)) = [[.str "C", .str "B"], [], [.str "A"]] ∧
      List.Forall₂ (Model.UndisturbedBy ⟨.str "C", .str "C"⟩) g.models
        (k.models.filter (·.name ≠ .str "C"))) ∧
    (interfaceNode "A" "b" "B").Every (·.text ≠ "C") ∧
    ∃ e,
      (readDeclaration .interfaceDecl (interfaceNode "A" "b" "B")).outcome = .ok (some e) ∧
      e.Lacks "C" := by
  have hnew : ∀ e ∈ [firstPart] ++ [otherInterface, secondPart],
      e.name ≠ newcomer.name ∧ e.Lacks newcomer.name := by
    have hlacks (e : Declaration) (hnodes : ∀ n ∈ e.nodes, n.Every (·.text ≠ "C"))
        (hbases : ∀ b ∈ e.heritage, b.name ≠ "C") : e.Lacks newcomer.name := ⟨hnodes, hbases⟩
    refine List.forall_mem_cons.2 ⟨⟨by decide, hlacks _ (by decide) (by decide)⟩, ?_⟩
    refine List.forall_mem_cons.2 ⟨⟨by decide, hlacks _ (by decide) (by decide)⟩, ?_⟩
    exact List.forall_mem_singleton.2 ⟨by decide, hlacks _ (by decide) (by decide)⟩
  have htexts : (interfaceNode "A" "b" "B").Every (·.text ≠ "C") := by decide
  obtain ⟨g, hg, -⟩ := Pass.exists_ok_of_toOption_map
    (p := assemble {} ([firstPart] ++ [otherInterface, secondPart]))
    (f := fun g => g.models.length) (b := 2) (by decide +kernel)
  obtain ⟨k, hk, hdependants⟩ := Pass.exists_ok_of_toOption_map
    (p := assemble {} ([firstPart] ++ newcomer :: [otherInterface, secondPart]))
    (f := fun k => k.models.map (·.dependants.map (·.id)))
    (b := [[.str "C", .str "B"], [], [.str "A"]]) (by decide +kernel)
  obtain ⟨o, ho, hread⟩ := Pass.exists_ok_of_toOption_map
    (p := readDeclaration .interfaceDecl (interfaceNode "A" "b" "B"))
    (f := fun o => o.isSome) (b := true) (by decide +kernel)
  obtain ⟨e, rfl⟩ := Option.isSome_iff_exists.1 hread
  have h := assemble_undisturbed
  exact ⟨hnew, ⟨g, k, hg, hk, hdependants, (h.1 {} _ _ newcomer g k hnew hg hk).2⟩, htexts,
    e, ho, h.2 _ _ e "C" ho htexts⟩

end Assembly

end DeclGraph
