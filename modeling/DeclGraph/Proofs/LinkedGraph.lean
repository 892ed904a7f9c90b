import DeclGraph.Proofs.Groups
import DeclGraph.Proofs.Lookup
import DeclGraph.Proofs.Resolution

/-!
# Extracted graphs are linked

Every graph that an extraction returns is closed: each link in it leads to one of
its own models, no reference by name is left at any depth, and the models have
different names.  Linking adds nothing else, so taking the links out again gives
back the drafts.

The argument runs through all stages.  The names that resolution takes as declared
are those of the groups, these are the names of the drafts, and linking knows
exactly the names of the drafts.  So nothing that resolution refers to is missing,
and no missing name is reported.
-/

namespace DeclGraph

open Syntax (Node)

section Quiet

/-- An event that is not the report of a missing name. -/
def Event.Quiet (e : Event) : Prop :=
  ∀ model name, e ≠ .unresolved model name

theorem quiet_memberSkipped (labels : List String) :
    ∀ e ∈ labels.map Event.memberSkipped, e.Quiet := by
  intro e he model name
  obtain ⟨label, -, rfl⟩ := List.mem_map.1 he
  exact Event.noConfusion

variable {ctx : Context}

theorem quiet_checkDepth (depth line : Nat) : (ctx.checkDepth depth line).Reports Event.Quiet := by
  unfold Context.checkDepth
  split
  · exact Pass.reports_fail _
  · exact Pass.reports_pure ()

theorem quiet_resolveParams
    {scope : List String} {depth : Nat} {ps : List (Field Written)}
    (h : ∀ p ∈ ps, (resolve ctx scope depth p.type).Reports Event.Quiet) :
    (resolveParams ctx scope depth ps).Reports Event.Quiet := by
  induction ps with
  | nil => exact Pass.reports_pure []
  | cons p ps ih =>
      obtain ⟨name, w, optional⟩ := p
      obtain ⟨hp, hps⟩ := List.forall_mem_cons.1 h
      refine Pass.reports_bind hp fun t => ?_
      exact Pass.reports_bind (ih hps) fun ts => Pass.reports_pure _

/-- Resolving a type reports skipped members only. -/
theorem quiet_resolve
    (scope : List String) (depth : Nat) (w : Written) :
    (resolve ctx scope depth w).Reports Event.Quiet := by
  induction w using Written.induct generalizing scope depth with
  | absent => exact Pass.reports_pure _
  | wrapped line inner ih =>
      exact Pass.reports_bind (quiet_checkDepth _ _) fun _ => ih _ _
  | hollow line text =>
      exact Pass.reports_bind (quiet_checkDepth _ _) fun _ => Pass.reports_pure _
  | name line name =>
      exact Pass.reports_bind (quiet_checkDepth _ _) fun _ => Pass.reports_pure _
  | array line element ih =>
      refine Pass.reports_bind (quiet_checkDepth _ _) fun _ => ?_
      exact Pass.reports_bind (ih _ _) fun _ => Pass.reports_pure _
  | bareArray line =>
      exact Pass.reports_bind (quiet_checkDepth _ _) fun _ => Pass.reports_fail _
  | reference line name args ih =>
      refine Pass.reports_bind (quiet_checkDepth _ _) fun _ => ?_
      rw [resolveAll_eq_each]
      exact Pass.reports_bind (Pass.reports_each fun a ha => ih a ha _ _)
        fun _ => Pass.reports_pure _
  | function line typeParams params result ihp ihr =>
      refine Pass.reports_bind (quiet_checkDepth _ _) fun _ => ?_
      refine Pass.reports_bind (quiet_resolveParams fun p hp => ihp p hp _ _) fun _ => ?_
      exact Pass.reports_bind (ihr _ _) fun _ => Pass.reports_pure _
  | keyed line skipped key value ihk ihv =>
      refine Pass.reports_bind (quiet_checkDepth _ _) fun _ => ?_
      refine Pass.reports_bind (Pass.reports_report (quiet_memberSkipped _)) fun _ => ?_
      refine Pass.reports_bind (ihk _ _) fun _ => ?_
      exact Pass.reports_bind (ihv _ _) fun _ => Pass.reports_pure _
  | verbatim line skipped text names =>
      refine Pass.reports_bind (quiet_checkDepth _ _) fun _ => ?_
      exact Pass.reports_bind (Pass.reports_report (quiet_memberSkipped _))
        fun _ => Pass.reports_pure _

theorem quiet_resolveNode? (scope : List String) (n : Option Node) :
    (resolveNode? ctx scope n).Reports Event.Quiet := by
  cases n with
  | none => exact Pass.reports_pure _
  | some c => exact Pass.reports_bind (quiet_resolve _ _ _) fun _ => Pass.reports_pure _

theorem quiet_resolveMember (scope : List String) (m : Member) :
    (resolveMember ctx scope m).Reports Event.Quiet := by
  cases m with
  | property name type optional =>
      exact Pass.reports_bind (quiet_resolve _ _ _) fun _ => Pass.reports_pure _
  | method name optional typeParams params result =>
      refine Pass.reports_bind (quiet_resolveParams fun p _ => quiet_resolve _ _ _) fun _ => ?_
      exact Pass.reports_bind (quiet_resolve _ _ _) fun _ => Pass.reports_pure _
  | index key keyType valueType =>
      refine Pass.reports_bind (quiet_resolve _ _ _) fun _ => ?_
      exact Pass.reports_bind (quiet_resolve _ _ _) fun _ => Pass.reports_pure _

theorem quiet_resolveHeritage (scope : List String) (base : Heritage) :
    (resolveHeritage ctx scope base).Reports Event.Quiet := by
  unfold resolveHeritage
  rw [resolveAll_eq_each]
  exact Pass.reports_bind (Pass.reports_each fun w _ => quiet_resolve _ _ w)
    fun _ => Pass.reports_pure _

theorem quiet_resolveDeclaration (draft : Draft) (d : Declaration) :
    (resolveDeclaration ctx draft d).Reports Event.Quiet := by
  refine Pass.reports_bind (Pass.reports_each fun p _ => ?_) fun _ => ?_
  · refine Pass.reports_bind (quiet_resolveNode? _ _) fun _ => ?_
    exact Pass.reports_bind (quiet_resolveNode? _ _) fun _ => Pass.reports_pure _
  refine Pass.reports_bind (quiet_resolveNode? _ _) fun _ => ?_
  refine Pass.reports_bind (Pass.reports_each fun m _ => quiet_resolveMember _ m) fun _ => ?_
  exact Pass.reports_bind (Pass.reports_each fun b _ => quiet_resolveHeritage _ b)
    fun _ => Pass.reports_pure _

theorem quiet_resolveDeclarations (draft : Draft) (ds : List Declaration) :
    (resolveDeclarations ctx draft ds).Reports Event.Quiet := by
  induction ds generalizing draft with
  | nil => exact Pass.reports_pure _
  | cons d ds ih =>
      exact Pass.reports_bind (quiet_resolveDeclaration _ _) fun next => ih next

theorem quiet_addDeclaration (d : Declaration) (gs : List Group) :
    (addDeclaration d gs).Reports Event.Quiet := by
  induction gs with
  | nil => exact Pass.reports_pure _
  | cons g gs ih =>
      unfold addDeclaration
      split
      · split
        · refine Pass.reports_bind (Pass.reports_report ?_) fun _ => Pass.reports_pure _
          intro e he model name
          cases List.mem_singleton.1 he
          exact Event.noConfusion
        · exact Pass.reports_fail _
      · exact Pass.reports_bind ih fun _ => Pass.reports_pure _

theorem quiet_addDeclarations (gs : List Group) (ds : List Declaration) :
    (addDeclarations gs ds).Reports Event.Quiet := by
  induction ds generalizing gs with
  | nil => exact Pass.reports_pure _
  | cons d ds ih =>
      exact Pass.reports_bind (quiet_addDeclaration _ _) fun next => ih next

theorem quiet_singleton
    {e : Event}
    (h : e.Quiet) :
    ∀ e' ∈ [e], e'.Quiet :=
  List.forall_mem_singleton.2 h

theorem quiet_readDeclaration (kind : Kind) (n : Node) :
    (readDeclaration kind n).Reports Event.Quiet := by
  unfold readDeclaration
  split
  · refine Pass.reports_bind (Pass.reports_report (quiet_singleton ?_)) fun _ =>
      Pass.reports_pure _
    intro model name
    exact Event.noConfusion
  · dsimp only
    split
    · split
      · split
        · exact Pass.reports_bind (Pass.reports_report (quiet_memberSkipped _))
            fun _ => Pass.reports_pure _
        · exact Pass.reports_pure _
      · exact Pass.reports_pure _
    · refine Pass.reports_bind (Pass.reports_report (quiet_memberSkipped _)) fun _ => ?_
      split
      · exact Pass.reports_pure _
      · exact Pass.reports_fail _

theorem quiet_readDeclarations (root : Node) :
    (readDeclarations root).Reports Event.Quiet := by
  unfold readDeclarations
  split
  · exact Pass.reports_fail _
  · refine Pass.reports_bind (Pass.reports_each fun n _ => ?_) fun read => ?_
    · unfold readTopLevel
      split
      · exact Pass.reports_pure _
      · split
        · exact quiet_readDeclaration _ _
        · exact Pass.reports_pure _
    · refine Pass.reports_bind (Pass.reports_report (quiet_singleton ?_)) fun _ =>
        Pass.reports_pure _
      intro model name
      exact Event.noConfusion

end Quiet

section Linking

open TypeExpr (Unlinked)

variable {drafts : List Draft} {withHeritage : Bool}

/-- Where every name that is referred to is found, nothing is reported. -/
theorem follow_reports_eq_nil
    {model : String} {source : Nat} {counts : Bool} {es : Edges} {ms : List Mention}
    (h : ∀ name, Mention.reference name ∈ ms → name ∈ drafts.map (·.name)) :
    (follow drafts model source counts es ms).2 = [] := by
  induction ms generalizing es with
  | nil => rfl
  | cons m ms ih =>
      have hms : ∀ name, Mention.reference name ∈ ms → name ∈ drafts.map (·.name) :=
        fun name hname => h name (List.mem_cons_of_mem _ hname)
      unfold follow
      split
      · exact ih hms
      · rename_i name hpos
        exact absurd (h name List.mem_cons_self) (positionOf?_eq_none_iff.1 hpos)
      · exact ih hms

theorem followAll_reports_eq_nil
    {i : Nat} {es : Edges} {ds : List Draft}
    (h : ∀ d ∈ ds, d.Every (Unlinked (drafts.map (·.name)))) :
    (followAll drafts withHeritage i es ds).2 = [] := by
  induction ds generalizing i es with
  | nil => rfl
  | cons d ds ih =>
      obtain ⟨hd, hds⟩ := List.forall_mem_cons.1 h
      have hmentions : ∀ name, Mention.reference name ∈ d.ownMentions ++ d.heritageMentions →
          name ∈ drafts.map (·.name) := by
        intro name hname
        rw [Draft.mentions_eq_flatMap] at hname
        obtain ⟨t, ht, hmem⟩ := List.mem_flatMap.1 hname
        exact hd t ht _ (TypeExpr.within_of_mem_mentions hmem)
      unfold followAll
      dsimp only
      rw [follow_reports_eq_nil fun name hname => hmentions name (List.mem_append.2 (.inl hname)),
        follow_reports_eq_nil fun name hname => hmentions name (List.mem_append.2 (.inr hname)),
        ih hds]
      rfl

/-- The edges that linking finds. -/
def edgesOf (drafts : List Draft) (withHeritage : Bool) : Edges :=
  (followAll drafts withHeritage 0 {} drafts).1

/-- The models that linking makes of drafts. -/
def linkedModels (drafts : List Draft) (withHeritage : Bool) : List Model :=
  drafts.mapIdx fun i d => linkDraft drafts (edgesOf drafts withHeritage) i d

theorem outcome_link :
    (link drafts withHeritage).outcome = .ok (linkedModels drafts withHeritage) :=
  rfl

theorem events_link :
    (link drafts withHeritage).events =
      (followAll drafts withHeritage 0 {} drafts).2 ++
        [.linked drafts.length (edgesOf drafts withHeritage).count] := by
  unfold link edgesOf
  dsimp only
  rw [Pass.events_bind_of_ok rfl]
  exact List.append_nil _

/-- What relates the items of a list to the results of a map with positions. -/
theorem forall₂_mapIdx
    {α β : Type} {R : β → α → Prop} {f : Nat → α → β} {as : List α}
    (h : ∀ i, ∀ a ∈ as, R (f i a) a) :
    List.Forall₂ R (as.mapIdx f) as := by
  induction as generalizing f with
  | nil => exact .nil
  | cons a as ih =>
      rw [List.mapIdx_cons]
      refine .cons (h 0 a List.mem_cons_self) ?_
      exact ih fun i b hb => h (i + 1) b (List.mem_cons_of_mem _ hb)

end Linking

section Extraction

/-- A graph comes out when every stage ends with a result. -/
theorem extract_eq_ok_iff
    {options : Options} {root : Node} {g : Graph} :
    (extract options root).outcome = .ok g
      ↔
    ∃ ds groups drafts,
      (readDeclarations root).outcome = .ok ds ∧
      (collect ds).outcome = .ok groups ∧
      (resolveGroups options.depthLimit groups).outcome = .ok drafts ∧
      g = ⟨(linkedModels drafts options.withHeritage).map Model.freeze⟩ := by
  unfold extract assemble
  simp only [Pass.outcome_bind_eq_ok_iff, outcome_link, Pass.outcome_report_bind,
    Pass.outcome_pure, Except.ok.injEq, exists_eq_left', eq_comm (a := g), exists_and_left]

/-- The drafts of groups have the names of the groups, in order. -/
theorem names_resolveGroups
    {limit : Int} {groups : List Group} {drafts : List Draft}
    (h : (resolveGroups limit groups).outcome = .ok drafts) :
    groups.map (·.name) = drafts.map (·.name) := by
  have hall := Pass.outcome_each_eq_ok_iff.1 h
  have hnames : List.Forall₂ Eq (groups.map (·.name)) (drafts.map (·.name)) := by
    rw [List.forall₂_map_left_iff, List.forall₂_map_right_iff]
    exact hall.imp fun g d hd => (resolveGroup_spec hd).1.symm
  rwa [List.forall₂_eq_eq_eq] at hnames

/-- Drafts refer by name to drafts only. -/
theorem every_unlinked_resolveGroups
    {limit : Int} {groups : List Group} {drafts : List Draft}
    (h : (resolveGroups limit groups).outcome = .ok drafts) :
    ∀ d ∈ drafts, d.Every (TypeExpr.Unlinked (drafts.map (·.name))) := by
  rw [← names_resolveGroups h]
  exact forall_mem_of_forall₂ (Pass.outcome_each_eq_ok_iff.1 h)
    fun g _ d hd => (resolveGroup_spec hd).2.2

/-- No draft has links. -/
theorem every_ne_model_resolveGroups
    {limit : Int} {groups : List Group} {drafts : List Draft}
    (h : (resolveGroups limit groups).outcome = .ok drafts) :
    ∀ d ∈ drafts, d.Every fun s => ∀ l, s ≠ .model l :=
  fun d hd t ht => TypeExpr.every_ne_model_of_unlinked (every_unlinked_resolveGroups h d hd t ht)

/-- What holds at every depth of the types of a linked graph.  No reference by name
is left.  A link leads to a model of the graph, the only one of its name.  A generic
reference leads to the model of its name if there is one, and nowhere otherwise. -/
def TypeExpr.LinkedIn (g : Graph) : TypeExpr → Prop
  | .pending _ => False
  | .model target =>
    ∃ m ∈ g.models, m.link = target ∧ ∀ m' ∈ g.models, m'.name = target.name → m' = m
  | .generic name _ target =>
    (∀ m ∈ g.models, m.name = .str name → target = some m.link) ∧
      ((∀ m ∈ g.models, m.name ≠ .str name) → target = none)
  | _ => True

/-- Takes the links out of the bound and the default of a type parameter. -/
def TypeParam.unlink (p : TypeParam TypeExpr) : TypeParam TypeExpr :=
  { p with
    bound := p.bound.map TypeExpr.unlink
    default := p.default.map TypeExpr.unlink }

theorem TypeParam.unlink_link
    {names : List String} {find : String → Option Link} {p : TypeParam TypeExpr}
    (hfind : ∀ name ∈ names, ∃ l, find name = some l ∧ l.name = .str name)
    (h : ∀ t ∈ p.types, t.Every (TypeExpr.Unlinked names)) :
    (p.link find).unlink = p := by
  have hpart : ∀ o : Option TypeExpr, (∀ t ∈ o.toList, t.Every (TypeExpr.Unlinked names)) →
      (o.map (TypeExpr.link find)).map TypeExpr.unlink = o := by
    intro o ho
    cases o with
    | none => rfl
    | some t => exact congrArg some (TypeExpr.unlink_link hfind (ho t (List.mem_singleton_self t)))
  obtain ⟨name, bound, default⟩ := p
  obtain ⟨hbound, hdefault⟩ := List.forall_mem_append.1 h
  show (⟨name, (bound.map _).map _, (default.map _).map _⟩ : TypeParam TypeExpr) = _
  rw [hpart bound hbound, hpart default hdefault]

/-- A model is a draft with links: taking the links out again gives the draft. -/
structure Model.Links (m : Model) (d : Draft) : Prop where
  id_eq : m.id = .str d.name
  name_eq : m.name = .str d.name
  kind_eq : m.kind = d.kind
  schema_eq : (m.schema.map fun f => { f with type := f.type.unlink }) = d.schema
  typeParams_eq : m.typeParams.map TypeParam.unlink = d.typeParams
  heritage_eq : m.heritage.map TypeExpr.unlink = d.heritage

theorem Model.Links.link_eq
    {m : Model} {d : Draft}
    (h : m.Links d) :
    m.link = ⟨.str d.name, .str d.name⟩ := by
  unfold Model.link
  rw [h.id_eq, h.name_eq]

variable {drafts : List Draft} {withHeritage : Bool}

/-- The models of drafts are the drafts with links. -/
theorem links_linkDraft
    (hunlinked : ∀ d ∈ drafts, d.Every (TypeExpr.Unlinked (drafts.map (·.name))))
    {d : Draft} (hd : d ∈ drafts)
    (es : Edges) (i : Nat) :
    (linkDraft drafts es i d).Links d := by
  have hfind : ∀ name ∈ drafts.map (·.name),
      ∃ l, linkTo? drafts name = some l ∧ l.name = .str name :=
    fun name hname => ⟨_, linkTo?_eq_some_iff.2 ⟨hname, rfl⟩, rfl⟩
  obtain ⟨hschema, hparams, hheritage⟩ := Draft.every_iff.1 (hunlinked d hd)
  refine ⟨rfl, rfl, rfl, ?_, ?_, ?_⟩
  · show (linkFields _ d.schema).map _ = d.schema
    rw [linkFields_eq_map, List.map_map]
    refine TypeExpr.map_eq_self fun f hf => ?_
    show (⟨f.name, (f.type.link _).unlink, f.optional⟩ : Field TypeExpr) = f
    rw [TypeExpr.unlink_link hfind (hschema f hf)]
  · show (d.typeParams.map _).map _ = d.typeParams
    rw [List.map_map]
    exact TypeExpr.map_eq_self fun p hp => TypeParam.unlink_link hfind (hparams p hp)
  · show (linkAll _ d.heritage).map _ = d.heritage
    rw [linkAll_eq_map, List.map_map]
    exact TypeExpr.map_eq_self fun t ht => TypeExpr.unlink_link hfind (hheritage t ht)

variable {g : Graph}

/-- Models that are drafts with links have the names of the drafts. -/
theorem names_of_links
    (hlinks : List.Forall₂ Model.Links g.models drafts) :
    g.models.map (·.name) = drafts.map fun d => .str d.name := by
  have hnames : List.Forall₂ Eq (g.models.map (·.name)) (drafts.map fun d => .str d.name) := by
    rw [List.forall₂_map_left_iff, List.forall₂_map_right_iff]
    exact hlinks.imp fun m d h => h.name_eq
  rwa [List.forall₂_eq_eq_eq] at hnames

theorem nodup_names_of_links
    (hlinks : List.Forall₂ Model.Links g.models drafts)
    (hnames : (drafts.map (·.name)).Nodup) :
    (g.models.map (·.name)).Nodup := by
  have hmap := hnames.map (f := Json.str) fun x y hxy => Json.str.inj hxy
  rw [List.map_map] at hmap
  rw [names_of_links hlinks]
  exact hmap

/-- What is linked through the names of the drafts is linked in their graph. -/
theorem linkedIn_of_linkedBy
    (hlinks : List.Forall₂ Model.Links g.models drafts)
    (hnames : (drafts.map (·.name)).Nodup)
    {s : TypeExpr} (h : s.LinkedBy (linkTo? drafts)) :
    s.LinkedIn g := by
  have hunique := List.inj_on_of_nodup_map (nodup_names_of_links hlinks hnames)
  have hmodel : ∀ name ∈ drafts.map (·.name),
      ∃ m ∈ g.models, m.name = .str name ∧ m.link = ⟨.str name, .str name⟩ := by
    intro name hname
    obtain ⟨d, hd, rfl⟩ := List.mem_map.1 hname
    obtain ⟨m, hm, hmd⟩ := exists_mem_left_of_forall₂ hlinks d hd
    exact ⟨m, hm, hmd.name_eq, hmd.link_eq⟩
  cases s with
  | verbatim text references => trivial
  | model target =>
      obtain ⟨name, hfind⟩ := h
      obtain ⟨hname, rfl⟩ := linkTo?_eq_some_iff.1 hfind
      obtain ⟨m, hm, hmname, hlink⟩ := hmodel name hname
      exact ⟨m, hm, hlink, fun m' hm' hname' => hunique hm' hm (hname'.trans hmname.symm)⟩
  | pending name => exact h.elim
  | param name => trivial
  | array element => trivial
  | keyed key value => trivial
  | generic name args target =>
      have htarget : target = linkTo? drafts name := h
      constructor
      · intro m hm hname
        obtain ⟨d, hd, hmd⟩ := exists_mem_right_of_forall₂ hlinks m hm
        have hdname : d.name = name := Json.str.inj (hmd.name_eq.symm.trans hname)
        rw [htarget, hmd.link_eq, ← hdname]
        exact linkTo?_of_mem hd
      · intro hnone
        rw [htarget, linkTo?_eq_none_iff]
        intro hname
        obtain ⟨m, hm, hmname, _⟩ := hmodel name hname
        exact hnone m hm hmname
  | function args result => trivial

theorem every_linkedIn_linkDraft
    (hlinks : List.Forall₂ Model.Links g.models drafts)
    (hnames : (drafts.map (·.name)).Nodup)
    (hunlinked : ∀ d ∈ drafts, d.Every (TypeExpr.Unlinked (drafts.map (·.name))))
    {d : Draft} (hd : d ∈ drafts)
    (es : Edges) (i : Nat) :
    (linkDraft drafts es i d).Every (TypeExpr.LinkedIn g) := by
  intro t ht
  rw [types_linkDraft] at ht
  obtain ⟨u, hu, rfl⟩ := List.mem_map.1 ht
  have hfresh := TypeExpr.every_ne_model_of_unlinked (hunlinked d hd u hu)
  exact (TypeExpr.every_linkedBy_link hfresh).mono
    fun s hs => linkedIn_of_linkedBy hlinks hnames hs

/-- Linking the drafts of groups reports no missing name. -/
theorem quiet_link
    (hunlinked : ∀ d ∈ drafts, d.Every (TypeExpr.Unlinked (drafts.map (·.name)))) :
    (link drafts withHeritage).Reports Event.Quiet := by
  intro e he
  rw [events_link, followAll_reports_eq_nil hunlinked] at he
  cases List.mem_singleton.1 he
  intro model name
  exact Event.noConfusion

/-- An extraction reports no missing name, whether it ends with a graph or not. -/
theorem quiet_extract (options : Options) (root : Node) :
    (extract options root).Reports Event.Quiet := by
  refine Pass.reports_bind (quiet_readDeclarations root) fun ds => ?_
  refine Pass.reports_bind (quiet_addDeclarations _ _) fun groups => ?_
  refine Pass.reports_bind_of_ok (Pass.reports_each fun g _ => quiet_resolveDeclarations _ _) ?_
  intro drafts hdrafts
  refine Pass.reports_bind (quiet_link (every_unlinked_resolveGroups hdrafts)) fun models => ?_
  refine Pass.reports_bind (Pass.reports_report (quiet_singleton ?_)) fun _ => Pass.reports_pure _
  intro model name
  exact Event.noConfusion

/-- An extracted graph is made of drafts that have different names and refer by name
to each other only. -/
theorem exists_drafts_of_extract
    {options : Options} {root : Node}
    (h : (extract options root).outcome = .ok g) :
    ∃ ds groups drafts,
      (readDeclarations root).outcome = .ok ds ∧
      (collect ds).outcome = .ok groups ∧
      (resolveGroups options.depthLimit groups).outcome = .ok drafts ∧
      (drafts.map (·.name)).Nodup ∧
      (∀ d ∈ drafts, d.Every (TypeExpr.Unlinked (drafts.map (·.name)))) ∧
      g = ⟨(linkedModels drafts options.withHeritage).map Model.freeze⟩ := by
  obtain ⟨ds, groups, drafts, hds, hgroups, hdrafts, hg⟩ := extract_eq_ok_iff.1 h
  refine ⟨ds, groups, drafts, hds, hgroups, hdrafts, ?_, every_unlinked_resolveGroups hdrafts, hg⟩
  rw [← names_resolveGroups hdrafts]
  exact nodup_names_collect hgroups

theorem links_linkedModels_freeze
    (hunlinked : ∀ d ∈ drafts, d.Every (TypeExpr.Unlinked (drafts.map (·.name))))
    (withHeritage : Bool) :
    List.Forall₂ Model.Links ((linkedModels drafts withHeritage).map Model.freeze) drafts := by
  rw [List.forall₂_map_left_iff]
  refine forall₂_mapIdx fun i d hd => ?_
  have hd := links_linkDraft hunlinked hd (edgesOf drafts withHeritage) i
  exact ⟨hd.id_eq, hd.name_eq, hd.kind_eq, hd.schema_eq, hd.typeParams_eq, hd.heritage_eq⟩

/-- The models of an extracted graph are read-only, and linked at every depth. -/
theorem every_linkedIn_of_extract
    {options : Options} {root : Node}
    (h : (extract options root).outcome = .ok g) :
    ∀ m ∈ g.models, m.frozen = true ∧ m.Every (TypeExpr.LinkedIn g) := by
  obtain ⟨-, -, drafts, -, -, -, hnames, hunlinked, rfl⟩ := exists_drafts_of_extract h
  intro m hm
  obtain ⟨m', hm', rfl⟩ := List.mem_map.1 hm
  obtain ⟨i, hi, rfl⟩ := List.mem_mapIdx.1 hm'
  have hevery := every_linkedIn_linkDraft
    (links_linkedModels_freeze hunlinked options.withHeritage) hnames hunlinked
    (List.getElem_mem hi) (edgesOf drafts options.withHeritage) i
  exact ⟨rfl, hevery⟩

/-- An extraction that ends with a graph ends with a closed and fully linked one.

* The models have different names and are read-only.
* At every depth of every type, references are linked in the graph (`LinkedIn`).
* Linking only puts links in: the models are, in order, the drafts of the groups of
  the declarations, with links (`Model.Links`).  So a reference that resolution left
  by name leads to the model of that name.
* No missing name is reported. -/
theorem extract_closed_and_linked
    {options : Options} {root : Node} {g : Graph}
    (h : (extract options root).outcome = .ok g) :
    (g.models.map (·.name)).Nodup ∧
    (∀ m ∈ g.models, m.frozen = true ∧ m.Every (TypeExpr.LinkedIn g)) ∧
    (∃ ds groups drafts,
      (readDeclarations root).outcome = .ok ds ∧
      (collect ds).outcome = .ok groups ∧
      (resolveGroups options.depthLimit groups).outcome = .ok drafts ∧
      List.Forall₂ Model.Links g.models drafts) ∧
    (∀ e ∈ (extract options root).events, ∀ model name, e ≠ .unresolved model name) := by
  have hlinked := every_linkedIn_of_extract h
  obtain ⟨ds, groups, drafts, hds, hgroups, hdrafts, hnames, hunlinked, rfl⟩ :=
    exists_drafts_of_extract h
  have hlinks := links_linkedModels_freeze hunlinked options.withHeritage
  exact ⟨nodup_names_of_links hlinks hnames, hlinked,
    ⟨ds, groups, drafts, hds, hgroups, hdrafts, hlinks⟩, quiet_extract options root⟩

/-- A named node with the given children, at the start of a text. -/
def Syntax.Node.build
    (kind source : String) (field : Option String) (children : List Node) : Node :=
  ⟨kind, source, ⟨0, 0⟩, field, true, false, false, children⟩

/-- An interface with one property, whose type is a name. -/
def interfaceNode (name property type : String) : Node :=
  .build "interface_declaration" "" none
    [.build "type_identifier" name (some "name") [],
      .build "interface_body" "" (some "body")
        [.build "property_signature" "" none
          [.build "property_identifier" property (some "name") [],
            .build "type_annotation" "" (some "type")
              [.build "type_identifier" type none []]]]]

/-- Two interfaces that refer to each other. -/
def crossReferences : Node :=
  .build "program" "" none [interfaceNode "A" "b" "B", interfaceNode "B" "a" "A"]

theorem extract_closed_and_linked_crossReferences :
    ∃ g, (extract {} crossReferences).outcome = .ok g ∧
      g.models.length = 2 ∧
      (g.models.map (·.name)).Nodup ∧
      ∀ m ∈ g.models, m.frozen = true ∧ m.Every (TypeExpr.LinkedIn g) := by
  obtain ⟨g, hg, hsize⟩ := Pass.exists_ok_of_toOption_map
    (p := extract {} crossReferences) (f := (·.models.length)) (b := 2) (by decide +kernel)
  obtain ⟨hnames, hmodels, -, -⟩ := extract_closed_and_linked hg
  exact ⟨g, hg, hsize, hnames, hmodels⟩

end Extraction

end DeclGraph
