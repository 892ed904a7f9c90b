import DeclGraph.Proofs.EdgeDiscovery
import DeclGraph.Proofs.Outcomes
import DeclGraph.TypeScript.Grammar
import Mathlib.Data.List.Perm.Basic

/-!
# The order of declarations

Declarations may refer forward, and declarations of one name may stand apart.  So a
reordering that leaves the declarations of one name in their order should show in the
order of the models only.  It does: both orders fail, or both give a graph, and models
of one name differ in the order of their dependants at most.

The argument follows the stages.

* Gathering gives the same groups in another order.
* Resolving asks which names are declared, not in which order, so every group has the
  same draft.
* Linking finds the same links for the same names, and the edges of a model depend on
  its own types only.

The order decides one thing: if several groups fail, the fault is that of the first.
Since resolving fails at types that stand too deep and at array types without element,
two orders may differ in which of these comes out.
-/

namespace DeclGraph

open Syntax (Node)

section Reordering

/-- Another order of declarations that leaves those of one name in their order. -/
def Reordered (ds es : List Declaration) : Prop :=
  ∀ name, ds.filter (·.name == name) = es.filter (·.name == name)

variable {ds es : List Declaration}

theorem Reordered.symm (h : Reordered ds es) : Reordered es ds :=
  fun name => (h name).symm

/-- Neighbours of different names may change places. -/
theorem reordered_swap
    {d e : Declaration}
    (hname : d.name ≠ e.name)
    (before after : List Declaration) :
    Reordered (before ++ d :: e :: after) (before ++ e :: d :: after) := by
  intro name
  rw [List.filter_append, List.filter_append]
  refine congrArg _ ?_
  by_cases hd : d.name = name
  · have he : e.name ≠ name := fun he => hname (hd.trans he.symm)
    simp [hd, he]
  · simp [hd, List.filter_cons]

/-- A reordering is a permutation. -/
theorem Reordered.perm (h : Reordered ds es) : ds.Perm es := by
  classical
  rw [List.perm_iff_count]
  intro d
  have hcount : ∀ l : List Declaration, (l.filter (·.name == d.name)).count d = l.count d :=
    fun l => List.count_filter (beq_self_eq_true d.name)
  rw [← hcount ds, ← hcount es, h d.name]

theorem Reordered.consistent
    (h : Reordered ds es)
    (hds : Consistent ds) :
    Consistent es :=
  fun d hd e he => hds d (h.perm.mem_iff.2 hd) e (h.perm.mem_iff.2 he)

variable {gs hs : List Group}

theorem Gathers.mem_of_reordered
    (hgs : Gathers gs ds)
    (hhs : Gathers hs es)
    (h : Reordered ds es)
    {g : Group}
    (hg : g ∈ gs) :
    g ∈ hs := by
  obtain ⟨d, hd, hname, -⟩ := hgs.exists_declaration hg
  obtain ⟨k, hk, hkname⟩ :=
    List.mem_map.1 (hhs.mem_names_iff.2 ⟨d, h.perm.mem_iff.1 hd, hname⟩)
  have hkg : k = g := by
    rw [hhs.eq_groupOf hk, hgs.eq_groupOf hg, hkname]
    unfold groupOf
    rw [h g.name]
  exact hkg ▸ hk

/-- Another order gives the same groups in another order. -/
theorem Gathers.perm_of_reordered
    (hgs : Gathers gs ds)
    (hhs : Gathers hs es)
    (h : Reordered ds es) :
    gs.Perm hs := by
  rw [List.perm_ext_iff_of_nodup hgs.nodup_names.of_map hhs.nodup_names.of_map]
  exact fun g => ⟨hgs.mem_of_reordered hhs h, hhs.mem_of_reordered hgs h.symm⟩

/-- The results for items in another order are the results in that order. -/
theorem exists_each_of_perm
    {α β : Type} {f : α → Pass β} {as bs : List α} {xs : List β}
    (h : as.Perm bs)
    (hxs : (Pass.each f as).outcome = .ok xs) :
    ∃ ys, (Pass.each f bs).outcome = .ok ys ∧ xs.Perm ys := by
  obtain ⟨ys, hys, hperm⟩ := List.perm_comp_forall₂ h.symm (Pass.outcome_each_eq_ok_iff.1 hxs)
  exact ⟨ys, Pass.outcome_each_eq_ok_iff.2 hys, hperm.symm⟩

/-- Groups in another order give the same drafts in another order. -/
theorem exists_drafts_of_perm
    {limit : Int} {drafts : List Draft}
    (h : gs.Perm hs)
    (hdrafts : (resolveGroups limit gs).outcome = .ok drafts) :
    ∃ others, (resolveGroups limit hs).outcome = .ok others ∧ drafts.Perm others := by
  have hagrees : Context.AgreesOn (fun _ => True) ⟨gs.map (·.name), limit⟩ ⟨hs.map (·.name), limit⟩ :=
    ⟨rfl, fun name _ => (h.map _).mem_iff⟩
  have hresolve : resolveGroup ⟨gs.map (·.name), limit⟩ = resolveGroup ⟨hs.map (·.name), limit⟩ :=
    funext fun g => hagrees.resolveGroup_eq fun d _ => d.asksOnly_true
  unfold resolveGroups at hdrafts ⊢
  rw [hresolve] at hdrafts
  exact exists_each_of_perm h hdrafts

end Reordering

section Models

/-- Models that differ in the order of their dependants at most. -/
structure Model.AgreesWith (m n : Model) : Prop where
  eq_apart : { m with dependants := [] } = { n with dependants := [] }
  dependants_perm : m.dependants.Perm n.dependants

theorem Model.AgreesWith.freeze
    {m n : Model}
    (h : m.AgreesWith n) :
    m.freeze.AgreesWith n.freeze :=
  ⟨congrArg Model.freeze h.eq_apart, h.dependants_perm⟩

/-- A model without its edges. -/
def Model.edgeless (m : Model) : Model :=
  { m with dependencies := [], dependants := [] }

theorem Model.met_edgeless (m : Model) (withHeritage : Bool) :
    m.edgeless.met withHeritage = m.met withHeritage :=
  rfl

theorem Model.link_edgeless (m : Model) : m.edgeless.link = m.link :=
  rfl

theorem Model.link_eq_of_edgeless
    {m n : Model}
    (h : m.edgeless = n.edgeless) :
    m.link = n.link := by
  rw [← m.link_edgeless, h, n.link_edgeless]

/-- Models without edges that are equal, and equal dependencies, leave the dependants only. -/
theorem Model.eq_apart_of_edgeless
    {m n : Model}
    (h : m.edgeless = n.edgeless)
    (hdependencies : m.dependencies = n.dependencies) :
    { m with dependants := [] } = { n with dependants := [] } := by
  simp only [Model.edgeless, Model.mk.injEq] at h ⊢
  simp [h, hdependencies]

variable {drafts others : List Draft} {withHeritage : Bool} {m n : Model}

/-- Models with the same types have the same dependencies, whatever drafts stand
beside theirs. -/
theorem dependencies_eq_of_edgeless
    (hnames : (drafts.map (·.name)).Nodup)
    (hfresh : ∀ d ∈ drafts, d.Every fun s => ∀ l, s ≠ .model l)
    (hm : m ∈ linkedModels drafts withHeritage)
    (hnames' : (others.map (·.name)).Nodup)
    (hfresh' : ∀ d ∈ others, d.Every fun s => ∀ l, s ≠ .model l)
    (hn : n ∈ linkedModels others withHeritage)
    (h : m.edgeless = n.edgeless) :
    m.dependencies = n.dependencies := by
  rw [dependencies_eq_met hnames hfresh hm, ← m.met_edgeless, ← m.link_edgeless, h,
    n.met_edgeless, n.link_edgeless, dependencies_eq_met hnames' hfresh' hn]

theorem linkTo?_eq_of_perm (h : drafts.Perm others) : linkTo? drafts = linkTo? others := by
  funext name
  unfold linkTo?
  rw [h.any_eq]

/-- Models of one draft are linked in one way, whatever the order of the drafts. -/
theorem edgeless_eq_of_perm
    (h : drafts.Perm others)
    (hnames : (drafts.map (·.name)).Nodup)
    (hm : m ∈ linkedModels drafts withHeritage)
    (hn : n ∈ linkedModels others withHeritage)
    (hname : m.name = n.name) :
    m.edgeless = n.edgeless := by
  obtain ⟨p, hp, rfl⟩ := exists_of_mem_linkedModels hm
  obtain ⟨q, hq, rfl⟩ := exists_of_mem_linkedModels hn
  have hpq : p.1 = q.1 :=
    List.inj_on_of_nodup_map hnames (List.fst_mem_of_mem_zipIdx hp)
      (h.mem_iff.2 (List.fst_mem_of_mem_zipIdx hq)) (Json.str.inj hname)
  unfold Model.edgeless linkDraft
  rw [hpq, linkTo?_eq_of_perm h]

theorem dependencies_eq_of_perm
    (h : drafts.Perm others)
    (hnames : (drafts.map (·.name)).Nodup)
    (hfresh : ∀ d ∈ drafts, d.Every fun s => ∀ l, s ≠ .model l)
    (hm : m ∈ linkedModels drafts withHeritage)
    (hn : n ∈ linkedModels others withHeritage)
    (hname : m.name = n.name) :
    m.dependencies = n.dependencies :=
  dependencies_eq_of_edgeless hnames hfresh hm ((h.map _).nodup_iff.1 hnames)
    (fun d hd => hfresh d (h.mem_iff.2 hd)) hn (edgeless_eq_of_perm h hnames hm hn hname)

/-- A draft has a model in every order. -/
theorem exists_model_of_perm
    (h : drafts.Perm others)
    (hm : m ∈ linkedModels drafts withHeritage) :
    ∃ n ∈ linkedModels others withHeritage, n.link = m.link := by
  have hlinks : (linkedModels others withHeritage).map Model.link = _ := links_linkedModels
  have hlink := List.mem_map_of_mem (f := Model.link) hm
  rw [links_linkedModels, (h.map _).mem_iff, ← hlinks] at hlink
  exact List.mem_map.1 hlink

theorem mem_dependants_of_perm
    (h : drafts.Perm others)
    (hnames : (drafts.map (·.name)).Nodup)
    (hfresh : ∀ d ∈ drafts, d.Every fun s => ∀ l, s ≠ .model l)
    (hm : m ∈ linkedModels drafts withHeritage)
    (hn : n ∈ linkedModels others withHeritage)
    (hname : m.name = n.name)
    {l : Link}
    (hl : l ∈ m.dependants) :
    l ∈ n.dependants := by
  have hlink := Model.link_eq_of_edgeless (edgeless_eq_of_perm h hnames hm hn hname)
  obtain ⟨a, ha, rfl⟩ :=
    List.mem_map.1 (edges_subset_links hm l (List.mem_append_right _ hl))
  obtain ⟨b, hb, hab⟩ := exists_model_of_perm h ha
  rw [link_mem_dependants_iff hnames ha hm,
    dependencies_eq_of_perm h hnames hfresh ha hb (congrArg Link.name hab.symm), hlink] at hl
  rw [← hab, link_mem_dependants_iff ((h.map _).nodup_iff.1 hnames) hb hn]
  exact hl

/-- Models of one name agree, whatever the order of the drafts. -/
theorem agreesWith_of_perm
    (h : drafts.Perm others)
    (hnames : (drafts.map (·.name)).Nodup)
    (hfresh : ∀ d ∈ drafts, d.Every fun s => ∀ l, s ≠ .model l)
    (hm : m ∈ linkedModels drafts withHeritage)
    (hn : n ∈ linkedModels others withHeritage)
    (hname : m.name = n.name) :
    m.AgreesWith n := by
  have hnames' := (h.map _).nodup_iff.1 hnames
  have hfresh' : ∀ d ∈ others, d.Every fun s => ∀ l, s ≠ .model l :=
    fun d hd => hfresh d (h.mem_iff.2 hd)
  constructor
  · exact Model.eq_apart_of_edgeless (edgeless_eq_of_perm h hnames hm hn hname)
      (dependencies_eq_of_perm h hnames hfresh hm hn hname)
  · rw [List.perm_ext_iff_of_nodup (nodup_dependants hnames hm) (nodup_dependants hnames' hn)]
    exact fun l => ⟨mem_dependants_of_perm h hnames hfresh hm hn hname,
      mem_dependants_of_perm h.symm hnames' hfresh' hn hm hname.symm⟩

theorem freeze_agreesWith_of_perm
    {limit : Int} {gs : List Group}
    (hdrafts : (resolveGroups limit gs).outcome = .ok drafts)
    (hgs : (gs.map (·.name)).Nodup)
    (h : drafts.Perm others) :
    ∀ m ∈ (linkedModels drafts withHeritage).map Model.freeze,
      ∀ n ∈ (linkedModels others withHeritage).map Model.freeze, m.name = n.name →
        m.AgreesWith n := by
  have hfresh := every_ne_model_resolveGroups hdrafts
  rw [names_resolveGroups hdrafts] at hgs
  refine List.forall_mem_map.2 fun m hm => List.forall_mem_map.2 fun n hn hname => ?_
  exact (agreesWith_of_perm h hgs hfresh hm hn hname).freeze

end Models

section Assembly

/-- Faults of one cause, wherever they are. -/
def Fault.SameCause : Fault → Fault → Prop
  | .malformed .., .malformed .. => True
  | .conflict .., .conflict .. => True
  | .tooDeep .., .tooDeep .. => True
  | .noElement, .noElement => True
  | .noTarget, .noTarget => True
  | _, _ => False

/-- One fault at a type that stands too deep, and one at an array type without element. -/
inductive Fault.DeepAndBare (limit : Int) : Fault → Fault → Prop where
  | deep_bare (line : Nat) : DeepAndBare limit (.tooDeep limit line) .noElement
  | bare_deep (line : Nat) : DeepAndBare limit .noElement (.tooDeep limit line)

variable {ds es : List Declaration} {gs hs : List Group} {limit : Int} {f k : Fault}

/-- Resolving groups fails at a type that stands too deep, or at an array type without
element among the declarations. -/
theorem fault_of_resolveGroups
    (hgs : Gathers gs ds)
    (h : (resolveGroups limit gs).outcome = .error f) :
    (∃ line, f = .tooDeep limit line) ∨
      f = .noElement ∧ ∃ d ∈ ds, ¬ d.Every Syntax.Node.HasElement := by
  refine failsOnly_resolveGroups
    (P := fun f => (∃ line, f = .tooDeep limit line) ∨
      f = .noElement ∧ ∃ d ∈ ds, ¬ d.Every Syntax.Node.HasElement)
    hgs (fun line => .inl ⟨line, rfl⟩) ?_ f h
  intro d hd
  by_cases helements : d.Every Syntax.Node.HasElement
  · exact fun n hn m hm => .inl (helements n hn m hm)
  · exact fun n hn m hm => .inr (.inr ⟨rfl, d, hd, helements⟩)

theorem faults_of_reordered
    (h : Reordered ds es)
    (hgs : Gathers gs ds)
    (hhs : Gathers hs es)
    (hf : (resolveGroups limit gs).outcome = .error f)
    (hk : (resolveGroups limit hs).outcome = .error k) :
    f.SameCause k ∨
      (∃ d ∈ ds, ¬ d.Every Syntax.Node.HasElement) ∧ Fault.DeepAndBare limit f k := by
  rcases fault_of_resolveGroups hgs hf with ⟨line, rfl⟩ | ⟨rfl, hbare⟩
  · rcases fault_of_resolveGroups hhs hk with ⟨line', rfl⟩ | ⟨rfl, d, hd, hbare⟩
    · exact .inl trivial
    · exact .inr ⟨⟨d, h.perm.mem_iff.2 hd, hbare⟩, .deep_bare line⟩
  · rcases fault_of_resolveGroups hhs hk with ⟨line', rfl⟩ | ⟨rfl, -⟩
    · exact .inr ⟨hbare, .bare_deep line'⟩
    · exact .inl trivial

/-- Declarations in another order, with those of one name left in their order, have the
same graph but for orders: both have one model for each name, in the order of its own
declarations, and models of one name differ in the order of their dependants at most.
If one order fails, so does the other.  The cause is the same too, unless a type stands
too deep and some array type has no element: then the order decides which one counts. -/
theorem assemble_reordered
    (options : Options)
    (h : Reordered ds es) :
    match (assemble options ds).outcome, (assemble options es).outcome with
    | .ok g, .ok k =>
      g.models.map (·.name) = (ds.map (·.name)).eraseDups.map .str ∧
      k.models.map (·.name) = (es.map (·.name)).eraseDups.map .str ∧
      ∀ m ∈ g.models, ∀ n ∈ k.models, m.name = n.name → m.AgreesWith n
    | .error f, .error k =>
      f.SameCause k ∨
        (∃ d ∈ ds, ¬ d.Every Syntax.Node.HasElement) ∧
          Fault.DeepAndBare options.depthLimit f k
    | _, _ => False := by
  rcases collect_cases ds with ⟨gs, hgs, hgathers, hagree⟩ | ⟨_, _, _, _, hgs, hconflict⟩
  · rcases collect_cases es with ⟨hs, hhs, hgathers', -⟩ | ⟨_, _, _, _, -, hconflict⟩
    · rw [outcome_assemble_of_collect hgs, outcome_assemble_of_collect hhs]
      have hperm := hgathers.perm_of_reordered hgathers' h
      cases hdrafts : (resolveGroups options.depthLimit gs).outcome with
      | ok drafts =>
          obtain ⟨others, hothers, hdperm⟩ := exists_drafts_of_perm hperm hdrafts
          rw [hothers]
          exact ⟨names_linkedModels hdrafts hgathers, names_linkedModels hothers hgathers',
            freeze_agreesWith_of_perm hdrafts hgathers.nodup_names hdperm⟩
      | error f =>
          cases hothers : (resolveGroups options.depthLimit hs).outcome with
          | ok others =>
              obtain ⟨drafts, hok, -⟩ := exists_drafts_of_perm hperm.symm hothers
              cases hdrafts.symm.trans hok
          | error k => exact faults_of_reordered h hgathers hgathers' hdrafts hothers
    · exact absurd (h.consistent hagree) hconflict
  · rcases collect_cases es with ⟨hs, -, -, hagree⟩ | ⟨_, _, _, _, hhs, -⟩
    · exact absurd (h.symm.consistent hagree) hconflict
    · rw [outcome_assemble_of_conflict hgs, outcome_assemble_of_conflict hhs]
      exact .inl trivial

/-- An interface with one property. -/
def interfaceWith (name property : String) (type : Node) : Declaration :=
  { kind := .interfaceDecl, name := name, line := 1, members := [.property property (some type) false] }

/-- The first part of an interface. -/
def firstPart : Declaration :=
  interfaceWith "A" "b" (.build "type_identifier" "B" none [])

/-- The second part of that interface. -/
def secondPart : Declaration :=
  interfaceWith "A" "c" (.build "type_identifier" "string" none [])

/-- An interface that the parted one refers to, and that refers back to it. -/
def otherInterface : Declaration :=
  interfaceWith "B" "as" (.build "array_type" "" none [.build "type_identifier" "A" none []])

theorem assemble_reordered_otherInterface :
    Reordered [firstPart, otherInterface, secondPart] [otherInterface, firstPart, secondPart] ∧
    ∃ g k,
      (assemble {} [firstPart, otherInterface, secondPart]).outcome = .ok g ∧
      (assemble {} [otherInterface, firstPart, secondPart]).outcome = .ok k ∧
      g.models.map (·.name) = [.str "A", .str "B"] ∧
      k.models.map (·.name) = [.str "B", .str "A"] ∧
      ∀ m ∈ g.models, ∀ n ∈ k.models, m.name = n.name → m.AgreesWith n := by
  have hreordered : Reordered [firstPart, otherInterface, secondPart]
      [otherInterface, firstPart, secondPart] :=
    reordered_swap (by decide) [] [secondPart]
  obtain ⟨g, hg, -⟩ := Pass.exists_ok_of_toOption_map
    (p := assemble {} [firstPart, otherInterface, secondPart]) (f := fun g => g.models.length)
    (b := 2) (by decide +kernel)
  obtain ⟨k, hk, -⟩ := Pass.exists_ok_of_toOption_map
    (p := assemble {} [otherInterface, firstPart, secondPart]) (f := fun g => g.models.length)
    (b := 2) (by decide +kernel)
  have h := assemble_reordered {} hreordered
  rw [hg, hk] at h
  exact ⟨hreordered, g, k, hg, hk, h⟩

/-- An interface with a type of three levels, and one with an array type without element. -/
def deepAndBare : List Declaration :=
  let text := "interface A \x7b f: ((string)) \x7d interface B \x7b g: const[] \x7d"
  (readDeclarations (TypeScript.parse text)).outcome.toOption.getD []

/-- The fault is that of the first interface. -/
theorem order_decides_fault :
    Reordered deepAndBare deepAndBare.reverse ∧
    (assemble { depthLimit := 1 } deepAndBare).outcome = .error (.tooDeep 1 1) ∧
    (assemble { depthLimit := 1 } deepAndBare.reverse).outcome = .error .noElement ∧
    ¬ (Fault.tooDeep 1 1).SameCause .noElement := by
  have hnames : deepAndBare.map (·.name) = ["A", "B"] := by decide +kernel
  obtain ⟨d, l, hd, hdname, hl⟩ := List.map_eq_cons_iff.1 hnames
  obtain ⟨e, rest, rfl, hename, hrest⟩ := List.map_eq_cons_iff.1 hl
  obtain rfl := List.map_eq_nil_iff.1 hrest
  refine ⟨?_, Pass.fault?_eq_some_iff.1 ?_, Pass.fault?_eq_some_iff.1 ?_, id⟩
  · rw [hd]
    exact reordered_swap (by rw [hdname, hename]; decide) [] []
  · decide +kernel
  · decide +kernel

end Assembly

end DeclGraph
