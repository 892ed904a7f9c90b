import DeclGraph.Proofs.DeclarationOrder

/-!
# Edges to base types

Whether base types count as dependencies is an option of an extraction.  Base types
are linked either way, so the option shows in the edges only.  Two extractions that
differ in it fail with one fault, or give models that agree in everything but edges:
counting base types adds dependencies after those that were there, all of them met in
base types, and it adds dependants among those that were there.

Both runs have the same drafts.  A walk over a model meets its base types last, so
what they add to the dependencies comes after the rest.
-/

namespace DeclGraph

open Syntax (Node)

section Gains

/-- Models of which the second one is the first one with the edges to base types added. -/
structure Model.GainsBases (m n : Model) : Prop where
  /-- They differ in their edges only. -/
  edgeless_eq : m.edgeless = n.edgeless
  /-- The new dependencies come last, and they are those that base types lead to. -/
  dependencies_eq : ∃ added, n.dependencies = m.dependencies ++ added ∧
    ∀ l, l ∈ added ↔ (∃ t ∈ n.heritage, l ∈ t.met) ∧ l ≠ n.link ∧ l ∉ m.dependencies
  /-- The old dependants stay in their order. -/
  dependants_sublist : m.dependants.Sublist n.dependants

theorem Model.GainsBases.freeze
    {m n : Model}
    (h : m.GainsBases n) :
    m.freeze.GainsBases n.freeze :=
  ⟨congrArg Model.freeze h.edgeless_eq, h.dependencies_eq, h.dependants_sublist⟩

/-- A walk that counts base types goes on to them at its end. -/
theorem Model.met_true (m : Model) :
    m.met true = m.met false ++ m.heritage.flatMap TypeExpr.met := by
  unfold Model.met
  rw [if_pos rfl, if_neg Bool.false_ne_true, List.append_nil, metAll_eq_flatMap]

/-- Counting more makes no edge disappear. -/
theorem edgeTargets_false_subset (drafts : List Draft) (p : Draft × Nat) :
    edgeTargets drafts false p ⊆ edgeTargets drafts true p := by
  intro k hk
  obtain ⟨hmem, hself⟩ := Edges.mem_firstTargets.1 hk
  refine Edges.mem_firstTargets.2 ⟨?_, hself⟩
  obtain ⟨m, hm, hpos⟩ := List.mem_filterMap.1 hmem
  refine List.mem_filterMap.2 ⟨m, ?_, hpos⟩
  have hown : m ∈ p.1.ownMentions := by simpa [Draft.counted] using hm
  exact List.mem_append_left _ hown

variable {drafts : List Draft}

theorem mem_linkedModels
    {p : Draft × Nat}
    (hp : p ∈ drafts.zipIdx)
    (withHeritage : Bool) :
    linkDraft drafts (edgesOf drafts withHeritage) p.2 p.1 ∈ linkedModels drafts withHeritage := by
  rw [linkedModels_eq_map]
  exact List.mem_map_of_mem hp

theorem dependencies_gain
    (hnames : (drafts.map (·.name)).Nodup)
    (hfresh : ∀ d ∈ drafts, d.Every fun s => ∀ l, s ≠ .model l)
    {m n : Model}
    (hm : m ∈ linkedModels drafts false)
    (hn : n ∈ linkedModels drafts true)
    (hmn : m.edgeless = n.edgeless) :
    ∃ added, n.dependencies = m.dependencies ++ added ∧
      ∀ l, l ∈ added ↔ (∃ t ∈ n.heritage, l ∈ t.met) ∧ l ≠ n.link ∧ l ∉ m.dependencies := by
  have hlink := Model.link_eq_of_edgeless hmn
  have hmet : n.met true = m.met false ++ n.heritage.flatMap TypeExpr.met := by
    rw [n.met_true, ← n.met_edgeless, ← hmn, m.met_edgeless]
  have hold := dependencies_eq_met hnames hfresh hm
  have hnew := dependencies_eq_met hnames hfresh hn
  rw [hmet, List.filter_append, List.eraseDups_append, ← hlink, ← hold] at hnew
  refine ⟨_, hnew, fun l => ?_⟩
  rw [List.mem_eraseDups, hold, ← hlink]
  simp only [List.removeAll, List.mem_filter, List.mem_flatMap, List.mem_eraseDups,
    List.elem_eq_mem, Bool.not_eq_true', decide_eq_false_iff_not, decide_eq_true_eq, and_assoc]

theorem dependants_gain (p : Draft × Nat) :
    (linkDraft drafts (edgesOf drafts false) p.2 p.1).dependants.Sublist
      (linkDraft drafts (edgesOf drafts true) p.2 p.1).dependants := by
  rw [dependants_eq_map, dependants_eq_map]
  refine (List.monotone_filter_right _ fun q hq => ?_).map _
  exact decide_eq_true (edgeTargets_false_subset drafts q (of_decide_eq_true hq))

/-- Drafts are linked in one way but for edges, whether or not base types count. -/
theorem linkedModels_gain
    (hnames : (drafts.map (·.name)).Nodup)
    (hfresh : ∀ d ∈ drafts, d.Every fun s => ∀ l, s ≠ .model l) :
    List.Forall₂ Model.GainsBases (linkedModels drafts false) (linkedModels drafts true) := by
  rw [linkedModels_eq_map, linkedModels_eq_map, List.forall₂_map_left_iff,
    List.forall₂_map_right_iff, List.forall₂_same]
  intro p hp
  refine ⟨rfl, ?_, dependants_gain p⟩
  exact dependencies_gain hnames hfresh (mem_linkedModels hp false) (mem_linkedModels hp true) rfl

end Gains

section Extraction

/-- Whether base types count or not, an extraction ends in the same way but for edges:
both fail with the same fault, or both give the same models in the same order, where
those that count base types gain the edges to them. -/
theorem extract_gains_bases (limit : Int) (root : Node) :
    match (extract ⟨limit, false⟩ root).outcome, (extract ⟨limit, true⟩ root).outcome with
    | .ok g, .ok k =>
      (k.models.map (·.name)).Nodup ∧ List.Forall₂ Model.GainsBases g.models k.models
    | .error f, .error e => f = e
    | _, _ => False := by
  cases hread : (readDeclarations root).outcome with
  | error f =>
      unfold extract
      rw [Pass.outcome_bind, Pass.outcome_bind, hread]
      rfl
  | ok ds =>
      rw [outcome_extract_of_read hread, outcome_extract_of_read hread]
      rcases collect_cases ds with ⟨groups, hgroups, hgathers, -⟩ | ⟨_, _, _, _, hconflict, -⟩
      · rw [outcome_assemble_of_collect hgroups, outcome_assemble_of_collect hgroups]
        dsimp only
        cases hdrafts : (resolveGroups limit groups).outcome with
        | error f => rfl
        | ok drafts =>
            have hnames := hgathers.nodup_names
            rw [names_resolveGroups hdrafts] at hnames
            have hlinks := links_linkedModels_freeze (every_unlinked_resolveGroups hdrafts) true
            have hgain := linkedModels_gain hnames (every_ne_model_resolveGroups hdrafts)
            refine ⟨nodup_names_of_links hlinks hnames, ?_⟩
            show List.Forall₂ _ (List.map _ _) (List.map _ _)
            rw [List.forall₂_map_left_iff, List.forall₂_map_right_iff]
            exact hgain.imp fun m n hmn => hmn.freeze
      · rw [outcome_assemble_of_conflict hconflict, outcome_assemble_of_conflict hconflict]

/-- The edge to a base type, and the one back, which are there if base types count. -/
example :
    let root := TypeScript.parse "interface A \x7b\x7d interface B extends A \x7b\x7d"
    let edges := fun g : Graph => g.models.map fun m =>
      (m.dependencies.map (·.name), m.dependants.map (·.name))
    (extract ⟨64, false⟩ root).outcome.toOption.map edges = some [([], []), ([], [])] ∧
    (extract ⟨64, true⟩ root).outcome.toOption.map edges =
      some [([], [.str "B"]), ([.str "A"], [])] := by
  decide +kernel

end Extraction

end DeclGraph
