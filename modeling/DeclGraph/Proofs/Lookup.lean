import DeclGraph.Model.Linking
import Mathlib.Data.List.Nodup

/-!
# Finding drafts by name

Linking looks up names twice: `linkTo?` gives the link that stands for a name, and
`positionOf?` the place of the draft that an edge leads to.  Both find something
exactly for the names of the drafts, and the draft at the place found for a name has
that name.
-/

namespace DeclGraph

section Links

theorem linkTo?_eq_some_iff
    {drafts : List Draft} {name : String} {l : Link} :
    linkTo? drafts name = some l
      ↔
    name ∈ drafts.map (·.name) ∧ l = ⟨.str name, .str name⟩ := by
  unfold linkTo?
  by_cases h : name ∈ drafts.map (·.name)
  · have hany : drafts.any (·.name == name) = true := by
      obtain ⟨d, hd, hname⟩ := List.mem_map.1 h
      exact List.any_eq_true.2 ⟨d, hd, beq_iff_eq.2 hname⟩
    rw [if_pos hany, Option.some.injEq, eq_comm]
    exact ⟨fun hl => ⟨h, hl⟩, fun hl => hl.2⟩
  · have hany : ¬ drafts.any (·.name == name) = true := by
      intro hany
      obtain ⟨d, hd, hname⟩ := List.any_eq_true.1 hany
      exact h (List.mem_map.2 ⟨d, hd, beq_iff_eq.1 hname⟩)
    rw [if_neg hany]
    constructor
    · intro hl
      cases hl
    · rintro ⟨hmem, _⟩
      exact absurd hmem h

theorem linkTo?_eq_none_iff
    {drafts : List Draft} {name : String} :
    linkTo? drafts name = none ↔ name ∉ drafts.map (·.name) := by
  constructor
  · intro hnone hmem
    have hsome := linkTo?_eq_some_iff.2 ⟨hmem, rfl⟩
    rw [hnone] at hsome
    cases hsome
  · intro hmem
    cases h : linkTo? drafts name with
    | none => rfl
    | some l => exact absurd (linkTo?_eq_some_iff.1 h).1 hmem

theorem linkTo?_of_mem
    {drafts : List Draft} {d : Draft}
    (h : d ∈ drafts) :
    linkTo? drafts d.name = some ⟨.str d.name, .str d.name⟩ :=
  linkTo?_eq_some_iff.2 ⟨List.mem_map.2 ⟨d, h, rfl⟩, rfl⟩

end Links

section Positions

/-- A walk finds nothing when it starts with nothing and no draft has the name. -/
theorem positionOf?_go_eq_none_iff
    {name : String} {i : Nat} {hit : Option Nat} {ds : List Draft} :
    positionOf?.go name i hit ds = none
      ↔
    hit = none ∧ name ∉ ds.map (·.name) := by
  induction ds generalizing i hit with
  | nil =>
      rw [positionOf?.go]
      simp
  | cons d ds ih =>
      rw [positionOf?.go, ih, List.map_cons, List.mem_cons, not_or]
      by_cases h : d.name = name
      · rw [if_pos (beq_iff_eq.2 h)]
        constructor
        · rintro ⟨hsome, _⟩
          cases hsome
        · rintro ⟨_, hne, _⟩
          exact absurd h.symm hne
      · rw [if_neg (mt beq_iff_eq.1 h)]
        constructor
        · rintro ⟨hhit, hds⟩
          exact ⟨hhit, Ne.symm h, hds⟩
        · rintro ⟨hhit, _, hds⟩
          exact ⟨hhit, hds⟩

theorem positionOf?_eq_none_iff
    {drafts : List Draft} {name : String} :
    positionOf? drafts name = none ↔ name ∉ drafts.map (·.name) := by
  unfold positionOf?
  rw [positionOf?_go_eq_none_iff]
  exact ⟨fun h => h.2, fun h => ⟨rfl, h⟩⟩

/-- What a walk finds is what it started with, or the place of a draft of the name. -/
theorem name_of_positionOf?_go
    {name : String} {i k : Nat} {hit : Option Nat} {ds : List Draft}
    (h : positionOf?.go name i hit ds = some k) :
    hit = some k ∨ ∃ j, k = i + j ∧ (ds.map (·.name))[j]? = some name := by
  induction ds generalizing i hit with
  | nil => exact .inl h
  | cons d ds ih =>
      rcases ih h with hhit | ⟨j, hj, hname⟩
      · split at hhit
        · rename_i hd
          cases hhit
          refine .inr ⟨0, rfl, ?_⟩
          rw [List.map_cons, List.getElem?_cons_zero, beq_iff_eq.1 hd]
        · exact .inl hhit
      · refine .inr ⟨j + 1, by omega, ?_⟩
        rw [List.map_cons, List.getElem?_cons_succ]
        exact hname

theorem name_of_positionOf?
    {drafts : List Draft} {name : String} {k : Nat}
    (h : positionOf? drafts name = some k) :
    (drafts.map (·.name))[k]? = some name := by
  rcases name_of_positionOf?_go h with hhit | ⟨j, hj, hname⟩
  · cases hhit
  · rw [hj, Nat.zero_add]
    exact hname

end Positions

end DeclGraph
