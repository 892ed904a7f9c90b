import DeclGraph.Proofs.Groups
import Mathlib.Data.List.Perm.Basic

/-!
# Partition into groups, and the first conflict

Gathering either splits a list of declarations into groups or names one declaration that
does not fit.

* Groups that gather a list hold every one of its declarations, and hold it once.  This
  follows from their names being all the declared ones, each once
  (`perm_flatMap_filter`).
* A declaration clashes with the ones before it if one of these has its name and another
  kind (`Clashes`).  A list without clashes is a consistent one, so what has been gathered
  when a fault arises is free of clashes, and the fault is about the first clash
  (`FirstClash`).
-/

namespace DeclGraph

section Partition

variable {ds : List Declaration} {gs : List Group}

/-- Filtering by each of the names that occur splits a list. -/
theorem perm_flatMap_filter
    {names : List String}
    (hnames : names.Nodup)
    (hall : ∀ d ∈ ds, d.name ∈ names) :
    (names.flatMap fun name => ds.filter (·.name == name)).Perm ds := by
  induction names generalizing ds with
  | nil =>
      have hnil : ds = [] := List.eq_nil_iff_forall_not_mem.2 fun d hd =>
        absurd (hall d hd) List.not_mem_nil
      rw [hnil]
      exact .nil
  | cons name names ih =>
      obtain ⟨hnew, hnames⟩ := List.nodup_cons.1 hnames
      have hothers : ∀ d ∈ ds.filter (!·.name == name), d.name ∈ names := by
        intro d hd
        obtain ⟨hd, hne⟩ := List.mem_filter.1 hd
        refine (List.mem_cons.1 (hall d hd)).resolve_left fun heq => ?_
        simp [heq] at hne
      -- The other names pick the same declarations whether or not this one is there.
      have hpick : ∀ other ∈ names,
          (ds.filter (!·.name == name)).filter (·.name == other) =
            ds.filter (·.name == other) := by
        intro other hother
        rw [List.filter_filter]
        refine List.filter_congr fun d _ => ?_
        by_cases heq : d.name = other
        · have hne : d.name ≠ name := fun h => hnew (h ▸ heq ▸ hother)
          simp [heq ▸ hne, heq]
        · simp [heq]
      rw [List.flatMap_cons, ← List.flatMap_congr hpick]
      refine ((ih hnames hothers).append_left _).trans ?_
      exact List.filter_append_perm (·.name == name) ds

/-- Groups hold the declarations they gather, nothing lost and nothing twice. -/
theorem Gathers.perm_declarations
    (h : Gathers gs ds) :
    (gs.flatMap (·.declarations)).Perm ds := by
  have hall : ∀ d ∈ ds, d.name ∈ gs.map (·.name) := fun d hd => h.mem_names_iff.2 ⟨d, hd, rfl⟩
  have hpick : gs.flatMap (·.declarations) =
      (gs.map (·.name)).flatMap fun name => ds.filter (·.name == name) := by
    rw [List.flatMap_map]
    exact List.flatMap_congr h.declarations_eq
  rw [hpick]
  exact perm_flatMap_filter h.nodup_names hall

end Partition

section Clashes

/-- A declaration has the name of an earlier one and another kind. -/
def Clashes (earlier : List Declaration) (d : Declaration) : Prop :=
  ∃ e ∈ earlier, e.name = d.name ∧ e.kind ≠ d.kind

/-- `d` is the first declaration of a list that clashes with the ones before it, and
`first` is the first declaration of its name. -/
structure FirstClash (ds before : List Declaration) (d first : Declaration) : Prop where
  split : ∃ after, ds = before ++ d :: after
  clashes : Clashes before d
  /-- No declaration before it clashes with the ones before that one. -/
  earliest : ∀ earlier e later, before = earlier ++ e :: later → ¬ Clashes earlier e
  first_eq : before.find? (·.name == d.name) = some first

variable {ds before after : List Declaration} {d : Declaration} {gs : List Group} {g : Group}

theorem Consistent.not_clashes
    (h : Consistent (before ++ d :: after)) :
    ¬ Clashes before d := by
  rintro ⟨e, he, hname, hkind⟩
  exact hkind (h e (List.mem_append_left _ he) d (by simp) hname)

/-- The kind of a group is that of the first declaration of its name. -/
theorem Gathers.exists_find?
    (h : Gathers gs ds)
    (hg : g ∈ gs) :
    ∃ first, ds.find? (·.name == g.name) = some first ∧ first.kind = g.kind := by
  obtain ⟨d, hd, hname, -⟩ := h.exists_declaration hg
  obtain ⟨first, hfirst⟩ := Option.isSome_iff_exists.1
    (List.find?_isSome.2 ⟨d, hd, beq_iff_eq.2 hname⟩ : (ds.find? (·.name == g.name)).isSome)
  have hmem : first ∈ g.declarations := (h.mem_declarations_iff hg).2
    ⟨List.mem_of_find?_eq_some hfirst, by simpa using List.find?_some hfirst⟩
  exact ⟨first, hfirst, h.kind_eq g hg first hmem⟩

/-- A fault of gathering is about the first clash. -/
theorem exists_firstClash_of_collect_eq_error
    {f : Fault}
    (h : (collect ds).outcome = .error f) :
    ∃ before d first, FirstClash ds before d first ∧
      f = .conflict d.name first.kind d.kind d.line := by
  obtain ⟨before, d, after, gs, g, hds, hgathers, hg, hname, hkind, rfl⟩ := collect_eq_error h
  obtain ⟨first, hfirst, hfirstKind⟩ := hgathers.exists_find? hg
  rw [hname] at hfirst
  have hsame : first.name = d.name := by simpa using List.find?_some hfirst
  refine ⟨before, d, first, ⟨⟨after, hds⟩, ?_, ?_, hfirst⟩, by rw [hfirstKind]⟩
  · exact ⟨first, List.mem_of_find?_eq_some hfirst, hsame, hfirstKind ▸ hkind⟩
  · rintro earlier e later rfl
    exact hgathers.consistent.not_clashes

/-- Gathering splits a list of declarations into groups by name, or names the first clash.

* It succeeds exactly if declarations of one name are of one kind.
* The groups have the declared names in order of first occurrence.  Each has the
  declarations of its name in order, which are of its kind, and all groups together hold
  every declaration once.
* A fault gives the name, kind and line of the first declaration that clashes with the
  ones before it, and the kind of the first declaration of that name. -/
theorem collect_partitions_or_clashes (ds : List Declaration) :
    ((∃ gs, (collect ds).outcome = .ok gs) ↔
      ∀ d ∈ ds, ∀ e ∈ ds, d.name = e.name → d.kind = e.kind) ∧
    (∀ gs, (collect ds).outcome = .ok gs →
      gs.map (·.name) = (ds.map (·.name)).eraseDups ∧
      (∀ g ∈ gs, g.declarations = ds.filter (·.name == g.name) ∧ g.declarations ≠ [] ∧
        ∀ d ∈ g.declarations, d.kind = g.kind) ∧
      (gs.flatMap (·.declarations)).Perm ds) ∧
    (∀ f, (collect ds).outcome = .error f →
      ∃ before d first, FirstClash ds before d first ∧
        f = .conflict d.name first.kind d.kind d.line) := by
  refine ⟨?_, ?_, fun f hf => exists_firstClash_of_collect_eq_error hf⟩
  · constructor
    · rintro ⟨gs, hgs⟩
      exact (gathers_collect hgs).consistent
    · intro hconsistent
      rcases collect_cases ds with ⟨gs, hgs, -⟩ | ⟨name, first, second, line, -, hclash⟩
      · exact ⟨gs, hgs⟩
      · exact absurd hconsistent hclash
  · intro gs hgs
    have h := gathers_collect hgs
    refine ⟨h.names_eq, fun g hg => ⟨h.declarations_eq g hg, ?_, h.kind_eq g hg⟩,
      h.perm_declarations⟩
    obtain ⟨d, hd, hname, -⟩ := h.exists_declaration hg
    exact List.ne_nil_of_mem ((h.mem_declarations_iff hg).2 ⟨hd, hname⟩)

/-- A declaration on a line. -/
def declaredAt (name : String) (kind : Kind) (line : Int) : Declaration :=
  { kind, name, line }

/-- Two names in turns, each of one kind. -/
def interleaved : List Declaration :=
  [declaredAt "B" .interfaceDecl 1, declaredAt "A" .aliasDecl 2, declaredAt "B" .interfaceDecl 3]

/-- Both names get a second kind; the alias is the first to get it. -/
def clashing : List Declaration :=
  interleaved ++ [declaredAt "A" .classDecl 4, declaredAt "B" .classDecl 5]

theorem collect_partitions_or_clashes_interleaved :
    (∃ gs, (collect interleaved).outcome = .ok gs ∧ gs.map (·.name) = ["B", "A"] ∧
      (gs.flatMap (·.declarations)).Perm interleaved) ∧
    (collect clashing).outcome = .error (.conflict "A" .aliasDecl .classDecl 4) ∧
    ∃ before d first, FirstClash clashing before d first ∧
      Fault.conflict "A" .aliasDecl .classDecl 4 =
        .conflict d.name first.kind d.kind d.line := by
  obtain ⟨hiff, hok, -⟩ := collect_partitions_or_clashes interleaved
  obtain ⟨gs, hgs⟩ := hiff.2 (by decide)
  obtain ⟨hnames, -, hperm⟩ := hok gs hgs
  have hclash : (collect clashing).outcome = .error (.conflict "A" .aliasDecl .classDecl 4) :=
    Pass.fault?_eq_some_iff.1 (by decide)
  obtain ⟨-, -, herror⟩ := collect_partitions_or_clashes clashing
  exact ⟨⟨gs, hgs, hnames.trans (by decide), hperm⟩, hclash, herror _ hclash⟩

end Clashes

end DeclGraph
