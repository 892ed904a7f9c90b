import DeclGraph.Declaration.Group
import DeclGraph.Proofs.Passes
import Mathlib.Data.List.Induction
import Mathlib.Data.List.Nodup

/-!
# Groups of declarations

`collect` makes one group per name.  Adding a declaration does one of three things
(`addDeclaration_cases`): it makes a new group, it extends the group of its name, or
it fails because that group is of another kind.

From this follows what groups gather (`Gathers`): the names in order of their first
occurrence, under each name the declarations of that name in order, and one kind per
name.  Gathering succeeds exactly for declarations that agree on the kind of each
name (`Consistent`), and it fails at the first one that does not.
-/

namespace DeclGraph

section FirstOccurrences

variable {α : Type} [DecidableEq α]

theorem eraseDups_concat (as : List α) (a : α) :
    (as ++ [a]).eraseDups = if a ∈ as then as.eraseDups else as.eraseDups ++ [a] := by
  rw [List.eraseDups_append]
  by_cases h : a ∈ as
  · rw [if_pos h]
    simp [List.removeAll, h]
  · rw [if_neg h]
    simp [List.removeAll, h, List.eraseDups_cons]

theorem nodup_eraseDups (as : List α) : as.eraseDups.Nodup := by
  induction as using List.reverseRecOn with
  | nil => exact List.nodup_nil
  | append_singleton as a ih =>
      rw [eraseDups_concat]
      split
      · exact ih
      · rename_i h
        refine List.nodup_append.2 ⟨ih, List.nodup_singleton a, ?_⟩
        intro b hb c hc hbc
        cases List.mem_singleton.1 hc
        cases hbc
        exact h (List.mem_eraseDups.1 hb)

/-- Renaming items one to one keeps the order of their first occurrences. -/
theorem filterMap_eraseDups
    {β : Type} [DecidableEq β] {f : α → Option β}
    (hf : ∀ a b c, f a = some c → f b = some c → a = b)
    (as : List α) :
    as.eraseDups.filterMap f = (as.filterMap f).eraseDups := by
  induction as using List.reverseRecOn with
  | nil => rfl
  | append_singleton as a ih =>
      rw [eraseDups_concat, List.filterMap_append]
      cases hfa : f a with
      | none =>
          have hnil : [a].filterMap f = [] := by simp [hfa]
          rw [hnil, List.append_nil]
          split
          · exact ih
          · rw [List.filterMap_append, hnil, List.append_nil]
            exact ih
      | some c =>
          have hone : [a].filterMap f = [c] := by simp [hfa]
          have hmem : c ∈ as.filterMap f ↔ a ∈ as := by
            rw [List.mem_filterMap]
            constructor
            · rintro ⟨b, hb, hfb⟩
              rwa [hf a b c hfa hfb]
            · intro ha
              exact ⟨a, ha, hfa⟩
          rw [hone, eraseDups_concat]
          by_cases h : a ∈ as
          · rw [if_pos h, if_pos (hmem.2 h)]
            exact ih
          · rw [if_neg h, if_neg (mt hmem.1 h), List.filterMap_append, hone, ih]

theorem filter_eraseDups (p : α → Bool) (as : List α) :
    as.eraseDups.filter p = (as.filter p).eraseDups := by
  rw [← List.filterMap_eq_filter]
  refine filterMap_eraseDups ?_ as
  intro a b c ha hb
  rw [Option.guard_eq_some_iff] at ha hb
  exact ha.1.trans hb.1.symm

end FirstOccurrences

section Steps

/-- A group with a declaration put at its end, if it is the group of that name. -/
def Group.extend (d : Declaration) (g : Group) : Group :=
  if g.name = d.name then { g with declarations := g.declarations ++ [d] } else g

theorem Group.extend_of_name_eq
    {d : Declaration} {g : Group}
    (h : g.name = d.name) :
    g.extend d = { g with declarations := g.declarations ++ [d] } :=
  if_pos h

theorem Group.extend_of_name_ne
    {d : Declaration} {g : Group}
    (h : g.name ≠ d.name) :
    g.extend d = g :=
  if_neg h

@[simp]
theorem Group.name_extend (d : Declaration) (g : Group) : (g.extend d).name = g.name := by
  unfold Group.extend
  split
  · rfl
  · rfl

@[simp]
theorem Group.kind_extend (d : Declaration) (g : Group) : (g.extend d).kind = g.kind := by
  unfold Group.extend
  split
  · rfl
  · rfl

theorem map_extend_of_not_mem
    {d : Declaration} {gs : List Group}
    (h : d.name ∉ gs.map (·.name)) :
    gs.map (Group.extend d) = gs := by
  refine (List.map_congr_left fun g hg => ?_).trans (List.map_id gs)
  exact Group.extend_of_name_ne fun heq => h (heq ▸ List.mem_map_of_mem hg)

/-- What adding a declaration can do. -/
theorem addDeclaration_cases
    (d : Declaration) {gs : List Group}
    (hnames : (gs.map (·.name)).Nodup) :
    (d.name ∉ gs.map (·.name) ∧
      (addDeclaration d gs).outcome = .ok (gs ++ [⟨d.name, d.kind, [d]⟩])) ∨
    (∃ g ∈ gs, g.name = d.name ∧ g.kind = d.kind ∧
      (addDeclaration d gs).outcome = .ok (gs.map (Group.extend d))) ∨
    (∃ g ∈ gs, g.name = d.name ∧ g.kind ≠ d.kind ∧
      (addDeclaration d gs).outcome = .error (.conflict d.name g.kind d.kind d.line)) := by
  induction gs with
  | nil => exact .inl ⟨List.not_mem_nil, rfl⟩
  | cons g gs ih =>
      obtain ⟨hnew, hnames⟩ := List.nodup_cons.1 hnames
      unfold addDeclaration
      by_cases hname : g.name = d.name
      · rw [if_pos (beq_iff_eq.2 hname)]
        by_cases hkind : g.kind = d.kind
        · refine .inr (.inl ⟨g, List.mem_cons_self, hname, hkind, ?_⟩)
          rw [if_pos (beq_iff_eq.2 hkind), Pass.outcome_report_bind, Pass.outcome_pure,
            List.map_cons, Group.extend_of_name_eq hname, map_extend_of_not_mem (hname ▸ hnew)]
        · refine .inr (.inr ⟨g, List.mem_cons_self, hname, hkind, ?_⟩)
          rw [if_neg (mt beq_iff_eq.1 hkind)]
          rfl
      · rw [if_neg (mt beq_iff_eq.1 hname)]
        rcases ih hnames with ⟨habsent, hok⟩ | ⟨h, hh, hhname, hkind, hok⟩ | ⟨h, hh, hhname, hkind, herror⟩
        · refine .inl ⟨?_, Pass.outcome_bind_of_ok hok _⟩
          intro hmem
          rcases List.mem_cons.1 hmem with heq | hmem
          · exact hname heq.symm
          · exact habsent hmem
        · refine .inr (.inl ⟨h, List.mem_cons_of_mem _ hh, hhname, hkind, ?_⟩)
          rw [Pass.outcome_bind_of_ok hok, Pass.outcome_pure, List.map_cons,
            Group.extend_of_name_ne hname]
        · refine .inr (.inr ⟨h, List.mem_cons_of_mem _ hh, hhname, hkind, ?_⟩)
          rw [Pass.outcome_bind, herror]
          rfl

end Steps

section Gathering

/-- Declarations of one name are of one kind. -/
def Consistent (ds : List Declaration) : Prop :=
  ∀ d ∈ ds, ∀ e ∈ ds, d.name = e.name → d.kind = e.kind

/-- Groups that gather a list of declarations. -/
structure Gathers (gs : List Group) (ds : List Declaration) : Prop where
  /-- There is one group per name, in order of first occurrence. -/
  names_eq : gs.map (·.name) = (ds.map (·.name)).eraseDups
  /-- A group has the declarations of its name, in order. -/
  declarations_eq : ∀ g ∈ gs, g.declarations = ds.filter (·.name == g.name)
  /-- A group is of the kind of its declarations. -/
  kind_eq : ∀ g ∈ gs, ∀ d ∈ g.declarations, d.kind = g.kind

variable {ds seen : List Declaration} {d : Declaration} {gs gs' : List Group} {g : Group}

theorem Gathers.nodup_names (h : Gathers gs ds) : (gs.map (·.name)).Nodup := by
  rw [h.names_eq]
  exact nodup_eraseDups _

theorem Gathers.mem_names_iff
    (h : Gathers gs ds)
    {name : String} :
    name ∈ gs.map (·.name) ↔ ∃ d ∈ ds, d.name = name := by
  rw [h.names_eq, List.mem_eraseDups, List.mem_map]

theorem Gathers.mem_declarations_iff
    (h : Gathers gs ds)
    (hg : g ∈ gs) :
    d ∈ g.declarations ↔ d ∈ ds ∧ d.name = g.name := by
  rw [h.declarations_eq g hg, List.mem_filter, beq_iff_eq]

/-- A group has a declaration, and that is of the kind of the group. -/
theorem Gathers.exists_declaration
    (h : Gathers gs ds)
    (hg : g ∈ gs) :
    ∃ d ∈ ds, d.name = g.name ∧ d.kind = g.kind := by
  obtain ⟨d, hd, hname⟩ := h.mem_names_iff.1 (List.mem_map_of_mem hg)
  exact ⟨d, hd, hname, h.kind_eq g hg d ((h.mem_declarations_iff hg).2 ⟨hd, hname⟩)⟩

theorem gathers_nil : Gathers [] [] where
  names_eq := rfl
  declarations_eq := fun _ hg => absurd hg List.not_mem_nil
  kind_eq := fun _ hg => absurd hg List.not_mem_nil

/-- A declaration of a new name makes a new group. -/
theorem Gathers.concat_new
    (h : Gathers gs seen)
    (hnew : d.name ∉ gs.map (·.name)) :
    Gathers (gs ++ [⟨d.name, d.kind, [d]⟩]) (seen ++ [d]) := by
  have hseen : d.name ∉ seen.map (·.name) := by
    rw [h.names_eq, List.mem_eraseDups] at hnew
    exact hnew
  refine ⟨?_, ?_, ?_⟩
  · rw [List.map_append, List.map_append, List.map_singleton, List.map_singleton,
      eraseDups_concat, if_neg hseen, h.names_eq]
  · refine List.forall_mem_append.2 ⟨?_, List.forall_mem_singleton.2 ?_⟩
    · intro g hg
      have hne : d.name ≠ g.name := fun heq => hnew (heq ▸ List.mem_map_of_mem hg)
      have hlast : [d].filter (·.name == g.name) = [] := by simp [hne]
      rw [List.filter_append, hlast, List.append_nil, h.declarations_eq g hg]
    · have hnone : seen.filter (·.name == d.name) = [] := by
        rw [List.filter_eq_nil_iff]
        intro e he heq
        exact hseen (beq_iff_eq.1 heq ▸ List.mem_map_of_mem he)
      rw [List.filter_append, hnone]
      simp
  · refine List.forall_mem_append.2 ⟨h.kind_eq, List.forall_mem_singleton.2 ?_⟩
    exact List.forall_mem_singleton.2 rfl

/-- A declaration of a known name and of its kind goes to the group of the name. -/
theorem Gathers.concat_known
    (h : Gathers gs seen)
    (hg : g ∈ gs)
    (hname : g.name = d.name)
    (hkind : g.kind = d.kind) :
    Gathers (gs.map (Group.extend d)) (seen ++ [d]) := by
  have hmem : d.name ∈ gs.map (·.name) := hname ▸ List.mem_map_of_mem hg
  refine ⟨?_, ?_, ?_⟩
  · have hknown : d.name ∈ seen.map (·.name) := by
      rw [h.names_eq, List.mem_eraseDups] at hmem
      exact hmem
    rw [List.map_append, List.map_singleton, eraseDups_concat, if_pos hknown, ← h.names_eq,
      List.map_map]
    exact List.map_congr_left fun k _ => Group.name_extend d k
  · refine List.forall_mem_map.2 fun k hk => ?_
    rw [Group.name_extend, List.filter_append, ← h.declarations_eq k hk]
    by_cases hkname : k.name = d.name
    · have hlast : [d].filter (·.name == k.name) = [d] := by simp [hkname]
      rw [Group.extend_of_name_eq hkname, hlast]
    · have hlast : [d].filter (·.name == k.name) = [] := by simp [Ne.symm hkname]
      rw [Group.extend_of_name_ne hkname, hlast, List.append_nil]
  · refine List.forall_mem_map.2 fun k hk => ?_
    rw [Group.kind_extend]
    by_cases hkname : k.name = d.name
    · -- Names differ from group to group, so this is the group of the declaration's name.
      have hkg : k = g := List.inj_on_of_nodup_map h.nodup_names hk hg (hkname.trans hname.symm)
      rw [Group.extend_of_name_eq hkname]
      refine List.forall_mem_append.2 ⟨h.kind_eq k hk, List.forall_mem_singleton.2 ?_⟩
      rw [hkg, hkind]
    · rw [Group.extend_of_name_ne hkname]
      exact h.kind_eq k hk

/-- Adding a declaration to groups gives groups that gather it too. -/
theorem Gathers.after_addDeclaration
    (h : Gathers gs seen)
    (hok : (addDeclaration d gs).outcome = .ok gs') :
    Gathers gs' (seen ++ [d]) := by
  rcases addDeclaration_cases d h.nodup_names with
    ⟨hnew, hout⟩ | ⟨g, hg, hname, hkind, hout⟩ | ⟨g, hg, hname, hkind, hout⟩
  · cases hout.symm.trans hok
    exact h.concat_new hnew
  · cases hout.symm.trans hok
    exact h.concat_known hg hname hkind
  · cases hout.symm.trans hok

theorem Gathers.after_addDeclarations
    (h : Gathers gs seen)
    (hok : (addDeclarations gs ds).outcome = .ok gs') :
    Gathers gs' (seen ++ ds) := by
  induction ds generalizing gs seen with
  | nil =>
      cases hok
      rw [List.append_nil]
      exact h
  | cons d ds ih =>
      obtain ⟨next, hnext, hrest⟩ := Pass.outcome_bind_eq_ok_iff.1 hok
      rw [List.append_cons]
      exact ih (h.after_addDeclaration hnext) hrest

/-- The groups of declarations gather them. -/
theorem gathers_collect
    (h : (collect ds).outcome = .ok gs) :
    Gathers gs ds :=
  gathers_nil.after_addDeclarations h

/-- There is one group per name. -/
theorem nodup_names_collect
    (h : (collect ds).outcome = .ok gs) :
    (gs.map (·.name)).Nodup :=
  (gathers_collect h).nodup_names

/-- The group of a name. -/
def groupOf (ds : List Declaration) (name : String) : Group :=
  let own := ds.filter (·.name == name)
  ⟨name, (own.head?.map (·.kind)).getD default, own⟩

theorem Gathers.eq_groupOf
    (h : Gathers gs ds)
    (hg : g ∈ gs) :
    g = groupOf ds g.name := by
  obtain ⟨d, hd, hname, -⟩ := h.exists_declaration hg
  obtain ⟨e, es, hown⟩ := List.exists_cons_of_ne_nil
    (List.ne_nil_of_mem ((h.mem_declarations_iff hg).2 ⟨hd, hname⟩))
  have hkind : e.kind = g.kind := h.kind_eq g hg e (hown ▸ List.mem_cons_self)
  unfold groupOf
  dsimp only
  rw [← h.declarations_eq g hg, hown, List.head?_cons, Option.map_some, Option.getD_some, hkind, ← hown]

/-- Declarations are gathered in one way. -/
theorem Gathers.eq_map
    (h : Gathers gs ds) :
    gs = (ds.map (·.name)).eraseDups.map (groupOf ds) := by
  rw [← h.names_eq, List.map_map]
  exact (List.map_id gs).symm.trans (List.map_congr_left fun g hg => h.eq_groupOf hg)

/-- A fault is about the first declaration whose name stands for another kind. -/
theorem addDeclarations_eq_error
    (h : Gathers gs seen)
    {f : Fault}
    (herror : (addDeclarations gs ds).outcome = .error f) :
    ∃ before d after gs g, ds = before ++ d :: after ∧ Gathers gs (seen ++ before) ∧
      g ∈ gs ∧ g.name = d.name ∧ g.kind ≠ d.kind ∧
      f = .conflict d.name g.kind d.kind d.line := by
  induction ds generalizing gs seen with
  | nil => cases herror
  | cons d ds ih =>
      rw [addDeclarations, Pass.outcome_bind] at herror
      cases hout : (addDeclaration d gs).outcome with
      | ok next =>
          rw [hout] at herror
          obtain ⟨before, e, after, gs', g, hds, hgathers, hg⟩ := ih (h.after_addDeclaration hout) herror
          refine ⟨d :: before, e, after, gs', g, congrArg _ hds, ?_, hg⟩
          rw [List.append_cons]
          exact hgathers
      | error f' =>
          rw [hout] at herror
          cases herror
          rcases addDeclaration_cases d h.nodup_names with
            ⟨-, hok⟩ | ⟨g, -, -, -, hok⟩ | ⟨g, hg, hname, hkind, herror⟩
          · cases hok.symm.trans hout
          · cases hok.symm.trans hout
          · cases hout.symm.trans herror
            refine ⟨[], d, ds, gs, g, rfl, ?_, hg, hname, hkind, rfl⟩
            rw [List.append_nil]
            exact h

theorem collect_eq_error
    {f : Fault}
    (h : (collect ds).outcome = .error f) :
    ∃ before d after gs g, ds = before ++ d :: after ∧ Gathers gs before ∧
      g ∈ gs ∧ g.name = d.name ∧ g.kind ≠ d.kind ∧
      f = .conflict d.name g.kind d.kind d.line :=
  addDeclarations_eq_error gathers_nil h

/-- What has been gathered agrees on the kind of each name. -/
theorem Gathers.consistent (h : Gathers gs ds) : Consistent ds := by
  intro d hd e he hname
  obtain ⟨g, hg, hgname⟩ := List.mem_map.1 (h.mem_names_iff.2 ⟨e, he, rfl⟩)
  have hd' := h.kind_eq g hg d ((h.mem_declarations_iff hg).2 ⟨hd, hname.trans hgname.symm⟩)
  have he' := h.kind_eq g hg e ((h.mem_declarations_iff hg).2 ⟨he, hgname.symm⟩)
  exact hd'.trans he'.symm

/-- Gathering ends with groups, or with a fault about two declarations that do not agree. -/
theorem collect_cases (ds : List Declaration) :
    (∃ gs, (collect ds).outcome = .ok gs ∧ Gathers gs ds ∧ Consistent ds) ∨
    (∃ name first second line, (collect ds).outcome = .error (.conflict name first second line) ∧
      ¬ Consistent ds) := by
  cases hout : (collect ds).outcome with
  | ok gs =>
      have hgathers := gathers_collect hout
      exact .inl ⟨gs, rfl, hgathers, hgathers.consistent⟩
  | error f =>
      obtain ⟨before, d, after, gs, g, rfl, hgathers, hg, hname, hkind, rfl⟩ := collect_eq_error hout
      refine .inr ⟨d.name, g.kind, d.kind, d.line, rfl, fun hconsistent => ?_⟩
      obtain ⟨e, he, hename, hekind⟩ := hgathers.exists_declaration hg
      have heq := hconsistent e (List.mem_append_left _ he) d (by simp) (hename.trans hname)
      exact hkind (hekind.symm.trans heq)

end Gathering

end DeclGraph
