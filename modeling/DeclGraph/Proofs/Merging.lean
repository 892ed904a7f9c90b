import DeclGraph.Proofs.Outcomes

/-!
# Merging declarations

The declarations of one name are resolved one after the other into one draft.  What a
declaration adds does not depend on what the draft has already: resolving into a draft
is resolving into an empty one, and then putting the two together (`Draft.merge`).
Fields and base types are appended, and type parameters are added if their names are
new.  So the draft of a list of declarations is put together from those of its parts.

In the same way one declaration may be given as two, each with its share of the
members and base types (`Declaration.Splits`).  As long as no other declaration of the
name stands between them, the groups and drafts are the same, and so is the graph.
-/

namespace DeclGraph

section TypeParams

variable {seen ps qs : List (TypeParam TypeExpr)} {p : TypeParam TypeExpr}

theorem any_name_eq_true_iff {name : String} :
    seen.any (·.name == name) = true ↔ name ∈ seen.map (·.name) := by
  simp

theorem mergeTypeParams_cons_known
    (h : p.name ∈ seen.map (·.name)) :
    mergeTypeParams seen (p :: ps) = mergeTypeParams seen ps := by
  rw [mergeTypeParams, if_pos (any_name_eq_true_iff.2 h)]

theorem mergeTypeParams_cons_new
    (h : p.name ∉ seen.map (·.name)) :
    mergeTypeParams seen (p :: ps) = mergeTypeParams (seen ++ [p]) ps := by
  rw [mergeTypeParams, if_neg (mt any_name_eq_true_iff.1 h)]

theorem mergeTypeParams_append :
    mergeTypeParams seen (ps ++ qs) = mergeTypeParams (mergeTypeParams seen ps) qs := by
  induction ps generalizing seen with
  | nil => rfl
  | cons p ps ih =>
      rw [List.cons_append]
      by_cases h : p.name ∈ seen.map (·.name)
      · rw [mergeTypeParams_cons_known h, mergeTypeParams_cons_known h, ih]
      · rw [mergeTypeParams_cons_new h, mergeTypeParams_cons_new h, ih]

/-- Merging keeps all names. -/
theorem mem_names_mergeTypeParams {name : String} :
    name ∈ (mergeTypeParams seen ps).map (·.name)
      ↔
    name ∈ seen.map (·.name) ∨ name ∈ ps.map (·.name) := by
  induction ps generalizing seen with
  | nil => simp [mergeTypeParams]
  | cons p ps ih =>
      by_cases h : p.name ∈ seen.map (·.name)
      · rw [mergeTypeParams_cons_known h, ih, List.map_cons, List.mem_cons]
        constructor
        · exact Or.imp_right .inr
        · rintro (hname | rfl | hname)
          · exact .inl hname
          · exact .inl h
          · exact .inr hname
      · rw [mergeTypeParams_cons_new h, ih]
        simp [or_assoc]

/-- Type parameters of known names are not added. -/
theorem mergeTypeParams_of_known
    (h : ∀ p ∈ ps, p.name ∈ seen.map (·.name)) :
    mergeTypeParams seen ps = seen := by
  induction ps with
  | nil => rfl
  | cons p ps ih =>
      obtain ⟨hp, hps⟩ := List.forall_mem_cons.1 h
      rw [mergeTypeParams_cons_known hp, ih hps]

/-- It does not matter whether type parameters are merged among themselves first. -/
theorem mergeTypeParams_assoc :
    mergeTypeParams seen (mergeTypeParams ps qs) = mergeTypeParams (mergeTypeParams seen ps) qs := by
  induction qs generalizing ps with
  | nil => rfl
  | cons q qs ih =>
      by_cases hps : q.name ∈ ps.map (·.name)
      · have hmerged := mem_names_mergeTypeParams.2 (.inr hps : q.name ∈ seen.map (·.name) ∨ _)
        rw [mergeTypeParams_cons_known hps, mergeTypeParams_cons_known hmerged, ih]
      · rw [mergeTypeParams_cons_new hps, ih, mergeTypeParams_append]
        by_cases hseen : q.name ∈ seen.map (·.name)
        · have hmerged := mem_names_mergeTypeParams.2 (.inl hseen : _ ∨ q.name ∈ ps.map (·.name))
          rw [mergeTypeParams_cons_known hmerged, mergeTypeParams_cons_known hmerged]
          rfl
        · have hmerged : q.name ∉ (mergeTypeParams seen ps).map (·.name) := fun hmem =>
            (mem_names_mergeTypeParams.1 hmem).elim hseen hps
          rw [mergeTypeParams_cons_new hmerged, mergeTypeParams_cons_new hmerged]
          rfl

theorem nodup_names_mergeTypeParams
    (h : (seen.map (·.name)).Nodup) :
    ((mergeTypeParams seen ps).map (·.name)).Nodup := by
  induction ps generalizing seen with
  | nil => exact h
  | cons p ps ih =>
      by_cases hp : p.name ∈ seen.map (·.name)
      · rw [mergeTypeParams_cons_known hp]
        exact ih h
      · rw [mergeTypeParams_cons_new hp]
        refine ih ?_
        rw [List.map_append, List.map_singleton, List.nodup_append_comm]
        exact List.nodup_cons.2 ⟨hp, h⟩

/-- Type parameters of different names are added where their names are new. -/
theorem mergeTypeParams_eq_append
    (h : (ps.map (·.name)).Nodup) :
    mergeTypeParams seen ps = seen ++ ps.filter fun p => p.name ∉ seen.map (·.name) := by
  induction ps generalizing seen with
  | nil => exact (List.append_nil seen).symm
  | cons p ps ih =>
      obtain ⟨hnew, hps⟩ := List.nodup_cons.1 h
      by_cases hp : p.name ∈ seen.map (·.name)
      · rw [mergeTypeParams_cons_known hp, ih hps, List.filter_cons_of_neg (by simpa using hp)]
      · rw [mergeTypeParams_cons_new hp, ih hps, List.filter_cons_of_pos (by simpa using hp),
          List.append_assoc, List.singleton_append]
        refine congrArg (fun qs => seen ++ p :: qs) (List.filter_congr fun q hq => ?_)
        have hne : q.name ≠ p.name := fun heq =>
          hnew (List.mem_map.2 ⟨q, hq, heq⟩)
        simp [hne]

end TypeParams

section Drafts

/-- A draft with the parts of another one put after its own. -/
def Draft.merge (d e : Draft) : Draft :=
  { d with
    typeParams := mergeTypeParams d.typeParams e.typeParams
    schema := d.schema ++ e.schema
    heritage := d.heritage ++ e.heritage }

theorem Draft.merge_assoc (c d e : Draft) : (c.merge d).merge e = c.merge (d.merge e) := by
  simp only [Draft.merge, mergeTypeParams_assoc, List.append_assoc]

theorem Draft.merge_empty (d : Draft) (name : String) (kind : Kind) :
    d.merge { name, kind } = d := by
  simp only [Draft.merge, mergeTypeParams, List.append_nil]

variable {ctx : Context} {draft result : Draft} {d : Declaration} {ds es : List Declaration}
  {name : String} {kind : Kind}

/-- A declaration adds to a draft what it gives by itself. -/
theorem resolveDeclaration_eq_ok_iff_merge
    (name : String) (kind : Kind) :
    (resolveDeclaration ctx draft d).outcome = .ok result
      ↔
    ∃ own, (resolveDeclaration ctx { name, kind } d).outcome = .ok own ∧
      result = draft.merge own := by
  simp only [resolveDeclaration_eq_ok_iff]
  constructor
  · rintro ⟨typeParams, value, fields, heritage, hparams, hvalue, hfields, hheritage, rfl⟩
    refine ⟨_, ⟨typeParams, value, fields, heritage, hparams, hvalue, hfields, hheritage, rfl⟩, ?_⟩
    simp only [Draft.merge, mergeTypeParams_assoc, mergeTypeParams, List.nil_append,
      List.append_assoc]
  · rintro ⟨own, ⟨typeParams, value, fields, heritage, hparams, hvalue, hfields, hheritage, rfl⟩,
      rfl⟩
    refine ⟨typeParams, value, fields, heritage, hparams, hvalue, hfields, hheritage, ?_⟩
    simp only [Draft.merge, mergeTypeParams_assoc, mergeTypeParams, List.nil_append,
      List.append_assoc]

/-- Declarations add to a draft what they give by themselves. -/
theorem resolveDeclarations_eq_ok_iff_merge
    (name : String) (kind : Kind) :
    (resolveDeclarations ctx draft ds).outcome = .ok result
      ↔
    ∃ own, (resolveDeclarations ctx { name, kind } ds).outcome = .ok own ∧
      result = draft.merge own := by
  induction ds generalizing draft result with
  | nil =>
      simp only [resolveDeclarations, Pass.outcome_pure, Except.ok.injEq, exists_eq_left',
        Draft.merge_empty]
      exact eq_comm
  | cons d ds ih =>
      simp only [resolveDeclarations, Pass.outcome_bind_eq_ok_iff]
      constructor
      · rintro ⟨next, hnext, hrest⟩
        obtain ⟨first, hfirst, rfl⟩ := (resolveDeclaration_eq_ok_iff_merge name kind).1 hnext
        obtain ⟨rest, hown, rfl⟩ := ih.1 hrest
        exact ⟨first.merge rest, ⟨first, hfirst, ih.2 ⟨rest, hown, rfl⟩⟩, draft.merge_assoc _ _⟩
      · rintro ⟨own, ⟨first, hfirst, hrest⟩, rfl⟩
        obtain ⟨rest, hown, rfl⟩ := ih.1 hrest
        refine ⟨draft.merge first, ?_, ih.2 ⟨rest, hown, (draft.merge_assoc _ _).symm⟩⟩
        exact (resolveDeclaration_eq_ok_iff_merge name kind).2 ⟨first, hfirst, rfl⟩

theorem resolveDeclarations_append_eq_ok_iff :
    (resolveDeclarations ctx draft (ds ++ es)).outcome = .ok result
      ↔
    ∃ next, (resolveDeclarations ctx draft ds).outcome = .ok next ∧
      (resolveDeclarations ctx next es).outcome = .ok result := by
  induction ds generalizing draft with
  | nil => simp [resolveDeclarations]
  | cons d ds ih =>
      simp only [List.cons_append, resolveDeclarations, Pass.outcome_bind_eq_ok_iff, ih]
      constructor
      · rintro ⟨first, hfirst, next, hnext, hrest⟩
        exact ⟨next, ⟨first, hfirst, hnext⟩, hrest⟩
      · rintro ⟨next, ⟨first, hfirst, hnext⟩, hrest⟩
        exact ⟨first, hfirst, next, hnext, hrest⟩

/-- The draft of a list of declarations is put together from those of its parts. -/
theorem resolveGroup_append_eq_ok_iff :
    (resolveGroup ctx ⟨name, kind, ds ++ es⟩).outcome = .ok result
      ↔
    ∃ first second, (resolveGroup ctx ⟨name, kind, ds⟩).outcome = .ok first ∧
      (resolveGroup ctx ⟨name, kind, es⟩).outcome = .ok second ∧ result = first.merge second := by
  unfold resolveGroup
  rw [resolveDeclarations_append_eq_ok_iff]
  constructor
  · rintro ⟨first, hfirst, hrest⟩
    obtain ⟨second, hsecond, rfl⟩ := (resolveDeclarations_eq_ok_iff_merge name kind).1 hrest
    exact ⟨first, second, hfirst, hsecond, rfl⟩
  · rintro ⟨first, second, hfirst, hsecond, rfl⟩
    exact ⟨first, hfirst, (resolveDeclarations_eq_ok_iff_merge name kind).2 ⟨second, hsecond, rfl⟩⟩

/-- A draft has one type parameter per name. -/
theorem nodup_typeParams_of_resolveDeclarations
    (h : (resolveDeclarations ctx draft ds).outcome = .ok result)
    (hdraft : (draft.typeParams.map (·.name)).Nodup) :
    (result.typeParams.map (·.name)).Nodup := by
  induction ds generalizing draft with
  | nil =>
      cases h
      exact hdraft
  | cons d ds ih =>
      obtain ⟨next, hnext, hrest⟩ := Pass.outcome_bind_eq_ok_iff.1 h
      obtain ⟨own, -, rfl⟩ := (resolveDeclaration_eq_ok_iff_merge d.name d.kind).1 hnext
      exact ih hrest (nodup_names_mergeTypeParams hdraft)

end Drafts

section Splitting

/-- Two declarations that share the members and the base types of a third one. -/
structure Declaration.Splits (whole first second : Declaration) : Prop where
  first_name : first.name = whole.name
  second_name : second.name = whole.name
  first_kind : first.kind = whole.kind
  second_kind : second.kind = whole.kind
  first_typeParams : first.typeParams = whole.typeParams
  second_typeParams : second.typeParams = whole.typeParams
  whole_value : whole.value = none
  first_value : first.value = none
  second_value : second.value = none
  members_eq : whole.members = first.members ++ second.members
  heritage_eq : whole.heritage = first.heritage ++ second.heritage

variable {ctx : Context} {draft result : Draft} {whole first second : Declaration}

theorem name_resolveTypeParam
    {scope : List String} {p : TypeParam Syntax.Node} {q : TypeParam TypeExpr}
    (h : (resolveTypeParam ctx scope p).outcome = .ok q) :
    q.name = p.name := by
  obtain ⟨bound, -, hrest⟩ := Pass.outcome_bind_eq_ok_iff.1 h
  obtain ⟨default, -, hq⟩ := Pass.outcome_bind_eq_ok_iff.1 hrest
  cases hq
  rfl

theorem names_resolveTypeParams
    {scope : List String} {ps : List (TypeParam Syntax.Node)} {qs : List (TypeParam TypeExpr)}
    (h : List.Forall₂ (fun p q => (resolveTypeParam ctx scope p).outcome = .ok q) ps qs) :
    qs.map (·.name) = ps.map (·.name) := by
  induction h with
  | nil => rfl
  | cons hq _ ih => rw [List.map_cons, List.map_cons, name_resolveTypeParam hq, ih]

/-- A declaration without a value adds its type parameters, fields and base types. -/
theorem resolveDeclaration_eq_ok_iff_of_value_none
    {d : Declaration}
    (h : d.value = none) :
    (resolveDeclaration ctx draft d).outcome = .ok result
      ↔
    ∃ typeParams fields heritage,
      List.Forall₂
        (fun p q => (resolveTypeParam ctx (d.typeParams.map (·.name)) p).outcome = .ok q)
        d.typeParams typeParams ∧
      List.Forall₂ (fun m f => (resolveMember ctx (d.typeParams.map (·.name)) m).outcome = .ok f)
        d.members fields ∧
      List.Forall₂ (fun b t => (resolveHeritage ctx (d.typeParams.map (·.name)) b).outcome = .ok t)
        d.heritage heritage ∧
      result = draft.merge ⟨draft.name, draft.kind, typeParams, fields, heritage⟩ := by
  rw [resolveDeclaration_eq_ok_iff, h]
  constructor
  · rintro ⟨typeParams, _, fields, heritage, hparams, hvalue, hfields, hheritage, rfl⟩
    cases hvalue
    refine ⟨typeParams, fields, heritage, hparams, hfields, hheritage, ?_⟩
    simp only [Draft.merge, Option.toList_none, List.map_nil, List.append_nil]
  · rintro ⟨typeParams, fields, heritage, hparams, hfields, hheritage, rfl⟩
    refine ⟨typeParams, none, fields, heritage, hparams, rfl, hfields, hheritage, ?_⟩
    simp only [Draft.merge, Option.toList_none, List.map_nil, List.append_nil]

/-- The two parts of a declaration add to a draft what the whole of it does. -/
theorem Declaration.Splits.resolveDeclaration_eq_ok_iff
    (h : whole.Splits first second) :
    (resolveDeclaration ctx draft whole).outcome = .ok result
      ↔
    ∃ next, (resolveDeclaration ctx draft first).outcome = .ok next ∧
      (resolveDeclaration ctx next second).outcome = .ok result := by
  simp only [resolveDeclaration_eq_ok_iff_of_value_none h.whole_value,
    resolveDeclaration_eq_ok_iff_of_value_none h.first_value,
    resolveDeclaration_eq_ok_iff_of_value_none h.second_value,
    h.first_typeParams, h.second_typeParams, h.members_eq, h.heritage_eq, forall₂_append_left_iff]
  -- The second part declares the type parameters again, and none of them is new by then.
  have hknown {ps qs : List (TypeParam TypeExpr)}
      (hps : List.Forall₂
        (fun p q => (resolveTypeParam ctx (whole.typeParams.map (·.name)) p).outcome = .ok q)
        whole.typeParams ps)
      (hqs : List.Forall₂
        (fun p q => (resolveTypeParam ctx (whole.typeParams.map (·.name)) p).outcome = .ok q)
        whole.typeParams qs) :
      mergeTypeParams (mergeTypeParams draft.typeParams ps) qs =
        mergeTypeParams draft.typeParams ps := by
    refine mergeTypeParams_of_known fun q hq => mem_names_mergeTypeParams.2 (.inr ?_)
    rw [names_resolveTypeParams hps, ← names_resolveTypeParams hqs]
    exact List.mem_map_of_mem hq
  constructor
  · rintro ⟨ps, _, _, hps, ⟨fs, gs, hfs, hgs, rfl⟩, ⟨ts, us, hts, hus, rfl⟩, rfl⟩
    refine ⟨_, ⟨ps, fs, ts, hps, hfs, hts, rfl⟩, ps, gs, us, hps, hgs, hus, ?_⟩
    simp only [Draft.merge, hknown hps hps, List.append_assoc]
  · rintro ⟨_, ⟨ps, fs, ts, hps, hfs, hts, rfl⟩, qs, gs, us, hqs, hgs, hus, rfl⟩
    refine ⟨ps, _, _, hps, ⟨fs, gs, hfs, hgs, rfl⟩, ⟨ts, us, hts, hus, rfl⟩, ?_⟩
    simp only [Draft.merge, hknown hps hqs, List.append_assoc]

/-- A declaration may be given in two parts, one after the other. -/
theorem Declaration.Splits.resolveDeclarations_eq_ok_iff
    (h : whole.Splits first second)
    (before after : List Declaration) :
    (resolveDeclarations ctx draft (before ++ whole :: after)).outcome = .ok result
      ↔
    (resolveDeclarations ctx draft (before ++ first :: second :: after)).outcome = .ok result := by
  simp only [resolveDeclarations_append_eq_ok_iff, resolveDeclarations,
    Pass.outcome_bind_eq_ok_iff, h.resolveDeclaration_eq_ok_iff]
  constructor
  · rintro ⟨start, hstart, last, ⟨next, hnext, hlast⟩, hrest⟩
    exact ⟨start, hstart, next, hnext, last, hlast, hrest⟩
  · rintro ⟨start, hstart, next, hnext, last, hlast, hrest⟩
    exact ⟨start, hstart, last, ⟨next, hnext, hlast⟩, hrest⟩

end Splitting

section Assembly

variable {ctx : Context} {options : Options} {ds es before between after : List Declaration}
  {whole first second : Declaration}

/-- Declarations agree on kinds if each of them is matched by one of consistent
declarations. -/
theorem Consistent.of_matched
    (h : Consistent ds)
    (hmatched : ∀ e ∈ es, ∃ d ∈ ds, d.name = e.name ∧ d.kind = e.kind) :
    Consistent es := by
  intro e he k hk hname
  obtain ⟨d, hd, hdname, hdkind⟩ := hmatched e he
  obtain ⟨c, hc, hcname, hckind⟩ := hmatched k hk
  rw [← hdkind, ← hckind]
  exact h d hd c hc (hdname.trans (hname.trans hcname.symm))

/-- Declarations with the same names, whose groups resolve to the same drafts, make
the same graph. -/
theorem assemble_implies_of_groups
    (hconsistent : Consistent ds → Consistent es)
    (hnames : (es.map (·.name)).eraseDups = (ds.map (·.name)).eraseDups)
    (hgroups : ∀ ctx name,
      (resolveGroup ctx (groupOf ds name)).Implies (resolveGroup ctx (groupOf es name))) :
    (assemble options ds).Implies (assemble options es) := by
  intro g hg
  obtain ⟨gs, hgs, hrest⟩ := Pass.outcome_bind_eq_ok_iff.1 hg
  obtain ⟨drafts, hdrafts, hlinked⟩ := Pass.outcome_bind_eq_ok_iff.1 hrest
  have hgathers := gathers_collect hgs
  rcases collect_cases es with ⟨ks, hks, hgathered, -⟩ | ⟨name, k, l, line, -, hes⟩
  · refine Pass.outcome_bind_eq_ok_iff.2 ⟨ks, hks, Pass.outcome_bind_eq_ok_iff.2 ⟨drafts, ?_, hlinked⟩⟩
    unfold resolveGroups at hdrafts ⊢
    rw [hgathers.names_eq, Pass.outcome_each_eq_ok_iff, hgathers.eq_map,
      List.forall₂_map_left_iff] at hdrafts
    rw [hgathered.names_eq, Pass.outcome_each_eq_ok_iff, hgathered.eq_map, hnames,
      List.forall₂_map_left_iff]
    exact hdrafts.imp fun name draft hdraft => hgroups _ name draft hdraft
  · exact absurd (hconsistent hgathers.consistent) hes

theorem eraseDups_insert_of_mem
    {names : List String} {name : String}
    (names' : List String)
    (h : name ∈ names) :
    (names ++ name :: names').eraseDups = (names ++ names').eraseDups := by
  rw [List.eraseDups_append, List.eraseDups_append]
  simp [List.removeAll, h]

theorem groupOf_eq_of_filter
    {name : String} {d : Declaration}
    (h : ds.filter (·.name == name) = before ++ d :: after) :
    groupOf ds name = ⟨name, (before.head?.map (·.kind)).getD d.kind, before ++ d :: after⟩ := by
  unfold groupOf
  rw [h]
  cases before with
  | nil => rfl
  | cons e es => rfl

namespace Declaration.Splits

variable (h : whole.Splits first second)
include h

theorem consistent_iff :
    Consistent (before ++ whole :: (between ++ after))
      ↔
    Consistent (before ++ first :: (between ++ second :: after)) := by
  constructor
  · refine fun hds => hds.of_matched fun e he => ?_
    simp only [List.mem_append, List.mem_cons] at he ⊢
    rcases he with he | rfl | he | rfl | he
    · exact ⟨e, .inl he, rfl, rfl⟩
    · exact ⟨whole, .inr (.inl rfl), h.first_name.symm, h.first_kind.symm⟩
    · exact ⟨e, .inr (.inr (.inl he)), rfl, rfl⟩
    · exact ⟨whole, .inr (.inl rfl), h.second_name.symm, h.second_kind.symm⟩
    · exact ⟨e, .inr (.inr (.inr he)), rfl, rfl⟩
  · refine fun hds => hds.of_matched fun e he => ?_
    simp only [List.mem_append, List.mem_cons] at he ⊢
    rcases he with he | rfl | he | he
    · exact ⟨e, .inl he, rfl, rfl⟩
    · exact ⟨first, .inr (.inl rfl), h.first_name, h.first_kind⟩
    · exact ⟨e, .inr (.inr (.inl he)), rfl, rfl⟩
    · exact ⟨e, .inr (.inr (.inr (.inr he))), rfl, rfl⟩

theorem eraseDups_names_eq (before between after : List Declaration) :
    ((before ++ whole :: (between ++ after)).map (·.name)).eraseDups =
      ((before ++ first :: (between ++ second :: after)).map (·.name)).eraseDups := by
  have hmem : whole.name ∈ before.map (·.name) ++ whole.name :: between.map (·.name) := by simp
  have hinsert := eraseDups_insert_of_mem (after.map (·.name)) hmem
  simpa only [List.map_append, List.map_cons, List.append_assoc, List.cons_append, h.first_name,
    h.second_name] using hinsert.symm

/-- The group of a name is the same, or has the two parts in place of the whole. -/
theorem groupOf_cases
    (before after : List Declaration)
    (hbetween : ∀ e ∈ between, e.name ≠ whole.name)
    (name : String) :
    groupOf (before ++ whole :: (between ++ after)) name =
      groupOf (before ++ first :: (between ++ second :: after)) name ∨
    ∃ kind front back,
      groupOf (before ++ whole :: (between ++ after)) name =
        ⟨name, kind, front ++ whole :: back⟩ ∧
      groupOf (before ++ first :: (between ++ second :: after)) name =
        ⟨name, kind, front ++ first :: second :: back⟩ := by
  by_cases hname : whole.name = name
  · have hfirst : first.name = name := h.first_name.trans hname
    have hsecond : second.name = name := h.second_name.trans hname
    have hnone : between.filter (·.name == name) = [] := by
      rw [List.filter_eq_nil_iff]
      intro e he heq
      exact hbetween e he ((beq_iff_eq.1 heq).trans hname.symm)
    refine .inr ⟨_, before.filter (·.name == name), after.filter (·.name == name),
      groupOf_eq_of_filter ?_, ?_⟩
    · simp [hname, hnone]
    · rw [← h.first_kind]
      exact groupOf_eq_of_filter (by simp [hfirst, hsecond, hnone])
  · have hfirst : first.name ≠ name := h.first_name ▸ hname
    have hsecond : second.name ≠ name := h.second_name ▸ hname
    refine .inl ?_
    unfold groupOf
    simp [hname, hfirst, hsecond]

theorem resolveGroup_eq_ok_iff
    (hbetween : ∀ e ∈ between, e.name ≠ whole.name)
    (name : String)
    {draft : Draft} :
    (resolveGroup ctx (groupOf (before ++ whole :: (between ++ after)) name)).outcome = .ok draft
      ↔
    (resolveGroup ctx (groupOf (before ++ first :: (between ++ second :: after)) name)).outcome =
      .ok draft := by
  rcases h.groupOf_cases before after hbetween name with
    heq | ⟨kind, front, back, hwhole, hparts⟩
  · rw [heq]
  · rw [hwhole, hparts]
    exact h.resolveDeclarations_eq_ok_iff front back

/-- A declaration in two parts, with no declaration of its name between them, makes the
graph of the whole declaration. -/
theorem assemble_eq_ok_iff
    (hbetween : ∀ e ∈ between, e.name ≠ whole.name)
    {g : Graph} :
    (assemble options (before ++ whole :: (between ++ after))).outcome = .ok g
      ↔
    (assemble options (before ++ first :: (between ++ second :: after))).outcome = .ok g := by
  have hnames := h.eraseDups_names_eq before between after
  constructor
  · refine assemble_implies_of_groups h.consistent_iff.1 hnames.symm (fun ctx name draft => ?_) g
    exact (h.resolveGroup_eq_ok_iff hbetween name).1
  · refine assemble_implies_of_groups h.consistent_iff.2 hnames (fun ctx name draft => ?_) g
    exact (h.resolveGroup_eq_ok_iff hbetween name).2

end Declaration.Splits

/-- Merging is concatenation.  The draft of two lists of declarations has the fields and
the base types of the drafts of both, one after the other, and the type parameters of the
first with those of the second that have new names.  So a declaration without a value may
be given in two parts, the first in its place and the second anywhere before the next
declaration of the name, without any change of the graph. -/
theorem merging_concatenates :
    (∀ (ctx : Context) (name : String) (kind : Kind) (ds es : List Declaration)
        (first second : Draft),
      (resolveGroup ctx ⟨name, kind, ds⟩).outcome = .ok first →
      (resolveGroup ctx ⟨name, kind, es⟩).outcome = .ok second →
      ∃ merged, (resolveGroup ctx ⟨name, kind, ds ++ es⟩).outcome = .ok merged ∧
        merged.name = name ∧ merged.kind = kind ∧
        merged.schema = first.schema ++ second.schema ∧
        merged.heritage = first.heritage ++ second.heritage ∧
        merged.typeParams = first.typeParams ++
          second.typeParams.filter fun p => p.name ∉ first.typeParams.map (·.name)) ∧
    (∀ (options : Options) (before between after : List Declaration)
        (whole first second : Declaration),
      whole.Splits first second →
      (∀ e ∈ between, e.name ≠ whole.name) →
      ∀ g,
        (assemble options (before ++ whole :: (between ++ after))).outcome = .ok g
          ↔
        (assemble options (before ++ first :: (between ++ second :: after))).outcome = .ok g) := by
  refine ⟨?_, fun options before between after whole first second h hbetween g =>
    h.assemble_eq_ok_iff hbetween⟩
  intro ctx name kind ds es first second hfirst hsecond
  have hkeeps := (resolveDeclarations_eq_ok_iff_merge name kind).1 hfirst
  have hnodup := nodup_typeParams_of_resolveDeclarations hsecond List.nodup_nil
  refine ⟨first.merge second, resolveGroup_append_eq_ok_iff.2 ⟨first, second, hfirst, hsecond, rfl⟩,
    ?_, ?_, rfl, rfl, mergeTypeParams_eq_append hnodup⟩
  · obtain ⟨own, -, rfl⟩ := hkeeps
    rfl
  · obtain ⟨own, -, rfl⟩ := hkeeps
    rfl

/-- A generic interface with the given members and base types. -/
def boxOf (members : List Member) (heritage : List Heritage) : Declaration :=
  { kind := .interfaceDecl, name := "Box", line := 1, typeParams := [⟨"T", none, none⟩], members,
    heritage }

/-- A property whose type is a name. -/
def namedProperty (name type : String) : Member :=
  .property name (some (.build "type_identifier" type none [])) false

/-- `Box` is split around the declaration of the interface it refers to. -/
theorem merging_concatenates_box :
    let item : Member := namedProperty "item" "T"
    let next : Member := namedProperty "next" "Item"
    let parts : List Declaration := [boxOf [item] [⟨"Item", []⟩], boxOf [next] []]
    let between : Declaration := { kind := .interfaceDecl, name := "Item", line := 2 }
    (∃ merged, (resolveGroup ⟨["Box", "Item"], 50⟩ ⟨"Box", .interfaceDecl, parts⟩).outcome = .ok merged ∧
      merged.schema.map (·.name) = ["item", "next"] ∧ merged.typeParams.map (·.name) = ["T"]) ∧
    ∃ g, (assemble {} [boxOf [item, next] [⟨"Item", []⟩], between]).outcome = .ok g ∧
      (assemble {} [boxOf [item] [⟨"Item", []⟩], between, boxOf [next] []]).outcome = .ok g ∧
      g.models.map (·.dependencies.length) = [1, 0] := by
  intro item next parts between
  constructor
  · obtain ⟨first, hfirst, hfields⟩ := Pass.exists_ok_of_toOption_map
      (p := resolveGroup ⟨["Box", "Item"], 50⟩ ⟨"Box", .interfaceDecl, [boxOf [item] [⟨"Item", []⟩]]⟩)
      (f := fun d => (d.schema.map (·.name), d.typeParams.map (·.name)))
      (b := (["item"], ["T"])) (by decide +kernel)
    obtain ⟨second, hsecond, hrest⟩ := Pass.exists_ok_of_toOption_map
      (p := resolveGroup ⟨["Box", "Item"], 50⟩ ⟨"Box", .interfaceDecl, [boxOf [next] []]⟩)
      (f := fun d => (d.schema.map (·.name), d.typeParams.map (·.name)))
      (b := (["next"], ["T"])) (by decide +kernel)
    obtain ⟨merged, hmerged, -, -, hschema, -, hparams⟩ :=
      merging_concatenates.1 _ _ _ _ _ first second hfirst hsecond
    simp only [Prod.mk.injEq] at hfields hrest
    have hnone : second.typeParams.filter (fun p => p.name ∉ first.typeParams.map (·.name)) = [] := by
      rw [List.filter_eq_nil_iff, hfields.2, ← hrest.2]
      intro p hp hnew
      exact of_decide_eq_true hnew (List.mem_map_of_mem hp)
    refine ⟨merged, hmerged, ?_, ?_⟩
    · rw [hschema, List.map_append, hfields.1, hrest.1]
      rfl
    · rw [hparams, hnone, List.append_nil, hfields.2]
  · obtain ⟨g, hg, hedges⟩ := Pass.exists_ok_of_toOption_map
      (p := assemble {} [boxOf [item, next] [⟨"Item", []⟩], between])
      (f := (·.models.map (·.dependencies.length))) (b := [1, 0]) (by decide +kernel)
    have hsplits : (boxOf [item, next] [⟨"Item", []⟩]).Splits
        (boxOf [item] [⟨"Item", []⟩]) (boxOf [next] []) := by
      constructor <;> rfl
    refine ⟨g, hg, ?_, hedges⟩
    exact (merging_concatenates.2 {} [] [between] [] _ _ _ hsplits (by decide) g).1 hg

end Assembly

end DeclGraph
