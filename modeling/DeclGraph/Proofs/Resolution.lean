import DeclGraph.Extraction
import DeclGraph.Proofs.AskedNames
import DeclGraph.Proofs.Passes
import DeclGraph.Proofs.TypeParts

/-!
# What resolution gives

The results of `resolve`, one lemma per construct: resolving a written type ends
with a result exactly when the type does not stand too deep and everything it is
made of ends with a result, and the lemma says which result that is.

From these it follows what resolved types are made of (`Made`): at every depth a
reference by name is to a declared model, no link has been made yet, and all names
are among those that were asked for.  The same holds of the drafts of whole groups of
declarations.
-/

namespace DeclGraph

open Syntax (Node)

section Results

variable {α : Type} {ctx : Context} {scope : List String} {depth line : Nat}
variable {t : TypeExpr}

/-- A pass behind a depth check ends with a result when the check does. -/
theorem outcome_checkDepth_bind_eq_ok_iff
    {f : Unit → Pass α} {a : α} :
    (ctx.checkDepth depth line >>= f).outcome = .ok a
      ↔
    (depth : Int) ≤ ctx.limit ∧ (f ()).outcome = .ok a := by
  rw [Pass.outcome_bind_eq_ok_iff]
  unfold Context.checkDepth
  by_cases h : ctx.limit < depth
  · rw [if_pos h]
    constructor
    · rintro ⟨_, hu, _⟩
      cases hu
    · rintro ⟨hle, _⟩
      omega
  · rw [if_neg h]
    constructor
    · rintro ⟨_, -, ha⟩
      exact ⟨by omega, ha⟩
    · rintro ⟨_, ha⟩
      exact ⟨(), rfl, ha⟩

theorem resolve_absent_eq_ok_iff :
    (resolve ctx scope depth .absent).outcome = .ok t ↔ t = .unannotated := by
  show Except.ok TypeExpr.unannotated = .ok t ↔ _
  rw [Except.ok.injEq, eq_comm]

theorem resolve_wrapped_eq_ok_iff {inner : Written} :
    (resolve ctx scope depth (.wrapped line inner)).outcome = .ok t
      ↔
    (depth : Int) ≤ ctx.limit ∧ (resolve ctx scope (depth + 1) inner).outcome = .ok t :=
  outcome_checkDepth_bind_eq_ok_iff

theorem resolve_hollow_eq_ok_iff {text : String} :
    (resolve ctx scope depth (.hollow line text)).outcome = .ok t
      ↔
    (depth : Int) ≤ ctx.limit ∧ t = .verbatim text [] := by
  refine outcome_checkDepth_bind_eq_ok_iff.trans ?_
  rw [Pass.outcome_pure, Except.ok.injEq, eq_comm (a := t)]

theorem resolve_name_eq_ok_iff {name : String} :
    (resolve ctx scope depth (.name line name)).outcome = .ok t
      ↔
    (depth : Int) ≤ ctx.limit ∧ t = ctx.nameType scope name := by
  refine outcome_checkDepth_bind_eq_ok_iff.trans ?_
  rw [Pass.outcome_pure, Except.ok.injEq, eq_comm (a := t)]

theorem resolve_array_eq_ok_iff {element : Written} :
    (resolve ctx scope depth (.array line element)).outcome = .ok t
      ↔
    (depth : Int) ≤ ctx.limit ∧
      ∃ e, (resolve ctx scope (depth + 1) element).outcome = .ok e ∧ t = .array e := by
  refine outcome_checkDepth_bind_eq_ok_iff.trans ?_
  rw [Pass.outcome_bind_eq_ok_iff]
  simp only [Pass.outcome_pure, Except.ok.injEq, eq_comm (a := t)]

theorem resolve_bareArray_ne_ok :
    (resolve ctx scope depth (.bareArray line)).outcome ≠ .ok t := by
  intro h
  cases (outcome_checkDepth_bind_eq_ok_iff.1 h).2

/-- Several written types are resolved one by one. -/
theorem resolveAll_eq_each (ws : List Written) :
    resolveAll ctx scope depth ws = Pass.each (resolve ctx scope depth) ws := by
  induction ws with
  | nil => rfl
  | cons w ws ih => rw [resolveAll, ih, Pass.each]

theorem resolveAll_eq_ok_iff {ws : List Written} {ts : List TypeExpr} :
    (resolveAll ctx scope depth ws).outcome = .ok ts
      ↔
    List.Forall₂ (fun w t => (resolve ctx scope depth w).outcome = .ok t) ws ts := by
  rw [resolveAll_eq_each, Pass.outcome_each_eq_ok_iff]

/-- A parameter and what it is resolved to. -/
def ResolvesParam (ctx : Context) (scope : List String) (depth : Nat)
    (p : Field Written) (f : Field TypeExpr) : Prop :=
  f.name = p.name ∧ f.optional = p.optional ∧
    (resolve ctx scope depth p.type).outcome = .ok f.type

theorem resolveParams_eq_ok_iff {ps : List (Field Written)} {fs : List (Field TypeExpr)} :
    (resolveParams ctx scope depth ps).outcome = .ok fs
      ↔
    List.Forall₂ (ResolvesParam ctx scope depth) ps fs := by
  induction ps generalizing fs with
  | nil =>
      rw [resolveParams, Pass.outcome_pure, List.forall₂_nil_left_iff, Except.ok.injEq, eq_comm]
  | cons p ps ih =>
      obtain ⟨name, w, optional⟩ := p
      rw [resolveParams, Pass.outcome_bind_eq_ok_iff, List.forall₂_cons_left_iff]
      constructor
      · rintro ⟨t, ht, hrest⟩
        obtain ⟨ts, hts, hfs⟩ := Pass.outcome_bind_eq_ok_iff.1 hrest
        cases hfs
        exact ⟨⟨name, t, optional⟩, ts, ⟨rfl, rfl, ht⟩, ih.1 hts, rfl⟩
      · rintro ⟨⟨name', t, optional'⟩, ts, ⟨hname, hoptional, ht⟩, hts, rfl⟩
        cases hname
        cases hoptional
        exact ⟨t, ht, Pass.outcome_bind_eq_ok_iff.2 ⟨ts, ih.2 hts, rfl⟩⟩

theorem resolve_reference_eq_ok_iff {name : String} {args : List Written} :
    (resolve ctx scope depth (.reference line name args)).outcome = .ok t
      ↔
    (depth : Int) ≤ ctx.limit ∧
      ∃ ts, List.Forall₂ (fun w t => (resolve ctx scope (depth + 1) w).outcome = .ok t) args ts ∧
        t = ctx.referenceType scope name ts := by
  refine outcome_checkDepth_bind_eq_ok_iff.trans ?_
  rw [Pass.outcome_bind_eq_ok_iff]
  simp only [Pass.outcome_pure, Except.ok.injEq, eq_comm (a := t), resolveAll_eq_ok_iff]

theorem resolve_function_eq_ok_iff
    {typeParams : List String} {params : List (Field Written)} {result : Written} :
    (resolve ctx scope depth (.function line typeParams params result)).outcome = .ok t
      ↔
    (depth : Int) ≤ ctx.limit ∧
      ∃ fs r, List.Forall₂ (ResolvesParam ctx (typeParams ++ scope) (depth + 1)) params fs ∧
        (resolve ctx (typeParams ++ scope) (depth + 1) result).outcome = .ok r ∧
        t = .function fs r := by
  refine outcome_checkDepth_bind_eq_ok_iff.trans ?_
  simp only [Pass.outcome_bind_eq_ok_iff, Pass.outcome_pure, Except.ok.injEq, eq_comm (a := t),
    resolveParams_eq_ok_iff, exists_and_left]

theorem resolve_keyed_eq_ok_iff {skipped : List String} {key value : Written} :
    (resolve ctx scope depth (.keyed line skipped key value)).outcome = .ok t
      ↔
    (depth : Int) ≤ ctx.limit ∧
      ∃ k v, (resolve ctx scope (depth + 1) key).outcome = .ok k ∧
        (resolve ctx scope (depth + 1) value).outcome = .ok v ∧ t = .keyed k v := by
  refine outcome_checkDepth_bind_eq_ok_iff.trans ?_
  rw [Pass.outcome_report_bind]
  simp only [Pass.outcome_bind_eq_ok_iff, Pass.outcome_pure, Except.ok.injEq, eq_comm (a := t),
    exists_and_left]

theorem resolve_verbatim_eq_ok_iff {skipped : List String} {text : String} {names : List String} :
    (resolve ctx scope depth (.verbatim line skipped text names)).outcome = .ok t
      ↔
    (depth : Int) ≤ ctx.limit ∧ t = .verbatim text (ctx.references scope names) := by
  refine outcome_checkDepth_bind_eq_ok_iff.trans ?_
  rw [Pass.outcome_report_bind, Pass.outcome_pure, Except.ok.injEq, eq_comm (a := t)]

end Results

section Made

open TypeExpr (Unlinked)

/-- What holds at every depth of a type that resolution makes: nothing is linked in it,
it refers by name to declared models only, and its names satisfy `P`. -/
def TypeExpr.Made (known : List String) (P : String → Prop) : TypeExpr → Prop
  | .model _ => False
  | .pending name => name ∈ known ∧ P name
  | .generic name _ target => target = none ∧ P name
  | _ => True

theorem TypeExpr.Made.unlinked
    {known : List String} {P : String → Prop} {t : TypeExpr}
    (h : t.Made known P) :
    t.Unlinked known := by
  cases t with
  | model target => exact h
  | pending name => exact h.1
  | generic name args target => exact h.1
  | verbatim text references => trivial
  | param name => trivial
  | array element => trivial
  | keyed key value => trivial
  | function args result => trivial

open TypeExpr (Made)

variable {ctx : Context} {scope : List String} {depth : Nat} {t : TypeExpr} {P : String → Prop}

theorem every_made_nameType
    {name : String}
    (hname : P name) :
    (ctx.nameType scope name).Every (Made ctx.known P) := by
  refine TypeExpr.every_iff.2 ?_
  unfold Context.nameType
  split
  · exact ⟨trivial, by simp [TypeExpr.parts]⟩
  · split
    · rename_i h
      exact ⟨⟨List.contains_iff_mem.1 h, hname⟩, by simp [TypeExpr.parts]⟩
    · exact ⟨trivial, by simp [TypeExpr.parts]⟩

theorem every_made_referenceType
    {args : List TypeExpr} {name : String}
    (h : ∀ a ∈ args, a.Every (Made ctx.known P))
    (hname : P name) :
    (ctx.referenceType scope name args).Every (Made ctx.known P) := by
  unfold Context.referenceType
  split
  · exact every_made_nameType hname
  · split
    · exact TypeExpr.every_iff.2 ⟨trivial, h⟩
    · exact TypeExpr.every_iff.2 ⟨⟨rfl, hname⟩, h⟩
  · exact TypeExpr.every_iff.2 ⟨⟨rfl, hname⟩, h⟩

/-- The references of a verbatim type are declared names that are not in scope. -/
theorem mem_references_iff {names : List String} :
    t ∈ ctx.references scope names
      ↔
    ∃ name ∈ names, name ∈ ctx.known ∧ name ∉ scope ∧ t = .pending name := by
  unfold Context.references
  simp only [List.mem_map, List.mem_eraseDups, List.mem_filter, Bool.and_eq_true,
    Bool.not_eq_true', List.contains_eq_mem, decide_eq_true_eq, decide_eq_false_iff_not]
  constructor
  · rintro ⟨name, ⟨hname, hknown, hscope⟩, rfl⟩
    exact ⟨name, hname, hknown, hscope, rfl⟩
  · rintro ⟨name, hname, hknown, hscope, rfl⟩
    exact ⟨name, ⟨hname, hknown, hscope⟩, rfl⟩

/-- Resolution makes no links, refers by name to declared models only, and mentions only
names that it asks for. -/
theorem every_made_of_resolve
    {w : Written}
    (hw : ∀ label ∈ w.asked, P label)
    (h : (resolve ctx scope depth w).outcome = .ok t) :
    t.Every (Made ctx.known P) := by
  induction w using Written.induct generalizing scope depth t with
  | absent =>
      cases resolve_absent_eq_ok_iff.1 h
      exact TypeExpr.every_iff.2 ⟨trivial, by simp [TypeExpr.unannotated, TypeExpr.parts]⟩
  | wrapped line inner ih =>
      exact ih hw (resolve_wrapped_eq_ok_iff.1 h).2
  | hollow line text =>
      cases (resolve_hollow_eq_ok_iff.1 h).2
      exact TypeExpr.every_iff.2 ⟨trivial, by simp [TypeExpr.parts]⟩
  | name line name =>
      cases (resolve_name_eq_ok_iff.1 h).2
      exact every_made_nameType (hw name (List.mem_singleton_self _))
  | array line element ih =>
      obtain ⟨-, e, he, rfl⟩ := resolve_array_eq_ok_iff.1 h
      refine TypeExpr.every_iff.2 ⟨trivial, ?_⟩
      intro p hp
      cases List.mem_singleton.1 hp
      exact ih hw he
  | bareArray line =>
      exact absurd h resolve_bareArray_ne_ok
  | reference line name args ih =>
      obtain ⟨hname, hargs⟩ := forall_asked_reference_iff.1 hw
      obtain ⟨-, ts, hts, rfl⟩ := resolve_reference_eq_ok_iff.1 h
      exact every_made_referenceType
        (forall_mem_of_forall₂ hts fun a ha b hb => ih a ha (hargs a ha) hb) hname
  | function line typeParams params result ihp ihr =>
      obtain ⟨hparams, hresult⟩ := forall_asked_function_iff.1 hw
      obtain ⟨-, fs, r, hfs, hr, rfl⟩ := resolve_function_eq_ok_iff.1 h
      refine TypeExpr.every_function_iff.2 ⟨trivial, ?_, ihr hresult hr⟩
      exact forall_mem_of_forall₂ hfs fun p hp f hf => ihp p hp (hparams p hp) hf.2.2
  | keyed line skipped key value ihk ihv =>
      obtain ⟨hkey, hvalue⟩ := forall_asked_keyed_iff.1 hw
      obtain ⟨-, k, v, hk, hv, rfl⟩ := resolve_keyed_eq_ok_iff.1 h
      refine TypeExpr.every_iff.2 ⟨trivial, ?_⟩
      intro p hp
      rcases List.mem_pair.1 hp with rfl | rfl
      · exact ihk hkey hk
      · exact ihv hvalue hv
  | verbatim line skipped text names =>
      cases (resolve_verbatim_eq_ok_iff.1 h).2
      refine TypeExpr.every_iff.2 ⟨trivial, ?_⟩
      intro p hp
      obtain ⟨name, hname, hknown, -, rfl⟩ := mem_references_iff.1 hp
      exact TypeExpr.every_iff.2 ⟨⟨hknown, hw name hname⟩, by simp [TypeExpr.parts]⟩

theorem every_unlinked_of_resolve
    {w : Written}
    (h : (resolve ctx scope depth w).outcome = .ok t) :
    t.Every (Unlinked ctx.known) :=
  (every_made_of_resolve (P := fun _ => True) (fun _ _ => trivial) h).mono
    fun _ hs => hs.unlinked

end Made

section Drafts

open TypeExpr (Made Unlinked)

variable {ctx : Context} {scope : List String} {P : String → Prop}

theorem resolveNode?_eq_ok_iff {n : Option Node} {o : Option TypeExpr} :
    (resolveNode? ctx scope n).outcome = .ok o
      ↔
    match n with
    | none => o = none
    | some c => ∃ t, (resolveNode ctx scope (some c)).outcome = .ok t ∧ o = some t := by
  cases n with
  | none =>
      rw [resolveNode?, Pass.outcome_pure, Except.ok.injEq, eq_comm]
  | some c =>
      rw [resolveNode?, Pass.outcome_bind_eq_ok_iff]
      simp only [Pass.outcome_pure, Except.ok.injEq, eq_comm (a := o)]

theorem every_made_of_resolveNode?
    {n : Option Node} {o : Option TypeExpr}
    (hn : ∀ m ∈ n, m.AsksOnly P)
    (h : (resolveNode? ctx scope n).outcome = .ok o) :
    ∀ t ∈ o.toList, t.Every (Made ctx.known P) := by
  rw [resolveNode?_eq_ok_iff] at h
  intro t ht
  cases n with
  | none =>
      cases h
      cases ht
  | some c =>
      obtain ⟨u, hu, rfl⟩ := h
      cases List.mem_singleton.1 ht
      exact every_made_of_resolve (hn c rfl) hu

theorem every_made_of_resolveTypeParam
    {p : TypeParam Node} {q : TypeParam TypeExpr}
    (hp : ∀ n ∈ p.nodes, n.AsksOnly P)
    (h : (resolveTypeParam ctx scope p).outcome = .ok q) :
    ∀ t ∈ q.types, t.Every (Made ctx.known P) := by
  obtain ⟨bound, hbound, hrest⟩ := Pass.outcome_bind_eq_ok_iff.1 h
  obtain ⟨default, hdefault, hq⟩ := Pass.outcome_bind_eq_ok_iff.1 hrest
  cases hq
  intro t ht
  rcases List.mem_append.1 ht with ht | ht
  · refine every_made_of_resolveNode? (fun m hm => ?_) hbound t ht
    exact hp m (List.mem_append_left _ (Option.mem_toList.2 hm))
  · refine every_made_of_resolveNode? (fun m hm => ?_) hdefault t ht
    exact hp m (List.mem_append_right _ (Option.mem_toList.2 hm))

theorem every_made_of_resolveMember
    {m : Member} {f : Field TypeExpr}
    (hm : ∀ n ∈ m.nodes, n.AsksOnly P)
    (h : (resolveMember ctx scope m).outcome = .ok f) :
    f.type.Every (Made ctx.known P) := by
  cases m with
  | property name type optional =>
      obtain ⟨t, ht, hf⟩ := Pass.outcome_bind_eq_ok_iff.1 h
      cases hf
      exact every_made_of_resolve (asked_ofNode? fun n hn => hm n (Option.mem_toList.2 hn)) ht
  | method name optional typeParams params result =>
      obtain ⟨args, hargs, hrest⟩ := Pass.outcome_bind_eq_ok_iff.1 h
      obtain ⟨r, hr, hf⟩ := Pass.outcome_bind_eq_ok_iff.1 hrest
      cases hf
      refine TypeExpr.every_function_iff.2 ⟨trivial, ?_, ?_⟩
      · refine forall_mem_of_forall₂ (List.forall₂_map_left_iff.1 (resolveParams_eq_ok_iff.1 hargs))
          fun p hp q hq => every_made_of_resolve (asked_ofNode? fun n hn => ?_) hq.2.2
        exact hm n (List.mem_append_left _ (List.mem_append_right _
          (List.mem_filterMap.2 ⟨p, hp, hn⟩)))
      · refine every_made_of_resolve (asked_ofNode? fun n hn => ?_) hr
        exact hm n (List.mem_append_right _ (Option.mem_toList.2 hn))
  | index key keyType valueType =>
      obtain ⟨k, hk, hrest⟩ := Pass.outcome_bind_eq_ok_iff.1 h
      obtain ⟨v, hv, hf⟩ := Pass.outcome_bind_eq_ok_iff.1 hrest
      cases hf
      refine TypeExpr.every_iff.2 ⟨trivial, ?_⟩
      intro p hp
      rcases List.mem_pair.1 hp with rfl | rfl
      · refine every_made_of_resolve (asked_ofNode? fun n hn => ?_) hk
        exact hm n (List.mem_append_left _ (Option.mem_toList.2 hn))
      · refine every_made_of_resolve (asked_ofNode? fun n hn => ?_) hv
        exact hm n (List.mem_append_right _ (Option.mem_toList.2 hn))

theorem every_unlinked_of_resolveMember
    {m : Member} {f : Field TypeExpr}
    (h : (resolveMember ctx scope m).outcome = .ok f) :
    f.type.Every (Unlinked ctx.known) :=
  (every_made_of_resolveMember (P := fun _ => True) (fun _ _ _ _ => trivial) h).mono
    fun _ hs => hs.unlinked

theorem every_made_of_resolveHeritage
    {base : Heritage} {t : TypeExpr}
    (hname : P base.name)
    (hargs : ∀ n ∈ base.args, n.AsksOnly P)
    (h : (resolveHeritage ctx scope base).outcome = .ok t) :
    t.Every (Made ctx.known P) := by
  obtain ⟨args, hresolved, ht⟩ := Pass.outcome_bind_eq_ok_iff.1 h
  cases ht
  refine every_made_referenceType ?_ hname
  exact forall_mem_of_forall₂ (List.forall₂_map_left_iff.1 (resolveAll_eq_ok_iff.1 hresolved))
    fun n hn a ha => every_made_of_resolve (hargs n hn) ha

/-- Merging adds no type parameters but the given ones. -/
theorem mem_of_mem_mergeTypeParams
    {seen ps : List (TypeParam TypeExpr)} {q : TypeParam TypeExpr}
    (h : q ∈ mergeTypeParams seen ps) :
    q ∈ seen ∨ q ∈ ps := by
  induction ps generalizing seen with
  | nil => exact .inl h
  | cons p ps ih =>
      unfold mergeTypeParams at h
      split at h
      · rcases ih h with hq | hq
        · exact .inl hq
        · exact .inr (List.mem_cons_of_mem _ hq)
      · rcases ih h with hq | hq
        · rcases List.mem_append.1 hq with hq | hq
          · exact .inl hq
          · cases List.mem_singleton.1 hq
            exact .inr List.mem_cons_self
        · exact .inr (List.mem_cons_of_mem _ hq)

/-- The parts of a declaration are resolved in turn, and then added to the draft. -/
theorem resolveDeclaration_eq_ok_iff
    {draft draft' : Draft} {d : Declaration} :
    (resolveDeclaration ctx draft d).outcome = .ok draft'
      ↔
    ∃ typeParams value fields heritage,
      List.Forall₂
        (fun p q => (resolveTypeParam ctx (d.typeParams.map (·.name)) p).outcome = .ok q)
        d.typeParams typeParams ∧
      (resolveNode? ctx (d.typeParams.map (·.name)) d.value).outcome = .ok value ∧
      List.Forall₂ (fun m f => (resolveMember ctx (d.typeParams.map (·.name)) m).outcome = .ok f)
        d.members fields ∧
      List.Forall₂ (fun b t => (resolveHeritage ctx (d.typeParams.map (·.name)) b).outcome = .ok t)
        d.heritage heritage ∧
      draft' = { draft with
        typeParams := mergeTypeParams draft.typeParams typeParams
        schema := draft.schema ++ value.toList.map (⟨aliasField, ·, false⟩) ++ fields
        heritage := draft.heritage ++ heritage } := by
  unfold resolveDeclaration
  simp only [Pass.outcome_bind_eq_ok_iff, Pass.outcome_each_eq_ok_iff, Pass.outcome_pure,
    Except.ok.injEq, eq_comm (a := draft'), exists_and_left]

/-- Adding a declaration keeps the name and the kind of a draft, and what its types are
made of. -/
theorem resolveDeclaration_keeps
    {draft draft' : Draft} {d : Declaration}
    (hd : d.AsksOnly P)
    (h : (resolveDeclaration ctx draft d).outcome = .ok draft')
    (hdraft : draft.Every (Made ctx.known P)) :
    draft'.name = draft.name ∧ draft'.kind = draft.kind ∧
      draft'.Every (Made ctx.known P) := by
  obtain ⟨typeParams, value, fields, heritage, hparams, hvalue, hfields, hheritage, rfl⟩ :=
    resolveDeclaration_eq_ok_iff.1 h
  obtain ⟨hschema, htypeParams, hbases⟩ := Draft.every_iff.1 hdraft
  refine ⟨rfl, rfl, Draft.every_iff.2 ⟨?_, ?_, ?_⟩⟩
  · intro f hf
    rcases List.mem_append.1 hf with hf | hf
    · rcases List.mem_append.1 hf with hf | hf
      · exact hschema f hf
      · obtain ⟨t, ht, rfl⟩ := List.mem_map.1 hf
        exact every_made_of_resolveNode? hd.value hvalue t ht
    · exact forall_mem_of_forall₂ hfields
        (fun m hm f hresolved => every_made_of_resolveMember (hd.members m hm) hresolved) f hf
  · intro q hq
    rcases mem_of_mem_mergeTypeParams hq with hq | hq
    · exact htypeParams q hq
    · exact forall_mem_of_forall₂ hparams
        (fun p hp q hresolved => every_made_of_resolveTypeParam (hd.typeParams p hp) hresolved) q hq
  · intro t ht
    rcases List.mem_append.1 ht with ht | ht
    · exact hbases t ht
    · exact forall_mem_of_forall₂ hheritage
        (fun b hb t hresolved =>
          every_made_of_resolveHeritage (hd.bases b hb) (hd.args b hb) hresolved) t ht

theorem resolveDeclarations_keeps
    {ds : List Declaration} {draft draft' : Draft}
    (hds : ∀ d ∈ ds, d.AsksOnly P)
    (h : (resolveDeclarations ctx draft ds).outcome = .ok draft')
    (hdraft : draft.Every (Made ctx.known P)) :
    draft'.name = draft.name ∧ draft'.kind = draft.kind ∧
      draft'.Every (Made ctx.known P) := by
  induction ds generalizing draft with
  | nil =>
      cases h
      exact ⟨rfl, rfl, hdraft⟩
  | cons d ds ih =>
      obtain ⟨hd, hds⟩ := List.forall_mem_cons.1 hds
      obtain ⟨next, hnext, hrest⟩ := Pass.outcome_bind_eq_ok_iff.1 h
      obtain ⟨hname, hkind, hmade⟩ := resolveDeclaration_keeps hd hnext hdraft
      obtain ⟨hname', hkind', hmade'⟩ := ih hds hrest hmade
      exact ⟨hname'.trans hname, hkind'.trans hkind, hmade'⟩

/-- A group of declarations gives a draft of its name and kind, made from the names that
the declarations ask for. -/
theorem resolveGroup_made
    {g : Group} {d : Draft}
    (hg : ∀ d ∈ g.declarations, d.AsksOnly P)
    (h : (resolveGroup ctx g).outcome = .ok d) :
    d.name = g.name ∧ d.kind = g.kind ∧ d.Every (Made ctx.known P) := by
  refine resolveDeclarations_keeps hg h ?_
  intro t ht
  cases ht

theorem resolveGroup_spec
    {g : Group} {d : Draft}
    (h : (resolveGroup ctx g).outcome = .ok d) :
    d.name = g.name ∧ d.kind = g.kind ∧ d.Every (Unlinked ctx.known) := by
  obtain ⟨hname, hkind, hmade⟩ := resolveGroup_made (fun d _ => d.asksOnly_true) h
  exact ⟨hname, hkind, fun t ht => (hmade t ht).mono fun _ hs => hs.unlinked⟩

end Drafts

end DeclGraph
