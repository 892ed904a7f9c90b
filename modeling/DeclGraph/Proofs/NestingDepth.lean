import DeclGraph.Proofs.Outcomes

/-!
# The depth limit

Resolving a node visits type nodes, each at a depth: the type itself at depth zero,
and what a construct is made of one level deeper than the construct.
`Syntax.Node.visits` lists these visits in order of evaluation, and
`Syntax.Node.demand` is the greatest depth among them.  Neither depends on names,
scopes or limits.

The limit does nothing but compare.  Resolving a node fails at the first visit that
lies beyond the limit (`FailsAt`), and that is the first one at the depth next to the
limit, since the way down leads through all depths.  A limit that admits all visits
does not show in the result, and so a greater limit never changes what an extraction
gives.
-/

namespace DeclGraph

open Syntax (Node)

section Visits

/-- A type node that resolution looks at, with its depth. -/
structure Visit where
  depth : Nat
  node : Node

/-- A visit, as it is counted from one level further up. -/
def Visit.below (v : Visit) : Visit :=
  { v with depth := v.depth + 1 }

/-- The visits of resolving a node, in order of evaluation.  Nothing is visited where
there is no type, and nothing below a type that is kept as text. -/
def Syntax.Node.visits (n : Node) : List Visit :=
  match _htype : n.annotated? with
  | none => []
  | some t => ⟨0, t⟩ :: (typeShape t).parts.attach.flatMap fun ⟨c, _⟩ => c.visits.map Visit.below
termination_by n.size
decreasing_by
  rename_i hc
  exact Nat.lt_of_lt_of_le (size_lt_of_mem_typeShape hc) (Syntax.Node.size_le_of_annotated? _htype)

/-- The greatest depth at which resolving a node visits a type. -/
def Syntax.Node.demand (n : Node) : Nat :=
  (n.visits.map (·.depth)).foldr max 0

/-- The visits below a list of nodes. -/
def visitsBelow (ns : List Node) : List Visit :=
  ns.flatMap fun c => c.visits.map Visit.below

@[simp]
theorem visitsBelow_singleton (c : Node) : visitsBelow [c] = c.visits.map Visit.below := by
  simp [visitsBelow]

@[simp]
theorem visitsBelow_append (ns ms : List Node) :
    visitsBelow (ns ++ ms) = visitsBelow ns ++ visitsBelow ms :=
  List.flatMap_append

theorem visits_of_absent
    {n : Node}
    (h : n.annotated? = none) :
    n.visits = [] := by
  rw [Syntax.Node.visits]
  split
  · rfl
  · rename_i t ht
    cases h.symm.trans ht

theorem visits_of_type
    {n t : Node}
    (h : n.annotated? = some t) :
    n.visits = ⟨0, t⟩ :: visitsBelow (typeShape t).parts := by
  rw [Syntax.Node.visits]
  split
  · rename_i hnone
    cases h.symm.trans hnone
  · rename_i u hu
    cases h.symm.trans hu
    simp [visitsBelow]

theorem findSome?_congr
    {α β : Type} {f g : α → Option β} {as : List α}
    (h : ∀ a ∈ as, f a = g a) :
    as.findSome? f = as.findSome? g := by
  induction as with
  | nil => rfl
  | cons a as ih =>
      obtain ⟨ha, has⟩ := List.forall_mem_cons.1 h
      rw [List.findSome?_cons, List.findSome?_cons, ha, ih has]

/-- Beyond any depth, what is visited first is visited at that depth: the way down leads
through all depths. -/
theorem find?_visits_eq
    (n : Node) (k : Nat) :
    n.visits.find? (fun v => k ≤ v.depth) = n.visits.find? (fun v => v.depth = k) := by
  induction n using Syntax.Node.typeInduct generalizing k with
  | absent n h => rw [visits_of_absent h, List.find?_nil, List.find?_nil]
  | type n t h ih =>
      rw [visits_of_type h]
      cases k with
      | zero => simp
      | succ k =>
          rw [List.find?_cons_of_neg (by simp), List.find?_cons_of_neg (by simp)]
          unfold visitsBelow
          rw [List.find?_flatMap, List.find?_flatMap]
          refine findSome?_congr fun c hc => ?_
          rw [List.find?_map, List.find?_map]
          simpa [Function.comp_def, Visit.below] using congrArg (Option.map Visit.below) (ih c hc k)

end Visits

section Faults

variable {α β : Type} {ctx : Context} {depth : Nat}

/-- Whether a visit lies beyond the limit, if visits are counted from a depth. -/
def Context.excludes (ctx : Context) (depth : Nat) (v : Visit) : Bool :=
  ctx.limit < depth + v.depth

/-- A pass at a depth fails exactly at the first of some visits that lies beyond the
limit. -/
def FailsAt (ctx : Context) (depth : Nat) (vs : List Visit) (p : Pass α) : Prop :=
  p.fault? = (vs.find? (ctx.excludes depth)).map fun v => .tooDeep ctx.limit v.node.line

theorem failsAt_pure (a : α) : FailsAt ctx depth [] (pure a : Pass α) :=
  rfl

theorem failsAt_report (es : List Event) : FailsAt ctx depth [] (Pass.report es) :=
  rfl

theorem FailsAt.bind
    {vs ws : List Visit} {p : Pass α} {k : α → Pass β}
    (hp : FailsAt ctx depth vs p)
    (hk : ∀ a, FailsAt ctx depth ws (k a)) :
    FailsAt ctx depth (vs ++ ws) (p >>= k) := by
  unfold FailsAt at *
  rw [Pass.fault?_bind_of_forall hk, hp, List.find?_append, Option.map_or]

/-- Computing something from a result does not fail. -/
theorem FailsAt.bind_pure
    {vs : List Visit} {p : Pass α}
    (hp : FailsAt ctx depth vs p)
    (f : α → β) :
    FailsAt ctx depth vs (p >>= fun a => pure (f a)) := by
  have h := hp.bind fun a => failsAt_pure (f a)
  rwa [List.append_nil] at h

/-- A depth check is a visit of its own, before those of what follows it. -/
theorem failsAt_checkDepth_bind
    {t : Node} {k : Unit → Pass α}
    (parts : List Node)
    (hk : FailsAt ctx depth (visitsBelow parts) (k ())) :
    FailsAt ctx depth (⟨0, t⟩ :: visitsBelow parts) (ctx.checkDepth depth t.line >>= k) := by
  have hcheck : FailsAt ctx depth [⟨0, t⟩] (ctx.checkDepth depth t.line) := by
    unfold FailsAt Context.checkDepth Context.excludes
    by_cases h : ctx.limit < depth
    · simp [h, Pass.fault?]
    · simp [h, Pass.fault?]
  exact hcheck.bind fun _ => hk

/-- Visits one level further down. -/
theorem FailsAt.of_below
    {vs : List Visit} {p : Pass α}
    (hp : FailsAt ctx (depth + 1) vs p) :
    FailsAt ctx depth (vs.map Visit.below) p := by
  have hexcludes : ctx.excludes depth ∘ Visit.below = ctx.excludes (depth + 1) := by
    funext v
    refine decide_eq_decide.2 ?_
    simp only [Visit.below]
    omega
  unfold FailsAt at *
  rw [hp, List.find?_map, hexcludes, Option.map_map]
  rfl

variable {scope : List String}

/-- Resolving a node fails exactly at the first of its visits that lies beyond the limit,
in any scope and at any depth. -/
def FailsAtVisits (ctx : Context) (n : Node) : Prop :=
  ∀ scope depth, FailsAt ctx depth n.visits (resolve ctx scope depth (.ofNode n))

theorem failsAt_ofNode?
    (scope : List String)
    {n : Option Node}
    (hn : ∀ m ∈ n, FailsAtVisits ctx m) :
    FailsAt ctx depth (visitsBelow n.toList) (resolve ctx scope (depth + 1) (.ofNode? n)) := by
  cases n with
  | none => exact failsAt_pure _
  | some m =>
      rw [Option.toList_some, visitsBelow_singleton]
      exact (hn m rfl scope (depth + 1)).of_below

theorem failsAt_resolveAll
    {args : List Node}
    (hargs : ∀ m ∈ args, FailsAtVisits ctx m) :
    FailsAt ctx depth (visitsBelow args) (resolveAll ctx scope (depth + 1) (args.map .ofNode)) := by
  induction args with
  | nil => exact failsAt_pure _
  | cons m args ih =>
      obtain ⟨hm, hargs⟩ := List.forall_mem_cons.1 hargs
      exact (hm scope (depth + 1)).of_below.bind fun t => (ih hargs).bind_pure _

theorem failsAt_resolveParams
    {params : List (Field (Option Node))}
    (hparams : ∀ f ∈ params, ∀ m ∈ f.type, FailsAtVisits ctx m) :
    FailsAt ctx depth (visitsBelow (params.filterMap (·.type)))
      (resolveParams ctx scope (depth + 1) (params.map writtenParam)) := by
  induction params with
  | nil => exact failsAt_pure _
  | cons f params ih =>
      obtain ⟨hf, hparams⟩ := List.forall_mem_cons.1 hparams
      have h := (failsAt_ofNode? scope hf).bind fun t => (ih hparams).bind_pure
        fun ts => (⟨f.name, t, f.optional⟩ : Field TypeExpr) :: ts
      have hparts : (f :: params).filterMap (·.type) =
          f.type.toList ++ params.filterMap (·.type) := by
        cases htype : f.type with
        | none => rw [List.filterMap_cons_none htype, Option.toList_none, List.nil_append]
        | some m => rw [List.filterMap_cons_some htype, Option.toList_some, List.singleton_append]
      rw [hparts, visitsBelow_append]
      exact h

/-- A construct fails because it lies beyond the limit itself, or else as the nodes that it
is made of do, one after the other. -/
theorem failsAt_of_type
    {t : Node}
    (helement : t.HasElement)
    (hparts : ∀ c ∈ (typeShape t).parts, FailsAtVisits ctx c) :
    FailsAt ctx depth (⟨0, t⟩ :: visitsBelow (typeShape t).parts)
      (resolve ctx scope depth (typeShape t).written) := by
  rcases construct_cases t with hkind | hkind | hkind | hkind | hkind | ⟨key, value, hkeyed⟩ | hkept
  · rw [typeShape_wrapper hkind] at hparts ⊢
    cases hlast : t.namedChildren.getLast? with
    | none => exact failsAt_checkDepth_bind [] (failsAt_pure _)
    | some inner =>
        rw [hlast] at hparts
        have hinner := hparts inner (List.mem_singleton_self _) scope (depth + 1)
        refine failsAt_checkDepth_bind [inner] ?_
        rw [visitsBelow_singleton]
        exact hinner.of_below
  · rw [typeShape_name hkind]
    exact failsAt_checkDepth_bind [] (failsAt_pure _)
  · rw [typeShape_array hkind] at hparts ⊢
    cases hhead : t.namedChildren.head? with
    | none => exact absurd (List.head?_eq_none_iff.1 hhead) (helement hkind)
    | some element =>
        rw [hhead] at hparts
        have helement := hparts element (List.mem_singleton_self _) scope (depth + 1)
        refine failsAt_checkDepth_bind [element] ?_
        rw [visitsBelow_singleton]
        exact helement.of_below.bind_pure _
  · rw [typeShape_generic hkind] at hparts ⊢
    exact failsAt_checkDepth_bind (referenceArgs t) ((failsAt_resolveAll hparts).bind_pure _)
  · rw [typeShape_function hkind] at hparts ⊢
    obtain ⟨hparams, hresult⟩ := List.forall_mem_append.1 hparts
    refine failsAt_checkDepth_bind (_ ++ _) ?_
    rw [visitsBelow_append]
    refine (failsAt_resolveParams fun f hf m hm => ?_).bind fun _ => ?_
    · exact hparams m (List.mem_filterMap.2 ⟨f, hf, hm⟩)
    · exact (failsAt_ofNode? _ fun m hm => hresult m (Option.mem_toList.2 hm)).bind_pure _
  · rw [typeShape_keyed hkeyed] at hparts ⊢
    obtain ⟨hkey, hvalue⟩ := List.forall_mem_append.1 hparts
    refine failsAt_checkDepth_bind (key.toList ++ value.toList) ?_
    rw [visitsBelow_append]
    refine (failsAt_report _).bind fun _ => ?_
    refine (failsAt_ofNode? _ fun m hm => hkey m (Option.mem_toList.2 hm)).bind fun _ => ?_
    exact (failsAt_ofNode? _ fun m hm => hvalue m (Option.mem_toList.2 hm)).bind_pure _
  · obtain ⟨skipped, hshape⟩ := exists_typeShape_of_keptAsText hkept
    rw [hshape]
    refine failsAt_checkDepth_bind [] ?_
    exact (failsAt_report _).bind fun _ => failsAt_pure _

/-- Resolving a node fails exactly at the first of its visits that lies beyond the limit,
if its array types have elements. -/
theorem failsAtVisits
    (ctx : Context)
    {n : Node}
    (hn : n.Every Syntax.Node.HasElement) :
    FailsAtVisits ctx n := by
  induction n using Syntax.Node.typeInduct with
  | absent n h =>
      intro scope depth
      rw [visits_of_absent h, Written.ofNode_of_absent h]
      exact failsAt_pure _
  | type n t h ih =>
      have ht := Syntax.Node.within_of_annotated? h
      intro scope depth
      rw [visits_of_type h, Written.ofNode_of_type h]
      refine failsAt_of_type (hn t ht) fun c hc => ih c hc ?_
      exact hn.within ((within_of_mem_typeShape hc).trans ht)

end Faults

section Limits

variable {known scope : List String} {low high : Int} {depth : Nat}

theorem resolveAll_implies
    {ws : List Written}
    (hws : ∀ w ∈ ws,
      (resolve ⟨known, low⟩ scope depth w).Implies (resolve ⟨known, high⟩ scope depth w)) :
    (resolveAll ⟨known, low⟩ scope depth ws).Implies (resolveAll ⟨known, high⟩ scope depth ws) := by
  rw [resolveAll_eq_each, resolveAll_eq_each]
  exact Pass.Implies.each hws

theorem resolveParams_implies
    {ps : List (Field Written)}
    (hps : ∀ p ∈ ps,
      (resolve ⟨known, low⟩ scope depth p.type).Implies
        (resolve ⟨known, high⟩ scope depth p.type)) :
    (resolveParams ⟨known, low⟩ scope depth ps).Implies
      (resolveParams ⟨known, high⟩ scope depth ps) := by
  intro fs hfs
  rw [resolveParams_eq_ok_iff] at hfs ⊢
  refine (forall₂_mem hfs).imp ?_
  rintro p f ⟨hp, -, hname, hoptional, hresolved⟩
  exact ⟨hname, hoptional, hps p hp f.type hresolved⟩

variable (h : low ≤ high)
include h

theorem checkDepth_implies (line : Nat) :
    (Context.checkDepth ⟨known, low⟩ depth line).Implies
      (Context.checkDepth ⟨known, high⟩ depth line) := by
  unfold Context.checkDepth
  by_cases hlow : low < depth
  · simp [Pass.Implies, hlow]
  · have hhigh : ¬ high < depth := by omega
    simp [Pass.Implies, hlow, hhigh]

/-- A greater limit resolves whatever a smaller one does, to the same type. -/
theorem resolve_implies
    (w : Written) (scope : List String) (depth : Nat) :
    (resolve ⟨known, low⟩ scope depth w).Implies (resolve ⟨known, high⟩ scope depth w) := by
  induction w using Written.induct generalizing scope depth with
  | absent => exact Pass.implies_refl _
  | wrapped line inner ih => exact (checkDepth_implies h line).bind fun _ => ih scope (depth + 1)
  | hollow line text => exact (checkDepth_implies h line).bind fun _ => Pass.implies_refl _
  | name line name => exact (checkDepth_implies h line).bind fun _ => Pass.implies_refl _
  | array line element ih =>
      refine (checkDepth_implies h line).bind fun _ => ?_
      exact (ih scope (depth + 1)).bind fun _ => Pass.implies_refl _
  | bareArray line => exact (checkDepth_implies h line).bind fun _ => Pass.implies_refl _
  | reference line name args ih =>
      refine (checkDepth_implies h line).bind fun _ => ?_
      refine (resolveAll_implies fun w hw => ih w hw scope (depth + 1)).bind fun _ => ?_
      exact Pass.implies_refl _
  | function line typeParams params result ihparams ihresult =>
      refine (checkDepth_implies h line).bind fun _ => ?_
      refine (resolveParams_implies fun p hp => ihparams p hp _ (depth + 1)).bind fun _ => ?_
      exact (ihresult _ (depth + 1)).bind fun _ => Pass.implies_refl _
  | keyed line skipped key value ihkey ihvalue =>
      refine (checkDepth_implies h line).bind fun _ => ?_
      refine (Pass.implies_refl _).bind fun _ => ?_
      refine (ihkey scope (depth + 1)).bind fun _ => ?_
      exact (ihvalue scope (depth + 1)).bind fun _ => Pass.implies_refl _
  | verbatim line skipped text names =>
      refine (checkDepth_implies h line).bind fun _ => ?_
      exact (Pass.implies_refl _).bind fun _ => Pass.implies_refl _

theorem resolveNode?_implies (n : Option Node) :
    (resolveNode? ⟨known, low⟩ scope n).Implies (resolveNode? ⟨known, high⟩ scope n) := by
  cases n with
  | none => exact Pass.implies_refl _
  | some n => exact (resolve_implies h _ scope 0).bind fun _ => Pass.implies_refl _

theorem resolveTypeParam_implies (p : TypeParam Node) :
    (resolveTypeParam ⟨known, low⟩ scope p).Implies (resolveTypeParam ⟨known, high⟩ scope p) := by
  refine (resolveNode?_implies h p.bound).bind fun _ => ?_
  exact (resolveNode?_implies h p.default).bind fun _ => Pass.implies_refl _

theorem resolveMember_implies (m : Member) :
    (resolveMember ⟨known, low⟩ scope m).Implies (resolveMember ⟨known, high⟩ scope m) := by
  cases m with
  | property name type optional =>
      exact (resolve_implies h _ scope 0).bind fun _ => Pass.implies_refl _
  | method name optional typeParams params result =>
      refine (resolveParams_implies fun p _ => resolve_implies h p.type _ 1).bind fun _ => ?_
      exact (resolve_implies h _ _ 1).bind fun _ => Pass.implies_refl _
  | index key keyType valueType =>
      refine (resolve_implies h _ scope 1).bind fun _ => ?_
      exact (resolve_implies h _ scope 1).bind fun _ => Pass.implies_refl _

theorem resolveHeritage_implies (b : Heritage) :
    (resolveHeritage ⟨known, low⟩ scope b).Implies (resolveHeritage ⟨known, high⟩ scope b) :=
  (resolveAll_implies fun w _ => resolve_implies h w scope 1).bind fun _ => Pass.implies_refl _

theorem resolveDeclaration_implies (draft : Draft) (d : Declaration) :
    (resolveDeclaration ⟨known, low⟩ draft d).Implies
      (resolveDeclaration ⟨known, high⟩ draft d) := by
  refine (Pass.Implies.each fun p _ => resolveTypeParam_implies h p).bind fun _ => ?_
  refine (resolveNode?_implies h d.value).bind fun _ => ?_
  refine (Pass.Implies.each fun m _ => resolveMember_implies h m).bind fun _ => ?_
  exact (Pass.Implies.each fun b _ => resolveHeritage_implies h b).bind fun _ => Pass.implies_refl _

theorem resolveDeclarations_implies (draft : Draft) (ds : List Declaration) :
    (resolveDeclarations ⟨known, low⟩ draft ds).Implies
      (resolveDeclarations ⟨known, high⟩ draft ds) := by
  induction ds generalizing draft with
  | nil => exact Pass.implies_refl _
  | cons d ds ih => exact (resolveDeclaration_implies h draft d).bind fun next => ih next

/-- A greater limit extracts whatever a smaller one does, to the same graph. -/
theorem extract_implies (withHeritage : Bool) (root : Node) :
    (extract ⟨low, withHeritage⟩ root).Implies (extract ⟨high, withHeritage⟩ root) := by
  refine (Pass.implies_refl _).bind fun ds => (Pass.implies_refl _).bind fun groups => ?_
  refine (Pass.Implies.each fun g _ => ?_).bind fun drafts => Pass.implies_refl _
  exact resolveDeclarations_implies h _ g.declarations

end Limits

section Demand

variable {n t : Node} {limit : Int}

theorem lt_foldr_max_iff {ks : List Nat} :
    limit < (ks.foldr max 0 : Nat) ↔ limit < 0 ∨ ∃ k ∈ ks, limit < (k : Int) := by
  induction ks with
  | nil => simp
  | cons k ks ih =>
      have hmax : limit < (max k (ks.foldr max 0) : Nat) ↔
          limit < (k : Int) ∨ limit < (ks.foldr max 0 : Nat) := by omega
      rw [List.foldr_cons, hmax, ih, List.exists_mem_cons_iff]
      exact or_left_comm

/-- A limit is below the demand of a type when some visit lies beyond it. -/
theorem lt_demand_iff
    (limit : Int)
    (h : n.annotated? = some t) :
    limit < n.demand ↔ ∃ v ∈ n.visits, limit < (v.depth : Int) := by
  unfold Syntax.Node.demand
  simp only [lt_foldr_max_iff, List.mem_map, exists_exists_and_eq_and]
  refine ⟨?_, .inr⟩
  rintro (hneg | hvisit)
  · refine ⟨⟨0, t⟩, ?_, hneg⟩
    rw [visits_of_type h]
    exact List.mem_cons_self
  · exact hvisit

/-- The first visit beyond a limit is the first one at the depth next to it. -/
theorem find?_excludes_eq (ctx : Context) (n : Node) :
    n.visits.find? (ctx.excludes 0) =
      n.visits.find? fun v => (v.depth : Int) = max (ctx.limit + 1) 0 := by
  have hbeyond : ctx.excludes 0 = fun v => decide ((ctx.limit + 1).toNat ≤ v.depth) := by
    funext v
    refine decide_eq_decide.2 ?_
    omega
  have hnext : (fun v : Visit => decide ((v.depth : Int) = max (ctx.limit + 1) 0)) =
      fun v => decide (v.depth = (ctx.limit + 1).toNat) := by
    funext v
    refine decide_eq_decide.2 ?_
    omega
  rw [hbeyond, hnext, find?_visits_eq]

variable {known scope : List String}

/-- Resolving a type fails exactly when its demand exceeds the limit. -/
theorem fault?_resolveNode_eq_none_iff
    (known scope : List String) (limit : Int)
    (h : n.annotated? = some t)
    (hn : n.Every Syntax.Node.HasElement) :
    (resolveNode ⟨known, limit⟩ scope (some n)).fault? = none ↔ (n.demand : Int) ≤ limit := by
  have hfails : _ = _ := failsAtVisits ⟨known, limit⟩ hn scope 0
  have hdemand := lt_demand_iff limit h
  show (resolve _ scope 0 (.ofNode n)).fault? = none ↔ _
  rw [hfails, Option.map_eq_none_iff, List.find?_eq_none, ← Int.not_lt, hdemand]
  simp [Context.excludes]

/-- A fault of resolving a type tells the limit and the line of the first visit at the
depth next to it. -/
theorem fault?_resolveNode_eq_some
    (hn : n.Every Syntax.Node.HasElement)
    {f : Fault}
    (hf : (resolveNode ⟨known, limit⟩ scope (some n)).fault? = some f) :
    ∃ v, n.visits.find? (fun v => (v.depth : Int) = max (limit + 1) 0) = some v ∧
      f = .tooDeep limit v.node.line := by
  have hfails : _ = _ := failsAtVisits ⟨known, limit⟩ hn scope 0
  rw [find?_excludes_eq] at hfails
  obtain ⟨v, hv, rfl⟩ := Option.map_eq_some_iff.1 (hfails.symm.trans hf)
  exact ⟨v, hv, rfl⟩

theorem exists_resolveNode_of_demand_le
    (known scope : List String)
    (h : n.annotated? = some t)
    (hn : n.Every Syntax.Node.HasElement)
    (hdemand : (n.demand : Int) ≤ limit) :
    ∃ r, (resolveNode ⟨known, limit⟩ scope (some n)).outcome = .ok r := by
  have hnone := (fault?_resolveNode_eq_none_iff known scope limit h hn).2 hdemand
  unfold Pass.fault? at hnone
  split at hnone
  · rename_i r hr
    exact ⟨r, hr⟩
  · cases hnone

/-- The depth limit is exact, and otherwise it does not show.

* Every limit from the demand of a type on gives the same result.
* Resolving a type fails because a type stands too deep exactly when its demand is
  greater than the limit.
* The fault tells the limit, and the line of the first type that is visited at the depth
  next to it.

So an extraction that gives a graph gives the same graph with every greater limit. -/
theorem depth_limit_exact :
    (∀ n : Node, n.annotated? ≠ none → n.Every Syntax.Node.HasElement →
      ∀ known scope : List String,
        (∃ r, ∀ limit : Int, n.demand ≤ limit →
          (resolveNode ⟨known, limit⟩ scope (some n)).outcome = .ok r) ∧
        ∀ limit : Int,
          ((∃ l line,
              (resolveNode ⟨known, limit⟩ scope (some n)).outcome = .error (.tooDeep l line)) ↔
            limit < n.demand) ∧
          (∀ l line,
            (resolveNode ⟨known, limit⟩ scope (some n)).outcome = .error (.tooDeep l line) →
              l = limit ∧
              ∃ v, n.visits.find? (fun v => (v.depth : Int) = max (limit + 1) 0) = some v ∧
                line = v.node.line)) ∧
    ∀ (options : Options) (root : Node) (g : Graph) (limit : Int),
      (extract options root).outcome = .ok g → options.depthLimit ≤ limit →
        (extract { options with depthLimit := limit } root).outcome = .ok g := by
  refine ⟨fun n htype hn known scope => ?_, fun options root g limit hg hle => ?_⟩
  · obtain ⟨t, ht⟩ := Option.ne_none_iff_exists'.1 htype
    constructor
    · -- The smallest limit that is enough decides for all.
      obtain ⟨r, hr⟩ := exists_resolveNode_of_demand_le known scope ht hn (Int.le_refl n.demand)
      exact ⟨r, fun limit hle => resolve_implies hle _ scope 0 r hr⟩
    · intro limit
      have hnone := fault?_resolveNode_eq_none_iff known scope limit ht hn
      refine ⟨⟨?_, ?_⟩, ?_⟩
      · rintro ⟨l, line, hfault⟩
        by_contra hle
        rw [Pass.fault?_eq_some_iff.2 hfault] at hnone
        exact absurd (hnone.2 (Int.not_lt.1 hle)) (Option.some_ne_none _)
      · intro hlt
        cases hfault : (resolveNode ⟨known, limit⟩ scope (some n)).fault? with
        | none => exact absurd hlt (Int.not_lt.2 (hnone.1 hfault))
        | some f =>
            obtain ⟨v, -, rfl⟩ := fault?_resolveNode_eq_some hn hfault
            exact ⟨limit, v.node.line, Pass.fault?_eq_some_iff.1 hfault⟩
      · intro l line hfault
        obtain ⟨v, hv, heq⟩ := fault?_resolveNode_eq_some hn (Pass.fault?_eq_some_iff.2 hfault)
        cases heq
        exact ⟨rfl, v, hv, rfl⟩
  · exact extract_implies hle options.withHeritage root g hg

/-- A signature from arrays of `A` to `B`, with each type on a line of its own. -/
def longSignature : Node :=
  .build "function_type" "" none
    [.build "formal_parameters" "" (some "parameters")
        [.build "required_parameter" "" none
          [.build "identifier" "x" (some "pattern") [],
            { Syntax.Node.build "array_type" "A[]" (some "type")
                [{ Syntax.Node.build "type_identifier" "A" none [] with start := ⟨2, 0⟩ }] with
              start := ⟨1, 0⟩ }]],
      { Syntax.Node.build "type_identifier" "B" (some "return_type") [] with start := ⟨3, 0⟩ }]

/-- The signature has a demand of two levels.  With room for one it fails at `A`, which
stands on the third line; with room for none, at the array before the result. -/
theorem depth_limit_exact_longSignature :
    longSignature.annotated? ≠ none ∧ longSignature.Every Syntax.Node.HasElement ∧
    longSignature.demand = 2 ∧
    (resolveNode ⟨["A"], 1⟩ [] (some longSignature)).outcome = .error (.tooDeep 1 3) ∧
    (resolveNode ⟨["A"], 0⟩ [] (some longSignature)).outcome = .error (.tooDeep 0 2) ∧
    (∃ r, ∀ limit : Int, 2 ≤ limit →
      (resolveNode ⟨["A"], limit⟩ [] (some longSignature)).outcome = .ok r) ∧
    ∃ g, (extract { depthLimit := 0 } crossReferences).outcome = .ok g ∧
      (extract { depthLimit := 1000 } crossReferences).outcome = .ok g := by
  have htype : longSignature.annotated? ≠ none := by
    rw [Syntax.Node.annotated?, if_neg (by decide)]
    exact Option.some_ne_none _
  have hn : longSignature.Every Syntax.Node.HasElement := by decide +kernel
  have hdemand : longSignature.demand = 2 := by decide +kernel
  have hone : (resolveNode ⟨["A"], 1⟩ [] (some longSignature)).fault? = some (.tooDeep 1 3) := by
    decide +kernel
  have hzero : (resolveNode ⟨["A"], 0⟩ [] (some longSignature)).fault? = some (.tooDeep 0 2) := by
    decide +kernel
  obtain ⟨r, hr⟩ := (depth_limit_exact.1 longSignature htype hn ["A"] []).1
  obtain ⟨g, hg, -⟩ := Pass.exists_ok_of_toOption_map
    (p := extract { depthLimit := 0 } crossReferences) (f := (·.models.length)) (b := 2)
    (by decide +kernel)
  refine ⟨htype, hn, hdemand, Pass.fault?_eq_some_iff.1 hone, Pass.fault?_eq_some_iff.1 hzero,
    ⟨r, fun limit hle => hr limit (by rw [hdemand]; exact hle)⟩, g, hg, ?_⟩
  exact depth_limit_exact.2 { depthLimit := 0 } crossReferences g 1000 hg (by decide)

end Demand

end DeclGraph
