import DeclGraph.Proofs.JsonValues
import DeclGraph.Proofs.LinkedGraph
import Mathlib.Algebra.BigOperators.Group.List.Basic
import Mathlib.Algebra.GroupWithZero.Nat

/-!
# Edges of linked models

Linking finds the edges of the models while it walks their types.  This module
says which edges these are.

* `TypeExpr.met` walks a linked type and lists the models it meets, depth first.
* `Model.met` walks the types of a model: its fields, its type parameters, and on
  request its base types.

The dependencies of a model are the models met on this walk, each once, in order of
the first meeting, without the model itself.  Its dependants are the models whose
dependencies it is among, in the order of the graph.

The proof has three layers.  `Edges.add` collects targets of one source into the
list of their first occurrences; the walk over all drafts groups the edges by their
source; and positions are replaced by links, which loses nothing because different
names give different links.
-/

namespace DeclGraph

section FirstOccurrences

variable {α β : Type} [DecidableEq α] [DecidableEq β]

/-- Renaming items one to one, and then leaving one out, is leaving it out before. -/
theorem filterMap_filter_ne
    {f : α → Option β} {a : α} {c : β}
    (hf : ∀ a b c, f a = some c → f b = some c → a = b)
    (ha : f a = some c)
    (as : List α) :
    (as.filter (· ≠ a)).filterMap f = (as.filterMap f).filter (· ≠ c) := by
  induction as with
  | nil => rfl
  | cons b as ih =>
      cases hfb : f b with
      | none =>
          have hne : b ≠ a := by
            rintro rfl
            rw [hfb] at ha
            cases ha
          rw [List.filter_cons_of_pos (by simpa using hne), List.filterMap_cons_none hfb,
            List.filterMap_cons_none hfb, ih]
      | some d =>
          rw [List.filterMap_cons_some hfb]
          by_cases hba : b = a
          · subst hba
            rw [ha] at hfb
            cases hfb
            rw [List.filter_cons_of_neg (by simp), List.filter_cons_of_neg (by simp), ih]
          · have hdc : d ≠ c := by
              rintro rfl
              exact hba (hf b a d hfb ha)
            rw [List.filter_cons_of_pos (by simpa using hba), List.filterMap_cons_some hfb,
              List.filter_cons_of_pos (by simpa using hdc), ih]

end FirstOccurrences

section Walk

mutual

/-- The models met on a walk over a linked type, depth first: keys before values,
parameters before results, type arguments before the model they are given to. -/
def TypeExpr.met : TypeExpr → List Link
  | .verbatim _ references => metAll references
  | .model target => [target]
  | .pending _ => []
  | .param _ => []
  | .array element => element.met
  | .keyed key value => key.met ++ value.met
  | .generic _ args target => metAll args ++ target.toList
  | .function args result => metFields args ++ result.met

def metAll : List TypeExpr → List Link
  | [] => []
  | t :: ts => t.met ++ metAll ts

def metFields : List (Field TypeExpr) → List Link
  | [] => []
  | ⟨_, t, _⟩ :: fs => t.met ++ metFields fs

end

/-- The models met on a walk over the fields of a model, its type parameters with
bounds before defaults, and on request its base types. -/
def Model.met (m : Model) (withHeritage : Bool) : List Link :=
  metFields m.schema ++ m.typeParams.flatMap (fun p => p.types.flatMap TypeExpr.met) ++
    if withHeritage then metAll m.heritage else []

/-- The mentions of a draft that count. -/
def Draft.counted (d : Draft) (withHeritage : Bool) : List Mention :=
  d.ownMentions ++ if withHeritage then d.heritageMentions else []

theorem metAll_eq_flatMap (ts : List TypeExpr) : metAll ts = ts.flatMap TypeExpr.met := by
  induction ts with
  | nil => rfl
  | cons t ts ih => rw [metAll, ih, List.flatMap_cons]

theorem metFields_eq_flatMap (fs : List (Field TypeExpr)) :
    metFields fs = fs.flatMap fun f => f.type.met := by
  induction fs with
  | nil => rfl
  | cons f fs ih =>
      obtain ⟨name, t, optional⟩ := f
      rw [metFields, ih, List.flatMap_cons]

variable {find : String → Option Link}

/-- A walk over lists whose items are linked one by one. -/
theorem flatMap_met_eq
    {α : Type} {as : List α} (type : α → TypeExpr)
    (h : ∀ a ∈ as, ((type a).link find).met = (type a).mentions.filterMap (find ·.name)) :
    (as.flatMap fun a => ((type a).link find).met) =
      (as.flatMap fun a => (type a).mentions).filterMap (find ·.name) := by
  induction as with
  | nil => rfl
  | cons a as ih =>
      obtain ⟨ha, has⟩ := List.forall_mem_cons.1 h
      rw [List.flatMap_cons, List.flatMap_cons, List.filterMap_append, ha, ih has]

/-- A walk over a linked type meets the models that the type mentions by name. -/
theorem met_link
    {t : TypeExpr}
    (h : t.Every fun s => ∀ l, s ≠ .model l) :
    (t.link find).met = t.mentions.filterMap (find ·.name) := by
  induction t using TypeExpr.induct with
  | verbatim text references ih =>
      have hparts := (TypeExpr.every_iff.1 h).2
      rw [TypeExpr.link, linkAll_eq_map, TypeExpr.met, metAll_eq_flatMap, List.flatMap_map,
        TypeExpr.mentions, TypeExpr.mentionsAll_eq_flatMap]
      exact flatMap_met_eq (fun r => r) fun r hr => ih r hr (hparts r hr)
  | model target => exact absurd rfl ((TypeExpr.every_iff.1 h).1 target)
  | pending name =>
      rw [TypeExpr.link]
      cases hfind : find name with
      | some target => simp [TypeExpr.met, TypeExpr.mentions, Mention.name, hfind]
      | none => simp [TypeExpr.met, metAll, TypeExpr.mentions, Mention.name, hfind]
  | param name => rfl
  | array element ih =>
      exact ih ((TypeExpr.every_iff.1 h).2 element (List.mem_singleton_self _))
  | keyed key value ihk ihv =>
      have hparts := (TypeExpr.every_iff.1 h).2
      rw [TypeExpr.link, TypeExpr.met, TypeExpr.mentions, List.filterMap_append,
        ihk (hparts key (List.mem_pair.2 (.inl rfl))),
        ihv (hparts value (List.mem_pair.2 (.inr rfl)))]
  | generic name args target ih =>
      have hparts := (TypeExpr.every_iff.1 h).2
      have hname : [Mention.generic name].filterMap (find ·.name) = (find name).toList := by
        cases hfind : find name <;> simp [Mention.name, hfind]
      rw [TypeExpr.link, linkAll_eq_map, TypeExpr.met, metAll_eq_flatMap, List.flatMap_map,
        TypeExpr.mentions, TypeExpr.mentionsAll_eq_flatMap, List.filterMap_append, hname,
        flatMap_met_eq (fun a => a) fun a ha => ih a ha (hparts a ha)]
  | function args result iha ihr =>
      obtain ⟨-, hargs, hresult⟩ := TypeExpr.every_function_iff.1 h
      rw [TypeExpr.link, linkFields_eq_map, TypeExpr.met, metFields_eq_flatMap, List.flatMap_map,
        TypeExpr.mentions, TypeExpr.mentionsFields_eq_flatMap, List.filterMap_append, ihr hresult]
      exact congrArg (· ++ _) (flatMap_met_eq (fun a => a.type) fun a ha => iha a ha (hargs a ha))

/-- A walk over a linked draft meets the models that the draft mentions by name. -/
theorem met_linkDraft
    {drafts : List Draft} {d : Draft}
    (h : d.Every fun s => ∀ l, s ≠ .model l)
    (withHeritage : Bool) (es : Edges) (i : Nat) :
    (linkDraft drafts es i d).met withHeritage =
      (d.counted withHeritage).filterMap (linkTo? drafts ·.name) := by
  obtain ⟨hschema, hparams, hheritage⟩ := Draft.every_iff.1 h
  have hfields : metFields (linkDraft drafts es i d).schema =
      (mentionsFields d.schema).filterMap (linkTo? drafts ·.name) := by
    rw [metFields_eq_flatMap, TypeExpr.mentionsFields_eq_flatMap]
    show (linkFields _ d.schema).flatMap _ = _
    rw [linkFields_eq_map, List.flatMap_map]
    exact flatMap_met_eq (fun f => f.type) fun f hf => met_link (hschema f hf)
  have hbounds : ((linkDraft drafts es i d).typeParams.flatMap
      fun p => p.types.flatMap TypeExpr.met) =
      (d.typeParams.flatMap TypeParam.mentions).filterMap (linkTo? drafts ·.name) := by
    show (d.typeParams.map _).flatMap _ = _
    rw [List.flatMap_map, List.filterMap_flatMap]
    refine List.flatMap_congr fun p hp => ?_
    rw [TypeParam.types_link, List.flatMap_map, TypeParam.mentions_eq_flatMap]
    exact flatMap_met_eq (fun t => t) fun t ht => met_link (hparams p hp t ht)
  have hbases : metAll (linkDraft drafts es i d).heritage =
      d.heritageMentions.filterMap (linkTo? drafts ·.name) := by
    rw [metAll_eq_flatMap, Draft.heritageMentions, TypeExpr.mentionsAll_eq_flatMap]
    show (linkAll _ d.heritage).flatMap _ = _
    rw [linkAll_eq_map, List.flatMap_map]
    exact flatMap_met_eq (fun t => t) fun t ht => met_link (hheritage t ht)
  unfold Model.met Draft.counted Draft.ownMentions
  rw [hfields, hbounds, hbases, List.filterMap_append, List.filterMap_append]
  cases withHeritage with
  | true => rfl
  | false => rfl

end Walk

section Collecting

namespace Edges

/-- Adds edges from one source to several targets. -/
def addAll (es : Edges) (source : Nat) (targets : List Nat) : Edges :=
  targets.foldl (fun es target => es.add source target) es

/-- The targets that edges of one source lead to: each once, without the source. -/
def firstTargets (source : Nat) (targets : List Nat) : List Nat :=
  (targets.filter (· ≠ source)).eraseDups

theorem mem_firstTargets {source target : Nat} {targets : List Nat} :
    target ∈ firstTargets source targets ↔ target ∈ targets ∧ target ≠ source := by
  unfold firstTargets
  rw [List.mem_eraseDups, List.mem_filter, decide_eq_true_eq]

/-- Edges from a new source are appended, in order of the first occurrences of
their targets. -/
theorem pairs_addAll
    {es : Edges} {source : Nat}
    (h : ∀ p ∈ es.pairs, p.1 ≠ source)
    (targets : List Nat) :
    (es.addAll source targets).pairs =
      es.pairs ++ (firstTargets source targets).map (source, ·) := by
  induction targets using List.reverseRecOn with
  | nil =>
      show es.pairs = es.pairs ++ []
      rw [List.append_nil]
  | append_singleton targets t ih =>
      have hadd : es.addAll source (targets ++ [t]) = (es.addAll source targets).add source t := by
        unfold addAll
        rw [List.foldl_append]
        rfl
      have hmem : (source, t) ∈ (es.addAll source targets).pairs ↔
          t ∈ targets ∧ t ≠ source := by
        rw [ih, List.mem_append, List.mem_map, ← mem_firstTargets]
        constructor
        · rintro (hp | ⟨u, hu, heq⟩)
          · exact absurd rfl (h _ hp)
          · cases heq
            exact hu
        · intro ht
          exact .inr ⟨t, ht, rfl⟩
      rw [hadd, add]
      by_cases hself : t = source
      · rw [if_pos (.inl hself.symm), ih]
        simp [firstTargets, hself]
      · have hkeep : firstTargets source (targets ++ [t]) =
            if t ∈ targets then firstTargets source targets
            else firstTargets source targets ++ [t] := by
          unfold firstTargets
          rw [List.filter_append]
          simp only [List.filter_cons, List.filter_nil, ne_eq, hself, not_false_eq_true,
            decide_true, if_true]
          rw [eraseDups_concat]
          simp only [List.mem_filter, hself, not_false_eq_true, decide_true, and_true]
        rw [hkeep]
        by_cases hold : t ∈ targets
        · rw [if_pos (.inr (hmem.2 ⟨hold, hself⟩)), if_pos hold, ih]
        · have hnew : ¬ (source = t ∨ (source, t) ∈ (es.addAll source targets).pairs) := by
            rintro (heq | hp)
            · exact hself heq.symm
            · exact hold (hmem.1 hp).1
          rw [if_neg hnew, if_neg hold, ih, List.map_append, List.append_assoc]
          rfl

end Edges

/-- The places of the drafts that a draft mentions. -/
def targetsOf (drafts : List Draft) (withHeritage : Bool) (d : Draft) : List Nat :=
  (d.counted withHeritage).filterMap (positionOf? drafts ·.name)

/-- The places of the drafts that a draft has edges to. -/
def edgeTargets (drafts : List Draft) (withHeritage : Bool) (p : Draft × Nat) : List Nat :=
  Edges.firstTargets p.2 (targetsOf drafts withHeritage p.1)

variable {drafts : List Draft} {withHeritage : Bool}

theorem follow_edges
    (model : String) (source : Nat) (counts : Bool) (es : Edges) (ms : List Mention) :
    (follow drafts model source counts es ms).1 =
      if counts then es.addAll source (ms.filterMap (positionOf? drafts ·.name)) else es := by
  induction ms generalizing es with
  | nil => cases counts <;> rfl
  | cons m ms ih =>
      unfold follow
      split
      · rename_i target hpos
        rw [ih]
        simp only [List.filterMap_cons, hpos]
        cases counts <;> rfl
      · rename_i name hpos
        rw [ih]
        simp only [List.filterMap_cons, hpos]
      · rename_i name hpos
        rw [ih]
        simp only [List.filterMap_cons, hpos]

/-- A walk over drafts adds, draft by draft, the edges to what the draft mentions. -/
theorem followAll_edges_cons
    (i : Nat) (es : Edges) (d : Draft) (ds : List Draft) :
    (followAll drafts withHeritage i es (d :: ds)).1 =
      (followAll drafts withHeritage (i + 1)
        (es.addAll i (targetsOf drafts withHeritage d)) ds).1 := by
  have hown : (follow drafts d.name i withHeritage
      (follow drafts d.name i true es d.ownMentions).1 d.heritageMentions).1 =
      es.addAll i (targetsOf drafts withHeritage d) := by
    rw [follow_edges, follow_edges, if_pos rfl]
    unfold targetsOf Draft.counted
    rw [List.filterMap_append]
    cases withHeritage with
    | true =>
        unfold Edges.addAll
        rw [if_pos rfl, if_pos rfl, List.foldl_append]
    | false => simp
  rw [followAll]
  dsimp only
  rw [hown]

theorem pairs_followAll
    {i : Nat} {es : Edges}
    (h : ∀ p ∈ es.pairs, p.1 < i)
    (ds : List Draft) :
    (followAll drafts withHeritage i es ds).1.pairs =
      es.pairs ++ (ds.zipIdx i).flatMap fun p =>
        (edgeTargets drafts withHeritage p).map (p.2, ·) := by
  -- No edge starts at a later draft yet, so the edges of each draft are all new.
  induction ds generalizing i es with
  | nil => exact (List.append_nil _).symm
  | cons d ds ih =>
      have hpairs := Edges.pairs_addAll (fun p hp => Nat.ne_of_lt (h p hp))
        (targetsOf drafts withHeritage d)
      have hbelow : ∀ p ∈ (es.addAll i (targetsOf drafts withHeritage d)).pairs, p.1 < i + 1 := by
        intro p hp
        rw [hpairs] at hp
        rcases List.mem_append.1 hp with hp | hp
        · have := h p hp
          omega
        · obtain ⟨t, -, rfl⟩ := List.mem_map.1 hp
          exact Nat.lt_succ_self i
      rw [followAll_edges_cons, ih hbelow, hpairs, List.zipIdx_cons, List.flatMap_cons,
        List.append_assoc]
      rfl

/-- All edges, grouped by the drafts where they start. -/
theorem pairs_edgesOf :
    (edgesOf drafts withHeritage).pairs =
      drafts.zipIdx.flatMap fun p => (edgeTargets drafts withHeritage p).map (p.2, ·) := by
  unfold edgesOf
  rw [pairs_followAll (fun p hp => absurd hp List.not_mem_nil)]
  rfl

end Collecting

section Grouping

variable {α : Type}

/-- The second components that are paired with one position, when the pairs are
grouped by position. -/
theorem filter_fst_flatMap_zipIdx
    (f : α × Nat → List Nat)
    {as : List α} {a : α} {i j : Nat}
    (h : as[j]? = some a) :
    (((as.zipIdx i).flatMap fun p => (f p).map (p.2, ·)).filter (·.1 == i + j)).map (·.2) =
      f (a, i + j) := by
  have hgroup : ∀ (b : α) (k n : Nat), (((f (b, k)).map (k, ·)).filter (·.1 == n)).map (·.2) =
      if k = n then f (b, k) else [] := by
    intro b k n
    rw [List.filter_map, List.map_map]
    by_cases hk : k = n
    · rw [if_pos hk]
      simp [Function.comp_def, hk]
    · rw [if_neg hk]
      simp [Function.comp_def, hk]
  induction as generalizing i j with
  | nil => cases h
  | cons b as ih =>
      rw [List.zipIdx_cons, List.flatMap_cons, List.filter_append, List.map_append, hgroup]
      cases j with
      | zero =>
          cases h
          rw [if_pos (Nat.add_zero i).symm]
          have hlater : ((as.zipIdx (i + 1)).flatMap fun p => (f p).map (p.2, ·)).filter
              (·.1 == i + 0) = [] := by
            rw [List.filter_eq_nil_iff]
            intro q hq
            obtain ⟨p, hp, hqp⟩ := List.mem_flatMap.1 hq
            obtain ⟨t, -, rfl⟩ := List.mem_map.1 hqp
            have := List.le_snd_of_mem_zipIdx hp
            simp
            omega
          rw [hlater]
          simp
      | succ j =>
          rw [if_neg (by omega), List.nil_append]
          have hshift : i + (j + 1) = i + 1 + j := by omega
          rw [hshift]
          exact ih h

/-- The positions that are paired with one second component, when the pairs are
grouped by position and no group repeats one. -/
theorem filter_snd_flatMap
    {f : α × Nat → List Nat}
    (hf : ∀ p, (f p).Nodup)
    (ps : List (α × Nat)) (n : Nat) :
    ((ps.flatMap fun p => (f p).map (p.2, ·)).filter (·.2 == n)).map (·.1) =
      (ps.filter fun p => n ∈ f p).map (·.2) := by
  have hgroup : ∀ p : α × Nat, (((f p).map (p.2, ·)).filter (·.2 == n)).map (·.1) =
      if n ∈ f p then [p.2] else [] := by
    intro p
    rw [List.filter_map, List.map_map]
    show ((f p).filter (· == n)).map (fun _ => p.2) = _
    rw [List.filter_beq]
    by_cases h : n ∈ f p
    · rw [if_pos h, List.count_eq_one_of_mem (hf p) h]
      rfl
    · rw [if_neg h, List.count_eq_zero_of_not_mem h]
      rfl
  induction ps with
  | nil => rfl
  | cons p ps ih =>
      rw [List.flatMap_cons, List.filter_append, List.map_append, hgroup, ih, List.filter_cons]
      by_cases h : n ∈ f p
      · simp [h]
      · simp [h]

end Grouping

section Links

variable {drafts : List Draft} {withHeritage : Bool}

theorem linkAt?_eq_some_iff {k : Nat} {l : Link} :
    linkAt? drafts k = some l
      ↔
    ∃ name, (drafts.map (·.name))[k]? = some name ∧ l = ⟨.str name, .str name⟩ := by
  unfold linkAt?
  rw [Option.map_eq_some_iff, List.getElem?_map]
  constructor
  · rintro ⟨d, hd, rfl⟩
    exact ⟨d.name, by rw [hd]; rfl, rfl⟩
  · rintro ⟨name, hname, rfl⟩
    obtain ⟨d, hd, rfl⟩ := Option.map_eq_some_iff.1 hname
    exact ⟨d, hd, rfl⟩

/-- Drafts of different names have different links. -/
theorem linkAt?_inj
    (hnames : (drafts.map (·.name)).Nodup)
    (a b : Nat) (l : Link)
    (ha : linkAt? drafts a = some l)
    (hb : linkAt? drafts b = some l) :
    a = b := by
  obtain ⟨x, hx, rfl⟩ := linkAt?_eq_some_iff.1 ha
  obtain ⟨y, hy, hxy⟩ := linkAt?_eq_some_iff.1 hb
  injection hxy with hid
  cases hid
  exact (List.getElem?_inj (List.getElem?_eq_some_iff.1 hx).1 hnames).1 (hx.trans hy.symm)

/-- The link that stands for a name leads to the place of the name. -/
theorem positionOf?_bind_linkAt? (name : String) :
    (positionOf? drafts name).bind (linkAt? drafts) = linkTo? drafts name := by
  cases hpos : positionOf? drafts name with
  | none =>
      exact (linkTo?_eq_none_iff.2 (positionOf?_eq_none_iff.1 hpos)).symm
  | some k =>
      have hk := name_of_positionOf? hpos
      rw [linkTo?_eq_some_iff.2 ⟨List.mem_of_getElem? hk, rfl⟩]
      exact linkAt?_eq_some_iff.2 ⟨name, hk, rfl⟩

theorem linkedModels_eq_map :
    linkedModels drafts withHeritage =
      drafts.zipIdx.map fun p => linkDraft drafts (edgesOf drafts withHeritage) p.2 p.1 := by
  unfold linkedModels
  rw [List.mapIdx_eq_zipIdx_map]

theorem linkAt?_of_mem_zipIdx
    {p : Draft × Nat}
    (hp : p ∈ drafts.zipIdx) :
    linkAt? drafts p.2 = some ⟨.str p.1.name, .str p.1.name⟩ := by
  unfold linkAt?
  rw [List.mem_zipIdx_iff_getElem?.1 hp]
  rfl

/-- Edges lead to places of drafts. -/
theorem exists_of_mem_edgeTargets
    {p : Draft × Nat} {k : Nat}
    (h : k ∈ edgeTargets drafts withHeritage p) :
    ∃ d, (d, k) ∈ drafts.zipIdx := by
  obtain ⟨m, -, hpos⟩ := List.mem_filterMap.1 (Edges.mem_firstTargets.1 h).1
  have hk := name_of_positionOf? hpos
  rw [List.getElem?_map] at hk
  obtain ⟨d, hd, -⟩ := Option.map_eq_some_iff.1 hk
  exact ⟨d, List.mem_zipIdx_iff_getElem?.2 hd⟩

theorem dependencies_eq_filterMap
    {p : Draft × Nat}
    (hp : p ∈ drafts.zipIdx) :
    (linkDraft drafts (edgesOf drafts withHeritage) p.2 p.1).dependencies =
      (edgeTargets drafts withHeritage p).filterMap (linkAt? drafts) := by
  have htargets : (edgesOf drafts withHeritage).targets p.2 = edgeTargets drafts withHeritage p := by
    have hgroup := filter_fst_flatMap_zipIdx (edgeTargets drafts withHeritage) (i := 0)
      (List.mem_zipIdx_iff_getElem?.1 hp)
    rw [Nat.zero_add] at hgroup
    unfold Edges.targets
    rw [pairs_edgesOf]
    exact hgroup
  show ((edgesOf drafts withHeritage).targets p.2).filterMap _ = _
  rw [htargets]

theorem dependants_eq_map (p : Draft × Nat) :
    (linkDraft drafts (edgesOf drafts withHeritage) p.2 p.1).dependants =
      (drafts.zipIdx.filter fun q => p.2 ∈ edgeTargets drafts withHeritage q).map
        fun q => ⟨.str q.1.name, .str q.1.name⟩ := by
  have hsources : (edgesOf drafts withHeritage).sources p.2 =
      (drafts.zipIdx.filter fun q => p.2 ∈ edgeTargets drafts withHeritage q).map (·.2) := by
    unfold Edges.sources
    rw [pairs_edgesOf]
    exact filter_snd_flatMap (fun q => nodup_eraseDups _) _ _
  show ((edgesOf drafts withHeritage).sources p.2).filterMap _ = _
  rw [hsources, List.filterMap_map]
  refine List.filterMap_eq_map_iff_forall_eq_some.2 fun q hq => ?_
  exact linkAt?_of_mem_zipIdx (List.mem_filter.1 hq).1

/-- A model is among the dependencies of another when an edge leads to its place. -/
theorem link_mem_dependencies_iff
    (hnames : (drafts.map (·.name)).Nodup)
    {p q : Draft × Nat}
    (hp : p ∈ drafts.zipIdx)
    (hq : q ∈ drafts.zipIdx) :
    (⟨.str q.1.name, .str q.1.name⟩ : Link) ∈
        (linkDraft drafts (edgesOf drafts withHeritage) p.2 p.1).dependencies
      ↔
    q.2 ∈ edgeTargets drafts withHeritage p := by
  rw [dependencies_eq_filterMap hp, List.mem_filterMap]
  constructor
  · rintro ⟨k, hk, hlink⟩
    rwa [linkAt?_inj hnames q.2 k _ (linkAt?_of_mem_zipIdx hq) hlink]
  · intro hmem
    exact ⟨q.2, hmem, linkAt?_of_mem_zipIdx hq⟩

end Links

section Results

variable {drafts : List Draft} {withHeritage : Bool}

theorem exists_of_mem_linkedModels
    {m : Model}
    (hm : m ∈ linkedModels drafts withHeritage) :
    ∃ p ∈ drafts.zipIdx, m = linkDraft drafts (edgesOf drafts withHeritage) p.2 p.1 := by
  rw [linkedModels_eq_map] at hm
  obtain ⟨p, hp, rfl⟩ := List.mem_map.1 hm
  exact ⟨p, hp, rfl⟩

/-- The dependencies of a model are the models met on a walk over its types. -/
theorem dependencies_eq_met
    (hnames : (drafts.map (·.name)).Nodup)
    (hfresh : ∀ d ∈ drafts, d.Every fun s => ∀ l, s ≠ .model l)
    {m : Model}
    (hm : m ∈ linkedModels drafts withHeritage) :
    m.dependencies = ((m.met withHeritage).filter (· ≠ m.link)).eraseDups := by
  obtain ⟨p, hp, rfl⟩ := exists_of_mem_linkedModels hm
  have hd : p.1 ∈ drafts := List.fst_mem_of_mem_zipIdx hp
  have hmet : (targetsOf drafts withHeritage p.1).filterMap (linkAt? drafts) =
      (linkDraft drafts (edgesOf drafts withHeritage) p.2 p.1).met withHeritage := by
    rw [met_linkDraft (hfresh p.1 hd)]
    unfold targetsOf
    rw [List.filterMap_filterMap]
    exact List.filterMap_congr fun m _ => positionOf?_bind_linkAt? m.name
  rw [dependencies_eq_filterMap hp]
  unfold edgeTargets Edges.firstTargets
  rw [filterMap_eraseDups (linkAt?_inj hnames),
    filterMap_filter_ne (linkAt?_inj hnames) (linkAt?_of_mem_zipIdx hp), hmet]
  rfl

/-- The dependants of a model are the models whose dependencies it is among. -/
theorem dependants_eq_filter
    (hnames : (drafts.map (·.name)).Nodup)
    {m : Model}
    (hm : m ∈ linkedModels drafts withHeritage) :
    m.dependants =
      ((linkedModels drafts withHeritage).filter fun n => m.link ∈ n.dependencies).map Model.link := by
  obtain ⟨p, hp, rfl⟩ := exists_of_mem_linkedModels hm
  rw [dependants_eq_map, linkedModels_eq_map, List.filter_map, List.map_map]
  refine congrArg (List.map _) (List.filter_congr fun q hq => ?_)
  exact decide_eq_decide.2 (link_mem_dependencies_iff hnames hq hp).symm

/-- Pairs are counted by their second components. -/
theorem sum_length_filter_snd
    {ks : List Nat}
    (hks : ks.Nodup)
    {ps : List (Nat × Nat)}
    (h : ∀ p ∈ ps, p.2 ∈ ks) :
    (ks.map fun k => (ps.filter (·.2 == k)).length).sum = ps.length := by
  induction ps with
  | nil => simp
  | cons p ps ih =>
      obtain ⟨hp, hps⟩ := List.forall_mem_cons.1 h
      have hone : (ks.map fun k => if p.2 = k then 1 else 0).sum = 1 := by
        rw [List.sum_map_eq_nsmul_single p.2 _ fun k hk _ => if_neg (Ne.symm hk),
          List.count_eq_one_of_mem hks hp]
        simp
      have hcons : ∀ k, ((p :: ps).filter (·.2 == k)).length =
          (if p.2 = k then 1 else 0) + (ps.filter (·.2 == k)).length := by
        intro k
        rw [List.filter_cons]
        by_cases hk : p.2 = k
        · simp [hk, Nat.add_comm]
        · simp [hk]
      rw [funext hcons, List.sum_map_add, hone, ih hps, List.length_cons, Nat.add_comm]

theorem sum_length_dependencies :
    ((linkedModels drafts withHeritage).map (·.dependencies.length)).sum =
      (edgesOf drafts withHeritage).count := by
  unfold Edges.count
  rw [linkedModels_eq_map, List.map_map, pairs_edgesOf, List.length_flatMap]
  refine congrArg List.sum (List.map_congr_left fun p hp => ?_)
  show (linkDraft drafts (edgesOf drafts withHeritage) p.2 p.1).dependencies.length = _
  rw [dependencies_eq_filterMap hp, List.length_map, List.filterMap_length_eq_length]
  intro k hk
  obtain ⟨d, hd⟩ := exists_of_mem_edgeTargets hk
  rw [linkAt?_of_mem_zipIdx hd]
  rfl

theorem sum_length_dependants :
    ((linkedModels drafts withHeritage).map (·.dependants.length)).sum =
      (edgesOf drafts withHeritage).count := by
  have hks : (drafts.zipIdx.map (·.2)).Nodup := by
    rw [List.zipIdx_map_snd]
    exact List.nodup_range'
  have htargets : ∀ q ∈ (edgesOf drafts withHeritage).pairs, q.2 ∈ drafts.zipIdx.map (·.2) := by
    intro q hq
    rw [pairs_edgesOf] at hq
    obtain ⟨p, -, hqp⟩ := List.mem_flatMap.1 hq
    obtain ⟨k, hk, rfl⟩ := List.mem_map.1 hqp
    obtain ⟨d, hd⟩ := exists_of_mem_edgeTargets hk
    exact List.mem_map.2 ⟨(d, k), hd, rfl⟩
  have hsum := sum_length_filter_snd hks htargets
  unfold Edges.count
  rw [← hsum, linkedModels_eq_map, List.map_map, List.map_map]
  refine congrArg List.sum (List.map_congr_left fun p hp => ?_)
  show (linkDraft drafts (edgesOf drafts withHeritage) p.2 p.1).dependants.length =
    ((edgesOf drafts withHeritage).pairs.filter (·.2 == p.2)).length
  rw [dependants_eq_map, List.length_map, pairs_edgesOf]
  have hgroup := congrArg List.length
    (filter_snd_flatMap (f := edgeTargets drafts withHeritage) (fun q => nodup_eraseDups _)
      drafts.zipIdx p.2)
  rw [List.length_map, List.length_map] at hgroup
  exact hgroup.symm

/-- What a walk over mentions reports is missing names only. -/
theorem follow_reports_unresolved
    {model : String} {source : Nat} {counts : Bool} {es : Edges} {ms : List Mention}
    {e : Event}
    (he : e ∈ (follow drafts model source counts es ms).2) :
    ∃ name, e = .unresolved model name := by
  induction ms generalizing es with
  | nil => cases he
  | cons m ms ih =>
      unfold follow at he
      split at he
      · exact ih he
      · rename_i name hpos
        rcases List.mem_cons.1 he with rfl | hrest
        · exact ⟨name, rfl⟩
        · exact ih hrest
      · exact ih he

theorem followAll_reports_unresolved
    {i : Nat} {es : Edges} {ds : List Draft} {e : Event}
    (he : e ∈ (followAll drafts withHeritage i es ds).2) :
    ∃ model name, e = .unresolved model name := by
  induction ds generalizing i es with
  | nil => cases he
  | cons d ds ih =>
      rw [followAll] at he
      rcases List.mem_append.1 he with hd | hrest
      · rcases List.mem_append.1 hd with hown | hbases
        · exact ⟨d.name, follow_reports_unresolved hown⟩
        · exact ⟨d.name, follow_reports_unresolved hbases⟩
      · exact ih hrest

theorem links_linkedModels :
    (linkedModels drafts withHeritage).map Model.link =
      drafts.map fun d => ⟨.str d.name, .str d.name⟩ := by
  rw [linkedModels_eq_map, List.map_map]
  show drafts.zipIdx.map ((fun d : Draft => (⟨.str d.name, .str d.name⟩ : Link)) ∘ Prod.fst) = _
  rw [← List.map_map, List.zipIdx_map_fst]

/-- Edges lead to models. -/
theorem edges_subset_links
    {m : Model}
    (hm : m ∈ linkedModels drafts withHeritage) :
    ∀ l ∈ m.dependencies ++ m.dependants, l ∈ (linkedModels drafts withHeritage).map Model.link := by
  obtain ⟨p, hp, rfl⟩ := exists_of_mem_linkedModels hm
  rw [dependencies_eq_filterMap hp, dependants_eq_map, links_linkedModels]
  intro l hl
  rcases List.mem_append.1 hl with hl | hl
  · obtain ⟨k, hk, hlink⟩ := List.mem_filterMap.1 hl
    obtain ⟨d, hd⟩ := exists_of_mem_edgeTargets hk
    rw [linkAt?_of_mem_zipIdx hd] at hlink
    cases hlink
    exact List.mem_map.2 ⟨d, List.fst_mem_of_mem_zipIdx hd, rfl⟩
  · obtain ⟨q, hq, rfl⟩ := List.mem_map.1 hl
    exact List.mem_map.2 ⟨q.1, List.fst_mem_of_mem_zipIdx (List.mem_filter.1 hq).1, rfl⟩

theorem nodup_links_linkedModels
    (hnames : (drafts.map (·.name)).Nodup) :
    ((linkedModels drafts withHeritage).map Model.link).Nodup := by
  have hmap := hnames.map (f := fun name => (⟨.str name, .str name⟩ : Link))
    fun x y hxy => Json.str.inj (congrArg Link.name hxy)
  rw [List.map_map] at hmap
  rw [links_linkedModels]
  exact hmap

/-- Dependants mirror dependencies. -/
theorem link_mem_dependants_iff
    (hnames : (drafts.map (·.name)).Nodup)
    {a b : Model}
    (ha : a ∈ linkedModels drafts withHeritage)
    (hb : b ∈ linkedModels drafts withHeritage) :
    a.link ∈ b.dependants ↔ b.link ∈ a.dependencies := by
  rw [dependants_eq_filter hnames hb, List.mem_map]
  constructor
  · rintro ⟨n, hn, hlink⟩
    obtain ⟨hn, hdep⟩ := List.mem_filter.1 hn
    rw [← List.inj_on_of_nodup_map (nodup_links_linkedModels hnames) hn ha hlink]
    exact of_decide_eq_true hdep
  · intro hdep
    exact ⟨a, List.mem_filter.2 ⟨ha, decide_eq_true hdep⟩, rfl⟩

theorem nodup_dependants
    (hnames : (drafts.map (·.name)).Nodup)
    {m : Model}
    (hm : m ∈ linkedModels drafts withHeritage) :
    m.dependants.Nodup := by
  rw [dependants_eq_filter hnames hm]
  exact (nodup_links_linkedModels hnames).sublist (List.filter_sublist.map Model.link)

/-- Linking drafts of different names, none of whose types is linked yet, always ends
with models, whose edges are these:

* the dependencies of a model are the models met on a walk over its types, each at its
  first meeting and without the model itself, where the walk meets what the draft
  mentions by the names of drafts;
* the dependants of a model are the models, in order, that depend on it.

So both sides mirror each other, no model is on either of its own sides, and nothing is
there twice.  Linking reports missing names and then, once, how many models and edges
there are; the edges are counted by the dependencies and also by the dependants. -/
theorem link_edges
    {drafts : List Draft}
    (hnames : (drafts.map (·.name)).Nodup)
    (hfresh : ∀ d ∈ drafts, d.Every fun s => ∀ l, s ≠ .model l)
    (withHeritage : Bool) :
    ∃ models,
      (link drafts withHeritage).outcome = .ok models ∧
      List.Forall₂
        (fun m d => m.link = ⟨.str d.name, .str d.name⟩ ∧
          m.met withHeritage = (d.counted withHeritage).filterMap (linkTo? drafts ·.name))
        models drafts ∧
      (∀ m ∈ models,
        m.dependencies = ((m.met withHeritage).filter (· ≠ m.link)).eraseDups ∧
        m.dependants = (models.filter fun n => m.link ∈ n.dependencies).map Model.link) ∧
      (∀ a ∈ models, ∀ b ∈ models, b.link ∈ a.dependencies ↔ a.link ∈ b.dependants) ∧
      (∀ m ∈ models,
        m.link ∉ m.dependencies ∧ m.link ∉ m.dependants ∧
        m.dependencies.Nodup ∧ m.dependants.Nodup) ∧
      (∃ reports,
        (link drafts withHeritage).events =
          reports ++ [.linked models.length (models.map (·.dependencies.length)).sum] ∧
        ∀ e ∈ reports, ∃ model name, e = .unresolved model name) ∧
      (models.map (·.dependencies.length)).sum = (models.map (·.dependants.length)).sum := by
  have hself : ∀ m ∈ linkedModels drafts withHeritage, m.link ∉ m.dependencies := by
    intro m hm hmem
    rw [dependencies_eq_met hnames hfresh hm, List.mem_eraseDups, List.mem_filter] at hmem
    exact of_decide_eq_true hmem.2 rfl
  refine ⟨linkedModels drafts withHeritage, outcome_link, ?_, ?_, ?_, ?_, ?_, ?_⟩
  · refine forall₂_mapIdx fun i d hd => ⟨rfl, ?_⟩
    exact met_linkDraft (hfresh d hd) _ _ _
  · intro m hm
    exact ⟨dependencies_eq_met hnames hfresh hm, dependants_eq_filter hnames hm⟩
  · intro a ha b hb
    exact (link_mem_dependants_iff hnames ha hb).symm
  · intro m hm
    refine ⟨hself m hm, ?_, ?_, nodup_dependants hnames hm⟩
    · rw [link_mem_dependants_iff hnames hm hm]
      exact hself m hm
    · rw [dependencies_eq_met hnames hfresh hm]
      exact nodup_eraseDups _
  · refine ⟨(followAll drafts withHeritage 0 {} drafts).2, ?_, fun e he =>
      followAll_reports_unresolved he⟩
    rw [events_link, sum_length_dependencies, linkedModels, List.length_mapIdx]
  · rw [sum_length_dependencies, sum_length_dependants]

/-- Two drafts that refer to each other, the first one twice and also to itself. -/
def mutualDrafts : List Draft :=
  [{ name := "A", kind := .interfaceDecl
     schema := [⟨"b", .array (.pending "B"), false⟩, ⟨"a", .pending "A", true⟩,
       ⟨"c", .keyed (.pending "B") (.pending "C"), false⟩] },
    { name := "B", kind := .interfaceDecl
      typeParams := [⟨"T", some (.pending "A"), none⟩]
      heritage := [.generic "A" [.param "T"] none] }]

theorem link_edges_mutualDrafts :
    (mutualDrafts.map (·.name)).Nodup ∧
    (∀ d ∈ mutualDrafts, d.Every fun s => ∀ l, s ≠ .model l) ∧
    ∃ models,
      (link mutualDrafts true).outcome = .ok models ∧
      models.map (·.dependencies.length) = [1, 1] ∧
      (∀ m ∈ models,
        m.dependencies = ((m.met true).filter (· ≠ m.link)).eraseDups ∧
        m.dependants = (models.filter fun n => m.link ∈ n.dependencies).map Model.link) ∧
      (models.map (·.dependencies.length)).sum = (models.map (·.dependants.length)).sum := by
  have hnames : (mutualDrafts.map (·.name)).Nodup := by decide
  have hfresh : ∀ d ∈ mutualDrafts, d.Every fun s => ∀ l, s ≠ .model l := by
    simp [mutualDrafts, Draft.every_iff, TypeParam.types, TypeExpr.every_iff (t := .pending _),
      TypeExpr.every_iff (t := .array _), TypeExpr.every_iff (t := .keyed _ _),
      TypeExpr.every_iff (t := .generic _ _ _), TypeExpr.every_iff (t := .param _), TypeExpr.parts]
  obtain ⟨models, hok, -, hedges, -, -, -, hsum⟩ := link_edges hnames hfresh true
  refine ⟨hnames, hfresh, models, hok, ?_, hedges, hsum⟩
  cases hok
  decide

end Results

end DeclGraph
