import DeclGraph.Proofs.EdgeDiscovery
import DeclGraph.Proofs.JsonText

/-!
# The texts of graphs

Two conditions make a graph fit for an artifact.

* It is `Graph.Storable`: identifiers are texts and differ, names are texts, no reference
  is left by name, and links and edges lead to models of the graph.
* Its texts are settled (`Graph.Settled`): no high surrogate stands right before a low one.

A graph of ordinary texts that is storable is storable with its texts as code points, and
these are settled.
-/

namespace DeclGraph

namespace TypeExpr

variable {ν μ : Type} {f : ν → μ}

section Texts

theorem mapTypes_eq_map (f : ν → μ) (ts : List (TypeExpr ν)) : mapTypes f ts = ts.map (·.map f) := by
  induction ts with
  | nil => rfl
  | cons t ts ih => rw [mapTypes, ih, List.map_cons]

theorem mapFields_eq_map (f : ν → μ) (fs : List (Field (TypeExpr ν) ν)) :
    mapFields f fs = fs.map fun e => ⟨f e.name, e.type.map f, e.optional⟩ := by
  induction fs with
  | nil => rfl
  | cons e fs ih => rw [mapFields, ih, List.map_cons]

theorem parts_map (t : TypeExpr ν) : (t.map f).parts = t.parts.map (·.map f) := by
  cases t with
  | verbatim text references => exact mapTypes_eq_map f references
  | generic name args target => exact mapTypes_eq_map f args
  | function args result =>
      simp only [map, parts, mapFields_eq_map, List.map_append, List.map_map, List.map_cons,
        List.map_nil]
      rfl
  | _ => rfl

/-- What occurs in a type with changed texts. -/
theorem exists_of_within_map
    {s : TypeExpr μ} {t : TypeExpr ν}
    (h : s.Within (t.map f)) :
    ∃ r : TypeExpr ν, r.Within t ∧ s = r.map f := by
  generalize hu : t.map f = u at h
  induction h generalizing t with
  | self => exact ⟨t, .self t, hu.symm⟩
  | part hp _ ih =>
      rw [← hu, parts_map] at hp
      obtain ⟨q, hq, rfl⟩ := List.mem_map.1 hp
      obtain ⟨r, hr, heq⟩ := ih rfl
      exact ⟨r, .part hq hr, heq⟩

theorem every_map
    {P : TypeExpr μ → Prop} {t : TypeExpr ν}
    (h : t.Every fun s => P (s.map f)) :
    (t.map f).Every P := by
  intro s hs
  obtain ⟨r, hr, rfl⟩ := exists_of_within_map hs
  exact h r hr

end Texts

section Links

/-- What holds at every depth of a type that can be stored: no reference is left by
name, and links lead to the given models. -/
def LinksTo (links : List (Link ν)) : TypeExpr ν → Prop
  | .pending _ => False
  | .model target => target ∈ links
  | .generic _ _ target => ∀ l ∈ target, l ∈ links
  | _ => True

theorem LinksTo.map
    {links : List (Link ν)} {t : TypeExpr ν}
    (h : t.LinksTo links)
    (f : ν → μ) :
    (t.map f).LinksTo (links.map (·.map f)) := by
  cases t with
  | pending name => exact h
  | model target => exact List.mem_map_of_mem h
  | generic name args target =>
      intro l hl
      obtain ⟨k, hk, rfl⟩ := Option.map_eq_some_iff.1 hl
      exact List.mem_map_of_mem (h k hk)
  | _ => trivial

end Links

section Settled

/-- What holds at every depth of a type with settled texts: its own texts are. -/
def Settled : TypeExpr Points → Prop
  | .verbatim text _ => text.Settled
  | .pending name => name.Settled
  | .param name => name.Settled
  | .generic name _ _ => name.Settled
  | .function args _ => ∀ a ∈ args, a.name.Settled
  | _ => True

theorem settled_map_plain (t : TypeExpr) : (t.map Points.plain).Settled := by
  cases t with
  | function args result =>
      show ∀ a ∈ mapFields Points.plain args, a.name.Settled
      rw [mapFields_eq_map]
      exact List.forall_mem_map.2 fun a _ => Points.settled_plain a.name
  | verbatim text references => exact Points.settled_plain text
  | pending name => exact Points.settled_plain name
  | param name => exact Points.settled_plain name
  | generic name args target => exact Points.settled_plain name
  | _ => trivial

end Settled

end TypeExpr

section Models

variable {ν μ : Type} {f : ν → μ}

theorem TypeParam.types_map (p : TypeParam (TypeExpr ν) ν) :
    (p.map f).types = p.types.map (·.map f) := by
  obtain ⟨name, bound, default⟩ := p
  cases bound <;> cases default <;> rfl

/-- The types of a model with changed texts. -/
theorem Model.types_map (m : Model ν) : (m.map f).types = m.types.map (·.map f) := by
  unfold Model.types Model.map
  simp only [TypeExpr.mapFields_eq_map, TypeExpr.mapTypes_eq_map, List.map_append, List.map_map,
    List.map_flatMap, List.flatMap_map, TypeParam.types_map]
  rfl

theorem Model.every_map
    {P : TypeExpr μ → Prop} {m : Model ν}
    (h : m.Every fun s => P (s.map f)) :
    (m.map f).Every P := by
  unfold Model.Every
  rw [Model.types_map]
  exact List.forall_mem_map.2 fun t ht => TypeExpr.every_map (h t ht)

/-- The identifiers of models are texts, and differ. -/
structure Identified (ms : List (Model ν)) : Prop where
  text : ∀ m ∈ ms, ∃ s, m.id = .str s
  nodup : (ms.map (·.id)).Nodup

theorem Identified.map
    {ms : List (Model ν)}
    (h : Identified ms)
    (hf : f.Injective) :
    Identified (ms.map (·.map f)) := by
  refine ⟨List.forall_mem_map.2 fun m hm => ?_, ?_⟩
  · obtain ⟨s, hs⟩ := h.text m hm
    exact ⟨f s, congrArg (Json.map f) hs⟩
  · have hids : (ms.map (·.map f)).map (·.id) = (ms.map (·.id)).map (Json.map f) := by
      rw [List.map_map, List.map_map]
      rfl
    rw [hids]
    refine h.nodup.map_on fun x hx y hy heq => ?_
    obtain ⟨m, hm, rfl⟩ := List.mem_map.1 hx
    obtain ⟨n, hn, rfl⟩ := List.mem_map.1 hy
    obtain ⟨s, hs⟩ := h.text m hm
    obtain ⟨t, ht⟩ := h.text n hn
    rw [hs, ht] at heq ⊢
    exact congrArg Json.str (hf (Json.str.inj heq))

/-- A graph that can be stored: identifiers are texts and differ, names are texts, no
reference is left by name, and links and edges lead to models of the graph. -/
structure Graph.Storable (g : Graph ν) : Prop where
  identified : Identified g.models
  names_text : ∀ m ∈ g.models, ∃ s, m.name = .str s
  types_linked : ∀ m ∈ g.models, m.Every (TypeExpr.LinksTo (g.models.map Model.link))
  edges_linked : ∀ m ∈ g.models, ∀ l ∈ m.dependencies ++ m.dependants,
    l ∈ g.models.map Model.link

theorem Graph.Storable.map
    {g : Graph ν}
    (h : g.Storable)
    (hf : f.Injective) :
    (g.map f).Storable := by
  have hlinks : (g.map f).models.map Model.link = (g.models.map Model.link).map (·.map f) := by
    show (g.models.map (·.map f)).map Model.link = _
    rw [List.map_map, List.map_map]
    rfl
  refine ⟨h.identified.map hf, List.forall_mem_map.2 fun m hm => ?_,
    List.forall_mem_map.2 fun m hm => ?_, List.forall_mem_map.2 fun m hm => ?_⟩
  · obtain ⟨s, hs⟩ := h.names_text m hm
    exact ⟨f s, congrArg (Json.map f) hs⟩
  · rw [hlinks]
    refine Model.every_map fun t ht => (h.types_linked m hm t ht).mono fun s hs => ?_
    exact hs.map f
  · have hedges : (m.map f).dependencies ++ (m.map f).dependants =
        (m.dependencies ++ m.dependants).map (·.map f) :=
      List.map_append.symm
    rw [hlinks, hedges]
    exact List.forall_mem_map.2 fun l hl => List.mem_map_of_mem (h.edges_linked m hm l hl)

/-- The texts of a model are settled. -/
structure Model.Settled (m : Model Points) : Prop where
  id : m.id.Settled
  name : m.name.Settled
  types : m.Every TypeExpr.Settled
  fields : ∀ f ∈ m.schema, f.name.Settled
  params : ∀ p ∈ m.typeParams, p.name.Settled

/-- The texts of a graph are settled. -/
def Graph.Settled (g : Graph Points) : Prop :=
  ∀ m ∈ g.models, m.Settled

/-- A graph of ordinary texts that can be stored can be stored as code points. -/
theorem Graph.Storable.spelled
    {g : Graph}
    (h : g.Storable) :
    g.spelled.Storable ∧ g.spelled.Settled := by
  have hinjective : Function.Injective Points.plain := fun s t heq => Points.plain.inj heq
  refine ⟨h.map hinjective, List.forall_mem_map.2 fun m hm => ?_⟩
  obtain ⟨i, hi⟩ := h.identified.text m hm
  obtain ⟨s, hs⟩ := h.names_text m hm
  refine ⟨?_, ?_, ?_, ?_, ?_⟩
  · show (m.id.map Points.plain).Settled
    rw [hi]
    exact .str (Points.settled_plain i)
  · show (m.name.map Points.plain).Settled
    rw [hs]
    exact .str (Points.settled_plain s)
  · exact Model.every_map fun t ht s hs => TypeExpr.settled_map_plain s
  · show ∀ e ∈ mapFields Points.plain m.schema, e.name.Settled
    rw [TypeExpr.mapFields_eq_map]
    exact List.forall_mem_map.2 fun e _ => Points.settled_plain e.name
  · exact List.forall_mem_map.2 fun p _ => Points.settled_plain p.name

end Models

end DeclGraph
