import DeclGraph.Proofs.ArtifactRoundTrip

/-!
# Unlinked references

A graph can be written as an artifact exactly if no type in it still refers to a model by
name, and otherwise the first such reference is reported.

* `TypeExpr.occurrences` lists everything in a type, depth first, each type before its
  parts; `Graph.occurrences` does so for a graph, in the order of its output.  The writers
  of types, fields, type parameters and models each fail with the first reference by name
  in that list (`fault_toJson`).
* Linking keeps the parts of a type (`parts_link`), and nothing that has been linked is a
  reference by name.  So linked models can be written, whatever is linked to what.
-/

namespace DeclGraph

section Occurrences

variable {ν : Type}

mutual

/-- Everything in a type, depth first, each type before its parts. -/
def TypeExpr.occurrences : TypeExpr ν → List (TypeExpr ν)
  | .verbatim text references => .verbatim text references :: occurrencesAll references
  | .array element => .array element :: element.occurrences
  | .keyed key value => .keyed key value :: (key.occurrences ++ value.occurrences)
  | .generic name args target => .generic name args target :: occurrencesAll args
  | .function args result =>
    .function args result :: (occurrencesFields args ++ result.occurrences)
  | t => [t]

/-- Everything in several types. -/
def occurrencesAll : List (TypeExpr ν) → List (TypeExpr ν)
  | [] => []
  | t :: ts => t.occurrences ++ occurrencesAll ts

/-- Everything in the types of several entries. -/
def occurrencesFields : List (Field (TypeExpr ν) ν) → List (TypeExpr ν)
  | [] => []
  | ⟨_, t, _⟩ :: fs => t.occurrences ++ occurrencesFields fs

end

theorem occurrencesAll_eq_flatMap (ts : List (TypeExpr ν)) :
    occurrencesAll ts = ts.flatMap TypeExpr.occurrences := by
  induction ts with
  | nil => rfl
  | cons t ts ih => rw [occurrencesAll, ih, List.flatMap_cons]

theorem occurrencesFields_eq_flatMap (fs : List (Field (TypeExpr ν) ν)) :
    occurrencesFields fs = (fs.map (·.type)).flatMap TypeExpr.occurrences := by
  induction fs with
  | nil => rfl
  | cons f fs ih =>
      obtain ⟨name, t, optional⟩ := f
      rw [occurrencesFields, ih, List.map_cons, List.flatMap_cons]

/-- A type comes first, then everything in its parts. -/
theorem TypeExpr.occurrences_eq (t : TypeExpr ν) :
    t.occurrences = t :: t.parts.flatMap TypeExpr.occurrences := by
  cases t with
  | verbatim text references => rw [occurrences, occurrencesAll_eq_flatMap, parts]
  | array element => simp [occurrences, parts]
  | keyed key value => simp [occurrences, parts]
  | generic name args target => rw [occurrences, occurrencesAll_eq_flatMap, parts]
  | function args result => simp [occurrences, parts, occurrencesFields_eq_flatMap]
  | model target => rfl
  | pending name => rfl
  | param name => rfl

/-- Induction on type expressions by their parts. -/
@[elab_as_elim]
theorem TypeExpr.induct_parts
    {P : TypeExpr ν → Prop}
    (step : ∀ t : TypeExpr ν, (∀ p ∈ t.parts, P p) → P t)
    (t : TypeExpr ν) :
    P t := by
  induction t using TypeExpr.induct with
  | verbatim text references ih => exact step _ ih
  | array element ih => exact step _ (List.forall_mem_singleton.2 ih)
  | keyed key value ihk ihv => exact step _ (by simpa [parts] using ⟨ihk, ihv⟩)
  | generic name args target ih => exact step _ ih
  | function args result iha ihr =>
      refine step _ (List.forall_mem_append.2 ⟨?_, List.forall_mem_singleton.2 ihr⟩)
      exact List.forall_mem_map.2 iha
  | model target => exact step _ fun _ hp => absurd hp List.not_mem_nil
  | pending name => exact step _ fun _ hp => absurd hp List.not_mem_nil
  | param name => exact step _ fun _ hp => absurd hp List.not_mem_nil

/-- What is listed is what occurs somewhere in the type. -/
theorem TypeExpr.mem_occurrences_iff {s t : TypeExpr ν} : s ∈ t.occurrences ↔ s.Within t := by
  constructor
  · intro h
    induction t using TypeExpr.induct_parts with
    | step t ih =>
        rw [occurrences_eq] at h
        rcases List.mem_cons.1 h with rfl | h
        · exact .self _
        · obtain ⟨p, hp, hs⟩ := List.mem_flatMap.1 h
          exact .part hp (ih p hp hs)
  · intro h
    induction h with
    | self =>
        rw [occurrences_eq]
        exact List.mem_cons_self
    | part hp _ ih =>
        rw [occurrences_eq]
        exact List.mem_cons_of_mem _ (List.mem_flatMap.2 ⟨_, hp, ih⟩)

end Occurrences

section Writing

/-- The fault of a result that is none. -/
def faultOf? {α : Type} : Except ArtifactFault α → Option ArtifactFault
  | .ok _ => none
  | .error f => some f

/-- What is reported about a reference by name. -/
def TypeExpr.unlinked? : TypeExpr Points → Option ArtifactFault
  | .pending name => some (.unlinked name)
  | _ => none

/-- What is reported about the first reference by name in a list. -/
def firstUnlinked? (ts : List (TypeExpr Points)) : Option ArtifactFault :=
  ts.findSome? TypeExpr.unlinked?

@[simp]
theorem firstUnlinked?_append (ts us : List (TypeExpr Points)) :
    firstUnlinked? (ts ++ us) = (firstUnlinked? ts).or (firstUnlinked? us) :=
  List.findSome?_append

variable {α β : Type}

theorem faultOf?_eq_some_iff {x : Except ArtifactFault α} {f : ArtifactFault} :
    faultOf? x = some f ↔ x = .error f := by
  cases x <;> simp [faultOf?]

/-- A composition has the fault of its first part, or else that of the second one. -/
theorem faultOf?_bind
    {x : Except ArtifactFault α} {k : α → Except ArtifactFault β} {o : Option ArtifactFault}
    (hk : ∀ a, faultOf? (k a) = o) :
    faultOf? (x >>= k) = (faultOf? x).or o := by
  cases x with
  | ok a => exact hk a
  | error f => rfl

/-- Where what is made of a result never fails, the fault is that of the result. -/
theorem faultOf?_bind_pure (x : Except ArtifactFault α) (f : α → β) :
    faultOf? (x >>= fun a => pure (f a)) = faultOf? x := by
  rw [faultOf?_bind (o := none) fun a => rfl, Option.or_none]

/-- Writing things in turn fails with the first reference by name in any of them. -/
theorem faultOf?_readEach
    {write : α → Except ArtifactFault β} {occurrences : α → List (TypeExpr Points)} {as : List α}
    (h : ∀ a ∈ as, faultOf? (write a) = firstUnlinked? (occurrences a)) :
    faultOf? (readEach write as) = firstUnlinked? (as.flatMap occurrences) := by
  induction as with
  | nil => rfl
  | cons a as ih =>
      obtain ⟨ha, has⟩ := List.forall_mem_cons.1 h
      rw [readEach, List.flatMap_cons, firstUnlinked?_append, ← ha, ← ih has]
      exact faultOf?_bind fun b => faultOf?_bind_pure _ _

theorem fault_toJson_field
    {f : Field (TypeExpr Points) Points}
    (h : faultOf? f.type.toJson = firstUnlinked? f.type.occurrences) :
    faultOf? f.toJson = firstUnlinked? f.type.occurrences :=
  (faultOf?_bind_pure _ _).trans h

/-- Writing a type fails with the first reference by name in it. -/
theorem fault_toJson (t : TypeExpr Points) : faultOf? t.toJson = firstUnlinked? t.occurrences := by
  induction t using TypeExpr.induct with
  | verbatim text references ih =>
      rw [TypeExpr.toJson, toJsonAll_eq_readEach]
      refine (faultOf?_bind_pure _ _).trans ?_
      show _ = firstUnlinked? (occurrencesAll references)
      rw [faultOf?_readEach ih, occurrencesAll_eq_flatMap]
  | model target => rfl
  | pending name => rfl
  | param name => rfl
  | array element ih =>
      rw [TypeExpr.toJson]
      exact (faultOf?_bind_pure _ _).trans ih
  | keyed key value ihk ihv =>
      rw [TypeExpr.toJson]
      show _ = firstUnlinked? (key.occurrences ++ value.occurrences)
      rw [firstUnlinked?_append, ← ihk, ← ihv]
      exact faultOf?_bind fun _ => faultOf?_bind_pure _ _
  | generic name args target ih =>
      rw [TypeExpr.toJson, toJsonAll_eq_readEach]
      refine (faultOf?_bind_pure _ _).trans ?_
      show _ = firstUnlinked? (occurrencesAll args)
      rw [faultOf?_readEach ih, occurrencesAll_eq_flatMap]
  | function args result iha ihr =>
      rw [TypeExpr.toJson, toJsonFields_eq_readEach]
      show _ = firstUnlinked? (occurrencesFields args ++ result.occurrences)
      rw [firstUnlinked?_append, ← ihr, occurrencesFields_eq_flatMap, List.flatMap_map,
        ← faultOf?_readEach fun a ha => fault_toJson_field (iha a ha)]
      exact faultOf?_bind fun _ => faultOf?_bind_pure _ _

theorem fault_partToJson (key : String) (t : Option (TypeExpr Points)) :
    faultOf? (partToJson key t) = firstUnlinked? (t.toList.flatMap TypeExpr.occurrences) := by
  cases t with
  | none => rfl
  | some t =>
      rw [Option.toList_some, List.flatMap_singleton, ← fault_toJson t]
      exact faultOf?_bind_pure _ _

theorem fault_toJson_typeParam (p : TypeParam (TypeExpr Points) Points) :
    faultOf? p.toJson = firstUnlinked? (p.types.flatMap TypeExpr.occurrences) := by
  unfold TypeParam.types
  rw [List.flatMap_append, firstUnlinked?_append, ← fault_partToJson "constraint",
    ← fault_partToJson "default"]
  exact faultOf?_bind fun _ => faultOf?_bind_pure _ _

/-- The types of a model in the order of its output: bounds and defaults of the type
parameters, fields, base types. -/
def Model.outputTypes (m : Model Points) : List (TypeExpr Points) :=
  m.typeParams.flatMap TypeParam.types ++ m.schema.map (·.type) ++ m.heritage

/-- Everything in a graph in the order of its output. -/
def Graph.occurrences (g : Graph Points) : List (TypeExpr Points) :=
  g.models.flatMap fun m => m.outputTypes.flatMap TypeExpr.occurrences

theorem fault_toJson_model (m : Model Points) :
    faultOf? m.toJson = firstUnlinked? (m.outputTypes.flatMap TypeExpr.occurrences) := by
  have hparams : faultOf? (toJsonTypeParams m.typeParams) =
      firstUnlinked? ((m.typeParams.flatMap TypeParam.types).flatMap TypeExpr.occurrences) := by
    rw [toJsonTypeParams_eq_readEach, List.flatMap_assoc]
    exact faultOf?_readEach fun p _ => fault_toJson_typeParam p
  have hschema : faultOf? (toJsonFields m.schema) =
      firstUnlinked? ((m.schema.map (·.type)).flatMap TypeExpr.occurrences) := by
    rw [toJsonFields_eq_readEach, List.flatMap_map]
    exact faultOf?_readEach fun f _ => fault_toJson_field (fault_toJson f.type)
  have hheritage : faultOf? (toJsonAll m.heritage) =
      firstUnlinked? (m.heritage.flatMap TypeExpr.occurrences) := by
    rw [toJsonAll_eq_readEach]
    exact faultOf?_readEach fun t _ => fault_toJson t
  unfold Model.outputTypes
  rw [List.flatMap_append, List.flatMap_append, firstUnlinked?_append, firstUnlinked?_append,
    ← hparams, ← hschema, ← hheritage, Option.or_assoc]
  exact faultOf?_bind fun _ => faultOf?_bind fun _ => faultOf?_bind_pure _ _

/-- Writing a graph fails with the first reference by name in it. -/
theorem fault_toJson_graph (g : Graph Points) : faultOf? g.toJson = firstUnlinked? g.occurrences := by
  unfold Graph.occurrences
  rw [← faultOf?_readEach fun m _ => fault_toJson_model m, ← toJsonModels_eq_readEach]
  exact faultOf?_bind_pure _ _

end Writing

section Linking

variable {find : String → Option Link} {s t : TypeExpr}

/-- Linking links the parts. -/
theorem parts_link (find : String → Option Link) (t : TypeExpr) :
    (t.link find).parts = t.parts.map (TypeExpr.link find) := by
  cases t with
  | verbatim text references => exact linkAll_eq_map find references
  | generic name args target => exact linkAll_eq_map find args
  | function args result =>
      rw [TypeExpr.link, linkFields_eq_map]
      simp [TypeExpr.parts, Function.comp_def]
  | pending name =>
      rw [TypeExpr.link]
      cases find name <;> rfl
  | model target => rfl
  | param name => rfl
  | array element => rfl
  | keyed key value => rfl

theorem link_ne_pending (find : String → Option Link) (t : TypeExpr) (name : String) :
    t.link find ≠ .pending name := by
  cases t with
  | pending name' =>
      rw [TypeExpr.link]
      intro h
      cases hfind : find name' with
      | none =>
          rw [hfind] at h
          cases h
      | some target =>
          rw [hfind] at h
          cases h
  | _ =>
      intro h
      cases h

/-- Everything in a linked type has been linked. -/
theorem exists_link_of_within
    (h : s.Within (t.link find)) :
    ∃ r, s = TypeExpr.link find r := by
  generalize hu : t.link find = u at h
  induction h generalizing t with
  | self => exact ⟨t, hu.symm⟩
  | part hp _ ih =>
      rw [← hu, parts_link] at hp
      obtain ⟨q, -, rfl⟩ := List.mem_map.1 hp
      exact ih rfl

/-- Nothing in a linked model is a reference by name. -/
theorem not_pending_within_linkDraft
    {drafts : List Draft} {es : Edges} {i : Nat} {d : Draft} {name : String}
    (ht : t ∈ (linkDraft drafts es i d).types) :
    ¬ (TypeExpr.pending name).Within t := by
  intro hpending
  rw [types_linkDraft] at ht
  obtain ⟨u, -, rfl⟩ := List.mem_map.1 ht
  obtain ⟨r, hr⟩ := exists_link_of_within hpending
  exact link_ne_pending _ r name hr.symm

end Linking

section Reports

variable {g : Graph Points} {t : TypeExpr Points} {f : ArtifactFault}

theorem TypeExpr.unlinked?_eq_some_iff :
    t.unlinked? = some f ↔ ∃ name, t = .pending name ∧ f = .unlinked name := by
  cases t <;> simp [unlinked?, eq_comm]

theorem TypeExpr.unlinked?_eq_none_iff : t.unlinked? = none ↔ ∀ name, t ≠ .pending name := by
  cases t <;> simp [unlinked?]

theorem mem_outputTypes_iff {m : Model Points} : t ∈ m.outputTypes ↔ t ∈ m.types := by
  unfold Model.outputTypes Model.types
  simp only [List.mem_append]
  rw [or_comm (a := t ∈ m.typeParams.flatMap TypeParam.types)]

theorem Graph.mem_occurrences_iff :
    t ∈ g.occurrences ↔ ∃ m ∈ g.models, ∃ u ∈ m.types, t.Within u := by
  unfold Graph.occurrences
  simp only [List.mem_flatMap, mem_outputTypes_iff, TypeExpr.mem_occurrences_iff]

/-- The fault is about the first reference by name. -/
theorem toJson_eq_error_iff :
    g.toJson = .error f
      ↔
    ∃ before name after, g.occurrences = before ++ .pending name :: after ∧
      (∀ t ∈ before, ∀ other, t ≠ .pending other) ∧ f = .unlinked name := by
  rw [← faultOf?_eq_some_iff, fault_toJson_graph, firstUnlinked?, List.findSome?_eq_some_iff]
  simp only [TypeExpr.unlinked?_eq_some_iff, TypeExpr.unlinked?_eq_none_iff]
  constructor
  · rintro ⟨before, t, after, hsplit, ⟨name, rfl, rfl⟩, hbefore⟩
    exact ⟨before, name, after, hsplit, hbefore, rfl⟩
  · rintro ⟨before, name, after, hsplit, hbefore, rfl⟩
    exact ⟨before, _, after, hsplit, ⟨name, rfl, rfl⟩, hbefore⟩

/-- There is a fault if there is a reference by name at all. -/
theorem exists_toJson_eq_error_iff :
    (∃ f, g.toJson = .error f) ↔ ∃ name, TypeExpr.pending name ∈ g.occurrences := by
  have hsome : (∃ f, g.toJson = .error f) ↔ (firstUnlinked? g.occurrences).isSome := by
    rw [← fault_toJson_graph, Option.isSome_iff_exists]
    simp only [faultOf?_eq_some_iff]
  rw [hsome, firstUnlinked?, List.findSome?_isSome_iff]
  simp only [Option.isSome_iff_exists, TypeExpr.unlinked?_eq_some_iff]
  constructor
  · rintro ⟨t, ht, f, name, rfl, -⟩
    exact ⟨name, ht⟩
  · rintro ⟨name, hname⟩
    exact ⟨_, hname, _, name, rfl, rfl⟩

theorem Graph.mem_pending_iff :
    (∃ name, TypeExpr.pending name ∈ g.occurrences)
      ↔
    ∃ m ∈ g.models, ∃ t ∈ m.types, ∃ name, (TypeExpr.pending name).Within t := by
  simp only [Graph.mem_occurrences_iff]
  constructor
  · rintro ⟨name, m, hm, t, ht, hname⟩
    exact ⟨m, hm, t, ht, name, hname⟩
  · rintro ⟨m, hm, t, ht, name, hname⟩
    exact ⟨name, m, hm, t, ht, hname⟩

/-- A graph without references by name can be written. -/
theorem exists_toJson_of_not_pending
    (h : ∀ m ∈ g.models, ∀ t ∈ m.types, ∀ name, ¬ (TypeExpr.pending name).Within t) :
    ∃ j, g.toJson = .ok j := by
  cases hj : g.toJson with
  | ok j => exact ⟨j, rfl⟩
  | error f =>
      obtain ⟨m, hm, t, ht, name, hname⟩ :=
        Graph.mem_pending_iff.1 (exists_toJson_eq_error_iff.1 ⟨f, hj⟩)
      exact absurd hname (h m hm t ht name)

/-- Linked models can be written. -/
theorem exists_toJson_linkedModels (drafts : List Draft) (withHeritage : Bool) :
    ∃ j, (Graph.spelled ⟨linkedModels drafts withHeritage⟩).toJson = .ok j := by
  refine exists_toJson_of_not_pending (List.forall_mem_map.2 fun m hm t ht name hname => ?_)
  rw [Model.types_map] at ht
  obtain ⟨u, hu, rfl⟩ := List.mem_map.1 ht
  obtain ⟨r, hr, heq⟩ := TypeExpr.exists_of_within_map hname
  obtain ⟨p, -, rfl⟩ := exists_of_mem_linkedModels hm
  cases r with
  | pending other => exact not_pending_within_linkDraft hu hr
  | _ => cases heq

/-- A graph cannot be written exactly if a reference by name occurs in it, and linked models
can always be written.

* Writing fails exactly if a reference by name occurs, at any depth, in a type parameter, a
  field or a base type of some model.
* The fault is about the first of them in the order of output: model after model, in each
  the type parameters, then the fields, then the base types, and each type depth first.
* Linking leaves none, whatever the drafts are called and refer to, and whether or not base
  types count.  The linked models are those of the drafts, one for each and in order, with
  the types of the drafts, linked. -/
theorem unlinked_reference_reported :
    (∀ g : Graph Points,
      ((∃ f, g.toJson = .error f) ↔
        ∃ m ∈ g.models, ∃ t ∈ m.types, ∃ name, (TypeExpr.pending name).Within t) ∧
      ∀ f, g.toJson = .error f ↔
        ∃ before name after, g.occurrences = before ++ .pending name :: after ∧
          (∀ t ∈ before, ∀ other, t ≠ .pending other) ∧ f = .unlinked name) ∧
    (∀ (drafts : List Draft) (withHeritage : Bool), ∃ models j,
      (link drafts withHeritage).outcome = .ok models ∧
      List.Forall₂ (fun m d => m.link = ⟨.str d.name, .str d.name⟩ ∧
        m.types = d.types.map (TypeExpr.link (linkTo? drafts))) models drafts ∧
      (Graph.spelled ⟨models⟩).toJson = .ok j) := by
  refine ⟨fun g => ⟨?_, fun f => toJson_eq_error_iff⟩, fun drafts withHeritage => ?_⟩
  · rw [exists_toJson_eq_error_iff, Graph.mem_pending_iff]
  · obtain ⟨j, hj⟩ := exists_toJson_linkedModels drafts withHeritage
    refine ⟨linkedModels drafts withHeritage, j, rfl, forall₂_mapIdx fun i d hd => ?_, hj⟩
    exact ⟨rfl, types_linkDraft drafts _ i d⟩

/-- A union of a linked and an unlinked model. -/
def halfLinkedUnion : TypeExpr :=
  .verbatim "A | B" [.model ⟨.str "A", .str "A"⟩, .pending "B"]

/-- A model that refers by name to `B` inside a parameter of a signature, to `C` in its
result, and to a base type. -/
def halfLinkedDraft : Draft :=
  { name := "M", kind := .interfaceDecl, heritage := [.pending "Base"]
    schema :=
      [⟨"f", .function [⟨"x", .generic "Box" [halfLinkedUnion] none, false⟩] (.pending "C"), false⟩] }

theorem unlinked_reference_reported_halfLinked :
    (Graph.spelled ⟨[.ofDraft halfLinkedDraft]⟩).toJson = .error (.unlinked "B") ∧
    ∃ models j, (link [halfLinkedDraft, halfLinkedDraft] false).outcome = .ok models ∧
      models.map (·.name) = [.str "M", .str "M"] ∧ (Graph.spelled ⟨models⟩).toJson = .ok j := by
  obtain ⟨hreport, hlink⟩ := unlinked_reference_reported
  have hsplit : (Graph.spelled ⟨[.ofDraft halfLinkedDraft]⟩).occurrences =
      [TypeExpr.function [⟨"x", .generic "Box" [halfLinkedUnion] none, false⟩] (.pending "C"),
        .generic "Box" [halfLinkedUnion] none, halfLinkedUnion,
        .model ⟨.str "A", .str "A"⟩].map (·.map Points.plain) ++
      .pending "B" :: [.pending "C", .pending "Base"] := rfl
  refine ⟨((hreport _).2 _).2 ⟨_, "B", _, hsplit, ?_, rfl⟩, ?_⟩
  · simp [halfLinkedUnion, TypeExpr.map]
  · obtain ⟨models, j, hmodels, hdrafts, hj⟩ := hlink [halfLinkedDraft, halfLinkedDraft] false
    cases hmodels
    exact ⟨_, j, rfl, rfl, hj⟩

end Reports

end DeclGraph
