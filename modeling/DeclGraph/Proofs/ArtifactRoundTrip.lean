import DeclGraph.Artifact.Checks
import DeclGraph.Proofs.GraphTexts

/-!
# Artifacts read back

A graph that can be stored is written as an artifact and read back from its text, in
every layout, as the same graph with read-only models.  Every extracted graph can be
stored.  Of the checks of names and flags this takes no more than that they keep texts
and truth values (`Checks.Keeping`).

* `Stored` says of one writer and one reader that a thing is written as a JSON value
  and read back from it.  It is shown for types, fields and type parameters.
* A model is restored in two steps.  The headings of all models are entered first,
  and since identifiers differ they are entered in order; then each content goes to
  the model it came from.
-/

namespace DeclGraph

section Each

variable {α β : Type} {f : α → Except ArtifactFault β}

theorem readEach_eq_ok_iff {as : List α} {bs : List β} :
    readEach f as = .ok bs ↔ List.Forall₂ (fun a b => f a = .ok b) as bs := by
  induction as generalizing bs with
  | nil =>
      rw [List.forall₂_nil_left_iff]
      constructor
      · intro h
        cases h
        rfl
      · rintro rfl
        rfl
  | cons a as ih =>
      rw [readEach]
      simp only [except_bind_eq_ok_iff, ih, List.forall₂_cons_left_iff]
      constructor
      · rintro ⟨b, hb, bs', hbs', heq⟩
        cases heq
        exact ⟨b, bs', hb, hbs', rfl⟩
      · rintro ⟨b, bs', hb, hbs', rfl⟩
        exact ⟨b, hb, bs', hbs', rfl⟩

theorem toJsonAll_eq_readEach (ts : List (TypeExpr Points)) :
    toJsonAll ts = readEach TypeExpr.toJson ts := by
  induction ts with
  | nil => rfl
  | cons t ts ih => rw [toJsonAll, readEach, ih]

/-- One field as JSON. -/
def Field.toJson (f : Field (TypeExpr Points) Points) : Except ArtifactFault (Json Points) := do
  let j ← f.type.toJson
  return .obj ([entry "name" (.str f.name), entry "type" j] ++
    if f.optional then [entry "optional" (.bool true)] else [])

theorem toJsonFields_eq_readEach (fs : List (Field (TypeExpr Points) Points)) :
    toJsonFields fs = readEach Field.toJson fs := by
  induction fs with
  | nil => rfl
  | cons f fs ih =>
      rw [toJsonFields, readEach, ih]
      unfold Field.toJson
      cases f.type.toJson with
      | error e => rfl
      | ok j => rfl

theorem toJsonTypeParams_eq_readEach (ps : List (TypeParam (TypeExpr Points) Points)) :
    toJsonTypeParams ps = readEach TypeParam.toJson ps := by
  induction ps with
  | nil => rfl
  | cons p ps ih => rw [toJsonTypeParams, readEach, ih]

theorem toJsonModels_eq_readEach (ms : List (Model Points)) :
    toJsonModels ms = readEach Model.toJson ms := by
  induction ms with
  | nil => rfl
  | cons m ms ih => rw [toJsonModels, readEach, ih]

end Each

section Checks

/-- The checks keep texts that stand for names, and truth values that stand for flags. -/
structure Checks.Keeping (checks : Checks) : Prop where
  name_str : ∀ s, checks.name (.str s) = .ok s
  flag_bool : ∀ b, checks.flag (.bool b) = .ok b

theorem keeping_standard : Checks.standard.Keeping :=
  ⟨fun _ => rfl, fun _ => rfl⟩

end Checks

section Stored

variable {α : Type}

/-- A thing is written as a JSON value, and read back from it by a reader that may go
deep enough. -/
structure Stored
    (toJson : α → Except ArtifactFault (Json Points))
    (read : Nat → Json Points → Except ArtifactFault α)
    (a : α) (j : Json Points) : Prop where
  written : toJson a = .ok j
  plain : j.Plain
  restored : ∀ fuel, j.depth < fuel → read fuel j = .ok a

variable
  {toJson : α → Except ArtifactFault (Json Points)}
  {read : Nat → Json Points → Except ArtifactFault α}
  {as : List α}

variable {js : List (Json Points)}

theorem Stored.written_all
    (h : List.Forall₂ (Stored toJson read) as js) :
    readEach toJson as = .ok js :=
  readEach_eq_ok_iff.2 (h.imp fun _ _ hj => hj.written)

theorem Stored.plain_all
    (h : List.Forall₂ (Stored toJson read) as js) :
    (Json.arr js).Plain :=
  .arr (forall_mem_of_forall₂ h fun _ _ _ hj => hj.plain)

theorem Stored.restored_all
    (h : List.Forall₂ (Stored toJson read) as js)
    {fuel : Nat}
    (hfuel : ∀ j ∈ js, j.depth < fuel) :
    readEach (read fuel) js = .ok as := by
  rw [readEach_eq_ok_iff]
  induction h with
  | nil => exact .nil
  | cons hj hjs ih =>
      obtain ⟨hlt, hlts⟩ := List.forall_mem_cons.1 hfuel
      exact .cons (hj.restored fuel hlt) (ih hlts)

end Stored

section Types

variable
  {checks : Checks} {links : List (Link Points)} {headings : List (Model Points)}

/-- A field is stored if its type is. -/
theorem stored_field
    (hkeep : checks.Keeping)
    {f : Field (TypeExpr Points) Points} {j : Json Points}
    (hname : f.name.Settled)
    (h : Stored TypeExpr.toJson (readType checks headings) f.type j) :
    ∃ k, Stored Field.toJson (readField checks headings) f k := by
  obtain ⟨name, t, optional⟩ := f
  refine ⟨.obj ([entry "name" (.str name), entry "type" j] ++
    if optional then [entry "optional" (.bool true)] else []), ?_, ?_, ?_⟩
  · unfold Field.toJson
    rw [h.written]
    rfl
  · cases optional with
    | false => simp [Json.plain_obj_iff, hname, h.plain]
    | true => simp [Json.plain_obj_iff, hname, h.plain]
  · intro fuel hfuel
    have hread := h.restored fuel
      (Nat.lt_trans (Json.depth_lt_obj (e := entry "type" j) (by simp)) hfuel)
    cases optional with
    | false =>
        show (readType checks headings fuel j >>= fun t => checks.name (.str name) >>= fun name =>
          checks.flag (.bool false) >>= fun flag => pure (Field.mk name t flag)) = _
        rw [hread, hkeep.name_str, hkeep.flag_bool]
        rfl
    | true =>
        show (readType checks headings fuel j >>= fun t => checks.name (.str name) >>= fun name =>
          checks.flag (.bool true) >>= fun flag => pure (Field.mk name t flag)) = _
        rw [hread, hkeep.name_str, hkeep.flag_bool]
        rfl

/-- Links to the given models are found through their headings. -/
def Finds (headings : List (Model Points)) (links : List (Link Points)) : Prop :=
  ∀ l ∈ links, l.id.Plain ∧ lookup headings l.id = .ok l

/-- A reader of types goes one level deep at a time. -/
theorem stored_type
    {t : TypeExpr Points} {j : Json Points}
    (hwritten : t.toJson = .ok j)
    (hplain : j.Plain)
    (hrestored : ∀ fuel, j.depth ≤ fuel → readType checks headings (fuel + 1) j = .ok t) :
    Stored TypeExpr.toJson (readType checks headings) t j := by
  refine ⟨hwritten, hplain, fun fuel hfuel => ?_⟩
  obtain ⟨f, rfl⟩ : ∃ f, fuel = f + 1 := ⟨fuel - 1, by omega⟩
  exact hrestored f (Nat.le_of_lt_succ hfuel)

theorem depth_lt_of_entry
    {entries : List (Points × Json Points)} {fuel : Nat}
    (hfuel : (Json.obj entries).depth ≤ fuel)
    (key : String) {j : Json Points}
    (hentry : entry key j ∈ entries) :
    j.depth < fuel :=
  Nat.lt_of_lt_of_le (Json.depth_lt_obj hentry) hfuel

theorem depth_lt_of_item
    {entries : List (Points × Json Points)} {fuel : Nat}
    (hfuel : (Json.obj entries).depth ≤ fuel)
    (key : String) {js : List (Json Points)}
    (hentry : entry key (.arr js) ∈ entries) :
    ∀ j ∈ js, j.depth < fuel :=
  fun _ hj => Nat.lt_trans (Json.depth_lt_arr hj) (depth_lt_of_entry hfuel key hentry)

/-- A verbatim type is stored with its references, and without the key for them if it
has none. -/
theorem exists_stored_verbatim
    (hkeep : checks.Keeping)
    {references : List (TypeExpr Points)} {js : List (Json Points)}
    (hjs : List.Forall₂ (Stored TypeExpr.toJson (readType checks headings)) references js)
    {text : Points}
    (htext : text.Settled) :
    ∃ j, Stored TypeExpr.toJson (readType checks headings) (.verbatim text references) j := by
  have hwritten := Stored.written_all hjs
  have hplain := Stored.plain_all hjs
  cases js with
  | nil =>
      cases hjs
      refine ⟨.obj [entry "kind" (.str "primitive"), entry "name" (.str text)],
        stored_type rfl ?_ ?_⟩
      · simp [Json.plain_obj_iff, htext]
      · intro fuel hfuel
        show (checks.name (.str text) >>= fun text => pure (TypeExpr.verbatim text [])) = _
        rw [hkeep.name_str]
        rfl
  | cons j js =>
      refine ⟨.obj [entry "kind" (.str "primitive"), entry "name" (.str text),
        entry "references" (.arr (j :: js))], stored_type ?_ ?_ ?_⟩
      · rw [TypeExpr.toJson, toJsonAll_eq_readEach, hwritten]
        rfl
      · simp [Json.plain_obj_iff, htext, hplain]
      · intro fuel hfuel
        have hread := Stored.restored_all hjs (depth_lt_of_item hfuel "references" (by simp))
        show (readEach (readType checks headings fuel) (j :: js) >>= fun references =>
          checks.name (.str text) >>= fun text => pure (TypeExpr.verbatim text references)) = _
        rw [hread, hkeep.name_str]
        rfl

/-- A generic reference is stored with the model it leads to, if it leads to one. -/
theorem exists_stored_generic
    (hkeep : checks.Keeping)
    {args : List (TypeExpr Points)} {js : List (Json Points)} {target : Option (Link Points)}
    (hjs : List.Forall₂ (Stored TypeExpr.toJson (readType checks headings)) args js)
    (htarget : ∀ l ∈ target, l.id.Plain ∧ lookup headings l.id = .ok l)
    {name : Points}
    (hname : name.Settled) :
    ∃ j, Stored TypeExpr.toJson (readType checks headings) (.generic name args target) j := by
  have hwritten := Stored.written_all hjs
  have hplain := Stored.plain_all hjs
  cases target with
  | none =>
      refine ⟨.obj [entry "kind" (.str "generic"), entry "referenceName" (.str name),
        entry "arguments" (.arr js)], stored_type ?_ ?_ ?_⟩
      · rw [TypeExpr.toJson, toJsonAll_eq_readEach, hwritten]
        rfl
      · simp [Json.plain_obj_iff, hname, hplain]
      · intro fuel hfuel
        have hread := Stored.restored_all hjs (depth_lt_of_item hfuel "arguments" (by simp))
        show (readEach (readType checks headings fuel) js >>= fun args =>
          checks.name (.str name) >>= fun name => pure (TypeExpr.generic name args none)) = _
        rw [hread, hkeep.name_str]
        rfl
  | some l =>
      obtain ⟨hid, hlookup⟩ := htarget l rfl
      refine ⟨.obj [entry "kind" (.str "generic"), entry "referenceName" (.str name),
        entry "arguments" (.arr js), entry "ref" l.id], stored_type ?_ ?_ ?_⟩
      · rw [TypeExpr.toJson, toJsonAll_eq_readEach, hwritten]
        rfl
      · simp [Json.plain_obj_iff, hname, hplain, hid]
      · intro fuel hfuel
        have hread := Stored.restored_all hjs (depth_lt_of_item hfuel "arguments" (by simp))
        show (readEach (readType checks headings fuel) js >>= fun args =>
          (lookup headings l.id).map some >>= fun target =>
            checks.name (.str name) >>= fun name =>
              pure (TypeExpr.generic name args target)) = _
        rw [hread, hlookup, hkeep.name_str]
        rfl

/-- A type whose links lead to models is stored. -/
theorem exists_stored_type
    (hkeep : checks.Keeping)
    (hfinds : Finds headings links)
    {t : TypeExpr Points}
    (h : t.Every (TypeExpr.LinksTo links))
    (htexts : t.Every TypeExpr.Settled) :
    ∃ j, Stored TypeExpr.toJson (readType checks headings) t j := by
  induction t using TypeExpr.induct with
  | verbatim text references ih =>
      have hparts := (TypeExpr.every_iff.1 h).2
      obtain ⟨htext, htexts⟩ := TypeExpr.every_iff.1 htexts
      obtain ⟨js, hjs⟩ := exists_forall₂ fun r hr => ih r hr (hparts r hr) (htexts r hr)
      exact exists_stored_verbatim hkeep hjs htext
  | model target =>
      obtain ⟨hid, hlookup⟩ := hfinds target (TypeExpr.every_iff.1 h).1
      refine ⟨.obj [entry "kind" (.str "model"), entry "ref" target.id], stored_type rfl ?_ ?_⟩
      · simp [Json.plain_obj_iff, hid]
      · intro fuel hfuel
        show (lookup headings target.id >>= fun target => pure (TypeExpr.model target)) = _
        rw [hlookup]
        rfl
  | pending name => exact absurd (TypeExpr.every_iff.1 h).1 id
  | param name =>
      have hname : name.Settled := (TypeExpr.every_iff.1 htexts).1
      refine ⟨.obj [entry "kind" (.str "generic_param"), entry "name" (.str name)],
        stored_type rfl ?_ ?_⟩
      · simp [Json.plain_obj_iff, hname]
      · intro fuel hfuel
        show (checks.name (.str name) >>= fun name => pure (TypeExpr.param name)) = _
        rw [hkeep.name_str]
        rfl
  | array element ih =>
      obtain ⟨j, hj⟩ := ih ((TypeExpr.every_iff.1 h).2 element (List.mem_singleton_self _))
        ((TypeExpr.every_iff.1 htexts).2 element (List.mem_singleton_self _))
      refine ⟨.obj [entry "kind" (.str "array"), entry "elementType" j], stored_type ?_ ?_ ?_⟩
      · rw [TypeExpr.toJson, hj.written]
        rfl
      · simp [Json.plain_obj_iff, hj.plain]
      · intro fuel hfuel
        have hread := hj.restored fuel (depth_lt_of_entry hfuel "elementType" (by simp))
        show (readType checks headings fuel j >>= fun element =>
          pure (TypeExpr.array element)) = _
        rw [hread]
        rfl
  | keyed key value ihk ihv =>
      have hparts := (TypeExpr.every_iff.1 h).2
      have htexts := (TypeExpr.every_iff.1 htexts).2
      have hmemk : key ∈ [key, value] := List.mem_pair.2 (.inl rfl)
      have hmemv : value ∈ [key, value] := List.mem_pair.2 (.inr rfl)
      obtain ⟨j, hj⟩ := ihk (hparts key hmemk) (htexts key hmemk)
      obtain ⟨k, hk⟩ := ihv (hparts value hmemv) (htexts value hmemv)
      refine ⟨.obj [entry "kind" (.str "keyed_collection"), entry "keyType" j,
        entry "valueType" k], stored_type ?_ ?_ ?_⟩
      · rw [TypeExpr.toJson, hj.written, hk.written]
        rfl
      · simp [Json.plain_obj_iff, hj.plain, hk.plain]
      · intro fuel hfuel
        have hkey := hj.restored fuel (depth_lt_of_entry hfuel "keyType" (by simp))
        have hvalue := hk.restored fuel (depth_lt_of_entry hfuel "valueType" (by simp))
        show (readType checks headings fuel j >>= fun key =>
          readType checks headings fuel k >>= fun value => pure (TypeExpr.keyed key value)) = _
        rw [hkey, hvalue]
        rfl
  | generic name args target ih =>
      obtain ⟨htarget, hparts⟩ := TypeExpr.every_iff.1 h
      obtain ⟨hname, htexts⟩ := TypeExpr.every_iff.1 htexts
      obtain ⟨js, hjs⟩ := exists_forall₂ fun a ha => ih a ha (hparts a ha) (htexts a ha)
      exact exists_stored_generic hkeep hjs (fun l hl => hfinds l (htarget l hl)) hname
  | function args result iha ihr =>
      obtain ⟨-, hargs, hresult⟩ := TypeExpr.every_function_iff.1 h
      obtain ⟨hnames, hargtexts, hresulttexts⟩ := TypeExpr.every_function_iff.1 htexts
      obtain ⟨k, hk⟩ := ihr hresult hresulttexts
      obtain ⟨js, hjs⟩ := exists_forall₂ fun a ha =>
        (iha a ha (hargs a ha) (hargtexts a ha)).elim fun j hj =>
          stored_field hkeep (hnames a ha) hj
      refine ⟨.obj [entry "kind" (.str "function"), entry "arguments" (.arr js),
        entry "returnType" k], stored_type ?_ ?_ ?_⟩
      · rw [TypeExpr.toJson, toJsonFields_eq_readEach, Stored.written_all hjs, hk.written]
        rfl
      · simp [Json.plain_obj_iff, hk.plain, Stored.plain_all hjs]
      · intro fuel hfuel
        have hread := Stored.restored_all hjs (depth_lt_of_item hfuel "arguments" (by simp))
        have hresult := hk.restored fuel (depth_lt_of_entry hfuel "returnType" (by simp))
        show (readEach (readField checks headings fuel) js >>= fun args =>
          readType checks headings fuel k >>= fun result =>
            pure (TypeExpr.function args result)) = _
        rw [hread, hresult]
        rfl

/-- A part of a type parameter is stored under its key, if it is there. -/
theorem exists_stored_part
    (hkeep : checks.Keeping)
    (hfinds : Finds headings links)
    {part : Option (TypeExpr Points)}
    (h : ∀ t ∈ part, t.Every (TypeExpr.LinksTo links))
    (htexts : ∀ t ∈ part, t.Every TypeExpr.Settled)
    (key : String) :
    ∃ value : Option (Json Points),
      partToJson key part = .ok (value.map (entry key)).toList ∧
      (∀ j ∈ value, j.Plain) ∧
      ∀ fuel, (∀ j ∈ value, j.depth < fuel) → readPart checks headings fuel value = .ok part := by
  cases part with
  | none => exact ⟨none, rfl, by simp, fun _ _ => rfl⟩
  | some t =>
      obtain ⟨j, hj⟩ := exists_stored_type hkeep hfinds (h t rfl) (htexts t rfl)
      refine ⟨some j, ?_, ?_, ?_⟩
      · rw [partToJson, hj.written]
        rfl
      · rintro k ⟨⟩
        exact hj.plain
      · intro fuel hfuel
        rw [readPart, hj.restored fuel (hfuel j rfl)]
        rfl

/-- A type parameter is stored if the types in it are linked to models. -/
theorem exists_stored_typeParam
    (hkeep : checks.Keeping)
    (hfinds : Finds headings links)
    {p : TypeParam (TypeExpr Points) Points}
    (hname : p.name.Settled)
    (h : ∀ t ∈ p.types, t.Every (TypeExpr.LinksTo links))
    (htexts : ∀ t ∈ p.types, t.Every TypeExpr.Settled) :
    ∃ j, Stored TypeParam.toJson (readTypeParam checks headings) p j := by
  obtain ⟨name, bound, default⟩ := p
  obtain ⟨hbound, hdefault⟩ := List.forall_mem_append.1 h
  obtain ⟨hboundtexts, hdefaulttexts⟩ := List.forall_mem_append.1 htexts
  obtain ⟨b, hbwritten, hbplain, hbread⟩ := exists_stored_part hkeep hfinds
    (fun t ht => hbound t (Option.mem_toList.2 ht))
    (fun t ht => hboundtexts t (Option.mem_toList.2 ht)) "constraint"
  obtain ⟨d, hdwritten, hdplain, hdread⟩ := exists_stored_part hkeep hfinds
    (fun t ht => hdefault t (Option.mem_toList.2 ht))
    (fun t ht => hdefaulttexts t (Option.mem_toList.2 ht)) "default"
  refine ⟨.obj ([entry "name" (.str name)] ++ (b.map (entry "constraint")).toList ++
    (d.map (entry "default")).toList), ?_, ?_, ?_⟩
  · unfold TypeParam.toJson
    dsimp only
    rw [hbwritten, hdwritten]
    rfl
  · refine Json.plain_obj_iff.2 ⟨?_, ?_⟩
    · cases b <;> cases d <;> simp
    · cases b <;> cases d <;> simp_all
  · intro fuel hfuel
    have hb := hbread fuel fun j hj => Nat.lt_trans
      (Json.depth_lt_obj (e := entry "constraint" j) (by simp [Option.mem_def.1 hj])) hfuel
    have hd := hdread fuel fun j hj => Nat.lt_trans
      (Json.depth_lt_obj (e := entry "default" j) (by simp [Option.mem_def.1 hj])) hfuel
    have hread : readTypeParam checks headings fuel (.obj ([entry "name" (.str name)] ++
        (b.map (entry "constraint")).toList ++ (d.map (entry "default")).toList)) =
        (readPart checks headings fuel b >>= fun bound =>
          readPart checks headings fuel d >>= fun default =>
            checks.name (.str name) >>= fun name => pure ⟨name, bound, default⟩) := by
      cases b <;> cases d <;> rfl
    rw [hread, hb, hd, hkeep.name_str]
    rfl

end Types

section Headings

/-- What is entered of a model before its content is read. -/
def Model.heading (m : Model Points) : Model Points :=
  { id := m.id, name := m.name, kind := m.kind }

variable {ms : List (Model Points)} {m : Model Points}

/-- A text is the same identifier as nothing else. -/
theorem Json.sameKey_iff_of_text
    {x y : Json Points}
    (hx : ∃ s, x = .str s) :
    x.sameKey y = true ↔ x = y := by
  obtain ⟨s, rfl⟩ := hx
  cases y with
  | float b => cases hb : b.toInt? <;> simp [Json.sameKey, Json.toInt?, hb]
  | _ => simp [Json.sameKey, Json.toInt?]

theorem Identified.sameKey_iff
    (h : Identified ms)
    {n : Model Points}
    (hn : n ∈ ms)
    (hm : m ∈ ms) :
    n.id.sameKey m.id = true ↔ n = m := by
  rw [Json.sameKey_iff_of_text (h.text n hn)]
  constructor
  · intro hsame
    exact List.inj_on_of_nodup_map h.nodup hn hm hsame
  · rintro rfl
    rfl

theorem Identified.not_sameKey
    {before after : List (Model Points)}
    (h : Identified (before ++ m :: after))
    {n : Model Points}
    (hn : n ∈ before ++ after) :
    ¬ n.id.sameKey m.id = true := by
  intro hsame
  have hperm : (before ++ m :: after).Perm (m :: (before ++ after)) := List.perm_middle
  have hmem : n ∈ before ++ m :: after := hperm.mem_iff.2 (List.mem_cons_of_mem _ hn)
  rw [(h.sameKey_iff hmem (hperm.mem_iff.2 List.mem_cons_self)).1 hsame] at hn
  exact (List.nodup_cons.1 (hperm.nodup_iff.1 h.nodup.of_map)).1 hn

/-- The identifier of a model leads to the model. -/
theorem lookup_headings
    (h : Identified ms)
    (hm : m ∈ ms) :
    lookup (ms.map Model.heading) m.id = .ok m.link := by
  have hfind : ms.find? (fun n => n.id.sameKey m.id) = some m := by
    cases hsome : ms.find? (fun n => n.id.sameKey m.id) with
    | none => exact absurd ((h.sameKey_iff hm hm).2 rfl) (List.find?_eq_none.1 hsome m hm)
    | some n =>
        have hsame : n.id.sameKey m.id = true :=
          List.find?_some (p := fun n : Model Points => n.id.sameKey m.id) hsome
        rw [(h.sameKey_iff (List.mem_of_find?_eq_some hsome) hm).1 hsame]
  have hmap : (ms.map Model.heading).find? (·.id.sameKey m.id) = some m.heading := by
    rw [List.find?_map]
    exact congrArg (Option.map Model.heading) hfind
  obtain ⟨s, hs⟩ := h.text m hm
  unfold lookup
  rw [hmap, hs]
  rfl

/-- A model with a new identifier goes to the end. -/
theorem putModel_of_new
    {ns : List (Model Points)}
    (h : ∀ n ∈ ns, ¬ n.id.sameKey m.id = true) :
    putModel m ns = ns ++ [m] := by
  induction ns with
  | nil => rfl
  | cons n ns ih =>
      obtain ⟨hn, hns⟩ := List.forall_mem_cons.1 h
      rw [putModel, if_neg hn, ih hns]
      rfl

/-- Headings of models with different identifiers are entered in order. -/
theorem readHeadings_of_identified
    {js : List (Json Points)}
    (hjs : List.Forall₂ (fun m j => readHeading j = .ok m.heading) ms js)
    (done : List (Model Points))
    (h : Identified (done ++ ms)) :
    readHeadings (done.map Model.heading) js = .ok ((done ++ ms).map Model.heading) := by
  induction hjs generalizing done with
  | nil =>
      rw [List.append_nil]
      rfl
  | @cons m j ms js hj hjs ih =>
      have hnew : ∀ n ∈ done.map Model.heading, ¬ n.id.sameKey m.heading.id = true := by
        intro n hn
        obtain ⟨n', hn', rfl⟩ := List.mem_map.1 hn
        exact h.not_sameKey (n := n') (List.mem_append_left _ hn')
      have hdone : done.map Model.heading ++ [m.heading] = (done ++ [m]).map Model.heading := by
        rw [List.map_append]
        rfl
      rw [readHeadings, hj]
      show readHeadings (putModel m.heading (done.map Model.heading)) js = _
      rw [List.append_cons] at h ⊢
      rw [putModel_of_new hnew, hdone, ih _ h]

end Headings

section Contents

variable
  {checks : Checks} {links : List (Link Points)} {headings : List (Model Points)}

/-- A model with the content of another one. -/
def Model.withContent (n m : Model Points) : Model Points :=
  { n with
    typeParams := m.typeParams
    schema := m.schema
    heritage := m.heritage
    dependencies := m.dependencies
    dependants := m.dependants }

/-- A model is written as a JSON value, from which its heading and its content are
read back. -/
structure Model.StoredAs
    (checks : Checks) (headings : List (Model Points)) (m : Model Points) (j : Json Points) :
    Prop where
  written : m.toJson = .ok j
  plain : j.Plain
  heading_restored : readHeading j = .ok m.heading
  content_restored : ∀ fuel, j.depth ≤ fuel → ∀ ns : List (Model Points),
    readContent checks headings fuel ns j =
      .ok (ns.map fun n => if n.id.sameKey m.id then n.withContent m else n)

theorem readEach_lookup
    (hfinds : Finds headings links)
    {ls : List (Link Points)}
    (hls : ∀ l ∈ ls, l ∈ links) :
    readEach (lookup headings) (ls.map (·.id)) = .ok ls := by
  rw [readEach_eq_ok_iff, List.forall₂_map_left_iff, List.forall₂_same]
  exact fun l hl => (hfinds l (hls l hl)).2

theorem plain_ids
    (hfinds : Finds headings links)
    {ls : List (Link Points)}
    (hls : ∀ l ∈ ls, l ∈ links) :
    (Json.arr (ls.map (·.id))).Plain := by
  refine .arr fun j hj => ?_
  obtain ⟨l, hl, rfl⟩ := List.mem_map.1 hj
  exact (hfinds l (hls l hl)).1

/-- A model whose types and edges are linked to models is stored. -/
theorem exists_stored_model
    (hkeep : checks.Keeping)
    (hfinds : Finds headings links)
    {m : Model Points}
    (hid : ∃ s, m.id = .str s)
    (hname : ∃ s, m.name = .str s)
    (htypes : m.Every (TypeExpr.LinksTo links))
    (htexts : m.Settled)
    (hedges : ∀ l ∈ m.dependencies ++ m.dependants, l ∈ links) :
    ∃ j, m.StoredAs checks headings j := by
  obtain ⟨i, hi⟩ := hid
  obtain ⟨s, hs⟩ := hname
  obtain ⟨hschema, hparams, hheritage⟩ := Model.every_iff.1 htypes
  obtain ⟨hschematexts, hparamtexts, hheritagetexts⟩ := Model.every_iff.1 htexts.types
  obtain ⟨hdependencies, hdependants⟩ := List.forall_mem_append.1 hedges
  obtain ⟨ps, hps⟩ := exists_forall₂ fun p hp =>
    exists_stored_typeParam hkeep hfinds (htexts.params p hp) (hparams p hp) (hparamtexts p hp)
  obtain ⟨fs, hfs⟩ := exists_forall₂ fun f hf =>
    (exists_stored_type hkeep hfinds (hschema f hf) (hschematexts f hf)).elim fun j hj =>
      stored_field hkeep (htexts.fields f hf) hj
  obtain ⟨bs, hbs⟩ := exists_forall₂ fun t ht =>
    exists_stored_type hkeep hfinds (hheritage t ht) (hheritagetexts t ht)
  have hid : m.id.Plain := by
    have hsettled := htexts.id
    rw [hi] at hsettled ⊢
    exact hsettled.plain_str
  have hname : m.name.Plain := by
    have hsettled := htexts.name
    rw [hs] at hsettled ⊢
    exact hsettled.plain_str
  refine ⟨.obj [entry "id" m.id, entry "name" m.name, entry "kind" (.str m.kind.word),
    entry "typeParameters" (.arr ps), entry "schema" (.arr fs), entry "heritage" (.arr bs),
    entry "dependencies" (.arr (m.dependencies.map (·.id))),
    entry "dependants" (.arr (m.dependants.map (·.id)))], ?_, ?_, ?_, ?_⟩
  · unfold Model.toJson
    rw [toJsonTypeParams_eq_readEach, toJsonFields_eq_readEach, toJsonAll_eq_readEach,
      Stored.written_all hps, Stored.written_all hfs, Stored.written_all hbs]
    rfl
  · simp [Json.plain_obj_iff, hid, hname, Stored.plain_all hps, Stored.plain_all hfs,
      Stored.plain_all hbs, plain_ids hfinds hdependencies, plain_ids hfinds hdependants]
  · have hkey : m.id.isKey = true := by
      rw [hi]
      rfl
    simp [readHeading, Json.key, Json.key?, entryId, hkey, Model.heading, bind, Except.bind, pure,
      Except.pure]
  · intro fuel hfuel ns
    have hps := Stored.restored_all hps (depth_lt_of_item hfuel "typeParameters" (by simp))
    have hfs := Stored.restored_all hfs (depth_lt_of_item hfuel "schema" (by simp))
    have hbs := Stored.restored_all hbs (depth_lt_of_item hfuel "heritage" (by simp))
    show (readEach (readTypeParam checks headings fuel) ps >>= fun typeParams =>
      readEach (readField checks headings fuel) fs >>= fun schema =>
      readEach (readType checks headings fuel) bs >>= fun heritage =>
      readEach (lookup headings) (m.dependencies.map (·.id)) >>= fun dependencies =>
      readEach (lookup headings) (m.dependants.map (·.id)) >>= fun dependants =>
      pure (ns.map fun n =>
        if n.id.sameKey m.id then
          { n with typeParams, schema, heritage, dependencies, dependants } else n)) = _
    rw [hps, hfs, hbs, readEach_lookup hfinds hdependencies, readEach_lookup hfinds hdependants]
    rfl

/-- Each content goes to the model it came from. -/
theorem readContents_of_stored
    {ms : List (Model Points)} {js : List (Json Points)}
    (hjs : List.Forall₂ (Model.StoredAs checks headings) ms js)
    {fuel : Nat}
    (hfuel : ∀ j ∈ js, j.depth ≤ fuel)
    (done : List (Model Points))
    (h : Identified (done ++ ms)) :
    readContents checks headings fuel
        (done.map (fun m => m.heading.withContent m) ++ ms.map Model.heading) js =
      .ok ((done ++ ms).map fun m => m.heading.withContent m) := by
  -- The models before the place in the list are complete, those from it on only headings.
  induction hjs generalizing done with
  | nil =>
      rw [List.map_nil, List.append_nil, List.append_nil]
      rfl
  | @cons m j ms js hj hjs ih =>
      obtain ⟨hlt, hlts⟩ := List.forall_mem_cons.1 hfuel
      have hmem : m ∈ done ++ m :: ms := List.mem_append_right _ List.mem_cons_self
      have hself : m.id.sameKey m.id = true := (h.sameKey_iff hmem hmem).2 rfl
      have hstep : ((done.map (fun m => m.heading.withContent m) ++
          (m :: ms).map Model.heading).map fun n =>
            if n.id.sameKey m.id then n.withContent m else n) =
          (done ++ [m]).map (fun m => m.heading.withContent m) ++ ms.map Model.heading := by
        simp only [List.map_append, List.map_cons, List.map_nil, List.map_map, List.append_assoc,
          List.cons_append, List.nil_append]
        refine congrArg₂ _ (List.map_congr_left fun n hn => ?_) (congrArg₂ _ (if_pos hself)
          (List.map_congr_left fun n hn => ?_))
        · exact if_neg (h.not_sameKey (List.mem_append_left _ hn))
        · exact if_neg (h.not_sameKey (List.mem_append_right _ hn))
      rw [readContents, hj.content_restored fuel hlt, hstep]
      rw [List.append_cons] at h
      have hrest := ih hlts _ h
      rw [← List.append_cons] at hrest
      exact hrest

end Contents

section Graphs

variable {checks : Checks} {g : Graph Points}

theorem Graph.Storable.finds
    (h : g.Storable)
    (htexts : g.Settled) :
    Finds (g.models.map Model.heading) (g.models.map Model.link) := by
  intro l hl
  obtain ⟨m, hm, rfl⟩ := List.mem_map.1 hl
  obtain ⟨s, hs⟩ := h.identified.text m hm
  refine ⟨?_, lookup_headings h.identified hm⟩
  have hsettled := (htexts m hm).id
  show m.id.Plain
  rw [hs] at hsettled ⊢
  exact hsettled.plain_str

theorem Graph.Storable.exists_stored
    (hkeep : checks.Keeping)
    (h : g.Storable)
    (htexts : g.Settled) :
    ∃ js, List.Forall₂ (Model.StoredAs checks (g.models.map Model.heading)) g.models js :=
  exists_forall₂ fun m hm => exists_stored_model hkeep (h.finds htexts)
    (h.identified.text m hm) (h.names_text m hm) (h.types_linked m hm) (htexts m hm)
    (h.edges_linked m hm)

theorem toJson_freeze (g : Graph Points) :
    Graph.toJson ⟨g.models.map Model.freeze⟩ = g.toJson := by
  have heach : ∀ ms : List (Model Points), readEach Model.toJson (ms.map Model.freeze) =
      readEach Model.toJson ms := by
    intro ms
    induction ms with
    | nil => rfl
    | cons m ms ih =>
        rw [List.map_cons, readEach, readEach, ih]
        rfl
  unfold Graph.toJson
  rw [toJsonModels_eq_readEach, toJsonModels_eq_readEach, heach]

/-- The models are restored from their entries, whatever else stands in the artifact. -/
theorem Graph.Storable.ofJson
    (h : g.Storable)
    {js : List (Json Points)}
    (hjs : List.Forall₂ (Model.StoredAs checks (g.models.map Model.heading)) g.models js)
    {fuel : Nat}
    (hfuel : ∀ j ∈ js, j.depth ≤ fuel) :
    Graph.ofJson checks fuel
        (.obj [entry "v" (.str formatVersion), entry "models" (.arr js)]) =
      .ok ⟨g.models.map Model.freeze⟩ := by
  have hheadings := readHeadings_of_identified
    (hjs.imp fun _ _ hj => hj.heading_restored) [] h.identified
  have hcontents := readContents_of_stored hjs hfuel [] h.identified
  show (readHeadings [] js >>= fun headings => readContents checks headings fuel headings js >>=
    fun models => pure (Graph.mk (models.map Model.freeze))) = _
  rw [List.map_nil, List.nil_append] at hheadings hcontents
  rw [hheadings]
  show (readContents checks _ fuel (g.models.map Model.heading) js >>=
    fun models => pure (Graph.mk (models.map Model.freeze))) = _
  rw [hcontents, List.nil_append]
  show Except.ok (Graph.mk ((g.models.map _).map Model.freeze)) = _
  rw [List.map_map]
  rfl

/-- A graph that can be stored has a JSON value, and every text of that value is read as
the graph with read-only models. -/
theorem Graph.Storable.exists_json
    (hkeep : checks.Keeping)
    (h : g.Storable)
    (htexts : g.Settled) :
    ∃ j, g.toJson = .ok j ∧ j.Plain ∧
      ∀ text, Json.parse? text = some j → j.depth ≤ text.toList.length + 1 →
        Graph.read checks text = .ok ⟨g.models.map Model.freeze⟩ := by
  obtain ⟨js, hjs⟩ := h.exists_stored hkeep htexts
  refine ⟨.obj [entry "v" (.str formatVersion), entry "models" (.arr js)], ?_, ?_, ?_⟩
  · unfold Graph.toJson
    rw [toJsonModels_eq_readEach, readEach_eq_ok_iff.2 (hjs.imp fun _ _ hj => hj.written)]
    rfl
  · have hplain := Json.Plain.arr (forall_mem_of_forall₂ hjs fun _ _ _ hj => hj.plain)
    simp [Json.plain_obj_iff, hplain]
  · intro text hparse hdepth
    unfold Graph.read
    rw [hparse]
    show Graph.ofJson checks _ _ = _
    refine h.ofJson hjs fun j hmem => ?_
    exact Nat.le_of_lt (depth_lt_of_item hdepth "models" (by simp) j hmem)

theorem Graph.write_eq_of_toJson
    {j : Json Points}
    (h : g.toJson = .ok j)
    (l : Layout) :
    g.write l = .ok (j.render l) := by
  unfold Graph.write
  rw [h]
  rfl

/-- A graph that can be stored is written in every layout, and its text is read as the
graph with read-only models. -/
theorem Graph.Storable.read_write
    (hkeep : checks.Keeping)
    (h : g.Storable)
    (htexts : g.Settled)
    (l : Layout) :
    ∃ text : String, g.write l = .ok text ∧
      Graph.read checks text = .ok ⟨g.models.map Model.freeze⟩ := by
  obtain ⟨j, hwritten, hplain, hread⟩ := h.exists_json hkeep htexts
  refine ⟨j.render l, Graph.write_eq_of_toJson hwritten l,
    hread _ (Json.parse?_render hplain l) ?_⟩
  have hlength := hplain.depth_le_length_write l 0
  simp only [Points.toList, Json.render, String.toList_ofList, List.length_map]
  omega

theorem linksTo_of_linkedIn
    {g : Graph} {t : TypeExpr}
    (h : t.LinkedIn g) :
    t.LinksTo (g.models.map Model.link) := by
  cases t with
  | model target =>
      obtain ⟨m, hm, rfl, -⟩ := h
      exact List.mem_map.2 ⟨m, hm, rfl⟩
  | generic name args target =>
      intro l hl
      by_cases hname : ∃ m ∈ g.models, m.name = .str name
      · obtain ⟨m, hm, hmname⟩ := hname
        cases (h.1 m hm hmname).symm.trans (Option.mem_def.1 hl)
        exact List.mem_map.2 ⟨m, hm, rfl⟩
      · have hnone := h.2 fun m hm hmname => hname ⟨m, hm, hmname⟩
        rw [hnone] at hl
        cases hl
  | pending name => exact h
  | verbatim text references => trivial
  | param name => trivial
  | array element => trivial
  | keyed key value => trivial
  | function args result => trivial

theorem map_freeze_of_frozen
    {ν : Type} {ms : List (Model ν)}
    (h : ∀ m ∈ ms, m.frozen = true) :
    ms.map Model.freeze = ms := by
  refine TypeExpr.map_eq_self fun m hm => ?_
  unfold Model.freeze
  rw [← h m hm]

/-- An extracted graph can be stored, and its models are read-only already. -/
theorem storable_of_extract
    {options : Options} {root : Syntax.Node} {g : Graph}
    (h : (extract options root).outcome = .ok g) :
    g.Storable ∧ g.models.map Model.freeze = g.models := by
  have hlinked := every_linkedIn_of_extract h
  obtain ⟨-, -, drafts, -, -, -, hnames, hunlinked, hg⟩ := exists_drafts_of_extract h
  have hlinks : List.Forall₂ Model.Links g.models drafts := by
    rw [hg]
    exact links_linkedModels_freeze hunlinked options.withHeritage
  have hid : ∀ m ∈ g.models, ∃ s, m.id = .str s ∧ m.name = .str s := by
    intro m hm
    obtain ⟨d, -, hmd⟩ := exists_mem_right_of_forall₂ hlinks m hm
    exact ⟨d.name, hmd.id_eq, hmd.name_eq⟩
  have hids : g.models.map (·.id) = g.models.map (·.name) := by
    refine List.map_congr_left fun m hm => ?_
    obtain ⟨s, hid, hname⟩ := hid m hm
    rw [hid, hname]
  refine ⟨⟨⟨?_, ?_⟩, ?_, ?_, ?_⟩, ?_⟩
  · intro m hm
    obtain ⟨s, hid, -⟩ := hid m hm
    exact ⟨s, hid⟩
  · rw [hids]
    exact nodup_names_of_links hlinks hnames
  · intro m hm
    obtain ⟨s, -, hname⟩ := hid m hm
    exact ⟨s, hname⟩
  · intro m hm t ht
    exact ((hlinked m hm).2 t ht).mono fun s hs => linksTo_of_linkedIn hs
  · intro m hm
    rw [hg] at hm ⊢
    obtain ⟨m', hm', rfl⟩ := List.mem_map.1 hm
    rw [List.map_map]
    exact edges_subset_links (m := m') hm'
  · exact map_freeze_of_frozen fun m hm => (hlinked m hm).1

/-- Artifacts read back.  Every graph that can be stored, with settled texts, is written
in every layout, and its text is read as the same graph, model by model, with read-only
models; so the restored graph is written as the same JSON.  A graph of ordinary texts that
can be stored can be stored as code points, and its texts are settled.  Every extracted
graph can be stored, and has read-only models already. -/
theorem artifact_reads_back
    (checks : Checks)
    (hkeep : checks.Keeping) :
    (∀ (g : Graph Points) (l : Layout), g.Storable → g.Settled →
      ∃ text : String, g.write l = .ok text ∧
        Graph.read checks text = .ok ⟨g.models.map Model.freeze⟩ ∧
        Graph.toJson ⟨g.models.map Model.freeze⟩ = g.toJson) ∧
    (∀ g : Graph, g.Storable → g.spelled.Storable ∧ g.spelled.Settled) ∧
    (∀ (options : Options) (root : Syntax.Node) (g : Graph),
      (extract options root).outcome = .ok g →
        g.Storable ∧ g.models.map Model.freeze = g.models) := by
  refine ⟨fun g l h htexts => ?_, fun g h => h.spelled,
    fun options root g h => storable_of_extract h⟩
  obtain ⟨text, hwrite, hread⟩ := h.read_write hkeep htexts l
  exact ⟨text, hwrite, hread, toJson_freeze g⟩

/-- Two models that refer to each other, with identifiers that need escapes. -/
def cyclicGraph : Graph :=
  ⟨[{ id := .str "A\n", name := .str "A", kind := .interfaceDecl
      typeParams := [⟨"T", some (.model ⟨.str "😀", .str "B"⟩), none⟩]
      schema := [⟨"f", .function [⟨"x", .array (.param "T"), true⟩]
        (.verbatim "B | null" [.model ⟨.str "😀", .str "B"⟩]), true⟩]
      dependencies := [⟨.str "😀", .str "B"⟩], dependants := [⟨.str "😀", .str "B"⟩] },
    { id := .str "😀", name := .str "B", kind := .classDecl
      heritage := [.generic "A" [.keyed (.verbatim "string" []) (.param "U")]
        (some ⟨.str "A\n", .str "A"⟩)]
      dependencies := [⟨.str "A\n", .str "A"⟩], dependants := [⟨.str "A\n", .str "A"⟩] }]⟩

theorem artifact_reads_back_cyclicGraph :
    cyclicGraph.Storable ∧
    (∃ text : String, cyclicGraph.spelled.write (.indented (-1)) = .ok text ∧
      Graph.read .standard text = .ok ⟨cyclicGraph.spelled.models.map Model.freeze⟩) ∧
    ∃ g, (extract {} crossReferences).outcome = .ok g ∧ g.models.length = 2 ∧ g.Storable := by
  have hstorable : cyclicGraph.Storable := by
    refine ⟨⟨?_, ?_⟩, ?_, ?_, ?_⟩
    · simp [cyclicGraph]
    · simp [cyclicGraph]
    · simp [cyclicGraph]
    · simp [cyclicGraph, Model.every_iff, Model.link, TypeParam.types, TypeExpr.LinksTo,
        TypeExpr.parts, TypeExpr.every_iff (t := .verbatim _ _),
        TypeExpr.every_iff (t := .model _), TypeExpr.every_iff (t := .param _),
        TypeExpr.every_iff (t := .array _), TypeExpr.every_iff (t := .keyed _ _),
        TypeExpr.every_iff (t := .generic _ _ _), TypeExpr.every_iff (t := .function _ _)]
    · simp [cyclicGraph, Model.link]
  obtain ⟨hstored, hspelled, hextracted⟩ := artifact_reads_back .standard keeping_standard
  obtain ⟨hcodes, hsettled⟩ := hspelled cyclicGraph hstorable
  obtain ⟨text, hwrite, hread, -⟩ := hstored cyclicGraph.spelled (.indented (-1)) hcodes hsettled
  refine ⟨hstorable, ⟨text, hwrite, hread⟩, ?_⟩
  obtain ⟨g, hg, hsize⟩ := Pass.exists_ok_of_toOption_map
    (p := extract {} crossReferences) (f := (·.models.length)) (b := 2) (by decide +kernel)
  exact ⟨g, hg, hsize, (hextracted {} crossReferences g hg).1⟩

end Graphs

end DeclGraph
