import DeclGraph.Proofs.UnlinkedReferences

/-!
# What the entries of artifacts say

Artifact text may come from anywhere: entries may share identifiers, a name may differ
from the identifier, and optional keys may be missing.  What an entry says is told here
without the reader: `Json.Denotes` relates JSON values to types, where an identifier stands
for the link to the model of the graph that has it.

Models are entered first and filled afterwards.  `Entered` is what holds after some
entries have been entered, and `Filled` what holds after some of them have filled their
models.  At the end there is one model for each identifier, in order of the first entry of
the identifier, and it is what the last entry says (`ReadFrom`).
-/

namespace DeclGraph

section Denotation

/-- An identifier names a link: one of the given links, which leads to that identifier. -/
def Json.Names (links : List (Link Points)) (id : Json Points) (l : Link Points) : Prop :=
  l ∈ links ∧ l.id = id

mutual

/-- A JSON value stands for a type, with links for the identifiers in it. -/
inductive Json.Denotes (checks : Checks) (links : List (Link Points)) :
    Json Points → TypeExpr Points → Prop
  | verbatim
      {j name : Json Points} {text : Points}
      {items : List (Json Points)} {references : List (TypeExpr Points)}
      (hkind : j.key "kind" = .ok (.str "primitive"))
      (hname : j.key "name" = .ok name)
      (htext : checks.name name = .ok text)
      (hitems : j.itemsOf "references" = .ok items)
      (hreferences : List.Forall₂ (Json.Denotes checks links) items references) :
      Json.Denotes checks links j (.verbatim text references)
  | model
      {j id : Json Points} {target : Link Points}
      (hkind : j.key "kind" = .ok (.str "model"))
      (hid : j.key "ref" = .ok id)
      (htarget : id.Names links target) :
      Json.Denotes checks links j (.model target)
  | param
      {j name : Json Points} {text : Points}
      (hkind : j.key "kind" = .ok (.str "generic_param"))
      (hname : j.key "name" = .ok name)
      (htext : checks.name name = .ok text) :
      Json.Denotes checks links j (.param text)
  | array
      {j e : Json Points} {element : TypeExpr Points}
      (hkind : j.key "kind" = .ok (.str "array"))
      (he : j.key "elementType" = .ok e)
      (helement : Json.Denotes checks links e element) :
      Json.Denotes checks links j (.array element)
  | keyed
      {j k v : Json Points} {key value : TypeExpr Points}
      (hkind : j.key "kind" = .ok (.str "keyed_collection"))
      (hk : j.key "keyType" = .ok k)
      (hkey : Json.Denotes checks links k key)
      (hv : j.key "valueType" = .ok v)
      (hvalue : Json.Denotes checks links v value) :
      Json.Denotes checks links j (.keyed key value)
  | generic
      {j name list : Json Points} {text : Points}
      {items : List (Json Points)} {args : List (TypeExpr Points)} {target : Option (Link Points)}
      (hkind : j.key "kind" = .ok (.str "generic"))
      (hname : j.key "referenceName" = .ok name)
      (htext : checks.name name = .ok text)
      (hlist : j.key "arguments" = .ok list)
      (hitems : list.items = .ok items)
      (hargs : List.Forall₂ (Json.Denotes checks links) items args)
      (htarget : Option.Rel (Json.Names links) (j.key? "ref") target) :
      Json.Denotes checks links j (.generic text args target)
  | function
      {j list r : Json Points} {items : List (Json Points)}
      {args : List (Field (TypeExpr Points) Points)} {result : TypeExpr Points}
      (hkind : j.key "kind" = .ok (.str "function"))
      (hlist : j.key "arguments" = .ok list)
      (hitems : list.items = .ok items)
      (hargs : List.Forall₂ (Json.DenotesField checks links) items args)
      (hr : j.key "returnType" = .ok r)
      (hresult : Json.Denotes checks links r result) :
      Json.Denotes checks links j (.function args result)

/-- A JSON value stands for a field or a parameter. -/
inductive Json.DenotesField (checks : Checks) (links : List (Link Points)) :
    Json Points → Field (TypeExpr Points) Points → Prop
  | mk
      {j name type : Json Points} {text : Points} {t : TypeExpr Points} {optional : Bool}
      (hname : j.key "name" = .ok name)
      (htext : checks.name name = .ok text)
      (htype : j.key "type" = .ok type)
      (ht : Json.Denotes checks links type t)
      (hoptional : checks.flag ((j.key? "optional").getD (.bool false)) = .ok optional) :
      Json.DenotesField checks links j ⟨text, t, optional⟩

end

/-- A JSON value stands for a type parameter. -/
structure Json.DenotesTypeParam (checks : Checks) (links : List (Link Points))
    (j : Json Points) (p : TypeParam (TypeExpr Points) Points) : Prop where
  name : ∃ value, j.key "name" = .ok value ∧ checks.name value = .ok p.name
  bound : Option.Rel (Json.Denotes checks links) (j.key? "constraint") p.bound
  default : Option.Rel (Json.Denotes checks links) (j.key? "default") p.default

variable {checks : Checks} {links : List (Link Points)} {j : Json Points}

theorem Json.DenotesField.type
    {f : Field (TypeExpr Points) Points}
    (h : j.DenotesField checks links f) :
    ∃ k : Json Points, k.Denotes checks links f.type := by
  cases h with
  | mk _ _ _ ht _ => exact ⟨_, ht⟩

/-- The links of a type that a value stands for are among the given ones. -/
theorem Json.Denotes.every_linksTo
    {t : TypeExpr Points}
    (h : j.Denotes checks links t) :
    t.Every (TypeExpr.LinksTo links) := by
  induction t using TypeExpr.induct generalizing j with
  | verbatim text references ih =>
      cases h with
      | verbatim _ _ _ _ hreferences =>
          refine TypeExpr.every_iff.2 ⟨trivial, ?_⟩
          exact forall_mem_of_forall₂ (forall₂_mem hreferences)
            fun item _ r hr => ih r hr.2.1 hr.2.2
  | model target =>
      cases h with
      | model _ _ htarget => exact TypeExpr.every_iff.2 ⟨htarget.1, by simp [TypeExpr.parts]⟩
  | pending name => cases h
  | param name => exact TypeExpr.every_iff.2 ⟨trivial, by simp [TypeExpr.parts]⟩
  | array element ih =>
      cases h with
      | array _ _ helement =>
          refine TypeExpr.every_iff.2 ⟨trivial, ?_⟩
          intro p hp
          cases List.mem_singleton.1 hp
          exact ih helement
  | keyed key value ihk ihv =>
      cases h with
      | keyed _ _ hkey _ hvalue =>
          refine TypeExpr.every_iff.2 ⟨trivial, ?_⟩
          intro p hp
          rcases List.mem_pair.1 hp with rfl | rfl
          · exact ihk hkey
          · exact ihv hvalue
  | generic name args target ih =>
      cases h with
      | generic _ _ _ _ _ hargs htarget =>
          refine TypeExpr.every_iff.2 ⟨?_, ?_⟩
          · rintro l ⟨⟩
            generalize j.key? "ref" = o at htarget
            cases htarget with
            | some hl => exact hl.1
          · exact forall_mem_of_forall₂ (forall₂_mem hargs) fun item _ a ha => ih a ha.2.1 ha.2.2
  | function args result iha ihr =>
      cases h with
      | function _ _ _ hargs _ hresult =>
          refine TypeExpr.every_function_iff.2 ⟨trivial, ?_, ihr hresult⟩
          refine forall_mem_of_forall₂ (forall₂_mem hargs) fun item _ a ha => ?_
          obtain ⟨k, hk⟩ := ha.2.2.type
          exact iha a ha.2.1 hk

theorem every_linksTo_of_rel
    {value : Option (Json Points)} {part : Option (TypeExpr Points)}
    (h : Option.Rel (Json.Denotes checks links) value part) :
    ∀ t ∈ part, t.Every (TypeExpr.LinksTo links) := by
  rintro t ⟨⟩
  cases h with
  | some ht => exact ht.every_linksTo

theorem Json.DenotesTypeParam.every_linksTo
    {p : TypeParam (TypeExpr Points) Points}
    (h : j.DenotesTypeParam checks links p) :
    ∀ t ∈ p.types, t.Every (TypeExpr.LinksTo links) := by
  refine List.forall_mem_append.2 ⟨?_, ?_⟩
  · exact fun t ht => every_linksTo_of_rel h.bound t (Option.mem_toList.1 ht)
  · exact fun t ht => every_linksTo_of_rel h.default t (Option.mem_toList.1 ht)

end Denotation

section Readers

variable
  {checks : Checks} {headings : List (Model Points)} {links : List (Link Points)}
  {fuel : Nat} {j : Json Points}

/-- Identifiers lead, through the headings, to the links that they name. -/
def Leads (headings : List (Model Points)) (links : List (Link Points)) : Prop :=
  ∀ id l, lookup headings id = .ok l → id.Names links l

theorem readEntry_eq_ok_iff
    {name entry : Json Points} {t : TypeExpr Points} {f : Field (TypeExpr Points) Points} :
    readEntry checks name t entry = .ok f
      ↔
    ∃ text optional, checks.name name = .ok text ∧
      checks.flag ((entry.key? "optional").getD (.bool false)) = .ok optional ∧
      f = ⟨text, t, optional⟩ := by
  unfold readEntry
  dsimp only
  simp only [except_bind_eq_ok_iff, pure, Except.pure, Except.ok.injEq, exists_and_left,
    eq_comm (a := f)]

/-- Fields are read as what they stand for if types are. -/
theorem denotesField_of_readField
    (hread : ∀ k t, readType checks headings fuel k = .ok t → k.Denotes checks links t)
    {f : Field (TypeExpr Points) Points}
    (h : readField checks headings fuel j = .ok f) :
    j.DenotesField checks links f := by
  obtain ⟨name, hname, h⟩ := except_bind_eq_ok_iff.1 h
  obtain ⟨type, htype, h⟩ := except_bind_eq_ok_iff.1 h
  obtain ⟨t, ht, h⟩ := except_bind_eq_ok_iff.1 h
  obtain ⟨text, optional, htext, hoptional, rfl⟩ := readEntry_eq_ok_iff.1 h
  exact .mk hname htext htype (hread type t ht) hoptional

/-- Types are read as what they stand for, if identifiers lead to the links they name. -/
theorem denotes_of_readType
    (hleads : Leads headings links)
    {t : TypeExpr Points}
    (h : readType checks headings fuel j = .ok t) :
    j.Denotes checks links t := by
  induction fuel generalizing j t with
  | zero => cases h
  | succ fuel ih =>
      have heach : ∀ {items : List (Json Points)} {ts : List (TypeExpr Points)},
          readEach (readType checks headings fuel) items = .ok ts →
            List.Forall₂ (Json.Denotes checks links) items ts :=
        fun hts => (readEach_eq_ok_iff.1 hts).imp fun _ _ ht => ih ht
      rw [readType] at h
      obtain ⟨kind, hkind, h⟩ := except_bind_eq_ok_iff.1 h
      -- One case for each constructor of `Json.Denotes`, in its order, and the unknown kinds.
      split at h
      · obtain ⟨name, hname, h⟩ := except_bind_eq_ok_iff.1 h
        obtain ⟨items, hitems, h⟩ := except_bind_eq_ok_iff.1 h
        obtain ⟨references, hreferences, h⟩ := except_bind_eq_ok_iff.1 h
        obtain ⟨text, htext, h⟩ := except_bind_eq_ok_iff.1 h
        cases h
        exact .verbatim hkind hname htext hitems (heach hreferences)
      · obtain ⟨id, hid, h⟩ := except_bind_eq_ok_iff.1 h
        obtain ⟨target, htarget, h⟩ := except_bind_eq_ok_iff.1 h
        cases h
        exact .model hkind hid (hleads id target htarget)
      · obtain ⟨name, hname, h⟩ := except_bind_eq_ok_iff.1 h
        obtain ⟨text, htext, h⟩ := except_bind_eq_ok_iff.1 h
        cases h
        exact .param hkind hname htext
      · obtain ⟨e, he, h⟩ := except_bind_eq_ok_iff.1 h
        obtain ⟨element, helement, h⟩ := except_bind_eq_ok_iff.1 h
        cases h
        exact .array hkind he (ih helement)
      · obtain ⟨k, hk, h⟩ := except_bind_eq_ok_iff.1 h
        obtain ⟨key, hkey, h⟩ := except_bind_eq_ok_iff.1 h
        obtain ⟨v, hv, h⟩ := except_bind_eq_ok_iff.1 h
        obtain ⟨value, hvalue, h⟩ := except_bind_eq_ok_iff.1 h
        cases h
        exact .keyed hkind hk (ih hkey) hv (ih hvalue)
      · obtain ⟨name, hname, h⟩ := except_bind_eq_ok_iff.1 h
        obtain ⟨list, hlist, h⟩ := except_bind_eq_ok_iff.1 h
        obtain ⟨items, hitems, h⟩ := except_bind_eq_ok_iff.1 h
        obtain ⟨args, hargs, h⟩ := except_bind_eq_ok_iff.1 h
        dsimp only at h
        cases href : j.key? "ref" with
        | none =>
            rw [href] at h
            obtain ⟨target, htarget, h⟩ := except_bind_eq_ok_iff.1 h
            cases htarget
            obtain ⟨text, htext, h⟩ := except_bind_eq_ok_iff.1 h
            cases h
            exact .generic hkind hname htext hlist hitems (heach hargs) (href ▸ .none)
        | some id =>
            rw [href] at h
            obtain ⟨target, htarget, h⟩ := except_bind_eq_ok_iff.1 h
            obtain ⟨l, hl, rfl⟩ := except_map_eq_ok_iff.1 htarget
            obtain ⟨text, htext, h⟩ := except_bind_eq_ok_iff.1 h
            cases h
            exact .generic hkind hname htext hlist hitems (heach hargs)
              (href ▸ .some (hleads id l hl))
      · obtain ⟨list, hlist, h⟩ := except_bind_eq_ok_iff.1 h
        obtain ⟨items, hitems, h⟩ := except_bind_eq_ok_iff.1 h
        obtain ⟨args, hargs, h⟩ := except_bind_eq_ok_iff.1 h
        obtain ⟨r, hr, h⟩ := except_bind_eq_ok_iff.1 h
        obtain ⟨result, hresult, h⟩ := except_bind_eq_ok_iff.1 h
        cases h
        have hfields : List.Forall₂ (fun a f => readField checks headings fuel a = .ok f) items args :=
          readEach_eq_ok_iff.1 hargs
        refine .function hkind hlist hitems (hfields.imp fun a f hf => ?_) hr (ih hresult)
        exact denotesField_of_readField (fun k t ht => ih ht) hf
      · cases h

theorem rel_of_readPart
    (hleads : Leads headings links)
    {value : Option (Json Points)} {part : Option (TypeExpr Points)}
    (h : readPart checks headings fuel value = .ok part) :
    Option.Rel (Json.Denotes checks links) value part := by
  cases value with
  | none =>
      cases h
      exact .none
  | some j =>
      obtain ⟨t, ht, rfl⟩ := except_map_eq_ok_iff.1 h
      exact .some (denotes_of_readType hleads ht)

theorem denotesTypeParam_of_readTypeParam
    (hleads : Leads headings links)
    {p : TypeParam (TypeExpr Points) Points}
    (h : readTypeParam checks headings fuel j = .ok p) :
    j.DenotesTypeParam checks links p := by
  obtain ⟨name, hname, h⟩ := except_bind_eq_ok_iff.1 h
  obtain ⟨bound, hbound, h⟩ := except_bind_eq_ok_iff.1 h
  obtain ⟨default, hdefault, h⟩ := except_bind_eq_ok_iff.1 h
  obtain ⟨text, htext, h⟩ := except_bind_eq_ok_iff.1 h
  cases h
  exact ⟨⟨name, hname, htext⟩, rel_of_readPart hleads hbound, rel_of_readPart hleads hdefault⟩

end Readers

section Entries

/-- The identifier of an entry, if it has one. -/
def Json.id? (e : Json Points) : Option (Json Points) :=
  (entryId e).toOption

theorem Json.id?_eq_some_iff {e id : Json Points} : e.id? = some id ↔ entryId e = .ok id := by
  unfold Json.id?
  cases entryId e <;> simp [Except.toOption]

/-- The last of several entries that has an identifier. -/
def lastEntry? (entries : List (Json Points)) (id : Json Points) : Option (Json Points) :=
  (entries.filter fun e => e.id? = some id).getLast?

theorem lastEntry?_concat (entries : List (Json Points)) (e id : Json Points) :
    lastEntry? (entries ++ [e]) id = if e.id? = some id then some e else lastEntry? entries id := by
  unfold lastEntry?
  rw [List.filter_append]
  by_cases h : e.id? = some id
  · simp [h]
  · simp [h]

theorem lastEntry?_eq_some
    {entries : List (Json Points)} {e id : Json Points}
    (h : lastEntry? entries id = some e) :
    e ∈ entries ∧ entryId e = .ok id := by
  obtain ⟨hmem, hid⟩ := List.mem_filter.1 (List.mem_of_getLast? h)
  exact ⟨hmem, Json.id?_eq_some_iff.1 (of_decide_eq_true hid)⟩

/-- An entry whose identifier and name are texts. -/
structure Json.TextEntry (e : Json Points) : Prop where
  id : ∀ id, entryId e = .ok id → ∃ s, id = .str s
  name : ∀ name, e.key "name" = .ok name → ∃ s, name = .str s

end Entries

section Headings

variable
  {models headings : List (Model Points)} {m n : Model Points}
  {seen entries : List (Json Points)} {e : Json Points}

theorem readHeading_eq_ok
    (h : readHeading e = .ok m) :
    e.key "name" = .ok m.name ∧ e.key "kind" = .ok (.str m.kind.word) ∧
      entryId e = .ok m.id ∧ m.heading = m := by
  obtain ⟨name, hname, h⟩ := except_bind_eq_ok_iff.1 h
  obtain ⟨word, hword, h⟩ := except_bind_eq_ok_iff.1 h
  dsimp only at h
  split at h
  · next word =>
      split at h
      · next kind hkind =>
          obtain ⟨_, hok, h⟩ := except_bind_eq_ok_iff.1 h
          cases hok
          obtain ⟨id, hid, h⟩ := except_bind_eq_ok_iff.1 h
          split at h
          · cases h
            exact ⟨hname, (Kind.word_of_ofWord? hkind).symm ▸ hword, hid, rfl⟩
          · cases h
      · cases h
  · cases h

/-- A model replaces the one with its identifier. -/
theorem ids_putModel
    (htexts : ∀ n ∈ models, ∃ s, n.id = .str s) :
    (putModel m models).map (·.id) =
      if m.id ∈ models.map (·.id) then models.map (·.id) else models.map (·.id) ++ [m.id] := by
  induction models with
  | nil => rfl
  | cons n ns ih =>
      obtain ⟨hn, hns⟩ := List.forall_mem_cons.1 htexts
      rw [putModel]
      by_cases hsame : n.id = m.id
      · rw [if_pos ((Json.sameKey_iff_of_text hn).2 hsame)]
        simp [hsame]
      · rw [if_neg fun h => hsame ((Json.sameKey_iff_of_text hn).1 h), List.map_cons, ih hns]
        by_cases hmem : m.id ∈ ns.map (·.id)
        · simp [hmem]
        · simp [hmem, Ne.symm hsame]

theorem mem_putModel
    (h : Identified models)
    (hn : n ∈ putModel m models) :
    n = m ∨ n ∈ models ∧ n.id ≠ m.id := by
  induction models with
  | nil => exact .inl (List.mem_singleton.1 hn)
  | cons k ks ih =>
      obtain ⟨htext, htexts⟩ := List.forall_mem_cons.1 h.text
      obtain ⟨hnew, hnodup⟩ := List.nodup_cons.1 h.nodup
      rw [putModel] at hn
      by_cases hsame : k.id = m.id
      · rw [if_pos ((Json.sameKey_iff_of_text htext).2 hsame)] at hn
        rcases List.mem_cons.1 hn with rfl | hn
        · exact .inl rfl
        · refine .inr ⟨List.mem_cons_of_mem _ hn, fun heq => hnew ?_⟩
          exact List.mem_map.2 ⟨n, hn, heq.trans hsame.symm⟩
      · rw [if_neg fun h => hsame ((Json.sameKey_iff_of_text htext).1 h)] at hn
        rcases List.mem_cons.1 hn with rfl | hn
        · exact .inr ⟨List.mem_cons_self, hsame⟩
        · exact (ih ⟨htexts, hnodup⟩ hn).imp_right (And.imp_left (List.mem_cons_of_mem _))

/-- What has been entered after some entries: one heading for each identifier, in order
of the first entry with it, read from the last one. -/
structure Entered (seen : List (Json Points)) (models : List (Model Points)) : Prop where
  ids_eq : models.map (·.id) = (seen.filterMap Json.id?).eraseDups
  text : ∀ m ∈ models, ∃ s, m.id = .str s
  last : ∀ m ∈ models, ∃ e, lastEntry? seen m.id = some e ∧ readHeading e = .ok m

theorem Entered.identified (h : Entered seen models) : Identified models := by
  refine ⟨h.text, ?_⟩
  rw [h.ids_eq]
  exact nodup_eraseDups _

theorem Entered.concat
    (h : Entered seen models)
    (hm : readHeading e = .ok m)
    (htext : ∃ s, m.id = .str s) :
    Entered (seen ++ [e]) (putModel m models) := by
  have hid : e.id? = some m.id := Json.id?_eq_some_iff.2 (readHeading_eq_ok hm).2.2.1
  refine ⟨?_, ?_, ?_⟩
  · have hseen : m.id ∈ models.map (·.id) ↔ m.id ∈ seen.filterMap Json.id? := by
      rw [h.ids_eq, List.mem_eraseDups]
    have hone : [e].filterMap Json.id? = [m.id] := by simp [hid]
    rw [ids_putModel h.text, List.filterMap_append, hone, eraseDups_concat, h.ids_eq]
    simp only [← h.ids_eq, hseen]
  · intro n hn
    rcases mem_putModel h.identified hn with rfl | ⟨hn, -⟩
    · exact htext
    · exact h.text n hn
  · intro n hn
    rcases mem_putModel h.identified hn with rfl | ⟨hn, hne⟩
    · exact ⟨e, by rw [lastEntry?_concat, if_pos hid], hm⟩
    · have hother : e.id? ≠ some n.id := by
        rw [hid]
        exact fun heq => hne (Option.some.inj heq).symm
      obtain ⟨e', he', hread⟩ := h.last n hn
      exact ⟨e', by rw [lastEntry?_concat, if_neg hother, he'], hread⟩

theorem Entered.append
    (h : Entered seen models)
    (htexts : ∀ e ∈ entries, e.TextEntry)
    (hread : readHeadings models entries = .ok headings) :
    Entered (seen ++ entries) headings := by
  induction entries generalizing seen models with
  | nil =>
      cases hread
      rwa [List.append_nil]
  | cons e entries ih =>
      obtain ⟨he, hentries⟩ := List.forall_mem_cons.1 htexts
      obtain ⟨m, hm, hread⟩ := except_bind_eq_ok_iff.1 hread
      rw [List.append_cons]
      exact ih (h.concat hm (he.id _ (readHeading_eq_ok hm).2.2.1)) hentries hread

theorem Entered.leads (h : Entered seen models) : Leads models (models.map Model.link) := by
  intro id l hl
  unfold lookup at hl
  split at hl
  · split at hl
    · next m hm =>
        cases hl
        have hmem : m ∈ models := List.mem_of_find?_eq_some hm
        have hsame : m.id.sameKey id = true :=
          List.find?_some (p := fun n : Model Points => n.id.sameKey id) hm
        exact ⟨List.mem_map_of_mem hmem, (Json.sameKey_iff_of_text (h.text m hmem)).1 hsame⟩
    · cases hl
  · cases hl

end Headings

section Contents

variable
  {checks : Checks}
  {models headings : List (Model Points)} {links : List (Link Points)} {m : Model Points}
  {seen entries : List (Json Points)} {e : Json Points} {fuel : Nat}

/-- A key of an entry lists what stands for several things. -/
def Json.Lists
    {α : Type} (R : Json Points → α → Prop)
    (e : Json Points) (key : String) (as : List α) : Prop :=
  ∃ items, e.itemsOf key = .ok items ∧ List.Forall₂ R items as

theorem Json.Lists.forall_mem
    {α : Type} {R : Json Points → α → Prop} {P : α → Prop} {key : String} {as : List α}
    (h : e.Lists R key as)
    (hP : ∀ item a, R item a → P a) :
    ∀ a ∈ as, P a := by
  obtain ⟨items, -, h⟩ := h
  exact forall_mem_of_forall₂ h fun item _ a ha => hP item a ha

/-- An entry says what the content of a model is. -/
structure Model.FilledFrom
    (checks : Checks) (links : List (Link Points)) (e : Json Points) (m : Model Points) :
    Prop where
  typeParams : e.Lists (Json.DenotesTypeParam checks links) "typeParameters" m.typeParams
  schema : e.Lists (Json.DenotesField checks links) "schema" m.schema
  heritage : e.Lists (Json.Denotes checks links) "heritage" m.heritage
  dependencies : e.Lists (Json.Names links) "dependencies" m.dependencies
  dependants : e.Lists (Json.Names links) "dependants" m.dependants

/-- An entry says what the name, the kind and the content of a model are. -/
structure Model.ReadFrom
    (checks : Checks) (links : List (Link Points)) (e : Json Points) (m : Model Points) : Prop
    extends m.FilledFrom checks links e where
  name : e.key "name" = .ok m.name
  kind : e.key "kind" = .ok (.str m.kind.word)

theorem Model.FilledFrom.every_linksTo
    (h : m.FilledFrom checks links e) :
    m.Every (TypeExpr.LinksTo links) := by
  refine Model.every_iff.2 ⟨?_, ?_, ?_⟩
  · refine h.schema.forall_mem fun item f hf => ?_
    obtain ⟨k, hk⟩ := hf.type
    exact hk.every_linksTo
  · exact h.typeParams.forall_mem fun item p hp => hp.every_linksTo
  · exact h.heritage.forall_mem fun item t ht => ht.every_linksTo

theorem Model.FilledFrom.edges_mem
    (h : m.FilledFrom checks links e) :
    ∀ l ∈ m.dependencies ++ m.dependants, l ∈ links := by
  refine List.forall_mem_append.2 ⟨?_, ?_⟩
  · exact h.dependencies.forall_mem fun item l hl => hl.1
  · exact h.dependants.forall_mem fun item l hl => hl.1

/-- The content that an entry gives to the model with its identifier. -/
theorem readContent_eq_ok
    (hleads : Leads headings links)
    {models' : List (Model Points)}
    (h : readContent checks headings fuel models e = .ok models') :
    ∃ id, ∃ c : Model Points, entryId e = .ok id ∧ c.FilledFrom checks links e ∧
      models' = models.map fun m => if m.id.sameKey id then m.withContent c else m := by
  obtain ⟨id, hid, h⟩ := except_bind_eq_ok_iff.1 h
  obtain ⟨params, hparams, h⟩ := except_bind_eq_ok_iff.1 h
  obtain ⟨typeParams, htypeParams, h⟩ := except_bind_eq_ok_iff.1 h
  obtain ⟨fields, hfields, h⟩ := except_bind_eq_ok_iff.1 h
  obtain ⟨schema, hschema, h⟩ := except_bind_eq_ok_iff.1 h
  obtain ⟨bases, hbases, h⟩ := except_bind_eq_ok_iff.1 h
  obtain ⟨heritage, hheritage, h⟩ := except_bind_eq_ok_iff.1 h
  obtain ⟨targets, htargets, h⟩ := except_bind_eq_ok_iff.1 h
  obtain ⟨dependencies, hdependencies, h⟩ := except_bind_eq_ok_iff.1 h
  obtain ⟨sources, hsources, h⟩ := except_bind_eq_ok_iff.1 h
  obtain ⟨dependants, hdependants, h⟩ := except_bind_eq_ok_iff.1 h
  cases h
  let c : Model Points :=
    { id, name := id, kind := .interfaceDecl
      typeParams, schema, heritage, dependencies, dependants }
  refine ⟨id, c, hid, ⟨?_, ?_, ?_, ?_, ?_⟩, rfl⟩
  · exact ⟨params, hparams, (readEach_eq_ok_iff.1 htypeParams).imp fun _ _ hp =>
      denotesTypeParam_of_readTypeParam hleads hp⟩
  · exact ⟨fields, hfields, (readEach_eq_ok_iff.1 hschema).imp fun _ _ hf =>
      denotesField_of_readField (fun _ _ ht => denotes_of_readType hleads ht) hf⟩
  · exact ⟨bases, hbases, (readEach_eq_ok_iff.1 hheritage).imp fun _ _ ht =>
      denotes_of_readType hleads ht⟩
  · exact ⟨targets, htargets, (readEach_eq_ok_iff.1 hdependencies).imp hleads⟩
  · exact ⟨sources, hsources, (readEach_eq_ok_iff.1 hdependants).imp hleads⟩

theorem Model.FilledFrom.withContent
    {c : Model Points}
    (h : c.FilledFrom checks links e)
    (m : Model Points) :
    (m.withContent c).FilledFrom checks links e :=
  ⟨h.typeParams, h.schema, h.heritage, h.dependencies, h.dependants⟩

/-- What a heading has become after some entries: a model with that heading, filled from
the last entry with its identifier. -/
structure Filled
    (checks : Checks) (links : List (Link Points)) (seen : List (Json Points))
    (heading m : Model Points) : Prop where
  heading_eq : m.heading = heading
  last : ∀ e, lastEntry? seen heading.id = some e → m.FilledFrom checks links e

theorem Filled.id_eq
    {heading : Model Points}
    (h : Filled checks links seen heading m) :
    m.id = heading.id := by
  rw [← h.heading_eq]
  rfl

theorem filled_concat
    (hleads : Leads headings links)
    (htexts : ∀ h ∈ headings, ∃ s, h.id = .str s)
    (hfilled : List.Forall₂ (Filled checks links seen) headings models)
    {models' : List (Model Points)}
    (hread : readContent checks headings fuel models e = .ok models') :
    List.Forall₂ (Filled checks links (seen ++ [e])) headings models' := by
  obtain ⟨id, c, hid, hc, rfl⟩ := readContent_eq_ok hleads hread
  rw [← Json.id?_eq_some_iff] at hid
  rw [List.forall₂_map_right_iff]
  -- The models that do not have the identifier stay, and so does their last entry.
  refine (forall₂_mem hfilled).imp fun heading m h => ?_
  obtain ⟨hmem, -, h⟩ := h
  have hsame : m.id.sameKey id = true ↔ heading.id = id := by
    rw [h.id_eq]
    exact Json.sameKey_iff_of_text (htexts heading hmem)
  by_cases heq : heading.id = id
  · rw [if_pos (hsame.2 heq)]
    refine ⟨h.heading_eq, fun e' he' => ?_⟩
    rw [lastEntry?_concat, if_pos (heq ▸ hid)] at he'
    cases he'
    exact hc.withContent m
  · rw [if_neg fun hs => heq (hsame.1 hs)]
    refine ⟨h.heading_eq, fun e' he' => h.last e' ?_⟩
    have hother : e.id? ≠ some heading.id := by
      rw [hid]
      exact fun hs => heq (Option.some.inj hs).symm
    rwa [lastEntry?_concat, if_neg hother] at he'

theorem filled_append
    (hleads : Leads headings links)
    (htexts : ∀ h ∈ headings, ∃ s, h.id = .str s)
    (hfilled : List.Forall₂ (Filled checks links seen) headings models)
    {models' : List (Model Points)}
    (hread : readContents checks headings fuel models entries = .ok models') :
    List.Forall₂ (Filled checks links (seen ++ entries)) headings models' := by
  induction entries generalizing seen models with
  | nil =>
      cases hread
      rwa [List.append_nil]
  | cons e entries ih =>
      obtain ⟨next, hnext, hread⟩ := except_bind_eq_ok_iff.1 hread
      rw [List.append_cons]
      exact ih (filled_concat hleads htexts hfilled hnext) hread

end Contents

end DeclGraph
