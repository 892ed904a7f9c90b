import DeclGraph.Proofs.ArtifactEntries
import DeclGraph.Proofs.JsonReading

/-!
# What artifacts are read as

Whatever artifact text is read, if identifiers and names are texts, is a graph in normal
form.

* There is one model per identifier, and it is what the last entry with that identifier says.
* The graph can be stored: it is written in every layout, and read back from that text if its
  texts are settled.
* Texts come from the text that is read (section `Texts`).  So they are settled if that text
  had no surrogates in it, and otherwise they need not be: two surrogates side by side are
  written as a pair.
-/

namespace DeclGraph

section Texts

variable {checks : Checks} {links : List (Link Points)} {j v : Json Points} {k : String}

theorem Json.key_eq_ok_iff : j.key k = .ok v ↔ j.key? k = some v := by
  cases j with
  | obj entries =>
      simp only [Json.key, Json.key?]
      cases Json.get? entries k <;> simp
  | _ => simp [Json.key, Json.key?]

theorem Json.Settled.key?
    (h : j.Settled)
    (hv : j.key? k = some v) :
    v.Settled := by
  cases h with
  | obj hkeys hvalues =>
      obtain ⟨e, he, rfl⟩ := Option.map_eq_some_iff.1 hv
      exact hvalues e (List.mem_of_find?_eq_some he)
  | _ => cases hv

theorem Json.Settled.key
    (h : j.Settled)
    (hv : j.key k = .ok v) :
    v.Settled :=
  h.key? (Json.key_eq_ok_iff.1 hv)

theorem Json.Settled.items
    (h : j.Settled)
    {items : List (Json Points)}
    (hitems : j.items = .ok items) :
    ∀ item ∈ items, item.Settled := by
  cases h with
  | arr hall =>
      cases hitems
      exact hall
  | str hs =>
      cases hitems
      refine List.forall_mem_map.2 fun p _ => .str ?_
      unfold Points.Settled
      rw [Points.toList_ofList]
      exact .singleton p
  | obj hkeys hvalues =>
      cases hitems
      exact List.forall_mem_map.2 fun e he => .str (hkeys e he)
  | _ => cases hitems

theorem Json.Settled.itemsOf
    (h : j.Settled)
    {items : List (Json Points)}
    (hitems : j.itemsOf k = .ok items) :
    ∀ item ∈ items, item.Settled := by
  unfold Json.itemsOf at hitems
  cases hv : j.key? k with
  | none =>
      rw [hv] at hitems
      cases hitems
      simp
  | some v =>
      rw [hv] at hitems
      exact (h.key? hv).items hitems

/-- Nothing but a text is taken for a name, and it is taken as it is. -/
def Checks.NamesTexts (checks : Checks) : Prop :=
  ∀ j s, checks.name j = .ok s → j = .str s

theorem namesTexts_standard : Checks.standard.NamesTexts := by
  intro j s h
  cases j with
  | str t =>
      cases h
      rfl
  | _ => cases h

theorem Checks.NamesTexts.settled
    (hnames : checks.NamesTexts)
    (hj : j.Settled)
    {s : Points}
    (h : checks.name j = .ok s) :
    s.Settled := by
  cases hnames j s h
  cases hj with
  | str hs => exact hs

theorem Json.DenotesField.name_settled
    (hnames : checks.NamesTexts)
    (hj : j.Settled)
    {f : Field (TypeExpr Points) Points}
    (h : j.DenotesField checks links f) :
    f.name.Settled := by
  cases h with
  | mk hname htext _ _ _ => exact hnames.settled (hj.key hname) htext

/-- The type of a field stands for a part of what the field stands for. -/
theorem Json.DenotesField.exists_settled_type
    (hj : j.Settled)
    {f : Field (TypeExpr Points) Points}
    (h : j.DenotesField checks links f) :
    ∃ k : Json Points, k.Settled ∧ k.Denotes checks links f.type := by
  cases h with
  | mk _ _ htype ht _ => exact ⟨_, hj.key htype, ht⟩

/-- What stands for a type with settled texts. -/
theorem Json.Denotes.every_settled
    (hnames : checks.NamesTexts)
    (hj : j.Settled)
    {t : TypeExpr Points}
    (h : j.Denotes checks links t) :
    t.Every TypeExpr.Settled := by
  induction t using TypeExpr.induct generalizing j with
  | verbatim text references ih =>
      cases h with
      | verbatim _ hname htext hitems hreferences =>
          refine TypeExpr.every_iff.2 ⟨hnames.settled (hj.key hname) htext, ?_⟩
          exact forall_mem_of_forall₂ (forall₂_mem hreferences)
            fun item hitem r hr => ih r hr.2.1 (hj.itemsOf hitems item hitem) hr.2.2
  | model target => exact TypeExpr.every_iff.2 ⟨trivial, by simp [TypeExpr.parts]⟩
  | pending name => cases h
  | param name =>
      cases h with
      | param _ hname htext =>
          exact TypeExpr.every_iff.2
            ⟨hnames.settled (hj.key hname) htext, by simp [TypeExpr.parts]⟩
  | array element ih =>
      cases h with
      | array _ he helement =>
          refine TypeExpr.every_iff.2 ⟨trivial, ?_⟩
          intro p hp
          cases List.mem_singleton.1 hp
          exact ih (hj.key he) helement
  | keyed key value ihk ihv =>
      cases h with
      | keyed _ hk hkey hv hvalue =>
          refine TypeExpr.every_iff.2 ⟨trivial, ?_⟩
          intro p hp
          rcases List.mem_pair.1 hp with rfl | rfl
          · exact ihk (hj.key hk) hkey
          · exact ihv (hj.key hv) hvalue
  | generic name args target ih =>
      cases h with
      | generic _ hname htext hlist hitems hargs _ =>
          refine TypeExpr.every_iff.2 ⟨hnames.settled (hj.key hname) htext, ?_⟩
          exact forall_mem_of_forall₂ (forall₂_mem hargs)
            fun item hitem a ha => ih a ha.2.1 ((hj.key hlist).items hitems item hitem) ha.2.2
  | function args result iha ihr =>
      cases h with
      | function _ hlist hitems hargs hr hresult =>
          have hall := (hj.key hlist).items hitems
          refine TypeExpr.every_function_iff.2 ⟨?_, ?_, ihr (hj.key hr) hresult⟩
          · exact forall_mem_of_forall₂ (forall₂_mem hargs)
              fun item hitem a ha => ha.2.2.name_settled hnames (hall item hitem)
          · refine forall_mem_of_forall₂ (forall₂_mem hargs) fun item hitem a ha => ?_
            obtain ⟨k, hk, hdenotes⟩ := ha.2.2.exists_settled_type (hall item hitem)
            exact iha a ha.2.1 hk hdenotes

theorem every_settled_of_rel
    (hnames : checks.NamesTexts)
    {value : Option (Json Points)} {part : Option (TypeExpr Points)}
    (hvalue : ∀ k ∈ value, k.Settled)
    (h : Option.Rel (Json.Denotes checks links) value part) :
    ∀ t ∈ part, t.Every TypeExpr.Settled := by
  rintro t ⟨⟩
  cases h with
  | some ht => exact ht.every_settled hnames (hvalue _ rfl)

/-- What is listed under a key of an entry with settled texts. -/
theorem Json.Lists.forall_mem_settled
    {e : Json Points} (he : e.Settled)
    {α : Type} {R : Json Points → α → Prop} {P : α → Prop} {as : List α}
    (h : e.Lists R k as)
    (hP : ∀ item a, item.Settled → R item a → P a) :
    ∀ a ∈ as, P a := by
  obtain ⟨items, hitems, h⟩ := h
  exact forall_mem_of_forall₂ h
    fun item hitem a ha => hP item a (he.itemsOf hitems item hitem) ha

/-- A model that an entry with settled texts says everything about. -/
theorem Model.ReadFrom.settled
    (hnames : checks.NamesTexts)
    {e : Json Points} (he : e.Settled)
    {m : Model Points}
    (h : m.ReadFrom checks links e)
    (hid : entryId e = .ok m.id) :
    m.Settled := by
  have hname := he.key h.name
  refine ⟨?_, hname, Model.every_iff.2 ⟨?_, ?_, ?_⟩, ?_, ?_⟩
  · obtain ⟨name, hname, hid⟩ := except_bind_eq_ok_iff.1 hid
    cases hkey : e.key? "id" with
    | none =>
        rw [hkey] at hid
        cases hid
        exact he.key hname
    | some id =>
        rw [hkey] at hid
        cases hid
        exact he.key? hkey
  · refine h.schema.forall_mem_settled he fun item f hitem hf => ?_
    obtain ⟨k, hk, hdenotes⟩ := hf.exists_settled_type hitem
    exact hdenotes.every_settled hnames hk
  · refine h.typeParams.forall_mem_settled he fun item p hitem hp => ?_
    refine List.forall_mem_append.2 ⟨?_, ?_⟩
    · exact fun t ht => every_settled_of_rel hnames (fun k hk => hitem.key? hk) hp.bound t
        (Option.mem_toList.1 ht)
    · exact fun t ht => every_settled_of_rel hnames (fun k hk => hitem.key? hk) hp.default t
        (Option.mem_toList.1 ht)
  · exact h.heritage.forall_mem_settled he fun item t hitem ht => ht.every_settled hnames hitem
  · exact h.schema.forall_mem_settled he fun item f hitem hf => hf.name_settled hnames hitem
  · refine h.typeParams.forall_mem_settled he fun item p hitem hp => ?_
    obtain ⟨value, hvalue, htext⟩ := hp.name
    exact hnames.settled (hitem.key hvalue) htext

end Texts

section Graphs

/-- The entries of an artifact text. -/
def artifactEntries (text : Points) : List (Json Points) :=
  match Json.parse? text with
  | some j => (j.itemsOf "models").toOption.getD []
  | none => []

/-- A text that is read has entries, and they are read in two passes. -/
theorem exists_passes_of_read
    {checks : Checks} {text : Points} {g : Graph Points}
    (h : Graph.read checks text = .ok g) :
    ∃ headings models fuel,
      readHeadings [] (artifactEntries text) = .ok headings ∧
        readContents checks headings fuel headings (artifactEntries text) = .ok models ∧
        g = ⟨models.map Model.freeze⟩ := by
  unfold Graph.read at h
  split at h
  · cases h
  · next fields hparse =>
      split at h
      · split at h
        · obtain ⟨entries, hentries, h⟩ := except_bind_eq_ok_iff.1 h
          obtain ⟨headings, hheadings, h⟩ := except_bind_eq_ok_iff.1 h
          obtain ⟨models, hmodels, h⟩ := except_bind_eq_ok_iff.1 h
          cases h
          have heq : artifactEntries text = entries := by
            unfold artifactEntries
            rw [hparse]
            show ((Json.obj fields).itemsOf "models").toOption.getD [] = entries
            rw [hentries]
            rfl
          rw [heq]
          exact ⟨headings, models, _, hheadings, hmodels, rfl⟩
        · cases h
      · cases h
  · cases h

/-- Every model of a graph that is read is what the last entry with its identifier says. -/
theorem readFrom_of_read
    {checks : Checks} {text : Points} {g : Graph Points}
    (htexts : ∀ e ∈ artifactEntries text, e.TextEntry)
    (h : Graph.read checks text = .ok g) :
    g.models.map (·.id) = ((artifactEntries text).filterMap Json.id?).eraseDups ∧
    ∀ m ∈ g.models, m.frozen = true ∧
      ∃ e, lastEntry? (artifactEntries text) m.id = some e ∧
        m.ReadFrom checks (g.models.map Model.link) e := by
  obtain ⟨headings, models, fuel, hheadings, hmodels, rfl⟩ := exists_passes_of_read h
  have hentered : Entered (artifactEntries text) headings := by
    have hempty : Entered [] [] := ⟨rfl, by simp, by simp⟩
    exact hempty.append htexts hheadings
  have hempty : List.Forall₂ (Filled checks (headings.map Model.link) []) headings headings := by
    refine List.forall₂_same.2 fun heading hmem => ⟨?_, ?_⟩
    · obtain ⟨e, -, hread⟩ := hentered.last heading hmem
      exact (readHeading_eq_ok hread).2.2.2
    · rintro e ⟨⟩
  have hfilled := filled_append hentered.leads hentered.text hempty hmodels
  rw [List.nil_append] at hfilled
  -- Filling a model changes neither its identifier nor its name.
  have hheading : models.map Model.heading = headings := by
    rw [← List.forall₂_eq_eq_eq, List.forall₂_map_left_iff]
    exact (hfilled.imp fun heading m h => h.heading_eq).flip
  have hlinks : (models.map Model.freeze).map Model.link = headings.map Model.link := by
    rw [← hheading, List.map_map, List.map_map]
    rfl
  have hids : (models.map Model.freeze).map (·.id) = headings.map (·.id) := by
    rw [← hheading, List.map_map, List.map_map]
    rfl
  refine ⟨hids.trans hentered.ids_eq, fun n hn => ?_⟩
  obtain ⟨m, hm, rfl⟩ := List.mem_map.1 hn
  obtain ⟨heading, hmem, hfill⟩ := exists_mem_left_of_forall₂ hfilled m hm
  obtain ⟨e, he, hread⟩ := hentered.last heading hmem
  obtain ⟨hname, hkind, -, -⟩ := readHeading_eq_ok hread
  obtain rfl := hfill.heading_eq
  have hcontent := hfill.last e he
  rw [hlinks]
  exact ⟨rfl, e, he, ⟨hcontent.typeParams, hcontent.schema, hcontent.heritage,
    hcontent.dependencies, hcontent.dependants⟩, hname, hkind⟩

/-- A graph that is read can be stored. -/
theorem storable_of_read
    {checks : Checks} {text : Points} {g : Graph Points}
    (htexts : ∀ e ∈ artifactEntries text, e.TextEntry)
    (h : Graph.read checks text = .ok g) :
    g.Storable := by
  obtain ⟨hids, hmodels⟩ := readFrom_of_read htexts h
  refine ⟨⟨?_, ?_⟩, ?_, ?_, ?_⟩
  · intro m hm
    obtain ⟨-, e, he, -⟩ := hmodels m hm
    obtain ⟨hmem, hid⟩ := lastEntry?_eq_some he
    exact (htexts e hmem).id m.id hid
  · rw [hids]
    exact nodup_eraseDups _
  · intro m hm
    obtain ⟨-, e, he, hread⟩ := hmodels m hm
    exact (htexts e (lastEntry?_eq_some he).1).name m.name hread.name
  · intro m hm
    obtain ⟨-, e, -, hread⟩ := hmodels m hm
    exact hread.every_linksTo
  · intro m hm
    obtain ⟨-, e, -, hread⟩ := hmodels m hm
    exact hread.edges_mem

theorem settled_artifactEntries (s : String) :
    ∀ e ∈ artifactEntries s, e.Settled := by
  unfold artifactEntries
  split
  · rename_i j hparse
    cases hitems : j.itemsOf "models" with
    | error f => simp [Except.toOption]
    | ok items => exact (Json.settled_of_parse? hparse).itemsOf hitems
  · simp

/-- A graph that is read from a text without surrogates has settled texts. -/
theorem settled_of_read
    {checks : Checks} {s : String} {g : Graph Points}
    (hnames : checks.NamesTexts)
    (htexts : ∀ e ∈ artifactEntries s, e.TextEntry)
    (h : Graph.read checks s = .ok g) :
    g.Settled := by
  obtain ⟨-, hmodels⟩ := readFrom_of_read htexts h
  intro m hm
  obtain ⟨-, e, he, hread⟩ := hmodels m hm
  obtain ⟨hmem, hid⟩ := lastEntry?_eq_some he
  exact hread.settled hnames (settled_artifactEntries s e hmem) hid

/-- A graph that can be stored is written, whatever its texts are. -/
theorem Graph.Storable.exists_write
    {g : Graph Points}
    (h : g.Storable)
    (l : Layout) :
    ∃ text, g.write l = .ok text := by
  obtain ⟨j, hj⟩ := exists_toJson_of_not_pending fun m hm t ht name hname =>
    h.types_linked m hm t ht _ hname
  exact ⟨j.render l, Graph.write_eq_of_toJson hj l⟩

/-- Whatever text is read, if the identifiers and names in it are texts, is a graph in
normal form.  Its models are the identifiers of the entries, each once and in order of
their first entries; each model is read-only and is what the last entry with its
identifier says, where every link leads to the model of the graph that the text names.
The graph is written in every layout.  If its texts are settled, that text is read as the
same graph; and they are settled if the text has no surrogates in it. -/
theorem read_normal_form
    (checks : Checks)
    (hkeep : checks.Keeping)
    (hnames : checks.NamesTexts)
    (text : Points) (g : Graph Points)
    (hread : Graph.read checks text = .ok g)
    (htexts : ∀ e ∈ artifactEntries text, e.TextEntry) :
    (g.models.map (·.id)).Nodup ∧
    g.models.map (·.id) = ((artifactEntries text).filterMap Json.id?).eraseDups ∧
    (∀ m ∈ g.models, m.frozen = true ∧
      ∃ e, lastEntry? (artifactEntries text) m.id = some e ∧
        m.ReadFrom checks (g.models.map Model.link) e) ∧
    (∀ l : Layout, ∃ text' : String, g.write l = .ok text' ∧
      (g.Settled → Graph.read checks text' = .ok g)) ∧
    (∀ s : String, text = s → g.Settled) := by
  obtain ⟨hids, hmodels⟩ := readFrom_of_read htexts hread
  have hstorable := storable_of_read htexts hread
  have hfrozen := map_freeze_of_frozen fun m hm => (hmodels m hm).1
  refine ⟨hstorable.identified.nodup, hids, hmodels, fun l => ?_, ?_⟩
  · obtain ⟨text', hwrite⟩ := hstorable.exists_write l
    refine ⟨text', hwrite, fun hsettled => ?_⟩
    obtain ⟨text₂, hwrite₂, hread'⟩ := hstorable.read_write hkeep hsettled l
    cases hwrite.symm.trans hwrite₂
    rw [hfrozen] at hread'
    exact hread'
  · rintro s rfl
    exact settled_of_read hnames htexts hread

/-- Entries edited by hand: the identifier `a` stands twice, the second time with another
name and another kind, and one entry has nothing but a name and a kind. -/
def editedEntries : List (Json Points) :=
  [.obj [entry "id" (.str "a"), entry "name" (.str "A"), entry "kind" (.str "interface"),
      entry "dependants" (.arr [.str "b"])],
    .obj [entry "name" (.str "b"), entry "kind" (.str "class")],
    .obj [entry "id" (.str "a"), entry "name" (.str "C"), entry "kind" (.str "alias"),
      entry "schema" (.arr [.obj [entry "name" (.str "f"), entry "optional" (.bool true),
        entry "type" (.obj [entry "kind" (.str "model"), entry "ref" (.str "b")])]]),
      entry "dependencies" (.arr [.str "b", .str "a"])]]

def editedArtifact : Json Points :=
  .obj [entry "v" (.str formatVersion), entry "models" (.arr editedEntries)]

theorem parse?_editedArtifact :
    Json.parse? (editedArtifact.render .compact) = some editedArtifact := by
  refine Json.parse?_render ?_ .compact
  simp [editedArtifact, editedEntries, Json.plain_arr_iff, Json.plain_obj_iff]

/-- The types in the entries are one level deep, so every bound on the nesting is enough. -/
theorem ofJson_editedArtifact (fuel : Nat) :
    (Graph.ofJson .standard (fuel + 1) editedArtifact).toOption.map
      (fun g => g.models.map fun m => (m.id, m.name)) =
        some [(.str "a", .str "C"), (.str "b", .str "b")] :=
  rfl

theorem read_normal_form_editedArtifact :
    (∀ e ∈ artifactEntries (editedArtifact.render .compact), e.TextEntry) ∧
    ∃ g, Graph.read .standard (editedArtifact.render .compact) = .ok g ∧
      g.models.map (fun m => (m.id, m.name)) = [(.str "a", .str "C"), (.str "b", .str "b")] ∧
      (∀ m ∈ g.models, m.frozen = true) ∧
      ∃ text : String, g.write (.indented 2) = .ok text ∧ Graph.read .standard text = .ok g := by
  have hentries : artifactEntries (editedArtifact.render .compact) = editedEntries := by
    rw [artifactEntries, parse?_editedArtifact]
    rfl
  have htexts : ∀ e ∈ artifactEntries (editedArtifact.render .compact), e.TextEntry := by
    rw [hentries]
    simp only [editedEntries, List.forall_mem_cons]
    refine ⟨⟨?_, ?_⟩, ⟨?_, ?_⟩, ⟨?_, ?_⟩, by simp⟩
    all_goals
      rintro value ⟨⟩
      exact ⟨_, rfl⟩
  have hread : (Graph.read .standard (editedArtifact.render .compact)).toOption.map
      (fun g => g.models.map fun m => (m.id, m.name)) =
        some [(.str "a", .str "C"), (.str "b", .str "b")] := by
    rw [Graph.read, parse?_editedArtifact]
    exact ofJson_editedArtifact (Points.plain (editedArtifact.render .compact)).toList.length
  obtain ⟨g, hg, hids⟩ := except_exists_ok_of_toOption_map hread
  obtain ⟨-, -, hmodels, hwritten, hsettled⟩ :=
    read_normal_form .standard keeping_standard namesTexts_standard _ g hg htexts
  obtain ⟨text, hwrite, hread⟩ := hwritten (.indented 2)
  exact ⟨htexts, g, hg, hids, fun m hm => (hmodels m hm).1, text, hwrite,
    hread (hsettled _ rfl)⟩

/-- Two entries: the name of the first is a high surrogate as it is and the escape of a low
one, that of the second is the character which their escapes side by side stand for. -/
def splitPair : Points :=
  .cut "\x7b\"v\":\"1\",\"models\":[\x7b\"name\":\"" ⟨0x3D, by decide⟩
    (.plain ("\\ude00\",\"kind\":\"interface\"\x7d," ++
      "\x7b\"name\":\"\\ud83d\\ude00\",\"kind\":\"class\"\x7d]\x7d"))

/-- The name of the first entry. -/
def splitName : Points :=
  .cut "" ⟨0x3D, by decide⟩ (.cut "" ⟨0x600, by decide⟩ "")

theorem parse?_splitPair :
    Json.parse? splitPair = some (.obj [entry "v" (.str formatVersion), entry "models" (.arr
      [.obj [entry "name" (.str splitName), entry "kind" (.str "interface")],
        .obj [entry "name" (.str "😀"), entry "kind" (.str "class")]])]) := by
  decide +kernel

/-- A model of a name and a kind only, as it is written. -/
def bareModel (name : Points) (kind : String) : Json Points :=
  .obj [entry "id" (.str name), entry "name" (.str name), entry "kind" (.str kind),
    entry "typeParameters" (.arr []), entry "schema" (.arr []), entry "heritage" (.arr []),
    entry "dependencies" (.arr []), entry "dependants" (.arr [])]

def bareArtifact (models : List (Json Points)) : Json Points :=
  .obj [entry "v" (.str formatVersion), entry "models" (.arr models)]

/-- The two names have the same escapes. -/
theorem render_splitName :
    (bareArtifact [bareModel splitName "interface", bareModel "😀" "class"]).render .compact =
      (bareArtifact [bareModel "😀" "interface", bareModel "😀" "class"]).render .compact := by
  have hname : Json.writeString splitName = Json.writeString "😀" := by decide +kernel
  simp only [Json.render, bareArtifact, bareModel, Json.write, Json.writeItems, Json.writeEntries,
    hname]

/-- Surrogates side by side that were not read as a pair are written as one: of two models
only one is left when the text is read again. -/
theorem split_pair_joined :
    (∀ e ∈ artifactEntries splitPair, e.TextEntry) ∧
    ∃ g g', ∃ text : String,
      Graph.read .standard splitPair = .ok g ∧ g.write .compact = .ok text ∧
      Graph.read .standard text = .ok g' ∧
      g.toJson = .ok (bareArtifact [bareModel splitName "interface", bareModel "😀" "class"]) ∧
      g'.toJson = .ok (bareArtifact [bareModel "😀" "class"]) := by
  refine ⟨?_, ?_⟩
  · rw [artifactEntries, parse?_splitPair]
    refine List.forall_mem_cons.2 ⟨⟨?_, ?_⟩, List.forall_mem_singleton.2 ⟨?_, ?_⟩⟩
    all_goals
      rintro value ⟨⟩
      exact ⟨_, rfl⟩
  · have hfirst : (Graph.read .standard splitPair >>= Graph.toJson) =
        .ok (bareArtifact [bareModel splitName "interface", bareModel "😀" "class"]) := by
      rw [Graph.read, parse?_splitPair]
      rfl
    obtain ⟨g, hg, hjson⟩ := except_bind_eq_ok_iff.1 hfirst
    have hplain : (bareArtifact [bareModel "😀" "interface", bareModel "😀" "class"]).Plain := by
      simp [bareArtifact, bareModel, Json.plain_arr_iff, Json.plain_obj_iff]
    have hsecond : (Graph.read .standard ((bareArtifact [bareModel splitName "interface",
        bareModel "😀" "class"]).render .compact) >>= Graph.toJson) =
        .ok (bareArtifact [bareModel "😀" "class"]) := by
      rw [render_splitName, Graph.read, Json.parse?_render hplain]
      rfl
    obtain ⟨g', hg', hjson'⟩ := except_bind_eq_ok_iff.1 hsecond
    exact ⟨g, g', _, hg, Graph.write_eq_of_toJson hjson .compact, hg', hjson, hjson'⟩

end Graphs

end DeclGraph
