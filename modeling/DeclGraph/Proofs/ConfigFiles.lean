import DeclGraph.Proofs.Commands
import DeclGraph.Proofs.Passes
import DeclGraph.Proofs.Utf8

/-!
# Options in configuration files

`Configures` says which options a document gives: the defaults if it is empty or null, and
otherwise those of a mapping in which every key has a meaning and every value is one that
its key asks for.  Reading a configuration file gives options exactly if the file holds the
text of a document that configures them (`loadOptions_eq_ok_iff`).

Every other file is refused.  Most refusals are told; `BreaksOff` lists the files on which
reading breaks off without a word.  The bytes may be no text, the reader of YAML may fail
otherwise than on a text that is not YAML, or a key of the mapping may be no text.

All this holds for every reader of YAML, whatever it makes of a text.
-/

namespace DeclGraph

open Yaml (Value)

section Entries

variable {entries : List (Value × Value)} {key : String} {v : Value}

/-- A mapping has no entry with a key. -/
def Lacks (entries : List (Value × Value)) (key : String) : Prop :=
  ∀ e ∈ entries, e.1 ≠ .str (.plain key)

/-- A mapping has a value at a key: of the entries with the key the last one counts. -/
def Holds (entries : List (Value × Value)) (key : String) (v : Value) : Prop :=
  ∃ before after, entries = before ++ (.str (.plain key), v) :: after ∧ Lacks after key

/-- Whether an entry has a key. -/
def hasKey (key : String) (e : Value × Value) : Bool :=
  match e with
  | (.str s, _) => s == .plain key
  | _ => false

theorem hasKey_iff {e : Value × Value} : hasKey key e = true ↔ e.1 = .str (.plain key) := by
  obtain ⟨k, v⟩ := e
  cases k <;> simp [hasKey]

theorem get?_eq (entries : List (Value × Value)) (key : String) :
    Value.get? entries key = (entries.reverse.find? (hasKey key)).map (·.2) :=
  rfl

theorem get?_eq_none_iff : Value.get? entries key = none ↔ Lacks entries key := by
  simp only [get?_eq, Lacks, Option.map_eq_none_iff, List.find?_eq_none, List.mem_reverse,
    hasKey_iff, ne_eq]

theorem get?_eq_some_iff : Value.get? entries key = some v ↔ Holds entries key v := by
  rw [get?_eq, Option.map_eq_some_iff]
  constructor
  · rintro ⟨⟨k, w⟩, hfind, rfl⟩
    obtain ⟨hk, after, before, hsplit, hafter⟩ := List.find?_eq_some_iff_append.1 hfind
    obtain rfl : k = .str (.plain key) := hasKey_iff.1 hk
    refine ⟨before.reverse, after.reverse, ?_, ?_⟩
    · rw [← List.reverse_reverse entries, hsplit]
      simp
    · intro e he hkey
      simpa [hasKey_iff.2 hkey] using hafter e (List.mem_reverse.1 he)
  · rintro ⟨before, after, rfl, hafter⟩
    refine ⟨(.str (.plain key), v), List.find?_eq_some_iff_append.2 ⟨hasKey_iff.2 rfl, after.reverse,
      before.reverse, by simp, ?_⟩, rfl⟩
    intro e he
    have hkey := hafter e (List.mem_reverse.1 he)
    rw [Bool.not_eq_true', ← Bool.not_eq_true, hasKey_iff]
    exact hkey

end Entries

section Documents

variable {entries : List (Value × Value)} {doc : Option Value} {o : Options}

/-- A key with a meaning. -/
def Meant (k : Value) : Prop :=
  k = .str (.plain depthKey) ∨ k = .str (.plain heritageKey)

/-- The options that a document gives. -/
inductive Configures : Option Value → Options → Prop
  | nothing : Configures none { depthLimit := 64, withHeritage := true }
  | null : Configures (some .null) { depthLimit := 64, withHeritage := true }
  | mapping
      {entries : List (Value × Value)} {o : Options}
      (hkeys : ∀ e ∈ entries, Meant e.1)
      (hdepth :
        (Lacks entries depthKey ∧ o.depthLimit = 64) ∨
        (Holds entries depthKey (.int o.depthLimit) ∧ 1 ≤ o.depthLimit))
      (hheritage :
        (Lacks entries heritageKey ∧ o.withHeritage = true) ∨
        Holds entries heritageKey (.bool o.withHeritage)) :
      Configures (some (.map entries)) o

theorem isKnownKey_iff {k : Value} : isKnownKey k = true ↔ Meant k := by
  unfold isKnownKey keyText? Meant
  cases k <;> simp

/-- Some key is no text. -/
theorem mapM_keyText?_eq_none_iff {ks : List Value} :
    ks.mapM keyText? = none ↔ ∃ k ∈ ks, ∀ t, k ≠ .str t := by
  induction ks with
  | nil => simp
  | cons k ks ih =>
      cases k with
      | str t => simp [keyText?, ← Option.eq_none_iff_forall_ne_some, ih]
      | null | bool | int | float | bytes | time | list | set | map | again => simp [keyText?]

/-- What checking the keys of a mapping can give. -/
theorem checkKeys_cases (entries : List (Value × Value)) :
    (checkKeys entries = .ok () ∧ ∀ e ∈ entries, Meant e.1) ∨
    (∃ keys, checkKeys entries = .error (.unknownKeys keys) ∧
      (∃ e ∈ entries, ¬ Meant e.1) ∧ ∀ e ∈ entries, ∃ t, e.1 = .str t) ∨
    (checkKeys entries = .error .strangeKeys ∧ ∃ e ∈ entries, ∀ t, e.1 ≠ .str t) := by
  have hunknown : ∀ k, k ∈ (entries.map (·.1)).filter (fun k => !isKnownKey k) ↔
      (∃ e ∈ entries, e.1 = k) ∧ ¬ Meant k := by
    intro k
    rw [List.mem_filter, List.mem_map, Bool.not_eq_true', ← Bool.not_eq_true, isKnownKey_iff]
  unfold checkKeys
  generalize (entries.map (·.1)).filter (fun k => !isKnownKey k) = unknown at hunknown ⊢
  dsimp only
  split_ifs with hnone
  · refine .inl ⟨rfl, fun e he => ?_⟩
    by_contra hk
    have hmem := (hunknown e.1).2 ⟨⟨e, he, rfl⟩, hk⟩
    rw [List.isEmpty_iff.1 hnone] at hmem
    cases hmem
  · cases hkeys : unknown.mapM keyText? with
    | none =>
        obtain ⟨k, hk, hstrange⟩ := mapM_keyText?_eq_none_iff.1 hkeys
        obtain ⟨⟨e, he, rfl⟩, -⟩ := (hunknown k).1 hk
        exact .inr (.inr ⟨rfl, e, he, hstrange⟩)
    | some keys =>
        obtain ⟨k, hk⟩ := List.exists_mem_of_ne_nil unknown (mt List.isEmpty_iff.2 hnone)
        obtain ⟨⟨e, he, rfl⟩, hunmeant⟩ := (hunknown k).1 hk
        refine .inr (.inl ⟨_, rfl, ⟨e, he, hunmeant⟩, fun e' he' => ?_⟩)
        by_contra! hstrange
        have hmem := (hunknown e'.1).2 ⟨⟨e', he', rfl⟩, fun h => h.elim (hstrange _) (hstrange _)⟩
        have hfails := mapM_keyText?_eq_none_iff.2 ⟨_, hmem, hstrange⟩
        cases hkeys.symm.trans hfails

theorem checkKeys_eq_ok_iff {u : Unit} :
    checkKeys entries = .ok u ↔ ∀ e ∈ entries, Meant e.1 := by
  obtain ⟨hok, hall⟩ | ⟨keys, hunknown, ⟨e, he, hk⟩, -⟩ | ⟨hstrange, e, he, hk⟩ :=
    checkKeys_cases entries
  · exact iff_of_true hok hall
  · rw [hunknown]
    exact iff_of_false nofun fun h => hk (h e he)
  · rw [hstrange]
    exact iff_of_false nofun fun h => (h e he).elim (hk _) (hk _)

theorem checkKeys_eq_strangeKeys_iff :
    checkKeys entries = .error .strangeKeys ↔ ∃ e ∈ entries, ∀ t, e.1 ≠ .str t := by
  obtain ⟨hok, hall⟩ | ⟨keys, hunknown, -, htexts⟩ | ⟨hstrange, hexists⟩ :=
    checkKeys_cases entries
  · rw [hok]
    exact iff_of_false nofun fun ⟨e, he, hk⟩ => (hall e he).elim (hk _) (hk _)
  · rw [hunknown]
    refine iff_of_false nofun fun ⟨e, he, hk⟩ => ?_
    obtain ⟨t, ht⟩ := htexts e he
    exact hk t ht
  · exact iff_of_true hstrange hexists

theorem readDepth_eq_ok_iff {v : Option Value} {n : Int} :
    readDepth v = .ok n ↔ (v = none ∧ n = 64) ∨ (v = some (.int n) ∧ 1 ≤ n) := by
  unfold readDepth
  split
  · simp [eq_comm]
  · split_ifs with h <;> simp <;> grind
  · simp_all

theorem readHeritageChoice_eq_ok_iff {v : Option Value} {b : Bool} :
    readHeritageChoice v = .ok b ↔ (v = none ∧ b = true) ∨ v = some (.bool b) := by
  unfold readHeritageChoice
  split
  case h_1 => simp [eq_comm]
  case h_2 => simp
  case h_3 w hw => simpa using hw b

theorem Configures.one_le_depthLimit
    (h : Configures doc o) :
    1 ≤ o.depthLimit := by
  cases h with
  | nothing => decide
  | null => decide
  | mapping _ hdepth _ =>
      rcases hdepth with ⟨-, hdefault⟩ | ⟨-, hpositive⟩
      · rw [hdefault]
        decide
      · exact hpositive

/-- A document gives options exactly if it configures them. -/
theorem ofValue_eq_ok_iff : Options.ofValue doc = .ok o ↔ Configures doc o := by
  constructor
  · intro h
    unfold Options.ofValue at h
    split at h
    case h_1 =>
      cases h
      exact .nothing
    case h_2 =>
      cases h
      exact .null
    case h_3 entries =>
      simp only [except_bind_eq_ok_iff, checkKeys_eq_ok_iff, readDepth_eq_ok_iff,
        readHeritageChoice_eq_ok_iff, get?_eq_none_iff, get?_eq_some_iff] at h
      obtain ⟨-, hkeys, n, hdepth, b, hheritage, h⟩ := h
      cases h
      exact .mapping hkeys hdepth hheritage
    case h_4 => cases h
  · intro h
    cases h with
    | nothing => rfl
    | null => rfl
    | mapping hkeys hdepth hheritage =>
        simp only [Options.ofValue, except_bind_eq_ok_iff, checkKeys_eq_ok_iff, readDepth_eq_ok_iff,
          readHeritageChoice_eq_ok_iff, get?_eq_none_iff, get?_eq_some_iff]
        exact ⟨(), hkeys, _, hdepth, _, hheritage, rfl⟩

theorem eq_badDepth_of_readDepth
    {v : Option Value} {f : ConfigFault}
    (h : readDepth v = .error f) :
    f = .badDepth := by
  unfold readDepth at h
  split at h
  case h_1 => cases h
  case h_2 =>
    split_ifs at h
    exact (Except.error.inj h).symm
  case h_3 => exact (Except.error.inj h).symm

theorem eq_badHeritage_of_readHeritageChoice
    {v : Option Value} {f : ConfigFault}
    (h : readHeritageChoice v = .error f) :
    f = .badHeritage := by
  unfold readHeritageChoice at h
  split at h
  case h_1 | h_2 => cases h
  case h_3 => exact (Except.error.inj h).symm

/-- What may be wrong with a document.  Something is said of every fault but strange keys. -/
theorem ofValue_eq_error
    {f : ConfigFault}
    (h : Options.ofValue doc = .error f) :
    (f = .strangeKeys ∧
      ∃ entries, doc = some (.map entries) ∧ checkKeys entries = .error .strangeKeys) ∨
    ∀ label, ∃ m, f.message? label = some m := by
  unfold Options.ofValue at h
  split at h
  case h_1 | h_2 => cases h
  case h_3 entries =>
    rw [except_bind_eq_error_iff] at h
    rcases h with hkeys | ⟨-, -, h⟩
    · obtain ⟨hok, -⟩ | ⟨keys, hunknown, -⟩ | ⟨hstrange, -⟩ := checkKeys_cases entries
      · cases hok.symm.trans hkeys
      · cases hunknown.symm.trans hkeys
        exact .inr fun label => ⟨_, rfl⟩
      · cases hstrange.symm.trans hkeys
        exact .inl ⟨rfl, entries, rfl, hstrange⟩
    rw [except_bind_eq_error_iff] at h
    rcases h with hdepth | ⟨n, -, h⟩
    · cases eq_badDepth_of_readDepth hdepth
      exact .inr fun label => ⟨_, rfl⟩
    rw [except_bind_eq_error_iff] at h
    rcases h with hheritage | ⟨b, -, h⟩
    · cases eq_badHeritage_of_readHeritageChoice hheritage
      exact .inr fun label => ⟨_, rfl⟩
    cases h
  case h_4 =>
    cases h
    exact .inr fun label => ⟨_, rfl⟩

theorem ofValue_ne_illFormed {cause : Yaml.Fault} :
    Options.ofValue doc ≠ .error (.illFormed cause) := by
  intro h
  rcases ofValue_eq_error h with ⟨hf, -⟩ | htold
  · cases hf
  · obtain ⟨m, hm⟩ := htold ""
    cases hm

theorem ofValue_eq_strangeKeys_iff :
    Options.ofValue doc = .error .strangeKeys
      ↔
    ∃ entries, doc = some (.map entries) ∧ ∃ e ∈ entries, ∀ t, e.1 ≠ .str t := by
  simp only [← checkKeys_eq_strangeKeys_iff]
  constructor
  · intro h
    rcases ofValue_eq_error h with ⟨-, hstrange⟩ | htold
    · exact hstrange
    · obtain ⟨m, hm⟩ := htold ""
      cases hm
  · rintro ⟨entries, rfl, hstrange⟩
    rw [Options.ofValue, except_bind_eq_error_iff]
    exact .inl hstrange

end Documents

section Files

variable {readYaml : Yaml.Reader} {bytes : List UInt8} {o : Options} {label : String}

/-- Bytes are those of a text, and it is read with one kind of line end. -/
def Spells (bytes : List UInt8) (text : String) : Prop :=
  ∃ s : String, s.toUTF8.toList = bytes ∧ String.ofList (Text.unifyNewlines s.toList) = text

/-- The files on which reading a configuration breaks off. -/
inductive BreaksOff (readYaml : Yaml.Reader) (bytes : List UInt8) : Prop
  | noText
      (hbytes : ∀ s : String, s.toUTF8.toList ≠ bytes) :
      BreaksOff readYaml bytes
  | noValue
      {text : String} {f : Yaml.Fault}
      (htext : Spells bytes text)
      (hread : readYaml text = .error f)
      (hf : f ≠ .malformed) :
      BreaksOff readYaml bytes
  | strangeKey
      {text : String} {entries : List (Value × Value)} {e : Value × Value}
      (htext : Spells bytes text)
      (hread : readYaml text = .ok (some (.map entries)))
      (hentry : e ∈ entries)
      (hkey : ∀ t, e.1 ≠ .str t) :
      BreaksOff readYaml bytes

theorem message?_eq_none_iff
    {f : ConfigFault} :
    f.message? label = none ↔ f = .strangeKeys ∨ ∃ cause, f = .illFormed cause := by
  cases f <;> simp [ConfigFault.message?]

theorem ofYaml_eq_ok_iff
    {text : String} :
    Options.ofYaml readYaml text = .ok o ↔ ∃ doc, readYaml text = .ok doc ∧ Configures doc o := by
  simp only [← ofValue_eq_ok_iff]
  unfold Options.ofYaml
  split <;> simp_all

theorem ofYaml_eq_strangeKeys_iff
    {text : String} :
    Options.ofYaml readYaml text = .error .strangeKeys
      ↔
    ∃ entries, readYaml text = .ok (some (.map entries)) ∧ ∃ e ∈ entries, ∀ t, e.1 ≠ .str t := by
  unfold Options.ofYaml
  split <;> simp_all [ofValue_eq_strangeKeys_iff]

theorem ofYaml_eq_illFormed_iff
    {text : String} {cause : Yaml.Fault} :
    Options.ofYaml readYaml text = .error (.illFormed cause)
      ↔
    readYaml text = .error cause ∧ cause ≠ .malformed := by
  unfold Options.ofYaml
  split
  case h_1 doc hread => simp [hread, ofValue_ne_illFormed]
  case h_2 hread => simp [hread, eq_comm]
  case h_3 f hf hread =>
    have hmalformed : f ≠ .malformed := hf
    rw [hread]
    constructor
    · rintro ⟨⟩
      exact ⟨rfl, hmalformed⟩
    · rintro ⟨⟨⟩, -⟩
      rfl

/-- The bytes of a configuration give options if they spell a text that does. -/
theorem ofBytes_eq_ok_iff :
    Options.ofBytes readYaml label bytes = .ok o
      ↔
    ∃ text, Spells bytes text ∧ Options.ofYaml readYaml text = .ok o := by
  unfold Options.ofBytes Spells
  simp only [← readText_eq_ok_iff]
  cases readText bytes with
  | error f => simp
  | ok text =>
      simp only [Except.ok.injEq, exists_eq_left']
      generalize Options.ofYaml readYaml text = outcome
      cases outcome with
      | ok o' => simp
      | error f => cases f <;> simp [ConfigFault.message?]

/-- The bytes of a configuration are refused without a word if they spell no text, or one of
which nothing is said. -/
theorem ofBytes_broken_iff :
    (∃ cause, Options.ofBytes readYaml label bytes = .error (.broken cause))
      ↔
    (∀ text, ¬ Spells bytes text) ∨
      ∃ text, Spells bytes text ∧
        ∃ f, Options.ofYaml readYaml text = .error f ∧ f.message? label = none := by
  unfold Options.ofBytes Spells
  simp only [← readText_eq_ok_iff]
  cases readText bytes with
  | error f => simp
  | ok text =>
      simp only [Except.ok.injEq, forall_eq', exists_eq_left', false_or]
      generalize Options.ofYaml readYaml text = outcome
      cases outcome with
      | ok o' => simp
      | error f => cases f <;> simp [ConfigFault.message?]

/-- These are the files on which reading breaks off, whatever label they have. -/
theorem breaksOff_iff :
    BreaksOff readYaml bytes
      ↔
    ∃ cause, Options.ofBytes readYaml label bytes = .error (.broken cause) := by
  simp only [ofBytes_broken_iff, message?_eq_none_iff]
  constructor
  · intro h
    cases h with
    | noText hbytes => exact .inl fun text ⟨s, hs, _⟩ => hbytes s hs
    | noValue htext hread hf =>
        exact .inr ⟨_, htext, _, ofYaml_eq_illFormed_iff.2 ⟨hread, hf⟩, .inr ⟨_, rfl⟩⟩
    | strangeKey htext hread hentry hkey =>
        exact .inr ⟨_, htext, _, ofYaml_eq_strangeKeys_iff.2 ⟨_, hread, _, hentry, hkey⟩, .inl rfl⟩
  · rintro (hbytes | ⟨text, htext, f, hf, rfl | ⟨cause, rfl⟩⟩)
    · exact .noText fun s hs => hbytes _ ⟨s, hs, rfl⟩
    · obtain ⟨entries, hread, e, hentry, hkey⟩ := ofYaml_eq_strangeKeys_iff.1 hf
      exact .strangeKey htext hread hentry hkey
    · obtain ⟨hread, hcause⟩ := ofYaml_eq_illFormed_iff.1 hf
      exact .noValue htext hread hcause

variable {σ : Type}

/-- Options are read off the bytes of a file; a file that cannot be read is told. -/
theorem loadOptions_cases (h : Host (StateM σ)) (readYaml : Yaml.Reader) (p : Path) (s : σ) :
    (∃ bytes, (h.read p s).1 = .ok bytes ∧
      (h.loadOptions readYaml p s).1 = Options.ofBytes readYaml p.text bytes) ∨
    ∃ f m, (h.read p s).1 = .error f ∧ (h.loadOptions readYaml p s).1 = .error (.told m) := by
  unfold Host.loadOptions
  rw [stateM_bind_apply]
  generalize h.read p s = r
  obtain ⟨answer, s'⟩ := r
  cases answer with
  | ok bytes => exact .inl ⟨bytes, rfl, rfl⟩
  | error f => cases f <;> exact .inr ⟨_, _, rfl, rfl⟩

theorem loadOptions_eq_ok_iff (h : Host (StateM σ)) (readYaml : Yaml.Reader) (p : Path) (s : σ)
    (o : Options) :
    (h.loadOptions readYaml p s).1 = .ok o
      ↔
    ∃ bytes text doc,
      (h.read p s).1 = .ok bytes ∧ Spells bytes text ∧ readYaml text = .ok doc ∧
      Configures doc o := by
  obtain ⟨bytes, hread, hload⟩ | ⟨f, m, hread, hload⟩ := loadOptions_cases h readYaml p s
  · rw [hload, hread, ofBytes_eq_ok_iff]
    simp [ofYaml_eq_ok_iff]
  · simp [hload, hread]

theorem loadOptions_broken_iff (h : Host (StateM σ)) (readYaml : Yaml.Reader) (p : Path) (s : σ) :
    (∃ cause, (h.loadOptions readYaml p s).1 = .error (.broken cause))
      ↔
    ∃ bytes, (h.read p s).1 = .ok bytes ∧ BreaksOff readYaml bytes := by
  obtain ⟨bytes, hread, hload⟩ | ⟨f, m, hread, hload⟩ := loadOptions_cases h readYaml p s
  · rw [hload, hread, ← breaksOff_iff]
    simp
  · simp [hload, hread]

/-- Whatever the reader of YAML, reading a configuration file gives options exactly if the file
holds the text of a document that configures them, and then the depth is positive.  It breaks
off exactly on the files that `BreaksOff` lists, and every other file is refused with a word. -/
theorem config_file_outcome (h : Host (StateM σ)) (readYaml : Yaml.Reader) (p : Path) (s : σ) :
    (∀ o, (h.loadOptions readYaml p s).1 = .ok o
        ↔
      ∃ bytes text doc,
        (h.read p s).1 = .ok bytes ∧ Spells bytes text ∧ readYaml text = .ok doc ∧
        Configures doc o) ∧
    (∀ o, (h.loadOptions readYaml p s).1 = .ok o → 1 ≤ o.depthLimit) ∧
    ((∃ cause, (h.loadOptions readYaml p s).1 = .error (.broken cause))
        ↔
      ∃ bytes, (h.read p s).1 = .ok bytes ∧ BreaksOff readYaml bytes) ∧
    ((∃ message, (h.loadOptions readYaml p s).1 = .error (.told message))
        ↔
      ∀ bytes, (h.read p s).1 = .ok bytes → ¬ BreaksOff readYaml bytes ∧
        ∀ text doc o, Spells bytes text → readYaml text = .ok doc → ¬ Configures doc o) := by
  have hok := loadOptions_eq_ok_iff h readYaml p s
  have hbroken := loadOptions_broken_iff h readYaml p s
  refine ⟨hok, ?_, hbroken, ?_⟩
  · intro o ho
    obtain ⟨_, _, _, -, -, -, hdoc⟩ := (hok o).1 ho
    exact hdoc.one_le_depthLimit
  · constructor
    · rintro ⟨message, htold⟩ bytes hread
      refine ⟨fun hbreak => ?_, fun text doc o htext hdoc hconf => ?_⟩
      · obtain ⟨cause, hcause⟩ := hbroken.2 ⟨bytes, hread, hbreak⟩
        cases htold.symm.trans hcause
      · cases htold.symm.trans ((hok o).2 ⟨bytes, text, doc, hread, htext, hdoc, hconf⟩)
    · intro hrefused
      rcases hload : (h.loadOptions readYaml p s).1 with (message | cause) | o
      · exact ⟨message, rfl⟩
      · obtain ⟨bytes, hread, hbreak⟩ := hbroken.1 ⟨cause, hload⟩
        exact absurd hbreak (hrefused bytes hread).1
      · obtain ⟨bytes, text, doc, hread, htext, hdoc, hconf⟩ := (hok o).1 hload
        exact absurd hconf ((hrefused bytes hread).2 text doc o htext hdoc)

/-- A disk with a configuration that sets the depth, one with a number for a key, and one whose
byte is no text. -/
def configDisk : Disk where
  entries := [
    (["deep.yaml"], .file "max-type-depth: 3\n".toUTF8.toList),
    (["numbered.yaml"], .file "1: x\n".toUTF8.toList),
    (["torn.yaml"], .file [0xFF])]

theorem config_file_outcome_configDisk :
    (Disk.host.loadOptions Value.read? (Path.ofText "deep.yaml") configDisk).1 = .ok ⟨3, true⟩ ∧
    (∃ cause, (Disk.host.loadOptions Value.read? (Path.ofText "numbered.yaml") configDisk).1 =
      .error (.broken cause)) ∧
    ∃ cause, (Disk.host.loadOptions Value.read? (Path.ofText "torn.yaml") configDisk).1 =
      .error (.broken cause) := by
  have hdeep : Options.ofYaml Value.read? "max-type-depth: 3\n" = .ok ⟨3, true⟩ := by
    decide +kernel
  have hnumbered : Options.ofYaml Value.read? "1: x\n" = .error .strangeKeys := by decide +kernel
  have htorn : Text.decode [0xFF] = .error ⟨0, 1, 0xFF, .invalidStart⟩ := by decide +kernel
  have houtcome := config_file_outcome Disk.host Value.read?
  refine ⟨((houtcome _ _).1 _).2 ?_, (houtcome _ _).2.2.1.2 ?_, (houtcome _ _).2.2.1.2 ?_⟩
  · obtain ⟨doc, hread, hdoc⟩ := ofYaml_eq_ok_iff.1 hdeep
    exact ⟨"max-type-depth: 3\n".toUTF8.toList, "max-type-depth: 3\n", doc, by decide +kernel,
      ⟨_, rfl, by decide +kernel⟩, hread, hdoc⟩
  · have htext : Spells "1: x\n".toUTF8.toList "1: x\n" := ⟨_, rfl, by decide +kernel⟩
    obtain ⟨entries, hread, e, he, hkey⟩ := ofYaml_eq_strangeKeys_iff.1 hnumbered
    exact ⟨_, by decide +kernel, .strangeKey htext hread he hkey⟩
  · refine ⟨[0xFF], by decide +kernel, .noText fun s hs => ?_⟩
    cases (Text.decode_eq_ok_iff.2 hs).symm.trans htorn

end Files

end DeclGraph
