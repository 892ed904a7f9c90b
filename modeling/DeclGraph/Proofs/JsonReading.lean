import DeclGraph.Proofs.JsonText

/-!
# The texts of what is read

A high and a low surrogate stand side by side in a text that is read only if one of them
stands in the source as it is: two escapes that form a pair are read as one character.  So
what is read from a text without surrogates has settled texts (`settled_of_parse?`).

Every reader is followed by one statement: what it reads is settled, and what it leaves is
the end of what it was given.
-/

namespace DeclGraph
namespace Json

section Strings

/-- A list of code points without surrogates. -/
def Chars (ps : List Point) : Prop :=
  ∀ p ∈ ps, ∃ c, p = .char c

theorem Chars.tail
    {p : Point} {ps : List Point}
    (h : Chars (p :: ps)) :
    Chars ps :=
  (List.forall_mem_cons.1 h).2

theorem Chars.of_suffix
    {ps rest : List Point}
    (h : Chars ps)
    (hrest : rest <:+ ps) :
    Chars rest :=
  fun p hp => h p (hrest.mem hp)

/-- What is read as a text, and what is left: no high surrogate stands before a low one, the
text starts with a low surrogate only if what was given does, and the rest is its end. -/
structure ReadsText (ps s rest : List Point) : Prop where
  settled : s.IsChain fun a b => ¬ (a.isHigh = true ∧ b.isLow = true)
  starts_low : ∀ p ∈ s.head?, p.isLow = true → StartsLow ps
  suffix : rest <:+ ps

variable {ps s rest : List Point}

/-- A code point before a text that is read. -/
theorem ReadsText.cons
    {p : Point} {qs : List Point}
    (h : ReadsText qs s rest)
    (hpair : p.isHigh = true → ¬ StartsLow qs)
    (hlow : p.isLow = true → StartsLow ps)
    (hqs : qs <:+ ps) :
    ReadsText ps (p :: s) rest := by
  refine ⟨List.isChain_cons.2 ⟨fun q hq hboth => ?_, h.settled⟩, ?_, h.suffix.trans hqs⟩
  · exact hpair hboth.1 (h.starts_low q hq hboth.2)
  · rintro q ⟨⟩ hq
    exact hlow hq

/-- A code point in front of a text that is read from what follows an escape. -/
theorem ReadsText.of_map
    {p : Point} {qs : List Point}
    (h : (readString qs).map (fun (s, rest) => (p :: s, rest)) = some (s, rest))
    (hread : ∀ {t}, readString qs = some (t, rest) → ReadsText qs t rest)
    (hpair : p.isHigh = true → ¬ StartsLow qs)
    (hlow : p.isLow = true → StartsLow ps)
    (hqs : qs <:+ ps) :
    ReadsText ps s rest := by
  obtain ⟨⟨t, rest'⟩, ht, heq⟩ := Option.map_eq_some_iff.1 h
  cases heq
  exact (hread ht).cons hpair hlow hqs

/-- A unit that is read by itself, in front of a text. -/
theorem ReadsText.of_unit
    {a b c d : Point} {n : Nat} {qs : List Point}
    (hn : unit? a b c d = some n)
    (h : (readString qs).map (fun (s, rest) => (ofUnit n :: s, rest)) = some (s, rest))
    (hread : ∀ {t}, readString qs = some (t, rest) → ReadsText qs t rest)
    (hpair : (ofUnit n).isHigh = true → ¬ StartsLow qs) :
    ReadsText (.char '\\' :: .char 'u' :: a :: b :: c :: d :: qs) s rest :=
  .of_map h hread hpair (fun hlow => ⟨a, b, c, d, n, qs, rfl, hn, hlow⟩)
    ⟨[.char '\\', .char 'u', a, b, c, d], rfl⟩

/-- Two escapes that form a pair are one character, so no escape of a high surrogate that is
read by itself stands before the escape of a low one. -/
theorem readsText_of_readString
    (hps : Chars ps)
    (h : readString ps = some (s, rest)) :
    ReadsText ps s rest := by
  fun_induction readString ps generalizing s with
  | case1 => cases h
  | case2 ps =>
      cases h
      exact ⟨.nil, by simp, List.suffix_cons _ _⟩
  | case3 a b c d a' b' c' d' ps n m hm hn hpair ih =>
      have hqs : ps <:+ .char '\\' :: .char 'u' :: a :: b :: c :: d ::
          .char '\\' :: .char 'u' :: a' :: b' :: c' :: d' :: ps :=
        ⟨[.char '\\', .char 'u', a, b, c, d, .char '\\', .char 'u', a', b', c', d'], rfl⟩
      exact .of_map h (ih (hps.of_suffix hqs)) nofun nofun hqs
  | case4 a b c d a' b' c' d' ps n m hm hn hpair ih =>
      refine .of_unit hn h (ih hps.tail.tail.tail.tail.tail.tail) ?_
      rintro hhigh ⟨_, _, _, _, k, _, heq, hk, hlow⟩
      cases heq
      cases hm.symm.trans hk
      exact hpair (by rw [hhigh, hlow]; rfl)
  | case5 a b c d a' b' c' d' ps n hm hn ih =>
      refine .of_unit hn h (ih hps.tail.tail.tail.tail.tail.tail) ?_
      rintro hhigh ⟨_, _, _, _, k, _, heq, hk, hlow⟩
      cases heq
      cases hm.symm.trans hk
  | case6 => cases h
  | case7 a b c d ps hnext n hn ih =>
      refine .of_unit hn h (ih hps.tail.tail.tail.tail.tail.tail) ?_
      rintro hhigh ⟨a', b', c', d', k, rest, heq, hk, hlow⟩
      exact hnext a' b' c' d' rest heq
  | case8 => cases h
  | case9 c ps _ _ e he ih =>
      exact .of_map h (ih hps.tail.tail) nofun nofun ⟨[.char '\\', .char c], rfl⟩
  | case10 => cases h
  | case11 => cases h
  | case12 p ps _ _ _ _ _ ih =>
      obtain ⟨c, rfl⟩ := hps p List.mem_cons_self
      exact .of_map h (ih hps.tail) nofun nofun (List.suffix_cons _ _)

theorem settled_of_readString
    (hps : Chars ps)
    (h : readString ps = some (s, rest)) :
    (Points.ofList s).Settled := by
  unfold Points.Settled
  rw [Points.toList_ofList]
  exact (readsText_of_readString hps h).settled

end Strings

section Atoms

variable {ps rest : List Point} {j : Json Points}

theorem suffix_readDigits (ps : List Point) : (readDigits ps).2 <:+ ps := by
  fun_induction readDigits ps with
  | case1 c ps hc ds rest heq ih =>
      rw [heq] at ih
      exact ih.trans (List.suffix_cons _ _)
  | case2 c ps hc => exact List.suffix_refl _
  | case3 ps hps => exact List.suffix_refl _

theorem suffix_readFraction (ps : List Point) : ((readFraction ps).getD ([], ps)).2 <:+ ps := by
  fun_cases readFraction ps with
  | case1 ps ds rest hdigits hempty => exact List.suffix_refl _
  | case2 ps ds rest hdigits hsome =>
      have hrest := suffix_readDigits ps
      rw [hdigits] at hrest
      exact hrest.trans (List.suffix_cons _ _)
  | case3 => exact List.suffix_refl _

theorem suffix_of_readExponentDigits
    {negative : Bool} {e : Int × List Point}
    (h : readExponentDigits negative ps = some e) :
    e.2 <:+ ps := by
  unfold readExponentDigits at h
  dsimp only at h
  split at h
  · cases h
  · cases h
    exact suffix_readDigits ps

theorem suffix_of_readExponent
    {e : Int × List Point}
    (h : readExponent ps = some e) :
    e.2 <:+ ps := by
  unfold readExponent at h
  split at h
  · split at h
    · split at h
      · exact (suffix_of_readExponentDigits h).trans ⟨[_, _], rfl⟩
      · exact (suffix_of_readExponentDigits h).trans ⟨[_, _], rfl⟩
      · exact (suffix_of_readExponentDigits h).trans (List.suffix_cons _ _)
    · cases h
  · cases h

theorem suffix_readExponent (ps : List Point) :
    ((readExponent ps).map (·.2)).getD ps <:+ ps := by
  cases h : readExponent ps with
  | none => exact List.suffix_refl _
  | some e => exact suffix_of_readExponent h

theorem suffix_readWhole (ps : List Point) : (readWhole ps).2 <:+ ps := by
  fun_cases readWhole ps with
  | case1 rest => exact List.suffix_cons _ _
  | case2 => exact suffix_readDigits ps

/-- A number has no texts, and what follows it is left. -/
theorem reads_of_readNumber
    {negative : Bool}
    (h : readNumber negative ps = some (j, rest)) :
    j.Settled ∧ rest <:+ ps := by
  -- The digits before the point end at `ps₁`, those behind it at `ps₂`.
  have hwhole : ∀ {ws ps₁}, readWhole ps = (ws, ps₁) → ps₁ <:+ ps := by
    intro ws ps₁ hws
    have hrest := suffix_readWhole ps
    rwa [hws] at hrest
  have hfraction : ∀ {ps₁ fs ps₂}, (readFraction ps₁).getD ([], ps₁) = (fs, ps₂) → ps₂ <:+ ps₁ := by
    intro ps₁ fs ps₂ hfs
    have hrest := suffix_readFraction ps₁
    rwa [hfs] at hrest
  revert h
  fun_cases readNumber negative ps with
  | case1 => exact nofun
  | case2 ws ps₁ hws _ fs ps₂ hfs =>
      intro h
      obtain ⟨rfl, rfl⟩ := Prod.mk.inj (Option.some.inj h)
      exact ⟨.int _, (suffix_readExponent ps₂).trans ((hfraction hfs).trans (hwhole hws))⟩
  | case3 ws ps₁ hws _ fs ps₂ hfs =>
      intro h
      obtain ⟨rfl, rfl⟩ := Prod.mk.inj (Option.some.inj h)
      exact ⟨.float _, (suffix_readExponent ps₂).trans ((hfraction hfs).trans (hwhole hws))⟩

theorem suffix_of_afterWord
    {word : String}
    (h : afterWord word ps = some rest) :
    rest <:+ ps := by
  unfold afterWord at h
  split at h
  · cases h
    exact List.drop_suffix _ _
  · cases h

/-- A word has no texts, and what follows it is left. -/
theorem reads_of_afterWord
    {word : String} {value : Json Points}
    (hvalue : value.Settled)
    (h : (afterWord word ps).map (value, ·) = some (j, rest)) :
    j.Settled ∧ rest <:+ ps := by
  obtain ⟨r, hr, heq⟩ := Option.map_eq_some_iff.1 h
  cases heq
  exact ⟨hvalue, suffix_of_afterWord hr⟩

theorem reads_of_readAtom
    (h : readAtom ps = some (j, rest)) :
    j.Settled ∧ rest <:+ ps := by
  unfold readAtom at h
  split at h
  · exact reads_of_afterWord .null h
  · exact reads_of_afterWord (.bool true) h
  · exact reads_of_afterWord (.bool false) h
  · exact reads_of_afterWord (.float _) h
  · exact reads_of_afterWord (.float _) h
  · split at h
    · rename_i hword
      cases h
      exact ⟨.float _, (suffix_of_afterWord hword).trans (List.suffix_cons _ _)⟩
    · obtain ⟨hj, hrest⟩ := reads_of_readNumber h
      exact ⟨hj, hrest.trans (List.suffix_cons _ _)⟩
  · exact reads_of_readNumber h

end Atoms

section Values

theorem suffix_skipLayout (ps : List Point) : skipLayout ps <:+ ps :=
  List.dropWhile_suffix _

/-- What follows a mark, and the layout before it. -/
theorem suffix_of_skipLayout
    {p : Point} {ps rest tail : List Point}
    (h : skipLayout rest = p :: tail)
    (hrest : rest <:+ ps) :
    tail <:+ ps := by
  have hskip := (suffix_skipLayout rest).trans hrest
  rw [h] at hskip
  exact (List.suffix_cons p tail).trans hskip

/-- The entries of an object whose keys are set one by one. -/
theorem settled_put
    {entries : List (Points × Json Points)} {key : Points} {value : Json Points}
    (h : ∀ e ∈ entries, e.1.Settled ∧ e.2.Settled)
    (hkey : key.Settled)
    (hvalue : value.Settled) :
    ∀ e ∈ put entries key value, e.1.Settled ∧ e.2.Settled := by
  induction entries with
  | nil => exact List.forall_mem_singleton.2 ⟨hkey, hvalue⟩
  | cons entry entries ih =>
      obtain ⟨hentry, hentries⟩ := List.forall_mem_cons.1 h
      rw [put]
      split
      · exact List.forall_mem_cons.2 ⟨⟨hentry.1, hvalue⟩, hentries⟩
      · exact List.forall_mem_cons.2 ⟨hentry, ih hentries⟩

theorem settled_foldl_put
    {es : List (Points × Json Points)}
    (hes : ∀ e ∈ es, e.1.Settled ∧ e.2.Settled)
    (all : List (Points × Json Points))
    (hall : ∀ e ∈ all, e.1.Settled ∧ e.2.Settled) :
    ∀ e ∈ es.foldl (fun all e => put all e.1 e.2) all, e.1.Settled ∧ e.2.Settled := by
  induction es generalizing all with
  | nil => exact hall
  | cons e es ih =>
      obtain ⟨he, hes⟩ := List.forall_mem_cons.1 hes
      exact ih hes _ (settled_put hall he.1 he.2)

/-- What readers of values, items and entries read from code points without surrogates. -/
structure ReadsSettled (fuel : Nat) : Prop where
  value : ∀ {ps j rest}, Chars ps → readValue fuel ps = some (j, rest) → j.Settled ∧ rest <:+ ps
  items : ∀ {ps js rest}, Chars ps → readItems fuel ps = some (js, rest) →
    (∀ j ∈ js, j.Settled) ∧ rest <:+ ps
  entries : ∀ {ps es rest}, Chars ps → readEntries fuel ps = some (es, rest) →
    (∀ e ∈ es, e.1.Settled ∧ e.2.Settled) ∧ rest <:+ ps

variable {fuel : Nat}

theorem ReadsSettled.value_succ
    {ps rest : List Point} {j : Json Points}
    (ih : ReadsSettled fuel)
    (hps : Chars ps)
    (h : readValue (fuel + 1) ps = some (j, rest)) :
    j.Settled ∧ rest <:+ ps := by
  unfold readValue at h
  split at h
  · obtain ⟨⟨s, r⟩, hread, heq⟩ := Option.map_eq_some_iff.1 h
    cases heq
    refine ⟨.str (settled_of_readString hps.tail hread), ?_⟩
    exact (readsText_of_readString hps.tail hread).suffix.trans (List.suffix_cons _ _)
  · rename_i ps
    have hps' : ps <:+ .char '[' :: ps := List.suffix_cons _ _
    split at h
    · rename_i r hclose
      cases h
      exact ⟨.arr (by simp), suffix_of_skipLayout hclose hps'⟩
    · obtain ⟨⟨xs, r⟩, hread, heq⟩ := Option.map_eq_some_iff.1 h
      cases heq
      have hskip := (suffix_skipLayout ps).trans hps'
      obtain ⟨hxs, hrest⟩ := ih.items (hps.of_suffix hskip) hread
      exact ⟨.arr hxs, hrest.trans hskip⟩
  · rename_i ps
    have hps' : ps <:+ .char '{' :: ps := List.suffix_cons _ _
    split at h
    · rename_i r hclose
      cases h
      exact ⟨.obj (by simp) (by simp), suffix_of_skipLayout hclose hps'⟩
    · obtain ⟨⟨es, r⟩, hread, heq⟩ := Option.map_eq_some_iff.1 h
      cases heq
      have hskip := (suffix_skipLayout ps).trans hps'
      obtain ⟨hes, hrest⟩ := ih.entries (hps.of_suffix hskip) hread
      have hall := settled_foldl_put hes [] (by simp)
      exact ⟨.obj (fun e he => (hall e he).1) fun e he => (hall e he).2, hrest.trans hskip⟩
  · exact reads_of_readAtom h

theorem ReadsSettled.items_succ
    {ps rest : List Point} {js : List (Json Points)}
    (ih : ReadsSettled fuel)
    (hps : Chars ps)
    (h : readItems (fuel + 1) ps = some (js, rest)) :
    (∀ j ∈ js, j.Settled) ∧ rest <:+ ps := by
  obtain ⟨⟨j, r⟩, hread, h⟩ := Option.bind_eq_some_iff.1 h
  obtain ⟨hj, hr⟩ := ih.value hps hread
  dsimp only at h
  split at h
  · rename_i tail hclose
    cases h
    exact ⟨List.forall_mem_singleton.2 hj, suffix_of_skipLayout hclose hr⟩
  · rename_i tail hcomma
    obtain ⟨⟨js', r'⟩, hitems, heq⟩ := Option.bind_eq_some_iff.1 h
    cases heq
    have hnext := (suffix_skipLayout tail).trans (suffix_of_skipLayout hcomma hr)
    obtain ⟨hjs, hrest⟩ := ih.items (hps.of_suffix hnext) hitems
    exact ⟨List.forall_mem_cons.2 ⟨hj, hjs⟩, hrest.trans hnext⟩
  · cases h

theorem ReadsSettled.entries_succ
    {ps rest : List Point} {es : List (Points × Json Points)}
    (ih : ReadsSettled fuel)
    (hps : Chars ps)
    (h : readEntries (fuel + 1) ps = some (es, rest)) :
    (∀ e ∈ es, e.1.Settled ∧ e.2.Settled) ∧ rest <:+ ps := by
  unfold readEntries at h
  dsimp only at h
  split at h
  · obtain ⟨⟨key, r⟩, hkey, h⟩ := Option.bind_eq_some_iff.1 h
    have hsettled := settled_of_readString hps.tail hkey
    have hr := (readsText_of_readString hps.tail hkey).suffix.trans (List.suffix_cons (.char '"') _)
    dsimp only at h
    split at h
    · rename_i tail hcolon
      obtain ⟨r₁, hr₁, h⟩ := Option.bind_eq_some_iff.1 h
      cases hr₁
      obtain ⟨⟨j, r₂⟩, hvalue, h⟩ := Option.bind_eq_some_iff.1 h
      have hstart := (suffix_skipLayout tail).trans (suffix_of_skipLayout hcolon hr)
      obtain ⟨hj, hend⟩ := ih.value (hps.of_suffix hstart) hvalue
      have hr₂ := hend.trans hstart
      dsimp only at h
      split at h
      · rename_i tail hclose
        cases h
        exact ⟨List.forall_mem_singleton.2 ⟨hsettled, hj⟩, suffix_of_skipLayout hclose hr₂⟩
      · rename_i tail hcomma
        obtain ⟨⟨es', r'⟩, hentries, heq⟩ := Option.bind_eq_some_iff.1 h
        cases heq
        have hnext := (suffix_skipLayout tail).trans (suffix_of_skipLayout hcomma hr₂)
        obtain ⟨hes, hrest⟩ := ih.entries (hps.of_suffix hnext) hentries
        exact ⟨List.forall_mem_cons.2 ⟨⟨hsettled, hj⟩, hes⟩, hrest.trans hnext⟩
      · cases h
    · cases h
  · cases h

theorem readsSettled (fuel : Nat) : ReadsSettled fuel := by
  induction fuel with
  | zero =>
      refine ⟨?_, ?_, ?_⟩
      · intro ps j rest _ h
        cases h
      · intro ps js rest _ h
        cases h
      · intro ps es rest _ h
        cases h
  | succ fuel ih => exact ⟨ih.value_succ, ih.items_succ, ih.entries_succ⟩

/-- What is read from a text without surrogates has settled texts. -/
theorem settled_of_parse?
    {s : String} {j : Json Points}
    (h : parse? s = some j) :
    j.Settled := by
  have hchars : Chars (Points.plain s).toList := by
    intro p hp
    obtain ⟨c, -, rfl⟩ := List.mem_map.1 hp
    exact ⟨c, rfl⟩
  unfold parse? at h
  dsimp only at h
  split at h
  · rename_i value rest hread
    split at h
    · cases h
      exact ((readsSettled _).value (hchars.of_suffix (suffix_skipLayout _)) hread).1
    · cases h
  · cases h

end Values

end Json
end DeclGraph
