import DeclGraph.Json.Parser
import DeclGraph.Json.Printer
import Mathlib.Data.List.Chain
import Mathlib.Data.List.Nodup

/-!
# JSON text reads back

The text of a JSON value without numbers, whose objects have different keys, is read
back as that value, in every layout, if its texts are `Points.Settled`: no high surrogate
stands right before a low one.

* Strings: the escape of a code point is read as that code point, whatever follows it.
  A character beyond the first plane is written as two units, which are read as one
  character; a high surrogate is the only other code point whose escape could start such
  a pair, and then what follows it is not the escape of a low one.
* Values: the text of a value starts with a mark that is neither layout nor a closing
  bracket, so the layout before it is skipped and no more.
* The number of characters bounds the number of nested readings.
-/

namespace DeclGraph

section Settled

/-- No high surrogate stands right before a low one. -/
def Points.Settled (p : Points) : Prop :=
  p.toList.IsChain fun a b => ¬ (a.isHigh = true ∧ b.isLow = true)

theorem isChain_map_char (cs : List Char) :
    (cs.map Point.char).IsChain fun a b => ¬ (a.isHigh = true ∧ b.isLow = true) := by
  induction cs with
  | nil => exact .nil
  | cons c cs ih =>
      refine List.isChain_cons.2 ⟨fun q _ hpair => ?_, ih⟩
      cases hpair.1

/-- A text without surrogates is settled. -/
@[simp]
theorem Points.settled_plain (s : String) : (Points.plain s).Settled :=
  isChain_map_char s.toList

/-- Every text in a JSON value is settled. -/
inductive Json.Settled : Json Points → Prop
  | null : Settled .null
  | bool (b : Bool) : Settled (.bool b)
  | int (n : Int) : Settled (.int n)
  | float (x : Binary64) : Settled (.float x)
  | str {s : Points}
      (hs : s.Settled) :
      Settled (.str s)
  | arr {items : List (Json Points)}
      (hitems : ∀ j ∈ items, Settled j) :
      Settled (.arr items)
  | obj {entries : List (Points × Json Points)}
      (hkeys : ∀ e ∈ entries, e.1.Settled)
      (hvalues : ∀ e ∈ entries, Settled e.2) :
      Settled (.obj entries)

end Settled

namespace Json

open Text (hex)

section Spelling

/-- Characters as code points. -/
def spell (cs : List Char) : List Point :=
  cs.map .char

@[simp]
theorem spell_nil : spell [] = [] :=
  rfl

@[simp]
theorem spell_cons (c : Char) (cs : List Char) : spell (c :: cs) = .char c :: spell cs :=
  rfl

@[simp]
theorem spell_append (cs ds : List Char) : spell (cs ++ ds) = spell cs ++ spell ds :=
  List.map_append

end Spelling

section Units

theorem hexValue?_digitChar :
    ∀ k < 16, hexValue? (.char (Nat.digitChar k)) = some k := by
  decide

/-- The last of several hexadecimal digits. -/
theorem hex_succ
    {width : Nat}
    (hwidth : 0 < width)
    (n : Nat) :
    hex (width + 1) n = hex width (n / 16) ++ [Nat.digitChar (n % 16)] := by
  unfold hex
  by_cases hn : n < 16
  · rw [Nat.toDigits_of_lt_base hn, Nat.div_eq_of_lt hn, Nat.mod_eq_of_lt hn, Nat.toDigits_zero]
    obtain ⟨w, rfl⟩ := Nat.exists_eq_succ_of_ne_zero (Nat.ne_of_gt hwidth)
    simp [List.replicate_succ']
  · rw [Nat.toDigits_of_base_le (by decide) (Nat.le_of_not_lt hn)]
    simp

/-- Four hexadecimal digits are read as the number they were written for. -/
theorem unit?_hex
    {n : Nat}
    (hn : n < 0x10000) :
    ∃ a b c d, hex 4 n = [a, b, c, d] ∧
      unit? (.char a) (.char b) (.char c) (.char d) = some n := by
  refine ⟨Nat.digitChar (n / 16 / 16 / 16), Nat.digitChar (n / 16 / 16 % 16),
    Nat.digitChar (n / 16 % 16), Nat.digitChar (n % 16), ?_, ?_⟩
  · have hone : hex 1 (n / 16 / 16 / 16) = [Nat.digitChar (n / 16 / 16 / 16)] := by
      unfold hex
      rw [Nat.toDigits_of_lt_base (by omega)]
      rfl
    rw [hex_succ (by decide), hex_succ (by decide), hex_succ (by decide), hone]
    rfl
  · unfold unit?
    rw [hexValue?_digitChar _ (by omega), hexValue?_digitChar _ (by omega),
      hexValue?_digitChar _ (by omega), hexValue?_digitChar _ (by omega)]
    simp
    omega

/-- The number of a character is none of a surrogate. -/
theorem toNat_valid (c : Char) :
    c.toNat < 0xD800 ∨ (0xDFFF < c.toNat ∧ c.toNat < 0x110000) :=
  c.valid

theorem ofUnit_toNat (c : Char) : ofUnit c.toNat = .char c := by
  have hvalid := toNat_valid c
  rw [ofUnit, dif_neg (by omega), Char.ofNat_toNat]

theorem ofUnit_code (n : Surrogate) : ofUnit (Point.surrogate n).code = .surrogate n := by
  obtain ⟨n, hn⟩ := n
  simp only [Point.code]
  rw [ofUnit, dif_pos (by omega)]
  simp

/-- The first unit of a pair is a high surrogate. -/
theorem isHigh_ofUnit
    {m : Nat}
    (hm : m < 0x400) :
    (ofUnit (0xD800 + m)).isHigh = true := by
  rw [ofUnit, dif_pos (by omega), Point.isHigh, decide_eq_true_eq, Fin.lt_def]
  show 0xD800 + m - 0xD800 < 0x400
  omega

/-- The second unit of a pair is a low surrogate. -/
theorem isLow_ofUnit
    {m : Nat}
    (hm : m < 0x400) :
    (ofUnit (0xDC00 + m)).isLow = true := by
  rw [ofUnit, dif_pos (by omega), Point.isLow, decide_eq_true_eq, Fin.le_def]
  show 0x400 ≤ 0xDC00 + m - 0xD800
  omega

theorem not_isLow_of_isHigh
    {p : Point}
    (h : p.isHigh = true) :
    p.isLow = false := by
  cases p with
  | char c => rfl
  | surrogate n => simpa [Point.isHigh, Point.isLow] using h

end Units

section Strings

/-- Prepends a code point to what is read. -/
def prepend (p : Point) (read : Option (List Point × List Point)) :
    Option (List Point × List Point) :=
  read.map fun (s, rest) => (p :: s, rest)

/-- A text starts with the escape of a low surrogate. -/
def StartsLow (ps : List Point) : Prop :=
  ∃ a b c d n rest, ps = .char '\\' :: .char 'u' :: a :: b :: c :: d :: rest ∧
    unit? a b c d = some n ∧ (ofUnit n).isLow = true

/-- A unit is read as a code point of its own, unless it starts a pair. -/
theorem readString_unit
    {a b c d : Point} {n : Nat} {ps : List Point}
    (hunit : unit? a b c d = some n)
    (hpair : ¬ ((ofUnit n).isHigh = true ∧ StartsLow ps)) :
    readString (.char '\\' :: .char 'u' :: a :: b :: c :: d :: ps) =
      prepend (ofUnit n) (readString ps) := by
  -- Whether another unit follows decides which rule of the reader applies.
  by_cases hnext : ∃ a' b' c' d' rest, ps = .char '\\' :: .char 'u' :: a' :: b' :: c' :: d' :: rest
  · obtain ⟨a', b', c', d', rest, rfl⟩ := hnext
    rw [readString.eq_3, hunit]
    cases hunit' : unit? a' b' c' d' with
    | none => rfl
    | some m =>
        have hne : ¬ ((ofUnit n).isHigh && (ofUnit m).isLow) = true := by
          rw [Bool.and_eq_true]
          exact fun h => hpair ⟨h.1, a', b', c', d', m, rest, rfl, hunit', h.2⟩
        dsimp only
        rw [if_neg hne]
        rfl
  · rw [readString.eq_4 a b c d ps fun a' b' c' d' rest h => hnext ⟨a', b', c', d', rest, h⟩, hunit]
    rfl

/-- Two units that form a pair are read as one character. -/
theorem readString_pair
    {a b c d a' b' c' d' : Point} {n m : Nat}
    (hunit : unit? a b c d = some n)
    (hunit' : unit? a' b' c' d' = some m)
    (hn : (ofUnit n).isHigh = true)
    (hm : (ofUnit m).isLow = true)
    (ps : List Point) :
    readString (.char '\\' :: .char 'u' :: a :: b :: c :: d ::
        .char '\\' :: .char 'u' :: a' :: b' :: c' :: d' :: ps) =
      prepend (.char (ofPair n m)) (readString ps) := by
  rw [readString.eq_3, hunit, hunit']
  dsimp only
  rw [hn, hm]
  rfl

/-- A letter after a backslash is read as the character it stands for. -/
theorem readString_named
    {c e : Char}
    (hc : c ≠ 'u')
    (hnamed : namedEscape? c = some e)
    (ps : List Point) :
    readString (.char '\\' :: .char c :: ps) = prepend (.char e) (readString ps) := by
  rw [readString.eq_5 c ps (fun _ _ _ _ _ _ _ _ _ _ h => hc h)
    (fun _ _ _ _ _ _ h => hc h), hnamed]
  rfl

theorem readString_plain
    {p : Point}
    (hquote : p ≠ .char '"')
    (hslash : p ≠ .char '\\')
    (hprint : 0x20 ≤ p.code)
    (ps : List Point) :
    readString (p :: ps) = prepend p (readString ps) := by
  rw [readString.eq_6 p ps hquote (fun _ _ _ _ _ _ _ _ _ h => absurd h hslash)
    (fun _ _ _ _ _ h => absurd h hslash) (fun _ _ h => absurd h hslash), if_neg]
  · rfl
  · simp [hslash, Nat.not_lt.2 hprint]

/-- The escape of a unit is read as the code point of the unit, unless it starts a pair. -/
theorem readString_escapeUnit
    {n : Nat}
    (hn : n < 0x10000)
    (ps : List Point)
    (hpair : ¬ ((ofUnit n).isHigh = true ∧ StartsLow ps)) :
    readString (spell (escapeUnit n) ++ ps) = prepend (ofUnit n) (readString ps) := by
  obtain ⟨a, b, d, e, hhex, hunit⟩ := unit?_hex hn
  unfold escapeUnit
  rw [hhex]
  exact readString_unit hunit hpair

theorem readString_escapePair
    {c : Char}
    (hc : 0x10000 ≤ c.toNat)
    (ps : List Point) :
    readString (spell (escapeUnit (0xD800 + (c.toNat - 0x10000) / 0x400) ++
        escapeUnit (0xDC00 + (c.toNat - 0x10000) % 0x400)) ++ ps) =
      prepend (.char c) (readString ps) := by
  have hvalid := toNat_valid c
  have hm : c.toNat - 0x10000 < 0x100000 := by omega
  generalize hdef : c.toNat - 0x10000 = m at hm
  obtain ⟨a, b, d, e, hhex, hunit⟩ := unit?_hex (n := 0xD800 + m / 0x400) (by omega)
  obtain ⟨a', b', d', e', hhex', hunit'⟩ := unit?_hex (n := 0xDC00 + m % 0x400) (by omega)
  have hjoin : ofPair (0xD800 + m / 0x400) (0xDC00 + m % 0x400) = c := by
    have hnumber : 0x10000 + (0xD800 + m / 0x400 - 0xD800) * 0x400 +
        (0xDC00 + m % 0x400 - 0xDC00) = c.toNat := by
      omega
    rw [ofPair, hnumber, Char.ofNat_toNat]
  unfold escapeUnit
  rw [hhex, hhex', ← hjoin]
  exact readString_pair hunit hunit' (isHigh_ofUnit (by omega)) (isLow_ofUnit (by omega)) ps

/-- The escape of a character is read as that character, whatever follows. -/
theorem readString_escapeChar (c : Char) (ps : List Point) :
    readString (spell (escapeChar c) ++ ps) = prepend (.char c) (readString ps) := by
  unfold escapeChar
  dsimp only
  split_ifs with hmark hline hreturn htab hfeed hback hprint hplane
  · rcases Bool.or_eq_true_iff.1 hmark with h | h
    · cases eq_of_beq h
      exact readString_named (by decide) rfl ps
    · cases eq_of_beq h
      exact readString_named (by decide) rfl ps
  · cases eq_of_beq hline
    exact readString_named (by decide) rfl ps
  · cases eq_of_beq hreturn
    exact readString_named (by decide) rfl ps
  · cases eq_of_beq htab
    exact readString_named (by decide) rfl ps
  · cases eq_of_beq hfeed
    exact readString_named (by decide) rfl ps
  · cases eq_of_beq hback
    exact readString_named (by decide) rfl ps
  · have hbounds : 0x20 ≤ c.toNat ∧ c.toNat ≤ 0x7E := by simpa using hprint
    have hnot : c ≠ '"' ∧ c ≠ '\\' := by simpa using hmark
    exact readString_plain (p := .char c) (by simpa using hnot.1) (by simpa using hnot.2)
      hbounds.1 ps
  · have hread := readString_escapeUnit hplane ps
    rw [ofUnit_toNat] at hread
    exact hread (by simp [Point.isHigh])
  · exact readString_escapePair (Nat.le_of_not_lt hplane) ps

/-- The escape of a code point is read as that code point, unless it starts a pair with
what follows. -/
theorem readString_escape
    {p : Point} {ps : List Point}
    (hpair : ¬ (p.isHigh = true ∧ StartsLow ps)) :
    readString (spell (escape p) ++ ps) = prepend p (readString ps) := by
  cases p with
  | char c => exact readString_escapeChar c ps
  | surrogate n =>
      have hcode : (Point.surrogate n).code < 0x10000 := by
        simp only [Point.code]
        omega
      have hread := readString_escapeUnit hcode ps
      rw [ofUnit_code] at hread
      exact hread hpair

theorem not_startsLow_of_ne
    {p : Point}
    (h : p ≠ .char '\\')
    (ps : List Point) :
    ¬ StartsLow (p :: ps) := by
  rintro ⟨a, b, c, d, n, rest, hsplit, -⟩
  exact h (List.cons.inj hsplit).1

theorem not_startsLow_named
    {c : Char}
    (h : c ≠ 'u')
    (ps : List Point) :
    ¬ StartsLow (.char '\\' :: .char c :: ps) := by
  rintro ⟨a, b, c', d, n, rest, hsplit, -⟩
  exact h (Point.char.inj (List.cons.inj (List.cons.inj hsplit).2).1)

theorem not_startsLow_escapeUnit
    {n : Nat}
    (hn : n < 0x10000)
    (hlow : (ofUnit n).isLow = false)
    (ps : List Point) :
    ¬ StartsLow (spell (escapeUnit n) ++ ps) := by
  obtain ⟨a, b, c, d, hhex, hunit⟩ := unit?_hex hn
  rintro ⟨a', b', c', d', m, rest, hsplit, hunit', hm⟩
  unfold escapeUnit at hsplit
  rw [hhex] at hsplit
  simp only [spell_cons, spell_nil, List.cons_append, List.nil_append, List.cons.injEq,
    true_and] at hsplit
  obtain ⟨rfl, rfl, rfl, rfl, -⟩ := hsplit
  cases hunit.symm.trans hunit'
  rw [hlow] at hm
  cases hm

/-- Only the escape of a low surrogate starts with one. -/
theorem not_startsLow_escape
    {p : Point}
    (hp : p.isLow = false)
    (ps : List Point) :
    ¬ StartsLow (spell (escape p) ++ ps) := by
  cases p with
  | surrogate n =>
      refine not_startsLow_escapeUnit ?_ ?_ ps
      · simp only [Point.code]
        omega
      · rw [ofUnit_code]
        exact hp
  | char c =>
      unfold escape escapeChar
      dsimp only
      split_ifs with hmark hline hreturn htab hfeed hback hprint hplane
      · rcases Bool.or_eq_true_iff.1 hmark with h | h
        · cases eq_of_beq h
          exact not_startsLow_named (by decide) ps
        · cases eq_of_beq h
          exact not_startsLow_named (by decide) ps
      · exact not_startsLow_named (by decide) ps
      · exact not_startsLow_named (by decide) ps
      · exact not_startsLow_named (by decide) ps
      · exact not_startsLow_named (by decide) ps
      · exact not_startsLow_named (by decide) ps
      · have hnot : c ≠ '"' ∧ c ≠ '\\' := by simpa using hmark
        exact not_startsLow_of_ne (by simpa using hnot.2) ps
      · refine not_startsLow_escapeUnit hplane ?_ ps
        rw [ofUnit_toNat]
        rfl
      · have hvalid := toNat_valid c
        rw [spell_append, List.append_assoc]
        refine not_startsLow_escapeUnit (by omega) ?_ _
        exact not_isLow_of_isHigh (isHigh_ofUnit (by omega))

/-- The text of a string is read up to its closing quote. -/
theorem readString_flatMap_escape
    {ps : List Point}
    (h : ps.IsChain fun a b => ¬ (a.isHigh = true ∧ b.isLow = true))
    (rest : List Point) :
    readString (spell (ps.flatMap escape) ++ .char '"' :: rest) = some (ps, rest) := by
  induction ps with
  | nil => rfl
  | cons p ps ih =>
      have hpair : ¬ (p.isHigh = true ∧
          StartsLow (spell (ps.flatMap escape) ++ .char '"' :: rest)) := by
        rintro ⟨hp, hlow⟩
        cases ps with
        | nil => exact not_startsLow_of_ne (by decide) rest hlow
        | cons q qs =>
            have hq : q.isLow = false := by
              have hchain := (List.isChain_cons_cons.1 h).1
              simpa [hp] using hchain
            rw [List.flatMap_cons, spell_append, List.append_assoc] at hlow
            exact not_startsLow_escape hq _ hlow
      rw [List.flatMap_cons, spell_append, List.append_assoc, readString_escape hpair,
        ih (List.isChain_cons.1 h).2]
      rfl

end Strings

section Layout

theorem skipLayout_of_ne
    {p : Point}
    (hp : isLayout p = false)
    (ps : List Point) :
    skipLayout (p :: ps) = p :: ps := by
  unfold skipLayout
  rw [List.dropWhile_cons_of_neg (by simp [hp])]

theorem skipLayout_lineStart
    {p : Point}
    (hp : isLayout p = false)
    (l : Layout) (level : Nat) (ps : List Point) :
    skipLayout (spell (l.lineStart level) ++ p :: ps) = p :: ps := by
  have hall : ∀ q ∈ spell (l.lineStart level), isLayout q = true := by
    intro q hq
    obtain ⟨d, hd, rfl⟩ := List.mem_map.1 hq
    cases l with
    | compact => cases hd
    | indented width =>
        rcases List.mem_cons.1 hd with rfl | hspace
        · rfl
        · rw [List.eq_of_mem_replicate hspace]
          rfl
  unfold skipLayout
  rw [List.dropWhile_append_of_pos hall]
  exact skipLayout_of_ne hp ps

/-- Between a key and its value stand a colon and layout. -/
theorem colon_eq_cons (l : Layout) :
    ∃ gap, l.colon = ':' :: gap ∧
      ∀ p ps, isLayout p = false → skipLayout (spell gap ++ p :: ps) = p :: ps := by
  cases l with
  | compact => exact ⟨[], rfl, fun p ps hp => skipLayout_of_ne hp ps⟩
  | indented width => exact ⟨[' '], rfl, fun p ps hp => skipLayout_of_ne hp ps⟩

end Layout

section Values

/-- A value without numbers, of settled texts, in whose objects no key is repeated. -/
inductive Plain : Json Points → Prop
  | null : Plain .null
  | bool (b : Bool) : Plain (.bool b)
  | str {s : Points}
      (hs : s.Settled) :
      Plain (.str s)
  | arr {items : List (Json Points)}
      (hitems : ∀ j ∈ items, Plain j) :
      Plain (.arr items)
  | obj {entries : List (Points × Json Points)}
      (hkeys : (entries.map (·.1)).Nodup)
      (htexts : ∀ e ∈ entries, e.1.Settled)
      (hvalues : ∀ e ∈ entries, Plain e.2) :
      Plain (.obj entries)

@[simp]
theorem plain_bool (b : Bool) : (Json.bool b).Plain :=
  .bool b

@[simp]
theorem plain_str_iff {s : Points} : (Json.str s).Plain ↔ s.Settled := by
  refine ⟨fun h => ?_, .str⟩
  cases h with
  | str hs => exact hs

theorem Settled.plain_str
    {s : Points}
    (h : (Json.str s).Settled) :
    (Json.str s).Plain := by
  cases h with
  | str hs => exact .str hs

theorem plain_arr_iff {items : List (Json Points)} :
    (Json.arr items).Plain ↔ ∀ j ∈ items, j.Plain := by
  refine ⟨fun h => ?_, .arr⟩
  cases h with
  | arr hitems => exact hitems

theorem plain_obj_iff {entries : List (Points × Json Points)} :
    (Json.obj entries).Plain
      ↔
    (entries.map (·.1)).Nodup ∧ ∀ e ∈ entries, e.1.Settled ∧ e.2.Plain := by
  refine ⟨fun h => ?_, fun h => .obj h.1 (fun e he => (h.2 e he).1) fun e he => (h.2 e he).2⟩
  cases h with
  | obj hkeys htexts hvalues => exact ⟨hkeys, fun e he => ⟨htexts e he, hvalues e he⟩⟩

variable {l : Layout}

/-- The text of a value starts with a mark that is no layout and closes nothing. -/
theorem Plain.write_eq_cons
    {j : Json Points}
    (hj : j.Plain)
    (l : Layout) (level : Nat) :
    ∃ c cs, write l level j = c :: cs ∧ isLayout (.char c) = false ∧ c ≠ ']' ∧ c ≠ '}' := by
  cases hj with
  | null => exact ⟨_, _, rfl, by decide⟩
  | bool b => cases b <;> exact ⟨_, _, rfl, by decide⟩
  | str hs => exact ⟨_, _, rfl, by decide⟩
  | @arr items hitems => cases items <;> exact ⟨_, _, rfl, by decide⟩
  | @obj entries hkeys htexts hvalues => cases entries <;> exact ⟨_, _, rfl, by decide⟩

theorem Plain.skipLayout_lineStart_write
    {j : Json Points}
    (hj : j.Plain)
    (level : Nat) (rest : List Point) :
    skipLayout (spell (l.lineStart level) ++ (spell (write l level j) ++ rest)) =
      spell (write l level j) ++ rest := by
  obtain ⟨c, cs, hwrite, hc, -, -⟩ := hj.write_eq_cons l level
  rw [hwrite]
  exact skipLayout_lineStart hc l level _

/-- The text of a value is read as that value, whatever follows it. -/
def Reads (l : Layout) (j : Json Points) : Prop :=
  ∀ level fuel rest, (write l level j).length ≤ fuel →
    readValue fuel (spell (write l level j) ++ rest) = some (j, rest)

/-- The items of an array are read up to its closing bracket. -/
theorem readItems_write
    {x : Json Points} {xs : List (Json Points)}
    (hplain : ∀ j ∈ xs, j.Plain)
    (hreads : ∀ j ∈ x :: xs, Reads l j)
    (level outer fuel : Nat)
    (hfuel : (write l level x).length + (writeItems l level xs).length ≤ fuel)
    (rest : List Point) :
    readItems (fuel + 1)
        (spell (write l level x) ++
          (spell (writeItems l level xs) ++ (spell (l.lineStart outer) ++ .char ']' :: rest))) =
      some (x :: xs, rest) := by
  induction xs generalizing x fuel with
  | nil =>
      rw [readItems, hreads x List.mem_cons_self level fuel _ (by omega)]
      simp only [writeItems, spell_nil, List.nil_append, Option.bind_eq_bind, Option.bind_some,
        skipLayout_lineStart (p := .char ']') (by decide)]
  | cons y ys ih =>
      obtain ⟨hx, hys⟩ := List.forall_mem_cons.1 hreads
      obtain ⟨hplainy, hplainys⟩ := List.forall_mem_cons.1 hplain
      simp only [writeItems, List.length_cons, List.length_append] at hfuel
      obtain ⟨f, rfl⟩ : ∃ f, fuel = f + 1 := ⟨fuel - 1, by omega⟩
      rw [readItems, hx level (f + 1) _ (by omega)]
      simp only [writeItems, spell_cons, spell_append, List.cons_append, List.append_assoc,
        Option.bind_eq_bind,
        Option.bind_some, skipLayout_of_ne (p := .char ',') (by decide),
        hplainy.skipLayout_lineStart_write level, ih hplainys hys f (by omega)]

/-- A quoted text is read as the text. -/
theorem readString_writeString
    {s : Points}
    (hs : s.Settled)
    (rest : List Point) :
    ∃ ps, spell (writeString s) ++ rest = .char '"' :: ps ∧
      readString ps = some (s.toList, rest) := by
  refine ⟨spell (s.toList.flatMap escape) ++ .char '"' :: rest, ?_,
    readString_flatMap_escape hs rest⟩
  simp [writeString]

/-- An entry is read as its key and its value, and what follows it is left. -/
theorem readEntries_entry
    {k : Points} {v : Json Points}
    (htext : k.Settled)
    (hplain : v.Plain)
    (hreads : Reads l v)
    (level fuel : Nat)
    (hfuel : (write l level v).length ≤ fuel)
    (tail : List Point) :
    ∃ key gap,
      spell (writeString k) ++ (spell l.colon ++ (spell (write l level v) ++ tail)) =
        .char '"' :: key ∧
      readString key = some (k.toList, .char ':' :: gap) ∧
      readValue fuel (skipLayout gap) = some (v, tail) := by
  obtain ⟨gap, hcolon, hgap⟩ := colon_eq_cons l
  obtain ⟨key, hkey, hread⟩ := readString_writeString htext
    (spell l.colon ++ (spell (write l level v) ++ tail))
  obtain ⟨c, cs, hwrite, hc, -, -⟩ := hplain.write_eq_cons l level
  refine ⟨key, spell gap ++ (spell (write l level v) ++ tail), hkey, ?_, ?_⟩
  · rw [hread, hcolon]
    rfl
  · have hskip : skipLayout (spell gap ++ (spell (write l level v) ++ tail)) =
        spell (write l level v) ++ tail := by
      rw [hwrite]
      exact hgap (.char c) _ hc
    rw [hskip]
    exact hreads level fuel tail hfuel

/-- The entries of an object are read up to its closing brace. -/
theorem readEntries_write
    {k : Points} {v : Json Points} {es : List (Points × Json Points)}
    (htexts : ∀ e ∈ (k, v) :: es, e.1.Settled)
    (hplain : ∀ e ∈ (k, v) :: es, e.2.Plain)
    (hreads : ∀ e ∈ (k, v) :: es, Reads l e.2)
    (level outer fuel : Nat)
    (hfuel : (write l level v).length + (writeEntries l level es).length ≤ fuel)
    (rest : List Point) :
    readEntries (fuel + 1)
        (spell (writeString k) ++ (spell l.colon ++ (spell (write l level v) ++
          (spell (writeEntries l level es) ++ (spell (l.lineStart outer) ++
            .char '}' :: rest))))) =
      some ((k, v) :: es, rest) := by
  induction es generalizing k v fuel with
  | nil =>
      obtain ⟨htext, -⟩ := List.forall_mem_cons.1 htexts
      obtain ⟨hplainv, -⟩ := List.forall_mem_cons.1 hplain
      obtain ⟨hv, -⟩ := List.forall_mem_cons.1 hreads
      obtain ⟨key, gap, hkey, hread, hvalue⟩ := readEntries_entry htext hplainv hv level fuel
        (by dsimp only; omega)
        (spell (writeEntries l level []) ++ (spell (l.lineStart outer) ++ .char '}' :: rest))
      rw [hkey, readEntries]
      simp only [hread, hvalue, writeEntries, spell_nil, List.nil_append, Option.bind_eq_bind,
        Option.bind_some, skipLayout_of_ne (p := .char ':') (by decide),
        skipLayout_lineStart (p := .char '}') (by decide), Points.ofList_toList]
  | cons e es ih =>
      obtain ⟨k', v'⟩ := e
      obtain ⟨htext, htextses⟩ := List.forall_mem_cons.1 htexts
      obtain ⟨hplainv, hplaines⟩ := List.forall_mem_cons.1 hplain
      obtain ⟨hv, hes⟩ := List.forall_mem_cons.1 hreads
      simp only [writeEntries, List.length_cons, List.length_append] at hfuel
      obtain ⟨f, rfl⟩ : ∃ f, fuel = f + 1 := ⟨fuel - 1, by omega⟩
      obtain ⟨key, gap, hkey, hread, hvalue⟩ := readEntries_entry htext hplainv hv level (f + 1)
        (by dsimp only; omega)
        (spell (writeEntries l level ((k', v') :: es)) ++
          (spell (l.lineStart outer) ++ .char '}' :: rest))
      have hnext : ∀ tail, skipLayout (spell (l.lineStart level) ++
          (spell (writeString k') ++ tail)) = spell (writeString k') ++ tail := by
        intro tail
        exact skipLayout_lineStart (p := .char '"') (by decide) l level _
      rw [hkey, readEntries]
      simp only [hread, hvalue, writeEntries, spell_cons, spell_append, List.cons_append,
        List.append_assoc, Option.bind_eq_bind, Option.bind_some,
        skipLayout_of_ne (p := .char ':') (by decide),
        skipLayout_of_ne (p := .char ',') (by decide), hnext,
        ih htextses hplaines hes f (by omega), Points.ofList_toList]

theorem put_of_not_mem
    {entries : List (Points × Json Points)} {key : Points}
    (hkey : key ∉ entries.map (·.1))
    (value : Json Points) :
    put entries key value = entries ++ [(key, value)] := by
  induction entries with
  | nil => rfl
  | cons e entries ih =>
      obtain ⟨k, v⟩ := e
      obtain ⟨hne, hrest⟩ := List.ne_and_not_mem_of_not_mem_cons hkey
      rw [put, if_neg (by simpa using Ne.symm hne), ih hrest]
      rfl

/-- Entering entries of new keys one by one appends them. -/
theorem foldl_put
    {es : List (Points × Json Points)}
    (all : List (Points × Json Points))
    (hkeys : ((all ++ es).map (·.1)).Nodup) :
    es.foldl (fun all e => put all e.1 e.2) all = all ++ es := by
  induction es generalizing all with
  | nil => exact (List.append_nil all).symm
  | cons e es ih =>
      rw [List.append_cons] at hkeys ⊢
      have hnew : e.1 ∉ all.map (·.1) := by
        rw [List.map_append, List.map_append] at hkeys
        have hdisjoint := List.disjoint_of_nodup_append (List.nodup_append.1 hkeys).1
        exact fun he => hdisjoint he (List.mem_singleton_self e.1)
      rw [List.foldl_cons, put_of_not_mem hnew, ih _ hkeys]

theorem readValue_arr
    {p : Point} {ps ps' : List Point}
    (hskip : skipLayout ps = p :: ps')
    (hp : p ≠ .char ']')
    (fuel : Nat) :
    readValue (fuel + 1) (.char '[' :: ps) =
      (readItems fuel (p :: ps')).map fun (xs, rest) => (arr xs, rest) := by
  rw [readValue, hskip]
  split
  · rename_i heq
    exact absurd (List.cons.inj heq).1 hp
  · rfl

theorem readValue_obj
    {p : Point} {ps ps' : List Point}
    (hskip : skipLayout ps = p :: ps')
    (hp : p ≠ .char '}')
    (fuel : Nat) :
    readValue (fuel + 1) (.char '{' :: ps) =
      (readEntries fuel (p :: ps')).map fun (es, rest) =>
        (obj (es.foldl (fun all e => put all e.1 e.2) []), rest) := by
  rw [readValue, hskip]
  split
  · rename_i heq
    exact absurd (List.cons.inj heq).1 hp
  · rfl

theorem Plain.exists_fuel
    {j : Json Points}
    (hj : j.Plain)
    {level fuel : Nat}
    (hfuel : (write l level j).length ≤ fuel) :
    ∃ f, fuel = f + 1 := by
  obtain ⟨c, cs, hwrite, -⟩ := hj.write_eq_cons l level
  rw [hwrite, List.length_cons] at hfuel
  exact ⟨fuel - 1, by omega⟩

theorem Plain.reads
    {j : Json Points}
    (hj : j.Plain) :
    Reads l j := by
  induction hj with
  | null =>
      intro level fuel rest hfuel
      obtain ⟨f, rfl⟩ := Plain.null.exists_fuel hfuel
      rfl
  | bool b =>
      intro level fuel rest hfuel
      obtain ⟨f, rfl⟩ := (Plain.bool b).exists_fuel hfuel
      cases b <;> rfl
  | str hs =>
      intro level fuel rest hfuel
      obtain ⟨f, rfl⟩ := (Plain.str hs).exists_fuel hfuel
      obtain ⟨ps, hquote, hread⟩ := readString_writeString hs rest
      rw [write, hquote, readValue, hread]
      simp only [Option.map_some, Points.ofList_toList]
  | @arr items hitems ih =>
      intro level fuel rest hfuel
      obtain ⟨f, rfl⟩ := (Plain.arr hitems).exists_fuel hfuel
      cases items with
      | nil => rfl
      | cons x xs =>
          obtain ⟨hx, hxs⟩ := List.forall_mem_cons.1 hitems
          obtain ⟨c, cs, hwrite, hc, hclose, -⟩ := hx.write_eq_cons l (level + 1)
          simp only [write, List.length_cons, List.length_append, List.length_nil] at hfuel
          simp only [write, spell_cons, spell_append, spell_nil, List.cons_append,
            List.append_assoc, List.nil_append]
          obtain ⟨f, rfl⟩ : ∃ g, f = g + 1 := ⟨f - 1, by omega⟩
          have hread := readItems_write hxs ih (level + 1) level f (by omega) rest
          rw [hwrite, spell_cons, List.cons_append] at hread ⊢
          rw [readValue_arr (skipLayout_lineStart hc l _ _) (by simpa using hclose), hread]
          rfl
  | @obj entries hkeys htexts hvalues ih =>
      intro level fuel rest hfuel
      obtain ⟨f, rfl⟩ := (Plain.obj hkeys htexts hvalues).exists_fuel hfuel
      cases entries with
      | nil => rfl
      | cons e es =>
          obtain ⟨k, v⟩ := e
          simp only [write, List.length_cons, List.length_append, List.length_nil] at hfuel
          simp only [write, spell_cons, spell_append, spell_nil, List.cons_append,
            List.append_assoc, List.nil_append]
          obtain ⟨f, rfl⟩ : ∃ g, f = g + 1 := ⟨f - 1, by omega⟩
          have hread := readEntries_write htexts hvalues ih (level + 1) level f (by omega) rest
          have hquote : spell (writeString k) =
              .char '"' :: spell (k.toList.flatMap escape ++ ['"']) :=
            rfl
          rw [hquote, List.cons_append] at hread ⊢
          rw [readValue_obj (skipLayout_lineStart (by decide) l _ _) (by decide), hread,
            Option.map_some]
          dsimp only
          rw [foldl_put [] hkeys]
          rfl

/-- The text of a value without numbers and repeated keys is read as that value, also
with layout behind it. -/
theorem parse?_render_append
    {j : Json Points}
    (hj : j.Plain)
    (l : Layout)
    {gap : String}
    (hgap : ∀ p ∈ spell gap.toList, isLayout p = true) :
    parse? (.plain (render l j ++ gap)) = some j := by
  have htext : (Points.plain (render l j ++ gap)).toList =
      spell (write l 0 j) ++ spell gap.toList := by
    rw [Points.toList, render, String.toList_append, String.toList_ofList]
    exact spell_append _ _
  obtain ⟨c, cs, hwrite, hc, -, -⟩ := hj.write_eq_cons l 0
  have hskip : skipLayout (spell (write l 0 j) ++ spell gap.toList) =
      spell (write l 0 j) ++ spell gap.toList := by
    rw [hwrite]
    exact skipLayout_of_ne hc _
  have hread := hj.reads (l := l) 0 ((spell (write l 0 j) ++ spell gap.toList).length + 1)
    (spell gap.toList) (by simp only [spell, List.length_append, List.length_map]; omega)
  have hrest : skipLayout (spell gap.toList) = [] := by
    unfold skipLayout
    rw [← List.append_nil (spell gap.toList), List.dropWhile_append_of_pos hgap]
    rfl
  unfold parse?
  rw [htext, hskip]
  dsimp only
  rw [hread]
  dsimp only
  rw [hrest]
  rfl

theorem parse?_render
    {j : Json Points}
    (hj : j.Plain)
    (l : Layout) :
    parse? (.plain (render l j)) = some j := by
  have hgap : (spell "".toList).all isLayout = true := by decide
  have hread := parse?_render_append hj l (List.all_eq_true.1 hgap)
  rwa [String.append_empty] at hread

end Values

section Depth

mutual

/-- How deep arrays and objects are nested. -/
def depth : Json Points → Nat
  | .arr items => depthItems items + 1
  | .obj entries => depthEntries entries + 1
  | _ => 0

def depthItems : List (Json Points) → Nat
  | [] => 0
  | x :: xs => max x.depth (depthItems xs)

def depthEntries : List (Points × Json Points) → Nat
  | [] => 0
  | (_, v) :: es => max v.depth (depthEntries es)

end

theorem depth_lt_arr
    {items : List (Json Points)} {j : Json Points}
    (hj : j ∈ items) :
    j.depth < (arr items).depth := by
  rw [depth, Nat.lt_succ_iff]
  induction items with
  | nil => cases hj
  | cons x xs ih =>
      rw [depthItems]
      rcases List.mem_cons.1 hj with rfl | hj
      · exact Nat.le_max_left _ _
      · exact Nat.le_trans (ih hj) (Nat.le_max_right _ _)

theorem depth_lt_obj
    {entries : List (Points × Json Points)} {e : Points × Json Points}
    (he : e ∈ entries) :
    e.2.depth < (obj entries).depth := by
  rw [depth, Nat.lt_succ_iff]
  induction entries with
  | nil => cases he
  | cons f es ih =>
      rw [depthEntries]
      rcases List.mem_cons.1 he with rfl | he
      · exact Nat.le_max_left _ _
      · exact Nat.le_trans (ih he) (Nat.le_max_right _ _)

variable {l : Layout}

theorem depthItems_le_length_writeItems
    {xs : List (Json Points)}
    (h : ∀ j ∈ xs, ∀ level, j.depth ≤ (write l level j).length)
    (level : Nat) :
    depthItems xs ≤ (writeItems l level xs).length := by
  induction xs with
  | nil => exact Nat.le_refl 0
  | cons x xs ih =>
      obtain ⟨hx, hxs⟩ := List.forall_mem_cons.1 h
      have hx := hx level
      have hxs := ih hxs
      simp only [depthItems, writeItems, List.length_cons, List.length_append]
      omega

theorem depthEntries_le_length_writeEntries
    {es : List (Points × Json Points)}
    (h : ∀ e ∈ es, ∀ level, e.2.depth ≤ (write l level e.2).length)
    (level : Nat) :
    depthEntries es ≤ (writeEntries l level es).length := by
  induction es with
  | nil => exact Nat.le_refl 0
  | cons e es ih =>
      obtain ⟨k, v⟩ := e
      obtain ⟨hv, hes⟩ := List.forall_mem_cons.1 h
      have hv : v.depth ≤ (write l level v).length := hv level
      have hes := ih hes
      simp only [depthEntries, writeEntries, List.length_cons, List.length_append]
      omega

/-- A text is at least as long as its brackets are nested. -/
theorem Plain.depth_le_length_write
    {j : Json Points}
    (hj : j.Plain)
    (l : Layout) (level : Nat) :
    j.depth ≤ (write l level j).length := by
  induction hj generalizing level with
  | null => exact Nat.zero_le _
  | bool b => exact Nat.zero_le _
  | str hs => exact Nat.zero_le _
  | @arr items hitems ih =>
      cases items with
      | nil => simp [depth, depthItems, write]
      | cons x xs =>
          obtain ⟨hx, hxs⟩ := List.forall_mem_cons.1 ih
          have hx := hx (level + 1)
          have hxs := depthItems_le_length_writeItems hxs (level + 1)
          simp only [depth, depthItems, write, List.length_cons, List.length_append]
          omega
  | @obj entries hkeys htexts hvalues ih =>
      cases entries with
      | nil => simp [depth, depthEntries, write]
      | cons e es =>
          obtain ⟨k, v⟩ := e
          obtain ⟨hv, hes⟩ := List.forall_mem_cons.1 ih
          have hv : v.depth ≤ (write l (level + 1) v).length := hv (level + 1)
          have hes := depthEntries_le_length_writeEntries hes (level + 1)
          simp only [depth, depthEntries, write, List.length_cons, List.length_append]
          omega

end Depth

end Json
end DeclGraph
