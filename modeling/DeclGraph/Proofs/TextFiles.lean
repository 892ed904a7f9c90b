import DeclGraph.Proofs.JsonText
import DeclGraph.Proofs.Utf8

/-!
# Text files

A text file is written as UTF-8 and read with one kind of line end, so a carriage return
is not read as it was written.  A text of the characters that are kept as they are
(`Text.isKept`) is read back from its bytes, and JSON text is of this kind whatever the
strings in it are: everything else is escaped.
-/

namespace DeclGraph

namespace Text

section Bytes

/-- The characters that stand in a file as one byte, and are read as they stand. -/
def isKept (c : Char) : Bool :=
  c.toNat < 0x80 && c != '\r'

variable {c : Char} {cs : List Char}

theorem isKept_iff : isKept c = true ↔ c.toNat < 0x80 ∧ c ≠ '\r' := by
  simp [isKept]

theorem unifyNewlines_of_isKept
    (h : ∀ c ∈ cs, isKept c = true) :
    unifyNewlines cs = cs := by
  fun_induction unifyNewlines cs with
  | case1 => rfl
  | case2 cs ih => exact absurd rfl (isKept_iff.1 (h '\r' List.mem_cons_self)).2
  | case3 cs _ ih => exact absurd rfl (isKept_iff.1 (h '\r' List.mem_cons_self)).2
  | case4 c cs _ hc ih => rw [ih (List.forall_mem_cons.1 h).2]

/-- A text of characters that are kept is read back from its bytes. -/
theorem readText_toUTF8
    {s : String}
    (h : ∀ c ∈ s.toList, isKept c = true) :
    readText s.toUTF8.toList = .ok s :=
  readText_eq_ok_iff.2 ⟨s, rfl, by rw [unifyNewlines_of_isKept h, String.ofList_toList]⟩

end Bytes

end Text

namespace Json

open Text (isKept isKept_iff)

section Kept

variable {l : Layout}

theorem isKept_of_hexValue?
    {c : Char} {k : Nat}
    (h : hexValue? (.char c) = some k) :
    isKept c = true := by
  have hreturn : c ≠ '\r' := by
    rintro rfl
    cases h
  refine isKept_iff.2 ⟨?_, hreturn⟩
  unfold hexValue? at h
  simp only [Bool.and_eq_true, decide_eq_true_eq, Char.le_def, UInt32.le_iff_toNat_le] at h
  show c.val.toNat < 0x80
  split_ifs at h with hdigit hlower hupper
  · exact Nat.lt_of_le_of_lt hdigit.2 (by decide)
  · exact Nat.lt_of_le_of_lt hlower.2 (by decide)
  · exact Nat.lt_of_le_of_lt hupper.2 (by decide)

theorem all_isKept_escapeUnit
    {n : Nat}
    (hn : n < 0x10000) :
    (escapeUnit n).all isKept = true := by
  obtain ⟨a, b, c, d, hhex, hunit⟩ := unit?_hex hn
  unfold unit? at hunit
  simp only [bind, Option.bind_eq_some_iff] at hunit
  obtain ⟨va, ha, vb, hb, vc, hc, vd, hd, -⟩ := hunit
  have hmark : isKept '\\' = true ∧ isKept 'u' = true := by decide
  simp [escapeUnit, hhex, hmark, isKept_of_hexValue? ha, isKept_of_hexValue? hb,
    isKept_of_hexValue? hc, isKept_of_hexValue? hd]

theorem all_isKept_escapeChar (c : Char) : (escapeChar c).all isKept = true := by
  unfold escapeChar
  dsimp only
  split_ifs with hmark hline hreturn htab hfeed hback hprint hplane
  · rcases Bool.or_eq_true_iff.1 hmark with h | h
    · cases eq_of_beq h
      decide
    · cases eq_of_beq h
      decide
  · decide
  · decide
  · decide
  · decide
  · decide
  · simp only [Bool.and_eq_true, decide_eq_true_eq] at hprint
    have hc : isKept c = true := isKept_iff.2 ⟨by omega, fun h => hreturn (beq_iff_eq.2 h)⟩
    simp [hc]
  · exact all_isKept_escapeUnit hplane
  · have hvalid := toNat_valid c
    rw [List.all_append, all_isKept_escapeUnit (by omega), all_isKept_escapeUnit (by omega)]
    rfl

theorem all_isKept_escape (p : Point) : (escape p).all isKept = true := by
  cases p with
  | char c => exact all_isKept_escapeChar c
  | surrogate n =>
      refine all_isKept_escapeUnit ?_
      simp only [Point.code]
      omega

theorem all_isKept_writeString (s : Points) : (writeString s).all isKept = true := by
  have hescapes : (s.toList.flatMap escape).all isKept = true := by
    rw [List.all_flatMap]
    exact List.all_eq_true.2 fun p _ => all_isKept_escape p
  have hquote : isKept '"' = true := by decide
  simp [writeString, hescapes, hquote]

theorem all_isKept_lineStart (l : Layout) (level : Nat) :
    (l.lineStart level).all isKept = true := by
  cases l with
  | compact => rfl
  | indented width =>
      have hblank : isKept ' ' = true ∧ isKept '\n' = true := by decide
      simp [Layout.lineStart, hblank]

theorem all_isKept_colon (l : Layout) : l.colon.all isKept = true := by
  cases l with
  | compact => decide
  | indented width =>
      show [':', ' '].all isKept = true
      decide

theorem all_isKept_writeItems
    {xs : List (Json Points)}
    (h : ∀ j ∈ xs, ∀ level, (write l level j).all isKept = true)
    (level : Nat) :
    (writeItems l level xs).all isKept = true := by
  induction xs with
  | nil => rfl
  | cons x xs ih =>
      obtain ⟨hx, hxs⟩ := List.forall_mem_cons.1 h
      have hcomma : isKept ',' = true := by decide
      simp [writeItems, hcomma, all_isKept_lineStart, hx level, ih hxs]

theorem all_isKept_writeEntries
    {es : List (Points × Json Points)}
    (h : ∀ e ∈ es, ∀ level, (write l level e.2).all isKept = true)
    (level : Nat) :
    (writeEntries l level es).all isKept = true := by
  induction es with
  | nil => rfl
  | cons e es ih =>
      obtain ⟨k, v⟩ := e
      obtain ⟨hv, hes⟩ := List.forall_mem_cons.1 h
      have hv : (write l level v).all isKept = true := hv level
      have hcomma : isKept ',' = true := by decide
      simp [writeEntries, hcomma, all_isKept_lineStart, all_isKept_writeString, all_isKept_colon, hv,
        ih hes]

/-- JSON text without numbers is kept in a file as it is. -/
theorem Plain.all_isKept_write
    {j : Json Points}
    (hj : j.Plain)
    (l : Layout) (level : Nat) :
    (write l level j).all isKept = true := by
  have hbrackets : isKept '[' = true ∧ isKept ']' = true ∧ isKept '{' = true ∧ isKept '}' = true := by
    decide
  induction hj generalizing level with
  | null =>
      rw [write]
      decide
  | bool b =>
      cases b
      · rw [write]
        decide
      · rw [write]
        decide
  | @str s hs => exact all_isKept_writeString s
  | @arr items hitems ih =>
      cases items with
      | nil => simp [write, hbrackets]
      | cons x xs =>
          obtain ⟨hx, hxs⟩ := List.forall_mem_cons.1 ih
          simp [write, hbrackets, all_isKept_lineStart, hx (level + 1),
            all_isKept_writeItems hxs (level + 1)]
  | @obj entries hkeys htexts hvalues ih =>
      cases entries with
      | nil => simp [write, hbrackets]
      | cons e es =>
          obtain ⟨k, v⟩ := e
          obtain ⟨hv, hes⟩ := List.forall_mem_cons.1 ih
          have hv : (write l (level + 1) v).all isKept = true := hv (level + 1)
          simp [write, hbrackets, all_isKept_lineStart, all_isKept_writeString, all_isKept_colon, hv,
            all_isKept_writeEntries hes (level + 1)]

end Kept

end Json

end DeclGraph
