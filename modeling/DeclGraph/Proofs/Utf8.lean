import DeclGraph.Text.Utf8
import Mathlib.Data.List.Basic
import Mathlib.Data.List.TakeWhile

/-!
# Bytes that are texts

Decoding is the inverse of encoding: bytes are decoded exactly if they are the UTF-8 form of a
text, and to that text (`decode_eq_ok_iff`).

`Encodes` lists the four forms that a character takes in bytes.  Encoding a character gives
one of the forms, and bytes in one of the forms are what their character is encoded as.
The decoder takes a form off the front of the bytes, and it takes off nothing else.
-/

namespace DeclGraph
namespace Text

section Forms

theorem isContinuation_iff {b : UInt8} :
    isContinuation b = true ↔ 0x80 ≤ b.toNat ∧ b.toNat < 0xC0 := by
  simp [isContinuation, UInt8.le_iff_toNat_le, UInt8.lt_iff_toNat_lt]

theorem fitsLead_iff {lead b : UInt8} :
    fitsLead lead b = true
      ↔
    (0x80 ≤ b.toNat ∧ b.toNat < 0xC0) ∧
      (lead.toNat = 0xE0 → 0xA0 ≤ b.toNat) ∧ (lead.toNat = 0xED → b.toNat < 0xA0) ∧
      (lead.toNat = 0xF0 → 0x90 ≤ b.toNat) ∧ (lead.toNat = 0xF4 → b.toNat < 0x90) := by
  simp [fitsLead, isContinuation_iff, UInt8.le_iff_toNat_le, UInt8.lt_iff_toNat_lt,
    ← UInt8.toNat_inj, imp_iff_not_or, and_assoc]

theorem sequenceLength_eq (lead : UInt8) :
    sequenceLength lead =
      if lead.toNat < 0x80 then 1
      else if 0xC2 ≤ lead.toNat ∧ lead.toNat < 0xE0 then 2
      else if 0xE0 ≤ lead.toNat ∧ lead.toNat < 0xF0 then 3
      else if 0xF0 ≤ lead.toNat ∧ lead.toNat < 0xF5 then 4
      else 0 := by
  simp [sequenceLength, UInt8.le_iff_toNat_le, UInt8.lt_iff_toNat_lt]

/-- The forms of a character in bytes: the lead byte, the bytes that continue it, and the
code point. -/
inductive Encodes : UInt8 → List UInt8 → Nat → Prop
  | one
      {a : UInt8} {v : Nat}
      (ha : a.toNat < 0x80)
      (hv : v = a.toNat) :
      Encodes a [] v
  | two
      {a b : UInt8} {v : Nat}
      (ha : 0xC2 ≤ a.toNat ∧ a.toNat < 0xE0)
      (hb : fitsLead a b = true)
      (hv : v = 64 * (a.toNat % 32) + b.toNat % 64) :
      Encodes a [b] v
  | three
      {a b c : UInt8} {v : Nat}
      (ha : 0xE0 ≤ a.toNat ∧ a.toNat < 0xF0)
      (hb : fitsLead a b = true)
      (hc : isContinuation c = true)
      (hv : v = 64 * (64 * (a.toNat % 16) + b.toNat % 64) + c.toNat % 64) :
      Encodes a [b, c] v
  | four
      {a b c d : UInt8} {v : Nat}
      (ha : 0xF0 ≤ a.toNat ∧ a.toNat < 0xF5)
      (hb : fitsLead a b = true)
      (hc : isContinuation c = true)
      (hd : isContinuation d = true)
      (hv : v = 64 * (64 * (64 * (a.toNat % 8) + b.toNat % 64) + c.toNat % 64) + d.toNat % 64) :
      Encodes a [b, c, d] v

/-- A character is encoded in one of the forms. -/
theorem exists_encodes (c : Char) :
    ∃ lead cont, String.utf8EncodeChar c = lead :: cont ∧ Encodes lead cont c.toNat := by
  have hvalid : c.val.toNat < 0xD800 ∨ (0xDFFF < c.val.toNat ∧ c.val.toNat < 0x110000) := c.valid
  unfold String.utf8EncodeChar Char.toNat
  dsimp only
  generalize c.val.toNat = v at hvalid ⊢
  split_ifs with hone htwo hthree
  · have ha := UInt8.toNat_ofNat' (n := v)
    exact ⟨_, _, rfl, .one (by omega) (by omega)⟩
  · have ha := UInt8.toNat_ofNat' (n := v / 64 % 32 + 192)
    have hb := UInt8.toNat_ofNat' (n := v % 64 + 128)
    exact ⟨_, _, rfl, .two (by omega) (fitsLead_iff.2 (by omega)) (by omega)⟩
  · have ha := UInt8.toNat_ofNat' (n := v / 4096 % 16 + 224)
    have hb := UInt8.toNat_ofNat' (n := v / 64 % 64 + 128)
    have hc := UInt8.toNat_ofNat' (n := v % 64 + 128)
    exact ⟨_, _, rfl, .three (by omega) (fitsLead_iff.2 (by omega))
      (isContinuation_iff.2 (by omega)) (by omega)⟩
  · have ha := UInt8.toNat_ofNat' (n := v / 262144 % 8 + 240)
    have hb := UInt8.toNat_ofNat' (n := v / 4096 % 64 + 128)
    have hc := UInt8.toNat_ofNat' (n := v / 64 % 64 + 128)
    have hd := UInt8.toNat_ofNat' (n := v % 64 + 128)
    exact ⟨_, _, rfl, .four (by omega) (fitsLead_iff.2 (by omega))
      (isContinuation_iff.2 (by omega)) (isContinuation_iff.2 (by omega)) (by omega)⟩

/-- The code point of a form is one of a character. -/
theorem Encodes.isValidChar
    {lead : UInt8} {cont : List UInt8} {v : Nat}
    (h : Encodes lead cont v) :
    v.isValidChar := by
  unfold Nat.isValidChar
  cases h with
  | one ha hv => omega
  | two ha hb hv => omega
  | three ha hb hc hv =>
      have hb := fitsLead_iff.1 hb
      omega
  | four ha hb hc hd hv =>
      have hb := fitsLead_iff.1 hb
      omega

/-- Bytes in one of the forms are what their character is encoded as. -/
theorem Encodes.utf8EncodeChar_eq
    {lead : UInt8} {cont : List UInt8} {v : Nat}
    (h : Encodes lead cont v) :
    String.utf8EncodeChar (Char.ofNat v) = lead :: cont := by
  have hcode : (Char.ofNat v).val.toNat = v := by
    rw [Char.ofNat, dif_pos h.isValidChar]
    rfl
  have hbyte : ∀ {n : Nat} {b : UInt8}, n = b.toNat → UInt8.ofNat n = b := by
    rintro n b rfl
    exact UInt8.ofNat_toNat
  unfold String.utf8EncodeChar
  dsimp only
  rw [hcode]
  cases h with
  | one ha hv => rw [if_pos (by omega), hbyte hv]
  | two ha hb hv =>
      have hb := fitsLead_iff.1 hb
      rw [if_neg (by omega), if_pos (by omega), List.cons_eq_cons, List.cons_eq_cons]
      exact ⟨hbyte (by omega), hbyte (by omega), rfl⟩
  | three ha hb hc hv =>
      have hb := fitsLead_iff.1 hb
      have hc := isContinuation_iff.1 hc
      rw [if_neg (by omega), if_neg (by omega), if_pos (by omega)]
      simp only [List.cons_eq_cons]
      exact ⟨hbyte (by omega), hbyte (by omega), hbyte (by omega), trivial⟩
  | four ha hb hc hd hv =>
      have hb := fitsLead_iff.1 hb
      have hc := isContinuation_iff.1 hc
      have hd := isContinuation_iff.1 hd
      rw [if_neg (by omega), if_neg (by omega), if_neg (by omega)]
      simp only [List.cons_eq_cons]
      exact ⟨hbyte (by omega), hbyte (by omega), hbyte (by omega), hbyte (by omega), trivial⟩

end Forms

section Decoding

variable {lead : UInt8} {cont bytes : List UInt8} {v : Nat}

theorem Encodes.sequenceLength_eq (h : Encodes lead cont v) :
    sequenceLength lead = cont.length + 1 := by
  rw [Text.sequenceLength_eq]
  cases h with
  | one ha _ => exact if_pos ha
  | two ha _ _ => rw [if_neg (by omega), if_pos ha]; rfl
  | three ha _ _ _ => rw [if_neg (by omega), if_neg (by omega), if_pos ha]; rfl
  | four ha _ _ _ _ => rw [if_neg (by omega), if_neg (by omega), if_neg (by omega), if_pos ha]; rfl

theorem Encodes.codePoint_eq (h : Encodes lead cont v) : codePoint lead cont = v := by
  cases h with
  | one _ hv => exact hv.symm
  | two _ _ hv => exact hv.symm
  | three _ _ _ hv => exact hv.symm
  | four _ _ _ _ hv => exact hv.symm

theorem Encodes.countContinuations_eq (h : Encodes lead cont v) (rest : List UInt8) :
    countContinuations lead (cont ++ rest) cont.length = cont.length := by
  unfold countContinuations
  rw [List.take_left]
  cases h with
  | one _ _ => rfl
  | two _ hb _ => simp [hb]
  | three _ hb hc _ => simp [hb, hc]
  | four _ hb hc hd _ => simp [hb, hc, hd]

/-- A form is taken off the front of the bytes. -/
theorem Encodes.decodeFrom_eq (h : Encodes lead cont v) (start : Nat) (rest : List UInt8) :
    decodeFrom start (lead :: (cont ++ rest)) =
      (decodeFrom (start + cont.length + 1) rest).map (Char.ofNat v :: ·) := by
  rw [decodeFrom]
  simp only [h.sequenceLength_eq, Nat.add_sub_cancel, h.countContinuations_eq rest, List.take_left,
    List.drop_left, h.codePoint_eq]
  rw [if_neg (Nat.succ_ne_zero _), if_pos trivial]
  cases decodeFrom (start + cont.length + 1) rest <;> rfl

/-- As many continuing bytes as asked for: the first one fits the lead byte, and the others
continue it. -/
theorem exists_take_of_countContinuations
    {n : Nat}
    (h : countContinuations lead bytes (n + 1) = n + 1) :
    ∃ b bs,
      bytes.take (n + 1) = b :: bs ∧ bs.length = n ∧
      fitsLead lead b = true ∧ ∀ c ∈ bs, isContinuation c = true := by
  unfold countContinuations at h
  have hlen : (bytes.take (n + 1)).length ≤ n + 1 := List.length_take_le ..
  cases htake : bytes.take (n + 1) with
  | nil => simp [htake] at h
  | cons b bs =>
      rw [htake] at h hlen
      dsimp only at h
      split_ifs at h with hb
      have hle := (List.takeWhile_sublist (l := bs) isContinuation).length_le
      rw [List.length_cons] at hlen
      have hall : bs.takeWhile isContinuation = bs :=
        (List.takeWhile_prefix _).eq_of_length (by omega)
      exact ⟨b, bs, rfl, by omega, hb, List.takeWhile_eq_self_iff.1 hall⟩

/-- Bytes that continue a lead byte as it asks have one of the forms. -/
theorem encodes_of_countContinuations
    (hlead : sequenceLength lead ≠ 0)
    (hcount : countContinuations lead bytes (sequenceLength lead - 1) = sequenceLength lead - 1) :
    Encodes lead (bytes.take (sequenceLength lead - 1))
      (codePoint lead (bytes.take (sequenceLength lead - 1))) := by
  have hcases := sequenceLength_eq lead
  split_ifs at hcases with hone htwo hthree hfour
  · rw [hcases]
    exact .one hone rfl
  · rw [hcases] at hcount ⊢
    obtain ⟨b, bs, htake, hlen, hb, -⟩ := exists_take_of_countContinuations hcount
    obtain rfl := List.length_eq_zero_iff.1 hlen
    rw [htake]
    exact .two htwo hb rfl
  · rw [hcases] at hcount ⊢
    obtain ⟨b, bs, htake, hlen, hb, hbs⟩ := exists_take_of_countContinuations hcount
    obtain ⟨c, rfl⟩ := List.length_eq_one_iff.1 hlen
    rw [htake]
    exact .three hthree hb (hbs c (by simp)) rfl
  · rw [hcases] at hcount ⊢
    obtain ⟨b, bs, htake, hlen, hb, hbs⟩ := exists_take_of_countContinuations hcount
    obtain ⟨c, d, rfl⟩ := List.length_eq_two.1 hlen
    rw [htake]
    exact .four hfour hb (hbs c (by simp)) (hbs d (by simp)) rfl
  · exact absurd hcases hlead

theorem decodeFrom_flatMap_utf8EncodeChar (start : Nat) (cs : List Char) :
    decodeFrom start (cs.flatMap String.utf8EncodeChar) = .ok cs := by
  induction cs generalizing start with
  | nil => simp [decodeFrom]
  | cons c cs ih =>
      obtain ⟨lead, cont, hbytes, hform⟩ := exists_encodes c
      rw [List.flatMap_cons, hbytes, List.cons_append, hform.decodeFrom_eq, ih, Char.ofNat_toNat]
      rfl

theorem flatMap_utf8EncodeChar_of_decodeFrom
    {start : Nat} {cs : List Char}
    (h : decodeFrom start bytes = .ok cs) :
    cs.flatMap String.utf8EncodeChar = bytes := by
  fun_induction decodeFrom start bytes generalizing cs with
  | case1 start =>
      cases h
      rfl
  | case3 start lead rest _ _ hlead hfound cs' hrest =>
      rename_i ih
      cases h
      have hform := encodes_of_countContinuations hlead hfound
      rw [List.flatMap_cons, ih hrest, hform.utf8EncodeChar_eq, List.cons_append,
        List.take_append_drop]
  | case2 | case4 | case5 | case6 => contradiction

end Decoding

section Texts

theorem toList_loop_eq (bytes : ByteArray) (i : Nat) (taken : List UInt8) :
    ByteArray.toList.loop bytes i taken = taken.reverse ++ bytes.data.toList.drop i := by
  fun_induction ByteArray.toList.loop bytes i taken with
  | case1 i taken h ih =>
      have hi : i < bytes.data.toList.length := by simpa using h
      have hget : bytes.get! i = bytes.data.toList[i] := getElem!_pos bytes.data i h
      rw [ih, List.drop_eq_getElem_cons hi, List.reverse_cons, List.append_assoc, hget]
      rfl
  | case2 i taken h =>
      have hi : bytes.data.toList.length ≤ i := by simpa using h
      rw [List.drop_of_length_le hi, List.append_nil]

/-- The bytes of a text, character by character. -/
theorem toList_toUTF8 (s : String) : s.toUTF8.toList = s.toList.flatMap String.utf8EncodeChar := by
  have hbytes : s.toUTF8 = (s.toList.flatMap String.utf8EncodeChar).toByteArray := by
    rw [String.toUTF8_eq_toByteArray, ← List.utf8Encode, ← String.toByteArray_ofList,
      String.ofList_toList]
  rw [hbytes, ByteArray.toList, toList_loop_eq, List.toList_data_toByteArray]
  rfl

/-- Bytes are decoded exactly if they are those of a text, and to that text. -/
theorem decode_eq_ok_iff
    {bytes : List UInt8} {s : String} :
    decode bytes = .ok s ↔ s.toUTF8.toList = bytes := by
  rw [toList_toUTF8]
  unfold decode
  constructor
  · intro h
    cases hchars : decodeFrom 0 bytes with
    | error f => simp [hchars, Except.map] at h
    | ok cs =>
        have hs : String.ofList cs = s := by simpa [hchars, Except.map] using h
        rw [← hs, String.toList_ofList]
        exact flatMap_utf8EncodeChar_of_decodeFrom hchars
  · rintro rfl
    rw [decodeFrom_flatMap_utf8EncodeChar, Except.map, String.ofList_toList]

end Texts

end Text

section Files

/-- A file is read exactly if it holds a text, and its lines are given one kind of end. -/
theorem readText_eq_ok_iff
    {bytes : List UInt8} {text : String} :
    readText bytes = .ok text
      ↔
    ∃ s : String, s.toUTF8.toList = bytes ∧ String.ofList (Text.unifyNewlines s.toList) = text := by
  unfold readText
  simp only [← Text.decode_eq_ok_iff]
  cases Text.decode bytes with
  | error f => simp
  | ok s => simp

end Files

end DeclGraph
