import DeclGraph.Text.Newline
import DeclGraph.Text.Quoted

/-!
# Decoding UTF-8

`decode` reads bytes as UTF-8 text.  The first byte sequence that is not a
character is reported as a `DecodeFault`: where it starts, how many bytes it
spans, and what is wrong with it.

* A byte that starts no character spans only itself.
* A continuation that does not fit ends the sequence before it.
* A character cut off by the end of the data spans all that is left of it.

`readText` is how a text file is read: its bytes are decoded, and its lines are given
one kind of end.
-/

namespace DeclGraph
namespace Text

section Decode

/-- What can be wrong with a byte sequence. -/
inductive DecodeReason where
  | invalidStart
  | invalidContinuation
  | unexpectedEnd
deriving DecidableEq, Repr

def DecodeReason.text : DecodeReason → String
  | invalidStart => "invalid start byte"
  | invalidContinuation => "invalid continuation byte"
  | unexpectedEnd => "unexpected end of data"

/-- The first place where bytes are not UTF-8. -/
structure DecodeFault where
  /-- Offset of the first byte of the sequence. -/
  start : Nat
  /-- Number of bytes of the sequence. -/
  length : Nat
  /-- The first byte itself. -/
  byte : UInt8
  reason : DecodeReason
deriving DecidableEq, Repr

/-- The wording of a fault: one byte is shown by value, several by position only. -/
def DecodeFault.message (f : DecodeFault) : String :=
  let place :=
    if f.length ≤ 1 then
      "byte 0x" ++ String.ofList (hex 2 f.byte.toNat) ++ " in position " ++ toString f.start
    else
      "bytes in position " ++ toString f.start ++ "-" ++ toString (f.start + f.length - 1)
  "'utf-8' codec can't decode " ++ place ++ ": " ++ f.reason.text

def isContinuation (b : UInt8) : Bool :=
  0x80 ≤ b && b < 0xC0

/-- Whether `b` may follow the lead byte: the first continuation byte also rules
out overlong forms, surrogates and values beyond the last code point. -/
def fitsLead (lead b : UInt8) : Bool :=
  isContinuation b &&
    !(lead == 0xE0 && b < 0xA0) && !(lead == 0xED && 0xA0 ≤ b) &&
    !(lead == 0xF0 && b < 0x90) && !(lead == 0xF4 && 0x90 ≤ b)

/-- The number of bytes of a character, from its first byte; zero for none. -/
def sequenceLength (lead : UInt8) : Nat :=
  if lead < 0x80 then 1
  else if 0xC2 ≤ lead && lead < 0xE0 then 2
  else if 0xE0 ≤ lead && lead < 0xF0 then 3
  else if 0xF0 ≤ lead && lead < 0xF5 then 4
  else 0

/-- How many bytes after the lead byte continue it, at most `n`. -/
def countContinuations (lead : UInt8) (bs : List UInt8) (n : Nat) : Nat :=
  match bs.take n with
  | [] => 0
  | b :: rest => if fitsLead lead b then 1 + (rest.takeWhile isContinuation).length else 0

/-- The code point of a complete sequence. -/
def codePoint (lead : UInt8) (bs : List UInt8) : Nat :=
  let bits :=
    match bs.length with
    | 0 => lead.toNat
    | 1 => lead.toNat % 32
    | 2 => lead.toNat % 16
    | _ => lead.toNat % 8
  bs.foldl (fun n b => 64 * n + b.toNat % 64) bits

/-- Decodes from byte offset `start` on. -/
def decodeFrom (start : Nat) (bytes : List UInt8) : Except DecodeFault (List Char) :=
  match bytes with
  | [] => .ok []
  | lead :: rest =>
    let need := sequenceLength lead - 1
    let found := countContinuations lead rest need
    if sequenceLength lead = 0 then .error ⟨start, 1, lead, .invalidStart⟩
    else if found = need then
      match decodeFrom (start + need + 1) (rest.drop need) with
      | .ok cs => .ok (Char.ofNat (codePoint lead (rest.take need)) :: cs)
      | .error f => .error f
    else if found = rest.length then
      .error ⟨start, 1 + found, lead, .unexpectedEnd⟩
    else .error ⟨start, 1 + found, lead, .invalidContinuation⟩
termination_by bytes.length
decreasing_by simp only [List.length_drop, List.length_cons]; omega

/-- Reads bytes as UTF-8 text. -/
def decode (bytes : List UInt8) : Except DecodeFault String :=
  (decodeFrom 0 bytes).map String.ofList

end Decode

end Text

/-- The text of bytes, with one kind of line end. -/
def readText (bytes : List UInt8) : Except Text.DecodeFault String :=
  match Text.decode bytes with
  | .ok s => .ok (String.ofList (Text.unifyNewlines s.toList))
  | .error f => .error f

end DeclGraph
