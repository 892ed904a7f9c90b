/-!
# Texts of code points

A text that another program hands over may hold surrogates: the code points that UTF-16
keeps for the two halves of a pair, and that are no characters.  `Points` is the type of
such texts.

A text is cut at its surrogates, and what stands between them is ordinary text.  So every
list of code points has exactly one form (`Points.ofList`, `Points.toList`), and a text
without surrogates is `Points.plain`; these are the texts that have a UTF-8 form.
-/

namespace DeclGraph

section Points

/-- A code point kept for pairs, counted from the first one: the high ones stand before
the low ones. -/
abbrev Surrogate := Fin 2048

/-- A code point. -/
inductive Point where
  | char (c : Char)
  | surrogate (n : Surrogate)
deriving DecidableEq, Repr, Inhabited

namespace Point

/-- The number of a code point. -/
def code : Point → Nat
  | char c => c.toNat
  | surrogate n => 0xD800 + n

/-- Whether a code point is the first half of a pair. -/
def isHigh : Point → Bool
  | char _ => false
  | surrogate n => n < 0x400

/-- Whether a code point is the second half of a pair. -/
def isLow : Point → Bool
  | char _ => false
  | surrogate n => 0x400 ≤ n

end Point

/-- A text of code points. -/
inductive Points where
  | plain (s : String)
  /-- The text before the first surrogate, the surrogate, and what follows it. -/
  | cut (s : String) (n : Surrogate) (rest : Points)
deriving DecidableEq, Repr, Inhabited

instance : Coe String Points :=
  ⟨.plain⟩

namespace Points

/-- The code points of a text. -/
def toList : Points → List Point
  | plain s => s.toList.map .char
  | cut s n rest => s.toList.map .char ++ .surrogate n :: rest.toList

/-- The text of code points that follow some characters, the last of them first. -/
def ofListAfter (before : List Char) : List Point → Points
  | [] => plain (String.ofList before.reverse)
  | .char c :: ps => ofListAfter (c :: before) ps
  | .surrogate n :: ps => cut (String.ofList before.reverse) n (ofListAfter [] ps)

/-- The text of code points. -/
def ofList (ps : List Point) : Points :=
  ofListAfter [] ps

theorem toList_ofListAfter (before : List Char) (ps : List Point) :
    (ofListAfter before ps).toList = before.reverse.map .char ++ ps := by
  induction ps generalizing before with
  | nil => simp [ofListAfter, toList]
  | cons p ps ih =>
      cases p with
      | char c => simp [ofListAfter, ih]
      | surrogate n => simp [ofListAfter, toList, ih]

@[simp]
theorem toList_ofList (ps : List Point) : (ofList ps).toList = ps :=
  toList_ofListAfter [] ps

theorem ofListAfter_map_append (before cs : List Char) (ps : List Point) :
    ofListAfter before (cs.map .char ++ ps) = ofListAfter (cs.reverse ++ before) ps := by
  induction cs generalizing before with
  | nil => rfl
  | cons c cs ih => simp [ofListAfter, ih]

@[simp]
theorem ofList_toList (p : Points) : ofList p.toList = p := by
  unfold ofList
  induction p with
  | plain s =>
      have hchars := ofListAfter_map_append [] s.toList []
      rw [List.append_nil] at hchars
      rw [toList, hchars]
      simp [ofListAfter]
  | cut s n rest ih => simp [toList, ofListAfter_map_append, ofListAfter, ih]

/-- The text that has a UTF-8 form. -/
def encode? : Points → Option String
  | plain s => some s
  | cut _ _ _ => none

def append : Points → Points → Points
  | plain s, plain t => plain (s ++ t)
  | plain s, cut t n rest => cut (s ++ t) n rest
  | cut s n rest, q => cut s n (append rest q)

instance : Append Points :=
  ⟨append⟩

/-- Texts with a separator between neighbours. -/
def join (sep : String) : List Points → Points
  | [] => plain ""
  | [p] => p
  | p :: ps => p ++ plain sep ++ join sep ps

/-- Whether a text comes before another one, by the numbers of their code points. -/
def before (p q : Points) : Bool :=
  decide (p.toList.map Point.code < q.toList.map Point.code)

end Points

end Points

end DeclGraph
