import Mathlib.Data.List.TakeWhile

/-!
# Brackets and operators in texts

A text is read from left to right, keeping count of the open brackets and of the
quotes around the place (`Nesting`).

* A text is balanced if its brackets match and its quotes are closed (`Balanced`).  Balanced
  texts can be put together and put into brackets.
* A text is loose if an operator applies to it as a whole (`Loose`): one that stands outside
  all brackets and quotes, or the word `keyof` at the start, which may stand right before a
  bracket, a quote or a sign.  Brackets after a text do not make it loose.
* A name holds no bracket, quote or operator (`IsName`).
-/

namespace DeclGraph

section Nesting

/-- What is open at a place of a text. -/
structure Nesting where
  /-- The number of open brackets. -/
  depth : Nat
  /-- The quote inside which the place stands. -/
  quote : Option Char
  /-- Whether the last character was a backslash in quotes, or an equals sign outside. -/
  primed : Bool
deriving DecidableEq, Repr

def openingBrackets : List Char :=
  ['(', '[', '\x7b', '<']

def closingBrackets : List Char :=
  [')', ']', '\x7d', '>']

def quotes : List Char :=
  ['"', '\'', '\x60']

/-- The operators between types, and the blank around them. -/
def operators : List Char :=
  ['|', '&', '?', '=', ' ']

/-- The signs of numbers. -/
def signs : List Char :=
  ['+', '-']

/-- Characters of which names consist. -/
def isNameChar (c : Char) : Bool :=
  !(openingBrackets.contains c || closingBrackets.contains c || quotes.contains c ||
    operators.contains c || signs.contains c)

namespace Nesting

/-- Outside quotes, at a depth. -/
def plain (depth : Nat) : Nesting :=
  ⟨depth, none, false⟩

/-- The same place with one more bracket around it. -/
def deepen (s : Nesting) : Nesting :=
  { s with depth := s.depth + 1 }

/-- Reads one character outside quotes.  The second half of an arrow closes nothing, and no
bracket may be closed that is not open. -/
def stepOutside (s : Nesting) (c : Char) : Option Nesting :=
  if openingBrackets.contains c then some (.plain (s.depth + 1))
  else if c == '>' && s.primed then some (.plain s.depth)
  else if closingBrackets.contains c then
    if s.depth = 0 then none else some (.plain (s.depth - 1))
  else if quotes.contains c then some ⟨s.depth, some c, false⟩
  else some ⟨s.depth, none, c == '='⟩

/-- Reads one character. -/
def step (s : Nesting) (c : Char) : Option Nesting :=
  match s.quote with
  | none => s.stepOutside c
  | some q =>
    if s.primed then some { s with primed := false }
    else if c == '\\' then some { s with primed := true }
    else if c == q then some { s with quote := none }
    else some s

/-- Reads a text. -/
def run (s : Nesting) : List Char → Option Nesting
  | [] => some s
  | c :: cs => (s.step c).bind fun s' => s'.run cs

/-- Whether a place is outside all brackets and quotes. -/
def isOuter (s : Nesting) : Bool :=
  s.depth == 0 && s.quote.isNone

/-- Whether an operator stands outside all brackets and quotes of a text. -/
def operated (s : Nesting) : List Char → Bool
  | [] => false
  | c :: cs =>
    (s.isOuter && operators.contains c) || (s.step c).any fun s' => s'.operated cs

variable {s s' : Nesting} {a b : List Char} {c : Char}

theorem run_append (s : Nesting) (a b : List Char) :
    s.run (a ++ b) = (s.run a).bind fun s' => s'.run b := by
  induction a generalizing s with
  | nil => rfl
  | cons c cs ih =>
      rw [List.cons_append, run, run, Option.bind_assoc]
      exact congrArg _ (funext fun s' => ih s')

theorem run_append_of_run
    (h : s.run a = some s')
    (b : List Char) :
    s.run (a ++ b) = s'.run b := by
  rw [run_append, h]
  rfl

theorem operated_append
    (h : s.run a = some s')
    (b : List Char) :
    s.operated (a ++ b) = (s.operated a || s'.operated b) := by
  induction a generalizing s with
  | nil =>
      cases h
      rfl
  | cons c cs ih =>
      obtain ⟨next, hnext, hrest⟩ := Option.bind_eq_some_iff.1 h
      rw [List.cons_append, operated, operated, hnext, Option.any_some, Option.any_some, ih hrest,
        Bool.or_assoc]

theorem stepOutside_deepen
    (h : s.stepOutside c = some s') :
    s.deepen.stepOutside c = some s'.deepen := by
  unfold stepOutside at h ⊢
  split at h
  · rename_i hopening
    cases h
    exact if_pos hopening
  · rename_i hopening
    refine (if_neg hopening).trans ?_
    split at h
    · rename_i harrow
      cases h
      exact if_pos harrow
    · rename_i harrow
      refine (if_neg harrow).trans ?_
      split at h
      · rename_i hclosing
        split at h
        · cases h
        · rename_i hdepth
          cases h
          have hpred : s.depth + 1 - 1 = s.depth - 1 + 1 := by omega
          refine (if_pos hclosing).trans ((if_neg (Nat.succ_ne_zero s.depth)).trans ?_)
          exact congrArg (fun d => some (plain d)) hpred
      · rename_i hclosing
        refine (if_neg hclosing).trans ?_
        split at h
        · rename_i hquote
          cases h
          exact if_pos hquote
        · rename_i hquote
          cases h
          exact if_neg hquote

/-- One more bracket around a text does not change how it is read. -/
theorem step_deepen
    (h : s.step c = some s') :
    s.deepen.step c = some s'.deepen := by
  obtain ⟨depth, quote, primed⟩ := s
  cases quote with
  | none => exact stepOutside_deepen h
  | some q =>
      simp only [step, deepen] at h ⊢
      split at h
      · rename_i hprimed
        cases h
        exact if_pos hprimed
      · rename_i hprimed
        refine (if_neg hprimed).trans ?_
        split at h
        · rename_i hescape
          cases h
          exact if_pos hescape
        · rename_i hescape
          refine (if_neg hescape).trans ?_
          split at h
          · rename_i hclose
            cases h
            exact if_pos hclose
          · rename_i hclose
            cases h
            exact if_neg hclose

theorem run_deepen
    (h : s.run a = some s') :
    s.deepen.run a = some s'.deepen := by
  induction a generalizing s with
  | nil =>
      cases h
      rfl
  | cons c cs ih =>
      obtain ⟨next, hnext, hrest⟩ := Option.bind_eq_some_iff.1 h
      rw [run, step_deepen hnext]
      exact ih hrest

/-- Inside brackets nothing is outside all brackets. -/
theorem operated_deepen
    (h : s.run a = some s') :
    s.deepen.operated a = false := by
  induction a generalizing s with
  | nil => rfl
  | cons c cs ih =>
      obtain ⟨next, hnext, hrest⟩ := Option.bind_eq_some_iff.1 h
      have houter : s.deepen.isOuter = false := by simp [isOuter, deepen]
      rw [operated, houter, Bool.false_and, Bool.false_or, step_deepen hnext, Option.any_some]
      exact ih hrest

end Nesting

end Nesting

section Balanced

/-- The brackets of a text match and its quotes are closed. -/
def Balanced (cs : List Char) : Prop :=
  (Nesting.plain 0).run cs = some (.plain 0)

/-- The name with which a text starts. -/
def leading (cs : List Char) : List Char :=
  cs.takeWhile isNameChar

/-- The operator that needs no blank before a bracket, a quote or a sign. -/
def keyWord : List Char :=
  ['k', 'e', 'y', 'o', 'f']

/-- An operator applies to a text as a whole. -/
def Loose (cs : List Char) : Prop :=
  (Nesting.plain 0).operated cs = true ∨ leading cs = keyWord

instance : DecidablePred Balanced := fun cs =>
  inferInstanceAs (Decidable ((Nesting.plain 0).run cs = some (.plain 0)))

instance : DecidablePred Loose := fun cs =>
  inferInstanceAs (Decidable ((Nesting.plain 0).operated cs = true ∨ leading cs = keyWord))

variable {a b : List Char} {opening closing : Char}

theorem Balanced.append
    (ha : Balanced a)
    (hb : Balanced b) :
    Balanced (a ++ b) :=
  (Nesting.run_append_of_run ha b).trans hb

theorem Balanced.intercalate
    {sep : List Char} {parts : List (List Char)}
    (hsep : Balanced sep)
    (hparts : ∀ p ∈ parts, Balanced p) :
    Balanced (sep.intercalate parts) := by
  induction parts with
  | nil => rfl
  | cons p ps ih =>
      obtain ⟨hp, hps⟩ := List.forall_mem_cons.1 hparts
      cases ps with
      | nil =>
          rw [List.intercalate_singleton]
          exact hp
      | cons q qs =>
          rw [List.intercalate_cons_cons]
          exact (hp.append hsep).append (ih hps)

theorem step_opening
    (h : opening ∈ openingBrackets) :
    (Nesting.plain 0).step opening = some (.plain 1) :=
  if_pos (List.contains_iff_mem.2 h)

theorem step_closing
    (h : closing ∈ closingBrackets) :
    (Nesting.plain 1).step closing = some (.plain 0) := by
  simp only [closingBrackets, List.mem_cons, List.not_mem_nil, or_false] at h
  rcases h with rfl | rfl | rfl | rfl <;> rfl

theorem not_operator_of_opening
    (h : opening ∈ openingBrackets) :
    operators.contains opening = false := by
  simp only [openingBrackets, List.mem_cons, List.not_mem_nil, or_false] at h
  rcases h with rfl | rfl | rfl | rfl <;> rfl

/-- A balanced text in brackets is balanced. -/
theorem Balanced.enclose
    (ha : Balanced a)
    (hopening : opening ∈ openingBrackets)
    (hclosing : closing ∈ closingBrackets) :
    Balanced (opening :: (a ++ [closing])) := by
  have hinner : (Nesting.plain 1).run a = some (.plain 1) := Nesting.run_deepen ha
  unfold Balanced
  rw [Nesting.run, step_opening hopening, Option.bind_some, Nesting.run_append_of_run hinner,
    Nesting.run, step_closing hclosing]
  rfl

/-- No operator in brackets is outside. -/
theorem Balanced.operated_enclose
    (ha : Balanced a)
    (hopening : opening ∈ openingBrackets)
    (hclosing : closing ∈ closingBrackets) :
    (Nesting.plain 0).operated (opening :: (a ++ [closing])) = false := by
  have hinner : (Nesting.plain 1).run a = some (.plain 1) := Nesting.run_deepen ha
  have hquiet : (Nesting.plain 1).operated a = false := Nesting.operated_deepen ha
  rw [Nesting.operated, not_operator_of_opening hopening, Bool.and_false, Bool.false_or,
    step_opening hopening, Option.any_some, Nesting.operated_append hinner, hquiet,
    Nesting.operated, step_closing hclosing]
  simp [Nesting.isOuter, Nesting.plain, Nesting.operated]

theorem leading_append_opening
    (hopening : opening ∈ openingBrackets)
    (a b : List Char) :
    leading (a ++ opening :: b) = leading a := by
  have hstop : isNameChar opening = false := by
    unfold isNameChar
    rw [List.contains_iff_mem.2 hopening]
    rfl
  unfold leading
  induction a with
  | nil => rw [List.nil_append, List.takeWhile_cons, hstop]; rfl
  | cons c cs ih => rw [List.cons_append, List.takeWhile_cons, List.takeWhile_cons, ih]

/-- Brackets after a text bring no operator to it. -/
theorem Balanced.loose_append_enclose_iff
    (ha : Balanced a)
    (hb : Balanced b)
    (hopening : opening ∈ openingBrackets)
    (hclosing : closing ∈ closingBrackets) :
    Loose (a ++ opening :: (b ++ [closing])) ↔ Loose a := by
  unfold Loose
  rw [Nesting.operated_append ha, hb.operated_enclose hopening hclosing, Bool.or_false,
    leading_append_opening hopening]

example : Loose "keyof'a'[]".toList ∧ Loose "keyof-1[]".toList ∧ ¬ Loose "keys[]".toList := by
  decide

end Balanced

section Names

/-- A name, which is not empty and no operator. -/
def IsName (cs : List Char) : Prop :=
  cs ≠ [] ∧ cs ≠ keyWord ∧ cs.all isNameChar = true

instance : DecidablePred IsName := fun cs =>
  inferInstanceAs (Decidable (cs ≠ [] ∧ cs ≠ keyWord ∧ cs.all isNameChar = true))

variable {cs : List Char} {c : Char}

theorem not_mem_of_isNameChar
    (h : isNameChar c = true) :
    openingBrackets.contains c = false ∧ closingBrackets.contains c = false ∧
      quotes.contains c = false ∧ operators.contains c = false := by
  simp only [isNameChar, Bool.not_eq_true', Bool.or_eq_false_iff, and_assoc] at h
  exact ⟨h.1, h.2.1, h.2.2.1, h.2.2.2.1⟩

theorem step_of_isNameChar
    (h : isNameChar c = true) :
    (Nesting.plain 0).step c = some (.plain 0) := by
  obtain ⟨hopening, hclosing, hquote, hoperator⟩ := not_mem_of_isNameChar h
  have hequals : (c == '=') = false := by
    rw [beq_eq_false_iff_ne]
    rintro rfl
    cases hoperator
  simp only [Nesting.step, Nesting.stepOutside, Nesting.plain, hopening, hclosing, hquote, hequals,
    Bool.and_false, Bool.false_eq_true, if_false]

theorem IsName.isNameChar
    (h : IsName cs)
    (hc : c ∈ cs) :
    isNameChar c = true :=
  List.all_eq_true.1 h.2.2 c hc

theorem balanced_of_isNameChar
    (h : ∀ c ∈ cs, isNameChar c = true) :
    Balanced cs ∧ (Nesting.plain 0).operated cs = false := by
  induction cs with
  | nil => exact ⟨rfl, rfl⟩
  | cons c cs ih =>
      obtain ⟨hc, hcs⟩ := List.forall_mem_cons.1 h
      obtain ⟨hbalanced, hquiet⟩ := ih hcs
      obtain ⟨-, -, -, hoperator⟩ := not_mem_of_isNameChar hc
      constructor
      · unfold Balanced
        rw [Nesting.run, step_of_isNameChar hc]
        exact hbalanced
      · rw [Nesting.operated, hoperator, Bool.and_false, step_of_isNameChar hc]
        exact hquiet

theorem IsName.balanced
    (h : IsName cs) :
    Balanced cs :=
  (balanced_of_isNameChar fun _ hc => h.isNameChar hc).1

theorem IsName.not_loose
    (h : IsName cs) :
    ¬ Loose cs := by
  have hchars : ∀ c ∈ cs, DeclGraph.isNameChar c = true := fun _ hc => h.isNameChar hc
  obtain ⟨-, hquiet⟩ := balanced_of_isNameChar hchars
  have hleading : leading cs = cs := List.takeWhile_eq_self_iff.2 hchars
  rintro (hloose | hword)
  · rw [hquiet] at hloose
    cases hloose
  · exact h.2.1 (hleading.symm.trans hword)

end Names

end DeclGraph
