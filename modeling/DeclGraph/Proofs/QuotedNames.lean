import DeclGraph.Proofs.ObjectTypes

/-!
# Quoted names

A property or method may be named by a string literal, and the name is then what stands
between the quotes.  It is taken off the text of the literal, which has its layout
collapsed, so blanks inside the literal do not count as they stand.

* `Text.squeeze` writes every run of blanks as one space.  The name of a quoted member is
  the squeezed content of the literal (`memberName_of_quoted`).
* `Text.SameButBlanks` says that two texts differ only in the blanks of their runs: which
  blanks they are and how many.

Two quoted names are equal exactly if the contents are the same but for blanks.  So names
with single spaces only (`Text.Tidy`) are told apart, and others may not be.
-/

namespace DeclGraph

open Syntax (Node)

namespace Text

section Squeezing

/-- Puts a space before a text that does not start with one. -/
def addSpace (cs : List Char) : List Char :=
  if cs.head? = some ' ' then cs else ' ' :: cs

/-- Every run of blanks written as one space. -/
def squeeze : List Char → List Char
  | [] => []
  | c :: cs => if isBlank c then addSpace (squeeze cs) else c :: squeeze cs

/-- A text in which every run of blanks is a single space. -/
def Tidy (cs : List Char) : Prop :=
  (∀ c ∈ cs, isBlank c = true → c = ' ') ∧
    cs.IsChain fun a b => isBlank a = true → isBlank b = false

instance : DecidablePred Tidy := fun cs =>
  @instDecidableAnd _ _ (List.decidableBAll (fun c => isBlank c = true → c = ' ') cs) inferInstance

/-- Two texts that differ only in the blanks that stand in each run of blanks. -/
inductive SameButBlanks : List Char → List Char → Prop
  | nil : SameButBlanks [] []
  | char
      {c : Char} {s t : List Char}
      (hc : isBlank c = false)
      (h : SameButBlanks s t) :
      SameButBlanks (c :: s) (c :: t)
  | blanks
      {a b s t : List Char}
      (hane : a ≠ [])
      (hbne : b ≠ [])
      (ha : ∀ c ∈ a, isBlank c = true)
      (hb : ∀ c ∈ b, isBlank c = true)
      (h : SameButBlanks s t) :
      SameButBlanks (a ++ s) (b ++ t)

variable {c : Char} {a cs s t : List Char}

theorem isBlank_space : isBlank ' ' = true := by
  decide

theorem head?_addSpace (cs : List Char) : (addSpace cs).head? = some ' ' := by
  unfold addSpace
  split_ifs with h
  · exact h
  · rfl

theorem addSpace_addSpace (cs : List Char) : addSpace (addSpace cs) = addSpace cs :=
  if_pos (head?_addSpace cs)

theorem squeeze_cons_blank (h : isBlank c = true) : squeeze (c :: cs) = addSpace (squeeze cs) :=
  if_pos h

theorem squeeze_cons_char (h : isBlank c = false) : squeeze (c :: cs) = c :: squeeze cs :=
  if_neg (Bool.eq_false_iff.1 h)

/-- A run of blanks gives one space. -/
theorem squeeze_blanks
    (hne : a ≠ [])
    (ha : ∀ c ∈ a, isBlank c = true)
    (s : List Char) :
    squeeze (a ++ s) = addSpace (squeeze s) := by
  induction a with
  | nil => exact absurd rfl hne
  | cons c a ih =>
      obtain ⟨hc, ha⟩ := List.forall_mem_cons.1 ha
      rw [List.cons_append, squeeze_cons_blank hc]
      cases a with
      | nil => rfl
      | cons d a => rw [ih (List.cons_ne_nil d a) ha, addSpace_addSpace]

theorem squeeze_eq_of_same (h : SameButBlanks s t) : squeeze s = squeeze t := by
  induction h with
  | nil => rfl
  | char hc _ ih => rw [squeeze_cons_char hc, squeeze_cons_char hc, ih]
  | blanks hane hbne ha hb _ ih => rw [squeeze_blanks hane ha, squeeze_blanks hbne hb, ih]

/-- A text is empty, or starts with a character that is not blank, or with a run of blanks
that is as long as it can be. -/
theorem squeeze_cases (cs : List Char) :
    cs = [] ∨
    (∃ c s, cs = c :: s ∧ isBlank c = false ∧ squeeze cs = c :: squeeze s) ∨
    (∃ a s, cs = a ++ s ∧ a ≠ [] ∧ (∀ c ∈ a, isBlank c = true) ∧ squeeze cs = ' ' :: squeeze s) := by
  induction cs with
  | nil => exact .inl rfl
  | cons c cs ih =>
      refine .inr ?_
      cases hc : isBlank c with
      | false => exact .inl ⟨c, cs, rfl, hc, squeeze_cons_char hc⟩
      | true =>
          have hself : ∀ d ∈ [c], isBlank d = true := List.forall_mem_singleton.2 hc
          rw [squeeze_cons_blank hc]
          rcases ih with rfl | ⟨d, s, rfl, hd, hs⟩ | ⟨a, s, rfl, -, ha, hs⟩
          · exact .inr ⟨[c], [], rfl, List.cons_ne_nil _ _, hself, rfl⟩
          · refine .inr ⟨[c], d :: s, rfl, List.cons_ne_nil _ _, hself, if_neg ?_⟩
            rw [hs]
            rintro ⟨⟩
            exact Bool.false_ne_true (hd.symm.trans isBlank_space)
          · refine .inr ⟨c :: a, s, rfl, List.cons_ne_nil _ _, List.forall_mem_cons.2 ⟨hc, ha⟩, ?_⟩
            rw [hs]
            exact if_pos rfl

theorem same_of_squeeze_eq (h : squeeze s = squeeze t) : SameButBlanks s t := by
  -- A run of blanks is taken off whole, hence strong induction.
  induction hlength : s.length using Nat.strongRecOn generalizing s t with
  | ind length ih =>
      rcases squeeze_cases s with rfl | ⟨c, s', rfl, hc, hs⟩ | ⟨a, s', rfl, hane, ha, hs⟩
      · rcases squeeze_cases t with rfl | ⟨d, t', rfl, -, ht⟩ | ⟨b, t', rfl, -, -, ht⟩
        · exact .nil
        · cases h.trans ht
        · cases h.trans ht
      · rcases squeeze_cases t with rfl | ⟨d, t', rfl, -, ht⟩ | ⟨b, t', rfl, -, -, ht⟩
        · cases hs.symm.trans h
        · obtain ⟨rfl, hrest⟩ := List.cons.inj (hs.symm.trans (h.trans ht))
          exact .char hc (ih s'.length (hlength ▸ Nat.lt_succ_self _) hrest rfl)
        · obtain ⟨rfl, -⟩ := List.cons.inj (hs.symm.trans (h.trans ht))
          exact absurd (hc.symm.trans isBlank_space) Bool.false_ne_true
      · rcases squeeze_cases t with rfl | ⟨d, t', rfl, hd, ht⟩ | ⟨b, t', rfl, hbne, hb, ht⟩
        · cases hs.symm.trans h
        · obtain ⟨rfl, -⟩ := List.cons.inj (hs.symm.trans (h.trans ht))
          exact absurd (hd.symm.trans isBlank_space) Bool.false_ne_true
        · have hrest := (List.cons.inj (hs.symm.trans (h.trans ht))).2
          have hpos := List.length_pos_iff.2 hane
          rw [List.length_append] at hlength
          exact .blanks hane hbne ha hb (ih s'.length (by omega) hrest rfl)

theorem squeeze_eq_iff : squeeze s = squeeze t ↔ SameButBlanks s t :=
  ⟨same_of_squeeze_eq, squeeze_eq_of_same⟩

/-- Single spaces stay as they are. -/
theorem squeeze_of_tidy (h : Tidy cs) : squeeze cs = cs := by
  obtain ⟨hspaces, hchain⟩ := h
  induction cs with
  | nil => rfl
  | cons c cs ih =>
      obtain ⟨hc, hspaces⟩ := List.forall_mem_cons.1 hspaces
      have ih := ih hspaces hchain.of_cons
      cases hblank : isBlank c with
      | false => rw [squeeze_cons_char hblank, ih]
      | true =>
          rw [squeeze_cons_blank hblank, ih, hc hblank]
          refine if_neg fun hhead => ?_
          cases cs with
          | nil => cases hhead
          | cons d cs =>
              cases hhead
              have hnext := (List.isChain_cons_cons.1 hchain).1 hblank
              exact Bool.false_ne_true (hnext.symm.trans isBlank_space)

end Squeezing

section Quoting

variable {c d e : Char}

/-- The first word of a text that does not start with a blank. -/
theorem exists_words_cons
    (hc : isBlank c = false)
    (cs : List Char) :
    ∃ w ws, words (c :: cs) = (c :: w) :: ws := by
  rw [words, if_neg (Bool.eq_false_iff.1 hc)]
  split
  · exact ⟨_, _, rfl⟩
  · exact ⟨[], _, rfl⟩

theorem words_concat_ne_nil
    (he : isBlank e = false)
    (cs : List Char) :
    words (cs ++ [e]) ≠ [] := by
  induction cs with
  | nil =>
      obtain ⟨w, ws, hwords⟩ := exists_words_cons he []
      exact hwords ▸ List.cons_ne_nil _ _
  | cons c cs ih =>
      rw [List.cons_append]
      cases hc : isBlank c with
      | true => rwa [words_cons_blank hc]
      | false =>
          obtain ⟨w, ws, hwords⟩ := exists_words_cons hc (cs ++ [e])
          exact hwords ▸ List.cons_ne_nil _ _

/-- A character that is not blank stays before another one. -/
theorem unwords_words_char
    (hc : isBlank c = false)
    (hd : isBlank d = false)
    (cs : List Char) :
    unwords (words (c :: d :: cs)) = c :: unwords (words (d :: cs)) := by
  obtain ⟨w, ws, hwords⟩ := exists_words_cons hd cs
  have hcons : words (c :: d :: cs) = (c :: d :: w) :: ws := by
    rw [words, if_neg (Bool.eq_false_iff.1 hc), hwords]
    simp [hd]
  rw [hcons, hwords]
  cases ws <;> simp [unwords, List.intercalate]

/-- Between a character and the words after it, a blank counts as a space. -/
theorem unwords_words_blank
    {cs : List Char}
    (hc : isBlank c = false)
    (hd : isBlank d = true)
    (hcs : words cs ≠ []) :
    unwords (words (c :: d :: cs)) = c :: ' ' :: unwords (words cs) := by
  have hcons : words (c :: d :: cs) = [c] :: words cs := by
    rw [words, if_neg (Bool.eq_false_iff.1 hc), words_cons_blank hd]
    simp [hd]
  obtain ⟨w, ws, hwords⟩ := List.exists_cons_of_ne_nil hcs
  rw [hcons, hwords]
  simp [unwords, List.intercalate]

/-- Between two characters that are not blank, collapsing a text is squeezing it. -/
theorem unwords_words_between
    (he : isBlank e = false)
    (cs : List Char) :
    (∀ c, isBlank c = false → unwords (words (c :: (cs ++ [e]))) = c :: (squeeze cs ++ [e])) ∧
    (∀ c, isBlank c = true → ' ' :: unwords (words (cs ++ [e])) = squeeze (c :: cs) ++ [e]) := by
  -- The second part is for what follows a blank: blanks at its start do not count again.
  induction cs with
  | nil =>
      have hword : unwords (words [e]) = [e] := by
        rw [words, if_neg (Bool.eq_false_iff.1 he)]
        rfl
      refine ⟨fun c hc => ?_, fun c hc => ?_⟩
      · rw [List.nil_append, unwords_words_char hc he, hword]
        rfl
      · rw [List.nil_append, hword, squeeze_cons_blank hc]
        rfl
  | cons d ds ih =>
      obtain ⟨ihchar, ihblank⟩ := ih
      rw [List.cons_append]
      cases hd : isBlank d with
      | false =>
          refine ⟨fun c hc => ?_, fun c hc => ?_⟩
          · rw [unwords_words_char hc hd, ihchar d hd, squeeze_cons_char hd, List.cons_append]
          · have hhead : (squeeze (d :: ds)).head? ≠ some ' ' := by
              rw [squeeze_cons_char hd]
              rintro ⟨⟩
              exact Bool.false_ne_true (hd.symm.trans isBlank_space)
            rw [ihchar d hd, squeeze_cons_blank hc, addSpace, if_neg hhead, squeeze_cons_char hd]
            rfl
      | true =>
          refine ⟨fun c hc => ?_, fun c hc => ?_⟩
          · rw [unwords_words_blank hc hd (words_concat_ne_nil he ds), ihblank d hd]
          · rw [words_cons_blank hd, ihblank d hd, squeeze_cons_blank hc, squeeze_cons_blank hd,
              addSpace_addSpace]

end Quoting

end Text

section Members

/-- A member that is named by a string literal, with what stands between the quotes. -/
def Quoted (n : Node) (content : List Char) : Prop :=
  ∃ name mark, n.child? "name" = some name ∧ name.kind = "string" ∧ (mark = '\'' ∨ mark = '"') ∧
    name.source.toList = mark :: (content ++ [mark])

/-- A member of a body that is read from a property or a method. -/
structure ReadFrom (body n : Node) (m : Member) : Prop where
  mem : n ∈ body.namedChildren
  kind : n.kind ∈ propertyKinds ∨ n.kind ∈ methodKinds
  read : readBodyItem n = .member m

variable {body n n₁ n₂ : Node} {m m₁ m₂ : Member} {content c₁ c₂ : List Char}

/-- The name of a quoted member is the content of the literal with its blanks squeezed. -/
theorem memberName_of_quoted
    (h : Quoted n content) :
    memberName n = String.ofList (Text.squeeze content) := by
  obtain ⟨name, mark, hname, hkind, hmark, hsource⟩ := h
  have hblank : Text.isBlank mark = false := by
    rcases hmark with rfl | rfl <;> decide
  have htext : name.text = String.ofList (mark :: (Text.squeeze content ++ [mark])) := by
    unfold Syntax.Node.text Text.collapse
    rw [hsource, (Text.unwords_words_between hblank content).1 mark hblank]
  unfold memberName unquote
  rw [hname]
  dsimp only
  rw [if_pos (beq_iff_eq.2 hkind), htext, String.toList_ofList, List.drop_one, List.tail_cons,
    List.dropLast_concat]

theorem ReadFrom.name_eq (h : ReadFrom body n m) : m.name = memberName n := by
  have hread := h.read
  by_cases hproperty : n.kind ∈ propertyKinds
  · rw [readBodyItem_property hproperty] at hread
    cases hread
    rfl
  · have hmethod := h.kind.resolve_left hproperty
    unfold readBodyItem at hread
    rw [if_neg (by simpa using hproperty), if_pos (by simpa using hmethod)] at hread
    dsimp only at hread
    split_ifs at hread
    · cases hread
      rfl
    · cases hread
      rfl

theorem ReadFrom.mem_membersOf
    (h : ReadFrom body n m) :
    m ∈ membersOf (readBody (some body)) := by
  rw [membersOf_readBody]
  exact List.mem_filterMap.2 ⟨n, h.mem, fieldOf?_eq_some_iff.2 h.read⟩

/-- Two members of a body that are named by string literals have the same name exactly if the
literals are the same between their quotes but for blanks: the name has one space for each
run of blanks.  If both literals have single spaces only, the names tell them apart. -/
theorem quoted_names_eq_iff
    (h₁ : ReadFrom body n₁ m₁)
    (h₂ : ReadFrom body n₂ m₂)
    (hc₁ : Quoted n₁ c₁)
    (hc₂ : Quoted n₂ c₂) :
    m₁ ∈ membersOf (readBody (some body)) ∧
    m₂ ∈ membersOf (readBody (some body)) ∧
    m₁.name = String.ofList (Text.squeeze c₁) ∧
    m₂.name = String.ofList (Text.squeeze c₂) ∧
    (m₁.name = m₂.name ↔ Text.SameButBlanks c₁ c₂) ∧
    (Text.Tidy c₁ → Text.Tidy c₂ → (m₁.name = m₂.name ↔ c₁ = c₂)) := by
  have hname₁ : m₁.name = String.ofList (Text.squeeze c₁) :=
    h₁.name_eq.trans (memberName_of_quoted hc₁)
  have hname₂ : m₂.name = String.ofList (Text.squeeze c₂) :=
    h₂.name_eq.trans (memberName_of_quoted hc₂)
  have hsqueeze : m₁.name = m₂.name ↔ Text.squeeze c₁ = Text.squeeze c₂ := by
    rw [hname₁, hname₂]
    exact String.ofList_inj
  refine ⟨h₁.mem_membersOf, h₂.mem_membersOf, hname₁, hname₂,
    hsqueeze.trans Text.squeeze_eq_iff, fun htidy₁ htidy₂ => ?_⟩
  rw [hsqueeze, Text.squeeze_of_tidy htidy₁, Text.squeeze_of_tidy htidy₂]

/-- A property that is named by a literal. -/
def quotedProperty (literal : String) : Node :=
  .build "property_signature" "" none [.build "string" literal (some "name") []]

/-- Three properties: two words with two spaces between them, with one, and with a hyphen. -/
def quotedBody : Node :=
  .build "interface_body" "" (some "body")
    [quotedProperty "'a  b'", quotedProperty "\"a b\"", quotedProperty "'a-b'"]

/-- The member that a property with a literal is read as. -/
def quotedMember (literal : String) : Member :=
  .property (memberName (quotedProperty literal)) none false

theorem readFrom_quotedProperty
    (literal : String)
    (h : quotedProperty literal ∈ quotedBody.namedChildren) :
    ReadFrom quotedBody (quotedProperty literal) (quotedMember literal) :=
  ⟨h, .inl (.head _), rfl⟩

/-- A second space does not tell two names apart; another character does. -/
theorem quoted_names_eq_iff_quotedBody :
    membersOf (readBody (some quotedBody)) =
      [quotedMember "'a  b'", quotedMember "\"a b\"", quotedMember "'a-b'"] ∧
    (quotedMember "'a  b'").name = (quotedMember "\"a b\"").name ∧
    (quotedMember "\"a b\"").name ≠ (quotedMember "'a-b'").name := by
  have hwide := readFrom_quotedProperty "'a  b'" (.head _)
  have hnarrow := readFrom_quotedProperty "\"a b\"" (.tail _ (.head _))
  have hhyphened := readFrom_quotedProperty "'a-b'" (.tail _ (.tail _ (.head _)))
  have hwideQuoted : Quoted (quotedProperty "'a  b'") "a  b".toList :=
    ⟨_, '\'', rfl, rfl, .inl rfl, by decide⟩
  have hnarrowQuoted : Quoted (quotedProperty "\"a b\"") "a b".toList :=
    ⟨_, '"', rfl, rfl, .inr rfl, by decide⟩
  have hhyphenedQuoted : Quoted (quotedProperty "'a-b'") "a-b".toList :=
    ⟨_, '\'', rfl, rfl, .inl rfl, by decide⟩
  obtain ⟨-, -, -, -, hsame, -⟩ := quoted_names_eq_iff hwide hnarrow hwideQuoted hnarrowQuoted
  obtain ⟨-, -, -, -, -, htidy⟩ :=
    quoted_names_eq_iff hnarrow hhyphened hnarrowQuoted hhyphenedQuoted
  refine ⟨rfl, hsame.2 (Text.squeeze_eq_iff.1 (by decide)), ?_⟩
  exact fun hname => absurd ((htidy (by decide +kernel) (by decide +kernel)).1 hname) (by decide)

end Members

end DeclGraph
