import DeclGraph.Proofs.Brackets
import DeclGraph.Proofs.Labels

/-!
# Labels of arrays

The label of an array is the label of its element and a pair of brackets.  Of all elements
only signatures are put into parentheses.

* `Written.Spelled` says what the texts and names in a written type without comments look like,
  and `TypeExpr.Spelled` says it of the type that is denoted.
* Every label is then balanced (`balanced_text`), and the label of an element is loose only if
  the element is a loose text (`exists_verbatim_of_loose`).
* So a label that an array shares with another type is a loose text with brackets after it,
  which says something else without the parentheses (`ReadsAs`).
-/

namespace DeclGraph

open Syntax (Node)

section Layers

/-- Whether a type is an array. -/
def TypeExpr.isArray : TypeExpr → Bool
  | .array _ => true
  | _ => false

/-- Arrays of a type, of arrays of it, and so on. -/
def TypeExpr.arrays (t : TypeExpr) : Nat → TypeExpr
  | 0 => t
  | k + 1 => .array (t.arrays k)

/-- A text with pairs of brackets after it. -/
def bracketed (s : String) : Nat → String
  | 0 => s
  | k + 1 => bracketed s k ++ "[]"

/-- The label of a type as the element of an array. -/
def TypeExpr.elementText (t : TypeExpr) : String :=
  if t.isFunction then "(" ++ t.text ++ ")" else t.text

variable {t core : TypeExpr} {k : Nat}

theorem text_array (t : TypeExpr) : (TypeExpr.array t).text = t.elementText ++ "[]" := by
  unfold TypeExpr.elementText
  rw [TypeExpr.text]
  split
  · show "(" ++ t.text ++ (")" ++ "[]") = _
    exact String.append_assoc.symm
  · rfl

theorem text_arrays (t : TypeExpr) (k : Nat) :
    (t.arrays (k + 1)).text = bracketed t.elementText (k + 1) := by
  induction k with
  | zero => exact text_array t
  | succ k ih =>
      rw [TypeExpr.arrays, text_array, bracketed, ← ih]
      rfl

/-- Every array has an innermost element. -/
theorem exists_arrays
    (h : t.isArray = true) :
    ∃ (core : TypeExpr) (k : Nat), t = core.arrays (k + 1) ∧ core.isArray = false := by
  induction t using TypeExpr.induct with
  | array element ih =>
      cases helement : element.isArray with
      | false => exact ⟨element, 0, rfl, helement⟩
      | true =>
          obtain ⟨core, k, rfl, hcore⟩ := ih helement
          exact ⟨core, k + 1, rfl, hcore⟩
  | _ => cases h

theorem every_of_every_arrays
    {P : TypeExpr → Prop}
    (h : (core.arrays k).Every P) :
    core.Every P := by
  induction k with
  | zero => exact h
  | succ k ih => exact ih ((TypeExpr.every_iff.1 h).2 _ (List.mem_singleton_self _))

theorem isArray_link (find : String → Option Link) (t : TypeExpr) :
    (t.link find).isArray = t.isArray := by
  cases t with
  | pending name =>
      rw [TypeExpr.link]
      cases find name <;> rfl
  | _ => rfl

end Layers

section Spelling

/-- Texts of types that are kept as they are written.

* Brackets and quotes match.
* A simple type with brackets after it is an array type.  So where a text ends in brackets, an
  operator before them applies to the whole.
* A signature is not kept. -/
structure KeptText (text : String) : Prop where
  ne_empty : text ≠ ""
  balanced : Balanced text.toList
  loose : ∀ element, element ≠ "" → text = element ++ "[]" → Loose text.toList
  not_signature : ∀ params result, Balanced params →
    text.toList ≠ '(' :: (params ++ [')']) ++ (" => ".toList ++ result)

/-- How the texts and names of a type are spelled. -/
def TypeExpr.Spelled : TypeExpr → Prop
  | .verbatim text _ => KeptText text
  | .model target => IsName target.name.bare.toList
  | .pending name => IsName name.toList
  | .param name => IsName name.toList
  | .generic name _ _ => IsName name.toList
  | .function args _ => ∀ a ∈ args, Balanced a.name.toList
  | _ => True

variable {t u result : TypeExpr} {args : List (Field TypeExpr)} {text : String} {k : Nat}

theorem balanced_bracketed
    (h : Balanced text.toList)
    (k : Nat) :
    Balanced (bracketed text k).toList := by
  induction k with
  | zero => exact h
  | succ k ih =>
      rw [bracketed, String.toList_append]
      exact ih.append rfl

/-- Brackets after a text do not make it loose. -/
theorem loose_bracketed_iff
    (h : Balanced text.toList)
    (k : Nat) :
    Loose (bracketed text k).toList ↔ Loose text.toList := by
  induction k with
  | zero => rfl
  | succ k ih =>
      rw [bracketed, String.toList_append, ← ih]
      exact (balanced_bracketed h k).loose_append_enclose_iff (b := []) rfl (by decide) (by decide)

theorem toList_text_keyed (key value : TypeExpr) :
    (TypeExpr.keyed key value).text.toList =
      "Map".toList ++ '<' :: (key.text.toList ++ ", ".toList ++ value.text.toList ++ ['>']) := by
  simp [TypeExpr.text]

theorem toList_text_generic (name : String) (args : List TypeExpr) (target : Option Link) :
    (TypeExpr.generic name args target).text.toList =
      name.toList ++ '<' ::
        (", ".toList.intercalate (args.map fun a => a.text.toList) ++ ['>']) := by
  simp [TypeExpr.text, textAll_eq_map, String.toList_intercalate, Function.comp_def]

theorem balanced_separator : Balanced ", ".toList :=
  rfl

/-- The label of a parameter. -/
def paramText (a : Field TypeExpr) : String :=
  a.name ++ (if a.optional then "?" else "") ++ ": " ++ a.type.text

theorem toList_text_function (args : List (Field TypeExpr)) (result : TypeExpr) :
    (TypeExpr.function args result).text.toList =
      '(' :: (", ".toList.intercalate (args.map fun a => (paramText a).toList) ++ [')']) ++
        (" => ".toList ++ result.text.toList) := by
  have hparams : textFields args = args.map paramText := textFields_eq_map args
  simp [TypeExpr.text, hparams, String.toList_intercalate, Function.comp_def]

theorem balanced_paramText
    {a : Field TypeExpr}
    (hname : Balanced a.name.toList)
    (htype : Balanced a.type.text.toList) :
    Balanced (paramText a).toList := by
  have hmark : Balanced (if a.optional then "?" else "").toList := by
    split <;> rfl
  have hcolon : Balanced ": ".toList := rfl
  unfold paramText
  rw [String.toList_append, String.toList_append, String.toList_append]
  exact ((hname.append hmark).append hcolon).append htype

theorem balanced_params
    (hnames : ∀ a ∈ args, Balanced a.name.toList)
    (htypes : ∀ a ∈ args, Balanced a.type.text.toList) :
    Balanced (", ".toList.intercalate (args.map fun a => (paramText a).toList)) :=
  balanced_separator.intercalate
    (List.forall_mem_map.2 fun a ha => balanced_paramText (hnames a ha) (htypes a ha))

theorem balanced_elementText
    (h : Balanced t.text.toList) :
    Balanced t.elementText.toList := by
  unfold TypeExpr.elementText
  split
  · rw [String.toList_append, String.toList_append]
    exact h.enclose (by decide) (by decide)
  · exact h

/-- Every label is balanced. -/
theorem balanced_text
    (h : t.Every TypeExpr.Spelled) :
    Balanced t.text.toList := by
  induction t using TypeExpr.induct with
  | verbatim text references ih => exact (TypeExpr.every_iff.1 h).1.balanced
  | model target => exact (TypeExpr.every_iff.1 h).1.balanced
  | pending name => exact (TypeExpr.every_iff.1 h).1.balanced
  | param name => exact (TypeExpr.every_iff.1 h).1.balanced
  | array element ih =>
      have helement : Balanced element.text.toList :=
        ih ((TypeExpr.every_iff.1 h).2 element (List.mem_singleton_self _))
      rw [text_array, String.toList_append]
      exact (balanced_elementText helement).append rfl
  | keyed key value ihkey ihvalue =>
      obtain ⟨-, hparts⟩ := TypeExpr.every_iff.1 h
      have hkey := ihkey (hparts key (by simp [TypeExpr.parts]))
      have hvalue := ihvalue (hparts value (by simp [TypeExpr.parts]))
      rw [toList_text_keyed]
      refine Balanced.append rfl (Balanced.enclose ?_ (by decide) (by decide))
      exact (hkey.append balanced_separator).append hvalue
  | generic name args target ih =>
      obtain ⟨hname, hparts⟩ := TypeExpr.every_iff.1 h
      rw [toList_text_generic]
      refine hname.balanced.append (Balanced.enclose ?_ (by decide) (by decide))
      refine balanced_separator.intercalate (List.forall_mem_map.2 fun a ha => ?_)
      exact ih a ha (hparts a ha)
  | function args result ihargs ihresult =>
      obtain ⟨hnames, hargs, hresult⟩ := TypeExpr.every_function_iff.1 h
      rw [toList_text_function]
      have hparams := balanced_params hnames fun a ha => ihargs a ha (hargs a ha)
      exact (hparams.enclose (by decide) (by decide)).append
        (Balanced.append rfl (ihresult hresult))

/-- A signature's label is its parameters in parentheses, an arrow and its result. -/
theorem exists_params_of_function
    (h : (TypeExpr.function args result).Every TypeExpr.Spelled) :
    ∃ params, Balanced params ∧
      (TypeExpr.function args result).text.toList =
        '(' :: (params ++ [')']) ++ (" => ".toList ++ result.text.toList) := by
  obtain ⟨hnames, hargs, -⟩ := TypeExpr.every_function_iff.1 h
  have hparams := balanced_params hnames fun a ha => balanced_text (hargs a ha)
  exact ⟨_, hparams, toList_text_function args result⟩

theorem loose_text_of_function
    (h : (TypeExpr.function args result).Every TypeExpr.Spelled) :
    Loose (TypeExpr.function args result).text.toList := by
  obtain ⟨params, hparams, htext⟩ := exists_params_of_function h
  have henclosed : Balanced ('(' :: (params ++ [')'])) :=
    hparams.enclose (by decide) (by decide)
  left
  rw [htext, Nesting.operated_append henclosed, Bool.or_eq_true]
  exact .inr rfl

end Spelling

section Elements

variable {t u : TypeExpr}

/-- Of the elements that are no arrays only texts are loose. -/
theorem exists_verbatim_of_loose
    (hspelled : t.Every TypeExpr.Spelled)
    (harray : t.isArray = false)
    (h : Loose t.elementText.toList) :
    ∃ text references, t = .verbatim text references := by
  obtain ⟨htop, hparts⟩ := TypeExpr.every_iff.1 hspelled
  cases t with
  | verbatim text references => exact ⟨text, references, rfl⟩
  | model target => exact absurd h htop.not_loose
  | pending name => exact absurd h htop.not_loose
  | param name => exact absurd h htop.not_loose
  | array element => cases harray
  | keyed key value =>
      have hkey := balanced_text (hparts key (by simp [TypeExpr.parts]))
      have hvalue := balanced_text (hparts value (by simp [TypeExpr.parts]))
      have hname : Balanced "Map".toList := rfl
      change Loose (TypeExpr.keyed key value).text.toList at h
      rw [toList_text_keyed, hname.loose_append_enclose_iff
        ((hkey.append balanced_separator).append hvalue) (by decide) (by decide)] at h
      exact absurd h (by decide)
  | generic name args target =>
      have hinner : Balanced (", ".toList.intercalate (args.map fun a => a.text.toList)) :=
        balanced_separator.intercalate
          (List.forall_mem_map.2 fun a ha => balanced_text (hparts a ha))
      change Loose (TypeExpr.generic name args target).text.toList at h
      rw [toList_text_generic,
        htop.balanced.loose_append_enclose_iff hinner (by decide) (by decide)] at h
      exact absurd h htop.not_loose
  | function args result =>
      change Loose ("(" ++ (TypeExpr.function args result).text ++ ")").toList at h
      rw [String.toList_append, String.toList_append] at h
      have hempty : Balanced [] := rfl
      have hnone : Loose [] := (hempty.loose_append_enclose_iff (balanced_text hspelled)
        (by decide) (by decide)).1 h
      exact absurd hnone (by decide)

theorem getLast?_append_brackets (element : String) :
    (element ++ "[]").toList.getLast? = some ']' := by
  rw [String.toList_append]
  exact List.getLast?_append_cons _ _ _

theorem IsName.getLast?_ne
    {cs : List Char}
    (h : IsName cs) :
    cs.getLast? ≠ some ']' := by
  intro hlast
  exact absurd (h.isNameChar (List.mem_of_getLast? hlast)) (by decide)

theorem getLast?_append_angle (a b : List Char) :
    (a ++ '<' :: (b ++ ['>'])).getLast? ≠ some ']' := by
  rw [← List.cons_append, ← List.append_assoc, List.getLast?_concat]
  decide

/-- Where the label of a type that is no array ends in brackets, the type is a text or a
signature. -/
theorem text_or_function_of_getLast?
    (hspelled : u.Every TypeExpr.Spelled)
    (harray : u.isArray = false)
    (h : u.text.toList.getLast? = some ']') :
    (∃ text references, u = .verbatim text references) ∨
      ∃ args result, u = .function args result := by
  obtain ⟨htop, -⟩ := TypeExpr.every_iff.1 hspelled
  cases u with
  | verbatim text references => exact .inl ⟨text, references, rfl⟩
  | function args result => exact .inr ⟨args, result, rfl⟩
  | array element => cases harray
  | model target => exact absurd h htop.getLast?_ne
  | pending name => exact absurd h htop.getLast?_ne
  | param name => exact absurd h htop.getLast?_ne
  | keyed key value =>
      rw [toList_text_keyed] at h
      exact absurd h (getLast?_append_angle _ _)
  | generic name args target =>
      rw [toList_text_generic] at h
      exact absurd h (getLast?_append_angle _ _)

/-- What ends in brackets and starts with what ends in a blank, starts with it before the
brackets. -/
theorem exists_of_append_brackets_eq
    {a b result : List Char}
    (hb : b.getLast? = some ' ')
    (h : a ++ "[]".toList = b ++ result) :
    ∃ result', a = b ++ result' := by
  rcases List.append_eq_append_iff.1 h with ⟨overlap, hsplit, hbrackets⟩ | ⟨result', ha, -⟩
  · cases overlap with
    | nil => exact ⟨[], by rw [hsplit, List.append_nil, List.append_nil]⟩
    | cons c cs =>
        -- The blank would be one of the brackets.
        rw [hsplit, List.getLast?_append_of_ne_nil _ (List.cons_ne_nil c cs)] at hb
        have hmem : ' ' ∈ "[]".toList := by
          rw [hbrackets]
          exact List.mem_append_left _ (List.mem_of_getLast? hb)
        exact absurd hmem (by decide)
  · exact ⟨result', ha⟩

/-- A kept text with brackets after it is no signature, since the text is none. -/
theorem not_signature_bracketed
    {text : String} {params : List Char}
    (h : KeptText text)
    (hparams : Balanced params)
    (k : Nat) (result : List Char) :
    (bracketed text k).toList ≠ '(' :: (params ++ [')']) ++ (" => ".toList ++ result) := by
  induction k generalizing result with
  | zero => exact h.not_signature params result hparams
  | succ k ih =>
      intro heq
      have hblank : ('(' :: (params ++ [')']) ++ " => ".toList).getLast? = some ' ' :=
        List.getLast?_append_of_ne_nil _ (by decide)
      rw [bracketed, String.toList_append, ← List.append_assoc] at heq
      obtain ⟨result', htext⟩ := exists_of_append_brackets_eq hblank heq
      rw [List.append_assoc] at htext
      exact ih result' htext

theorem elementText_ne_empty
    (hspelled : t.Every TypeExpr.Spelled)
    (harray : t.isArray = false) :
    t.elementText ≠ "" := by
  obtain ⟨htop, -⟩ := TypeExpr.every_iff.1 hspelled
  intro hempty
  have hnil : t.elementText.toList = [] := String.toList_eq_nil_iff.2 hempty
  cases t with
  | verbatim text references => exact htop.ne_empty hempty
  | model target => exact htop.1 hnil
  | pending name => exact htop.1 hnil
  | param name => exact htop.1 hnil
  | array element => cases harray
  | keyed key value =>
      change (TypeExpr.keyed key value).text.toList = [] at hnil
      rw [toList_text_keyed] at hnil
      cases hnil
  | generic name args target =>
      change (TypeExpr.generic name args target).text.toList = [] at hnil
      rw [toList_text_generic] at hnil
      exact htop.1 (List.append_eq_nil_iff.1 hnil).1
  | function args result =>
      change ("(" ++ (TypeExpr.function args result).text ++ ")").toList = [] at hnil
      rw [String.toList_append, String.toList_append] at hnil
      cases hnil

theorem bracketed_ne_empty
    {text : String}
    (h : text ≠ "")
    (k : Nat) :
    bracketed text k ≠ "" := by
  cases k with
  | zero => exact h
  | succ k =>
      intro hempty
      have hlast := getLast?_append_brackets (bracketed text k)
      rw [← bracketed, hempty] at hlast
      cases hlast

end Elements

section Written

/-- How the texts and names of a written type are spelled. -/
inductive Written.Spelled : Written → Prop
  | absent : Spelled .absent
  | wrapped {line : Nat} {inner : Written} :
      Spelled inner → Spelled (.wrapped line inner)
  | hollow {line : Nat} {text : String} :
      KeptText text → Spelled (.hollow line text)
  | name {line : Nat} {name : String} :
      IsName name.toList → Spelled (.name line name)
  | array {line : Nat} {element : Written} :
      Spelled element → Spelled (.array line element)
  | bareArray {line : Nat} : Spelled (.bareArray line)
  | reference {line : Nat} {name : String} {args : List Written} :
      IsName name.toList → (∀ a ∈ args, Spelled a) → Spelled (.reference line name args)
  | function {line : Nat} {typeParams : List String} {params : List (Field Written)}
      {result : Written} :
      (∀ f ∈ params, Balanced f.name.toList) → (∀ f ∈ params, Spelled f.type) → Spelled result →
      Spelled (.function line typeParams params result)
  | keyed {line : Nat} {skipped : List String} {key value : Written} :
      Spelled key → Spelled value → Spelled (.keyed line skipped key value)
  | verbatim {line : Nat} {skipped : List String} {text : String} {names : List String} :
      KeptText text → (∀ name ∈ names, IsName name.toList) →
      Spelled (.verbatim line skipped text names)

theorem IsName.keptText
    {name : String}
    (h : IsName name.toList) :
    KeptText name where
  ne_empty := fun hempty => h.1 (String.toList_eq_nil_iff.2 hempty)
  balanced := h.balanced
  loose := by
    rintro element - heq
    exact absurd (heq ▸ getLast?_append_brackets element) h.getLast?_ne
  not_signature := by
    intro params result _ heq
    have hparenthesis : '(' ∈ name.toList := by
      rw [heq]
      exact List.mem_cons_self
    exact absurd (h.isNameChar hparenthesis) (by decide)

theorem every_spelled_of_leaf
    {t : TypeExpr}
    (h : t.Spelled)
    (hparts : t.parts = []) :
    t.Every TypeExpr.Spelled :=
  TypeExpr.every_iff.2 ⟨h, by simp [hparts]⟩

theorem every_spelled_nameType
    {name : String}
    (h : IsName name.toList)
    (ctx : Context) (scope : List String) :
    (ctx.nameType scope name).Every TypeExpr.Spelled := by
  unfold Context.nameType
  split
  · exact every_spelled_of_leaf h rfl
  · split
    · exact every_spelled_of_leaf h rfl
    · exact every_spelled_of_leaf h.keptText rfl

theorem every_spelled_referenceType
    {name : String} {args : List TypeExpr}
    (hname : IsName name.toList)
    (hargs : ∀ a ∈ args, a.Every TypeExpr.Spelled)
    (ctx : Context) (scope : List String) :
    (ctx.referenceType scope name args).Every TypeExpr.Spelled := by
  have hgeneric : (TypeExpr.generic name args none).Every TypeExpr.Spelled :=
    TypeExpr.every_iff.2 ⟨hname, hargs⟩
  unfold Context.referenceType
  split
  · exact every_spelled_nameType hname ctx scope
  · split
    · exact TypeExpr.every_iff.2 ⟨trivial, hargs⟩
    · exact hgeneric
  · exact hgeneric

/-- What a written type denotes is spelled as the written type is. -/
theorem Written.Spelled.denote
    {w : Written}
    (h : w.Spelled)
    (known scope : List String) :
    (w.denote known scope).Every TypeExpr.Spelled := by
  have hname : IsName "any".toList := by decide
  have hany : TypeExpr.unannotated.Every TypeExpr.Spelled :=
    every_spelled_of_leaf hname.keptText rfl
  induction h generalizing scope with
  | absent => exact hany
  | wrapped _ ih => exact ih scope
  | hollow htext => exact every_spelled_of_leaf htext rfl
  | name hname => exact every_spelled_nameType hname _ scope
  | array _ ih =>
      refine TypeExpr.every_iff.2 ⟨trivial, fun p hp => ?_⟩
      cases List.mem_singleton.1 hp
      exact ih scope
  | bareArray => exact hany
  | reference hname _ ih =>
      rw [Written.denote, denoteAll_eq_map]
      exact every_spelled_referenceType hname
        (List.forall_mem_map.2 fun a ha => ih a ha scope) _ scope
  | function hnames _ _ ihparams ihresult =>
      rw [Written.denote, denoteParams_eq_map]
      refine TypeExpr.every_function_iff.2 ⟨?_, ?_, ihresult _⟩
      · exact List.forall_mem_map.2 hnames
      · exact List.forall_mem_map.2 fun f hf => ihparams f hf _
  | keyed _ _ ihkey ihvalue =>
      refine TypeExpr.every_iff.2 ⟨trivial, fun p hp => ?_⟩
      rcases List.mem_pair.1 hp with rfl | rfl
      · exact ihkey scope
      · exact ihvalue scope
  | verbatim htext hnames =>
      refine TypeExpr.every_iff.2 ⟨htext, List.forall_mem_map.2 fun name hname => ?_⟩
      have hmem := (List.mem_filter.1 (List.mem_eraseDups.1 hname)).1
      exact every_spelled_of_leaf (hnames name hmem) rfl

end Written

section Sharing

/-- An array of a loose text, and the text with the brackets of the array after it. -/
def TypeExpr.ReadsAs (t u : TypeExpr) : Prop :=
  ∃ (text : String) (references references' : List TypeExpr) (k : Nat),
    t = (TypeExpr.verbatim text references).arrays (k + 1) ∧
    u = .verbatim (bracketed text (k + 1)) references' ∧ Loose text.toList

/-- An array, perhaps of arrays, of a loose text. -/
def TypeExpr.LooseArray (t : TypeExpr) : Prop :=
  ∃ (text : String) (references : List TypeExpr) (k : Nat),
    t = (TypeExpr.verbatim text references).arrays (k + 1) ∧ Loose text.toList

variable {t u : TypeExpr}

theorem TypeExpr.ReadsAs.looseArray
    (h : t.ReadsAs u) :
    t.LooseArray := by
  obtain ⟨text, references, -, k, ht, -, hloose⟩ := h
  exact ⟨text, references, k, ht, hloose⟩

/-- An array and a type that is none have the same label only if the array reads as the
other type. -/
theorem text_eq_iff_readsAs
    (ht : t.Every TypeExpr.Spelled)
    (hu : u.Every TypeExpr.Spelled) :
    t.text = u.text ∧ t.isArray = true ∧ u.isArray = false ↔ t.ReadsAs u := by
  constructor
  · rintro ⟨htext, harray, hother⟩
    obtain ⟨core, k, rfl, hcore⟩ := exists_arrays harray
    have hspelled : core.Every TypeExpr.Spelled := every_of_every_arrays ht
    rw [text_arrays] at htext
    -- Brackets bring no operator, so where the shared label has one it is the element's.
    have hinner (hloose : Loose u.text.toList) :
        Loose core.elementText.toList ∧ ∃ text references, core = .verbatim text references := by
      rw [← htext, loose_bracketed_iff (balanced_elementText (balanced_text hspelled))] at hloose
      exact ⟨hloose, exists_verbatim_of_loose hspelled hcore hloose⟩
    have hends : u.text.toList.getLast? = some ']' := by
      rw [← htext, bracketed]
      exact getLast?_append_brackets _
    have hne := bracketed_ne_empty (elementText_ne_empty hspelled hcore) k
    rcases text_or_function_of_getLast? hu hother hends with
      ⟨whole, references', rfl⟩ | ⟨args, result, rfl⟩
    · have hloose : Loose whole.toList := (TypeExpr.every_iff.1 hu).1.loose _ hne htext.symm
      obtain ⟨hcoreLoose, text, references, rfl⟩ := hinner hloose
      exact ⟨text, references, references', k, rfl,
        congrArg (TypeExpr.verbatim · references') htext.symm, hcoreLoose⟩
    · -- The text before the brackets would be a signature, and signatures are not kept as text.
      obtain ⟨-, text, references, rfl⟩ := hinner (loose_text_of_function hu)
      obtain ⟨params, hparams, hsignature⟩ := exists_params_of_function hu
      rw [← htext] at hsignature
      exact absurd hsignature
        (not_signature_bracketed (TypeExpr.every_iff.1 hspelled).1 hparams (k + 1) _)
  · rintro ⟨text, references, references', k, rfl, rfl, -⟩
    exact ⟨text_arrays _ k, rfl, rfl⟩

variable {n m : Node} {ctx ctx' : Context} {scope scope' : List String}
variable {find find' : String → Option Link}

theorem label_text_link_of_resolveNode
    (h : (resolveNode ctx scope (some n)).outcome = .ok t)
    (hfind : NamesModels find) :
    (t.link find).label.text = .str t.text := by
  have hfresh : ∀ l, t ≠ .model l :=
    TypeExpr.every_ne_model_of_unlinked (every_unlinked_of_resolve h) t (.self t)
  exact (label_text_link hfind hfresh).2

theorem every_spelled_of_resolveNode
    (h : (resolveNode ctx scope (some n)).outcome = .ok t)
    (hn : (Written.ofNode n).Spelled) :
    t.Every TypeExpr.Spelled := by
  rw [eq_denote_of_resolve h]
  exact hn.denote ctx.known scope

theorem label_eq_iff_readsAs
    (ht : (resolveNode ctx scope (some n)).outcome = .ok t)
    (hu : (resolveNode ctx' scope' (some m)).outcome = .ok u)
    (hfind : NamesModels find)
    (hfind' : NamesModels find')
    (hn : (Written.ofNode n).Spelled)
    (hm : (Written.ofNode m).Spelled) :
    (t.link find).label.text = (u.link find').label.text ∧
        (t.link find).isArray = true ∧ (u.link find').isArray = false ↔
      t.ReadsAs u := by
  rw [label_text_link_of_resolveNode ht hfind, label_text_link_of_resolveNode hu hfind',
    isArray_link, isArray_link, Json.str.injEq]
  exact text_eq_iff_readsAs (every_spelled_of_resolveNode ht hn)
    (every_spelled_of_resolveNode hu hm)

/-- When an array shares its label with a type that is none.

* Of two resolved and linked types with one label, the first is an array and the second is not
  exactly if the first is an array of a loose text and the second is that text with the brackets
  after it.
* So if neither is an array of a loose text, then from the same label it follows that both are
  arrays or neither is. -/
theorem array_label_shared_iff
    (ht : (resolveNode ctx scope (some n)).outcome = .ok t)
    (hu : (resolveNode ctx' scope' (some m)).outcome = .ok u)
    (hfind : NamesModels find)
    (hfind' : NamesModels find')
    (hn : (Written.ofNode n).Spelled)
    (hm : (Written.ofNode m).Spelled) :
    ((t.link find).label.text = (u.link find').label.text ∧
        (t.link find).isArray = true ∧ (u.link find').isArray = false ↔
      t.ReadsAs u) ∧
    (¬ t.LooseArray → ¬ u.LooseArray →
      (t.link find).label.text = (u.link find').label.text →
      (t.link find).isArray = (u.link find').isArray) := by
  have hfirst := label_eq_iff_readsAs ht hu hfind hfind' hn hm
  have hsecond := label_eq_iff_readsAs hu ht hfind' hfind hm hn
  refine ⟨hfirst, fun hnt hnu hlabel => ?_⟩
  cases hta : (t.link find).isArray <;> cases hua : (u.link find').isArray
  · rfl
  · exact absurd (hsecond.1 ⟨hlabel.symm, hua, hta⟩).looseArray hnu
  · exact absurd (hfirst.1 ⟨hlabel, hta, hua⟩).looseArray hnt
  · rfl

/-- An array whose element stands in parentheses. -/
def arrayOfParenthesized (source : String) (element : Node) : Node :=
  .build "array_type" (source ++ "[]") none [.build "parenthesized_type" source none [element]]

/-- The written type `A | B`. -/
def unionOfNames : Node :=
  .build "union_type" "A | B" none
    [.build "type_identifier" "A" none [], .build "type_identifier" "B" none []]

/-- The written type `A | B[]`. -/
def unionWithArray : Node :=
  .build "union_type" "A | B[]" none
    [.build "type_identifier" "A" none [],
      .build "array_type" "B[]" none [.build "type_identifier" "B" none []]]

/-- The written type `() => A`. -/
def signatureToName : Node :=
  .build "function_type" "() => A" none
    [.build "formal_parameters" "()" (some "parameters") [],
      .build "type_identifier" "A" (some "return_type") []]

/-- The written type `() => A[]`. -/
def signatureToArray : Node :=
  .build "function_type" "() => A[]" none
    [.build "formal_parameters" "()" (some "parameters") [],
      .build "array_type" "A[]" (some "return_type") [.build "type_identifier" "A" none []]]

theorem ofNode_arrayOfParenthesized
    {element : Node}
    (h : element.named = true)
    (source : String) :
    Written.ofNode (arrayOfParenthesized source element) =
      .array 1 (.wrapped 1 (.ofNode element)) := by
  have hlast : (Node.build "parenthesized_type" source none [element]).namedChildren.getLast? =
      some element := by
    simp [Node.build, Syntax.Node.namedChildren, h]
  have harray : "array_type" ∉ annotationKinds := by decide
  have hwrapper : "parenthesized_type" ∉ annotationKinds := by decide
  refine (Written.ofNode_of_kind harray).trans ?_
  rw [typeShape_array rfl]
  refine congrArg (Written.array 1) ((Written.ofNode_of_kind hwrapper).trans ?_)
  rw [typeShape_wrapper (.inl rfl), hlast]
  rfl

theorem ofNode_union
    (h : n.kind = "union_type") :
    Written.ofNode n = .verbatim n.line [] n.text n.typeNames := by
  rw [Written.ofNode_of_kind (by rw [h]; decide), typeShape_other (by rw [h]; decide)
    (by rw [h]; decide)]
  rfl

theorem ofNode_unionOfNames :
    Written.ofNode unionOfNames = .verbatim 1 [] "A | B" ["A", "B"] := by
  have htext : unionOfNames.text = "A | B" := by decide +kernel
  have hnames : unionOfNames.typeNames = ["A", "B"] := by decide +kernel
  rw [ofNode_union rfl, htext, hnames]
  rfl

theorem ofNode_unionWithArray :
    Written.ofNode unionWithArray = .verbatim 1 [] "A | B[]" ["A", "B"] := by
  have htext : unionWithArray.text = "A | B[]" := by decide +kernel
  have hnames : unionWithArray.typeNames = ["A", "B"] := by decide +kernel
  rw [ofNode_union rfl, htext, hnames]
  rfl

theorem ofNode_signatureToName :
    Written.ofNode signatureToName = .function 1 [] [] (.name 1 "A") := by
  rw [Written.ofNode_of_kind (by decide), typeShape_function rfl]
  show Written.function 1 [] [] (Written.ofNode _) = _
  rw [Written.ofNode_of_kind (by decide), typeShape_name (.inl rfl)]
  rfl

theorem ofNode_signatureToArray :
    Written.ofNode signatureToArray = .function 1 [] [] (.array 1 (.name 1 "A")) := by
  rw [Written.ofNode_of_kind (by decide), typeShape_function rfl]
  show Written.function 1 [] [] (Written.ofNode _) = _
  rw [Written.ofNode_of_kind (by decide), typeShape_array rfl]
  show Written.function 1 [] [] (.array 1 (Written.ofNode _)) = _
  rw [Written.ofNode_of_kind (by decide), typeShape_name (.inl rfl)]
  rfl

theorem spelled_union
    {line : Nat} {text : String}
    (hbalanced : Balanced text.toList)
    (hloose : Loose text.toList)
    (hhead : text.toList.head? = some 'A') :
    (Written.verbatim line [] text ["A", "B"]).Spelled := by
  refine .verbatim ⟨?_, hbalanced, fun _ _ _ => hloose, ?_⟩ (by decide)
  · rintro rfl
    cases hhead
  · intro params result _ heq
    rw [heq] at hhead
    cases hhead

/-- The array of the union `A | B` and the union of `A` with the array of `B` have one label.
The array of signatures to `A` and the signature to arrays of `A` have two. -/
theorem array_label_shared_iff_union :
    (∃ t u, (resolveNode ⟨["A", "B"], 2⟩ []
          (some (arrayOfParenthesized "(A | B)" unionOfNames))).outcome = .ok t ∧
      (resolveNode ⟨["A", "B"], 0⟩ [] (some unionWithArray)).outcome = .ok u ∧
      ∀ find, NamesModels find →
        (t.link find).label.text = (u.link find).label.text ∧
        (t.link find).isArray = true ∧ (u.link find).isArray = false) ∧
    (∃ t u, (resolveNode ⟨["A"], 3⟩ []
          (some (arrayOfParenthesized "(() => A)" signatureToName))).outcome = .ok t ∧
      (resolveNode ⟨["A"], 2⟩ [] (some signatureToArray)).outcome = .ok u ∧
      ∀ find, NamesModels find → (t.link find).label.text ≠ (u.link find).label.text) := by
  constructor
  · have hn : (Written.ofNode (arrayOfParenthesized "(A | B)" unionOfNames)).Spelled := by
      rw [ofNode_arrayOfParenthesized rfl, ofNode_unionOfNames]
      exact .array (.wrapped (spelled_union (by decide) (by decide) (by decide)))
    have hm : (Written.ofNode unionWithArray).Spelled := by
      rw [ofNode_unionWithArray]
      exact spelled_union (by decide) (by decide) (by decide)
    obtain ⟨t, ht, -⟩ := Pass.exists_ok_of_toOption_map
      (p := resolveNode ⟨["A", "B"], 2⟩ [] (some (arrayOfParenthesized "(A | B)" unionOfNames)))
      (f := fun _ => ()) (b := ()) (by decide +kernel)
    obtain ⟨u, hu, -⟩ := Pass.exists_ok_of_toOption_map
      (p := resolveNode ⟨["A", "B"], 0⟩ [] (some unionWithArray))
      (f := fun _ => ()) (b := ()) (by decide +kernel)
    have hreads : t.ReadsAs u := by
      rw [eq_denote_of_resolve ht, eq_denote_of_resolve hu]
      show ((Written.ofNode (arrayOfParenthesized _ _)).denote _ _).ReadsAs
        ((Written.ofNode unionWithArray).denote _ _)
      rw [ofNode_arrayOfParenthesized rfl, ofNode_unionOfNames, ofNode_unionWithArray]
      exact ⟨"A | B", _, _, 0, rfl, rfl, by decide⟩
    refine ⟨t, u, ht, hu, fun find hfind => ?_⟩
    exact (array_label_shared_iff ht hu hfind hfind hn hm).1.2 hreads
  · have hname : IsName "A".toList := by decide
    have hn : (Written.ofNode (arrayOfParenthesized "(() => A)" signatureToName)).Spelled := by
      rw [ofNode_arrayOfParenthesized rfl, ofNode_signatureToName]
      exact .array (.wrapped (.function (by simp) (by simp) (.name hname)))
    have hm : (Written.ofNode signatureToArray).Spelled := by
      rw [ofNode_signatureToArray]
      exact .function (by simp) (by simp) (.array (.name hname))
    obtain ⟨t, ht, -⟩ := Pass.exists_ok_of_toOption_map
      (p := resolveNode ⟨["A"], 3⟩ [] (some (arrayOfParenthesized "(() => A)" signatureToName)))
      (f := fun _ => ()) (b := ()) (by decide +kernel)
    obtain ⟨u, hu, -⟩ := Pass.exists_ok_of_toOption_map
      (p := resolveNode ⟨["A"], 2⟩ [] (some signatureToArray))
      (f := fun _ => ()) (b := ()) (by decide +kernel)
    have htype : t = .array (.function [] (.pending "A")) := by
      refine (eq_denote_of_resolve ht).trans ?_
      show (Written.ofNode (arrayOfParenthesized _ _)).denote _ _ = _
      rw [ofNode_arrayOfParenthesized rfl, ofNode_signatureToName]
      rfl
    have hutype : u = .function [] (.array (.pending "A")) := by
      refine (eq_denote_of_resolve hu).trans ?_
      show (Written.ofNode signatureToArray).denote _ _ = _
      rw [ofNode_signatureToArray]
      rfl
    refine ⟨t, u, ht, hu, fun find hfind hlabel => ?_⟩
    have hsame := (array_label_shared_iff ht hu hfind hfind hn hm).2
      (by rintro ⟨text, references, k, heq, -⟩; rw [htype] at heq; cases k <;> cases heq)
      (by rintro ⟨text, references, k, heq, -⟩; rw [hutype] at heq; cases heq) hlabel
    rw [isArray_link, isArray_link, htype, hutype] at hsame
    cases hsame

end Sharing

end DeclGraph
