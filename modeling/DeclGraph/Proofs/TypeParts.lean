import DeclGraph.Model.Linking
import Mathlib.Data.List.Forall2

/-!
# The parts of type expressions

Statements about a type expression "at every depth" are made with two notions.

* `TypeExpr.parts` lists the types that a type is immediately made of: the
  references of a verbatim type, the element of an array, key and value, type
  arguments, and the parameters and the result of a signature.
* `TypeExpr.Within` is the relation "occurs somewhere in", the reflexive and
  transitive closure of being a part, and `TypeExpr.Every P t` says that `P` holds
  of everything within `t`.

`TypeExpr.unlink` takes links away again: a linked reference becomes a reference
by name, and a generic reference loses its target.
-/

namespace DeclGraph
namespace TypeExpr

variable {ν μ : Type}

section Induction

/-- Induction on type expressions: what holds of a type whenever it holds of the
types it is made of holds of every type. -/
@[elab_as_elim]
theorem induct
    {P : TypeExpr ν → Prop}
    (verbatim : ∀ text references, (∀ r ∈ references, P r) → P (.verbatim text references))
    (model : ∀ target, P (.model target))
    (pending : ∀ name, P (.pending name))
    (param : ∀ name, P (.param name))
    (array : ∀ element, P element → P (.array element))
    (keyed : ∀ key value, P key → P value → P (.keyed key value))
    (generic : ∀ name args target, (∀ a ∈ args, P a) → P (.generic name args target))
    (function : ∀ args result, (∀ a ∈ args, P a.type) → P result → P (.function args result)) :
    ∀ t, P t :=
  @TypeExpr.rec ν P (fun ts => ∀ t ∈ ts, P t) (fun fs => ∀ f ∈ fs, P f.type) (fun f => P f.type)
    verbatim model pending param array keyed generic function
    (fun _ h => absurd h List.not_mem_nil)
    (fun _ _ head tail => List.forall_mem_cons.2 ⟨head, tail⟩)
    (fun _ h => absurd h List.not_mem_nil)
    (fun _ _ head tail => List.forall_mem_cons.2 ⟨head, tail⟩)
    (fun _ _ _ h => h)

end Induction

section Parts

/-- The types that a type is immediately made of. -/
def parts : TypeExpr ν → List (TypeExpr ν)
  | .verbatim _ references => references
  | .array element => [element]
  | .keyed key value => [key, value]
  | .generic _ args _ => args
  | .function args result => args.map (·.type) ++ [result]
  | _ => []

/-- `s.Within t` when `s` is `t` or occurs at some depth in `t`. -/
inductive Within : TypeExpr ν → TypeExpr ν → Prop
  | self (t : TypeExpr ν) : Within t t
  | part {s p t : TypeExpr ν} : p ∈ t.parts → Within s p → Within s t

/-- A predicate holds at every depth of a type. -/
def Every (P : TypeExpr ν → Prop) (t : TypeExpr ν) : Prop :=
  ∀ s, s.Within t → P s

/-- A predicate holds at every depth when it holds at the top and at every depth
of the parts. -/
theorem every_iff
    {P : TypeExpr ν → Prop} {t : TypeExpr ν} :
    t.Every P
      ↔
    P t ∧ ∀ p ∈ t.parts, p.Every P := by
  constructor
  · intro h
    refine ⟨h t (.self t), ?_⟩
    intro p hp s hs
    exact h s (.part hp hs)
  · rintro ⟨ht, hparts⟩ s hs
    cases hs with
    | self => exact ht
    | part hp hs => exact hparts _ hp s hs

theorem Every.mono
    {P Q : TypeExpr ν → Prop} {t : TypeExpr ν}
    (h : t.Every P)
    (hPQ : ∀ s, P s → Q s) :
    t.Every Q :=
  fun s hs => hPQ s (h s hs)

/-- A predicate holds at every depth of a signature when it holds of the signature
itself and at every depth of its parameters and of its result. -/
theorem every_function_iff
    {P : TypeExpr ν → Prop} {args : List (Field (TypeExpr ν) ν)} {result : TypeExpr ν} :
    (TypeExpr.function args result).Every P
      ↔
    P (.function args result) ∧ (∀ a ∈ args, a.type.Every P) ∧ result.Every P := by
  rw [every_iff]
  simp only [parts, List.mem_append, List.mem_map, List.mem_singleton]
  constructor
  · rintro ⟨ht, hparts⟩
    exact ⟨ht, fun a ha => hparts _ (.inl ⟨a, ha, rfl⟩), hparts _ (.inr rfl)⟩
  · rintro ⟨ht, hargs, hresult⟩
    refine ⟨ht, ?_⟩
    rintro p (⟨a, ha, rfl⟩ | rfl)
    · exact hargs a ha
    · exact hresult

end Parts

section Mentions

theorem mentionsAll_eq_flatMap (ts : List TypeExpr) :
    mentionsAll ts = ts.flatMap mentions := by
  induction ts with
  | nil => rfl
  | cons t ts ih => rw [mentionsAll, ih, List.flatMap_cons]

theorem mentionsFields_eq_flatMap (fs : List (Field TypeExpr)) :
    mentionsFields fs = fs.flatMap fun f => f.type.mentions := by
  induction fs with
  | nil => rfl
  | cons f fs ih =>
      obtain ⟨name, t, optional⟩ := f
      rw [mentionsFields, ih, List.flatMap_cons]

/-- A mention by name comes from a reference by name somewhere in the type. -/
theorem within_of_mem_mentions
    {t : TypeExpr} {name : String}
    (h : Mention.reference name ∈ t.mentions) :
    (TypeExpr.pending name).Within t := by
  induction t using TypeExpr.induct with
  | verbatim text references ih =>
      rw [mentions, mentionsAll_eq_flatMap] at h
      obtain ⟨r, hr, hmem⟩ := List.mem_flatMap.1 h
      exact .part hr (ih r hr hmem)
  | model target => cases h
  | pending name' =>
      cases List.mem_singleton.1 h
      exact .self _
  | param name' => cases h
  | array element ih =>
      exact .part (List.mem_singleton_self _) (ih h)
  | keyed key value ihk ihv =>
      rcases List.mem_append.1 h with h | h
      · exact .part (List.mem_pair.2 (.inl rfl)) (ihk h)
      · exact .part (List.mem_pair.2 (.inr rfl)) (ihv h)
  | generic name' args target ih =>
      rw [mentions, mentionsAll_eq_flatMap] at h
      rcases List.mem_append.1 h with h | h
      · obtain ⟨a, ha, hmem⟩ := List.mem_flatMap.1 h
        exact .part ha (ih a ha hmem)
      · cases List.mem_singleton.1 h
  | function args result iha ihr =>
      rw [mentions, mentionsFields_eq_flatMap] at h
      rcases List.mem_append.1 h with h | h
      · obtain ⟨a, ha, hmem⟩ := List.mem_flatMap.1 h
        refine .part ?_ (iha a ha hmem)
        exact List.mem_append.2 (.inl (List.mem_map.2 ⟨a, ha, rfl⟩))
      · exact .part (List.mem_append.2 (.inr (List.mem_singleton_self _))) (ihr h)

end Mentions

section Unlinking

mutual

/-- Takes the links out of a type: a linked reference becomes a reference by the
name of its target, and a generic reference loses its target. -/
def unlink : TypeExpr → TypeExpr
  | .verbatim text references => .verbatim text (unlinkAll references)
  | .model target =>
    match target.name with
    | .str name => .pending name
    | _ => .model target
  | .pending name => .pending name
  | .param name => .param name
  | .array element => .array element.unlink
  | .keyed key value => .keyed key.unlink value.unlink
  | .generic name args _ => .generic name (unlinkAll args) none
  | .function args result => .function (unlinkFields args) result.unlink

/-- Takes the links out of several types. -/
def unlinkAll : List TypeExpr → List TypeExpr
  | [] => []
  | t :: ts => t.unlink :: unlinkAll ts

/-- Takes the links out of the types of several entries. -/
def unlinkFields : List (Field TypeExpr) → List (Field TypeExpr)
  | [] => []
  | ⟨name, t, optional⟩ :: fs => ⟨name, t.unlink, optional⟩ :: unlinkFields fs

end

/-- A map that leaves every item as it is leaves the list as it is. -/
theorem map_eq_self
    {α : Type} {f : α → α} {l : List α}
    (h : ∀ a ∈ l, f a = a) :
    l.map f = l :=
  (List.map_congr_left h).trans (List.map_id' l)

theorem unlinkAll_eq_map (ts : List TypeExpr) : unlinkAll ts = ts.map unlink := by
  induction ts with
  | nil => rfl
  | cons t ts ih => rw [unlinkAll, ih, List.map_cons]

theorem unlinkFields_eq_map (fs : List (Field TypeExpr)) :
    unlinkFields fs = fs.map fun f => { f with type := f.type.unlink } := by
  induction fs with
  | nil => rfl
  | cons f fs ih =>
      obtain ⟨name, t, optional⟩ := f
      rw [unlinkFields, ih, List.map_cons]

end Unlinking

section Linking

/-- What holds at every depth of a type that is still to be linked: nothing is
linked in it, and it refers by name to `names` only. -/
def Unlinked (names : List String) : TypeExpr → Prop
  | .model _ => False
  | .pending name => name ∈ names
  | .generic _ _ target => target = none
  | _ => True

theorem every_ne_model_of_unlinked
    {names : List String} {t : TypeExpr}
    (h : t.Every (Unlinked names)) :
    t.Every fun s => ∀ l, s ≠ .model l := by
  refine h.mono ?_
  rintro s hs l rfl
  exact hs

/-- What holds at every depth of a type linked through `find`: no reference by name
is left, links are what `find` gives, and the target of a generic reference is what
`find` gives for its name. -/
def LinkedBy (find : String → Option Link) : TypeExpr → Prop
  | .pending _ => False
  | .model target => ∃ name, find name = some target
  | .generic name _ target => target = find name
  | _ => True

variable {find : String → Option Link}

/-- Linking leaves no reference by name at any depth. -/
theorem every_linkedBy_link
    {t : TypeExpr}
    (h : t.Every fun s => ∀ l, s ≠ .model l) :
    (t.link find).Every (LinkedBy find) := by
  induction t using TypeExpr.induct with
  | verbatim text references ih =>
      have hparts := (every_iff.1 h).2
      refine every_iff.2 ⟨trivial, ?_⟩
      rw [link, linkAll_eq_map]
      intro p hp
      obtain ⟨r, hr, rfl⟩ := List.mem_map.1 hp
      exact ih r hr (hparts r hr)
  | model target =>
      exact absurd rfl ((every_iff.1 h).1 target)
  | pending name =>
      rw [link]
      refine every_iff.2 ?_
      cases hfind : find name with
      | some target => exact ⟨⟨name, hfind⟩, by simp [parts]⟩
      | none => exact ⟨trivial, by simp [parts]⟩
  | param name =>
      exact every_iff.2 ⟨trivial, by simp [link, parts]⟩
  | array element ih =>
      have hparts := (every_iff.1 h).2
      refine every_iff.2 ⟨trivial, ?_⟩
      rw [link]
      intro p hp
      cases List.mem_singleton.1 hp
      exact ih (hparts element (List.mem_singleton_self _))
  | keyed key value ihk ihv =>
      have hparts := (every_iff.1 h).2
      have hk := ihk (hparts key (by simp [parts]))
      have hv := ihv (hparts value (by simp [parts]))
      refine every_iff.2 ⟨trivial, ?_⟩
      rw [link]
      intro p hp
      rcases List.mem_pair.1 hp with rfl | rfl
      · exact hk
      · exact hv
  | generic name args target ih =>
      have hparts := (every_iff.1 h).2
      refine every_iff.2 ⟨rfl, ?_⟩
      rw [link, linkAll_eq_map]
      intro p hp
      obtain ⟨a, ha, rfl⟩ := List.mem_map.1 hp
      exact ih a ha (hparts a ha)
  | function args result iha ihr =>
      obtain ⟨-, hargs, hresult⟩ := every_function_iff.1 h
      rw [link, linkFields_eq_map]
      refine every_function_iff.2 ⟨trivial, ?_, ihr hresult⟩
      intro a ha
      obtain ⟨b, hb, rfl⟩ := List.mem_map.1 ha
      exact iha b hb (hargs b hb)

/-- Taking the links out again gives back the type that was linked. -/
theorem unlink_link
    {names : List String} {t : TypeExpr}
    (hfind : ∀ name ∈ names, ∃ l, find name = some l ∧ l.name = .str name)
    (h : t.Every (Unlinked names)) :
    (t.link find).unlink = t := by
  induction t using TypeExpr.induct with
  | verbatim text references ih =>
      have hparts := (every_iff.1 h).2
      rw [link, linkAll_eq_map, unlink, unlinkAll_eq_map, List.map_map]
      exact congrArg _ (map_eq_self fun r hr => ih r hr (hparts r hr))
  | model target =>
      exact (every_iff.1 h).1.elim
  | pending name =>
      obtain ⟨l, hl, hname⟩ := hfind name (every_iff.1 h).1
      simp only [link, hl, unlink, hname]
  | param name => rfl
  | array element ih =>
      have hparts := (every_iff.1 h).2
      rw [link, unlink, ih (hparts element (List.mem_singleton_self _))]
  | keyed key value ihk ihv =>
      have hparts := (every_iff.1 h).2
      rw [link, unlink, ihk (hparts key (by simp [parts])), ihv (hparts value (by simp [parts]))]
  | generic name args target ih =>
      obtain ⟨htarget, hparts⟩ := every_iff.1 h
      cases htarget
      rw [link, linkAll_eq_map, unlink, unlinkAll_eq_map, List.map_map]
      exact congrArg (TypeExpr.generic name · none)
        (map_eq_self fun a ha => ih a ha (hparts a ha))
  | function args result iha ihr =>
      obtain ⟨-, hargs, hresult⟩ := every_function_iff.1 h
      rw [link, linkFields_eq_map, unlink, unlinkFields_eq_map, List.map_map, ihr hresult]
      have hself : ∀ a ∈ args,
          ({ a with type := (a.type.link find).unlink } : Field TypeExpr) = a := by
        intro a ha
        rw [iha a ha (hargs a ha)]
      exact congrArg (TypeExpr.function · result) (map_eq_self hself)

end Linking

end TypeExpr

section Models

variable {ν : Type}

/-- The types of a type parameter: its bound and its default. -/
def TypeParam.types (p : TypeParam (TypeExpr ν) ν) : List (TypeExpr ν) :=
  p.bound.toList ++ p.default.toList

/-- The types of a draft: of its fields, its type parameters and its base types. -/
def Draft.types (d : Draft) : List TypeExpr :=
  d.schema.map (·.type) ++ d.typeParams.flatMap TypeParam.types ++ d.heritage

/-- The types of a model: of its fields, its type parameters and its base types. -/
def Model.types (m : Model ν) : List (TypeExpr ν) :=
  m.schema.map (·.type) ++ m.typeParams.flatMap TypeParam.types ++ m.heritage

/-- A predicate holds at every depth of every type of a draft. -/
def Draft.Every (P : TypeExpr → Prop) (d : Draft) : Prop :=
  ∀ t ∈ d.types, t.Every P

/-- A predicate holds at every depth of every type of a model. -/
def Model.Every (P : TypeExpr ν → Prop) (m : Model ν) : Prop :=
  ∀ t ∈ m.types, t.Every P

theorem Draft.every_iff {P : TypeExpr → Prop} {d : Draft} :
    d.Every P
      ↔
    (∀ f ∈ d.schema, f.type.Every P) ∧ (∀ p ∈ d.typeParams, ∀ t ∈ p.types, t.Every P) ∧
      ∀ t ∈ d.heritage, t.Every P := by
  unfold Draft.Every Draft.types
  simp only [List.forall_mem_append, List.forall_mem_map, List.forall_mem_flatMap, and_assoc]

theorem Model.every_iff {P : TypeExpr ν → Prop} {m : Model ν} :
    m.Every P
      ↔
    (∀ f ∈ m.schema, f.type.Every P) ∧ (∀ p ∈ m.typeParams, ∀ t ∈ p.types, t.Every P) ∧
      ∀ t ∈ m.heritage, t.Every P := by
  unfold Model.Every Model.types
  simp only [List.forall_mem_append, List.forall_mem_map, List.forall_mem_flatMap, and_assoc]

theorem TypeParam.types_link (find : String → Option Link) (p : TypeParam TypeExpr) :
    (p.link find).types = p.types.map (TypeExpr.link find) := by
  obtain ⟨name, bound, default⟩ := p
  cases bound <;> cases default <;> rfl

theorem TypeParam.mentions_eq_flatMap (p : TypeParam TypeExpr) :
    p.mentions = p.types.flatMap TypeExpr.mentions := by
  unfold TypeParam.mentions TypeParam.types
  rw [TypeExpr.mentionsAll_eq_flatMap, TypeExpr.mentionsAll_eq_flatMap, List.flatMap_append]

/-- All the mentions of a draft are those in its types, in the order of the types. -/
theorem Draft.mentions_eq_flatMap (d : Draft) :
    d.ownMentions ++ d.heritageMentions = d.types.flatMap TypeExpr.mentions := by
  have hparams : TypeParam.mentions = fun p => p.types.flatMap TypeExpr.mentions :=
    funext TypeParam.mentions_eq_flatMap
  unfold Draft.ownMentions Draft.heritageMentions Draft.types
  rw [TypeExpr.mentionsAll_eq_flatMap, TypeExpr.mentionsFields_eq_flatMap, List.flatMap_append,
    List.flatMap_append, List.flatMap_map, List.flatMap_assoc, hparams]

/-- The types of a linked draft are its types, linked. -/
theorem types_linkDraft
    (drafts : List Draft) (es : Edges) (i : Nat) (d : Draft) :
    (linkDraft drafts es i d).types = d.types.map (TypeExpr.link (linkTo? drafts)) := by
  unfold Model.types Draft.types linkDraft
  simp only [linkAll_eq_map, linkFields_eq_map, List.map_append, List.map_map, List.map_flatMap,
    List.flatMap_map, TypeParam.types_link]
  rfl

end Models

end DeclGraph
