import DeclGraph.Pass
import Mathlib.Data.List.Forall2

/-!
# Laws of passes

A pass that ends with a result has ended every one of its parts with a result.
This module says so for composition and for a pass run on every item of a list,
and it says which events can be among those of a composed pass.

`Pass.Reports P p` means that every event of `p` satisfies `P`, whether `p` ends
with a result or with a fault, and `Pass.FailsOnly P p` that every fault of `p`
does.  Each holds of a composition when it holds of the first part, and of the
second one on every result.

`Pass.Implies p q` means that `q` ends with every result that `p` ends with.  It is
kept by composition.

`Pass.map f p` is `p` with `f` applied to its result.  Passes that differ by such a
change of results are compared with it, events and faults included.
-/

namespace DeclGraph

section Lists

variable {α β : Type} {R : α → β → Prop} {as : List α} {bs : List β}

/-- What every related item satisfies, all items of the second list satisfy. -/
theorem forall_mem_of_forall₂
    {P : β → Prop}
    (h : List.Forall₂ R as bs)
    (hP : ∀ a ∈ as, ∀ b, R a b → P b) :
    ∀ b ∈ bs, P b := by
  induction h with
  | nil =>
      intro b hb
      cases hb
  | cons hab _ ih =>
      refine List.forall_mem_cons.2 ⟨hP _ List.mem_cons_self _ hab, ?_⟩
      exact ih fun a ha => hP a (List.mem_cons_of_mem _ ha)

/-- Every item of the second list is related to one of the first. -/
theorem exists_mem_left_of_forall₂
    (h : List.Forall₂ R as bs) :
    ∀ b ∈ bs, ∃ a ∈ as, R a b :=
  forall_mem_of_forall₂ h fun a ha _ hab => ⟨a, ha, hab⟩

/-- Every item of the first list is related to one of the second. -/
theorem exists_mem_right_of_forall₂
    (h : List.Forall₂ R as bs) :
    ∀ a ∈ as, ∃ b ∈ bs, R a b :=
  exists_mem_left_of_forall₂ h.flip

/-- Some item of one list has a property if some item of the other one has its
counterpart. -/
theorem exists_mem_iff_of_forall₂
    {P : α → Prop} {Q : β → Prop}
    (h : List.Forall₂ R as bs)
    (hPQ : ∀ a ∈ as, ∀ b, R a b → (Q b ↔ P a)) :
    (∃ b ∈ bs, Q b) ↔ ∃ a ∈ as, P a := by
  constructor
  · rintro ⟨b, hb, hQ⟩
    obtain ⟨a, ha, hab⟩ := exists_mem_left_of_forall₂ h b hb
    exact ⟨a, ha, (hPQ a ha b hab).1 hQ⟩
  · rintro ⟨a, ha, hP⟩
    obtain ⟨b, hb, hab⟩ := exists_mem_right_of_forall₂ h a ha
    exact ⟨b, hb, (hPQ a ha b hab).2 hP⟩

/-- Related items are items of the two lists. -/
theorem forall₂_mem
    (h : List.Forall₂ R as bs) :
    List.Forall₂ (fun a b => a ∈ as ∧ b ∈ bs ∧ R a b) as bs := by
  have hright := (List.forall₂_and_left (R := fun b a => R a b) (p := (· ∈ bs)) bs as).2
    ⟨fun _ hb => hb, h.flip⟩
  exact (List.forall₂_and_left (p := (· ∈ as)) as bs).2 ⟨fun _ ha => ha, hright.flip⟩

/-- The parts of a list are related to the parts of another one. -/
theorem forall₂_append_left_iff
    {cs : List α} :
    List.Forall₂ R (as ++ cs) bs
      ↔
    ∃ firsts rests, List.Forall₂ R as firsts ∧ List.Forall₂ R cs rests ∧ bs = firsts ++ rests := by
  induction as generalizing bs with
  | nil => simp
  | cons a as ih =>
      simp only [List.cons_append, List.forall₂_cons_left_iff, ih]
      constructor
      · rintro ⟨b, _, hb, ⟨firsts, rests, hfirsts, hrests, rfl⟩, rfl⟩
        exact ⟨b :: firsts, rests, ⟨b, firsts, hb, hfirsts, rfl⟩, hrests, rfl⟩
      · rintro ⟨_, rests, ⟨b, firsts, hb, hfirsts, rfl⟩, hrests, rfl⟩
        exact ⟨b, firsts ++ rests, hb, ⟨firsts, rests, hfirsts, hrests, rfl⟩, rfl⟩

/-- A list is related to another one if each of its items is related to something. -/
theorem exists_forall₂
    (h : ∀ a ∈ as, ∃ b, R a b) :
    ∃ bs, List.Forall₂ R as bs := by
  induction as with
  | nil => exact ⟨[], .nil⟩
  | cons a as ih =>
      obtain ⟨⟨b, hb⟩, has⟩ := List.forall_mem_cons.1 h
      obtain ⟨bs, hbs⟩ := ih has
      exact ⟨b :: bs, .cons hb hbs⟩

end Lists

/-- A composition gives a result exactly when both of its parts do. -/
theorem except_bind_eq_ok_iff
    {ε α β : Type} {x : Except ε α} {k : α → Except ε β} {b : β} :
    x >>= k = .ok b ↔ ∃ a, x = .ok a ∧ k a = .ok b := by
  cases x with
  | error e => simp [bind, Except.bind]
  | ok a => simp [bind, Except.bind]

/-- A composition fails exactly when its first part does, or its second one after it. -/
theorem except_bind_eq_error_iff
    {ε α β : Type} {x : Except ε α} {k : α → Except ε β} {e : ε} :
    x >>= k = .error e ↔ x = .error e ∨ ∃ a, x = .ok a ∧ k a = .error e := by
  cases x with
  | error e => simp [bind, Except.bind]
  | ok a => simp [bind, Except.bind]

theorem except_map_eq_ok_iff
    {ε α β : Type} {x : Except ε α} {f : α → β} {b : β} :
    x.map f = .ok b ↔ ∃ a, x = .ok a ∧ f a = b := by
  cases x with
  | error e => simp [Except.map]
  | ok a => simp [Except.map]

/-- If something is computed from a result, then there is a result. -/
theorem except_exists_ok_of_toOption_map
    {ε α β : Type} {x : Except ε α} {f : α → β} {b : β}
    (h : x.toOption.map f = some b) :
    ∃ a, x = .ok a ∧ f a = b := by
  cases x with
  | error e => cases h
  | ok a => exact ⟨a, rfl, Option.some.inj h⟩

namespace Pass

variable {α β : Type}

section Results

/-- A composition ends with a result exactly when both of its parts do. -/
theorem outcome_bind_eq_ok_iff
    {p : Pass α} {f : α → Pass β} {b : β} :
    (p >>= f).outcome = .ok b
      ↔
    ∃ a, p.outcome = .ok a ∧ (f a).outcome = .ok b := by
  rw [outcome_bind]
  cases h : p.outcome with
  | ok a =>
      constructor
      · intro hb
        exact ⟨a, rfl, hb⟩
      · rintro ⟨a', ha, hb⟩
        cases ha
        exact hb
  | error e =>
      constructor
      · intro hb
        cases hb
      · rintro ⟨a, ha, _⟩
        cases ha

/-- The second part of a composition runs on the result of the first one. -/
theorem outcome_bind_of_ok
    {p : Pass α} {a : α}
    (h : p.outcome = .ok a)
    (f : α → Pass β) :
    (p >>= f).outcome = (f a).outcome := by
  rw [outcome_bind, h]
  rfl

/-- Reporting does not stop a pass. -/
@[simp]
theorem outcome_report_bind
    (es : List Event)
    (f : Unit → Pass β) :
    (report es >>= f).outcome = (f ()).outcome :=
  outcome_bind_of_ok rfl f

/-- A pass on every item ends with a result exactly when it does on each of them. -/
theorem outcome_each_eq_ok_iff
    {f : α → Pass β} {as : List α} {bs : List β} :
    (each f as).outcome = .ok bs
      ↔
    List.Forall₂ (fun a b => (f a).outcome = .ok b) as bs := by
  induction as generalizing bs with
  | nil =>
      rw [each, outcome_pure, List.forall₂_nil_left_iff]
      constructor
      · intro h
        cases h
        rfl
      · rintro rfl
        rfl
  | cons a as ih =>
      rw [each, outcome_bind_eq_ok_iff, List.forall₂_cons_left_iff]
      constructor
      · rintro ⟨b, hb, hrest⟩
        obtain ⟨bs', hbs, hres⟩ := outcome_bind_eq_ok_iff.1 hrest
        cases hres
        exact ⟨b, bs', hb, ih.1 hbs, rfl⟩
      · rintro ⟨b, bs', hb, hbs, rfl⟩
        refine ⟨b, hb, ?_⟩
        exact outcome_bind_eq_ok_iff.2 ⟨bs', ih.2 hbs, rfl⟩

/-- The fault that a pass ends with. -/
def fault? (p : Pass α) : Option Fault :=
  match p.outcome with
  | .ok _ => none
  | .error f => some f

theorem fault?_eq_some_iff
    {p : Pass α} {f : Fault} :
    p.fault? = some f ↔ p.outcome = .error f := by
  unfold fault?
  cases p.outcome <;> simp

/-- A composition has the fault of its first part, or else the one that its second part
has on every result. -/
theorem fault?_bind_of_forall
    {p : Pass α} {k : α → Pass β} {o : Option Fault}
    (h : ∀ a, (k a).fault? = o) :
    (p >>= k).fault? = p.fault?.or o := by
  unfold fault?
  rw [outcome_bind]
  cases hp : p.outcome with
  | ok a => exact h a
  | error e => rfl

/-- If something is computed from the result of a pass, then there is a result. -/
theorem exists_ok_of_toOption_map
    {p : Pass α} {f : α → β} {b : β}
    (h : p.outcome.toOption.map f = some b) :
    ∃ a, p.outcome = .ok a ∧ f a = b :=
  except_exists_ok_of_toOption_map h

end Results

section Events

/-- The events of a composition whose first part ends with a result. -/
theorem events_bind_of_ok
    {p : Pass α} {a : α}
    (h : p.outcome = .ok a)
    (f : α → Pass β) :
    (p >>= f).events = p.events ++ (f a).events := by
  show (Pass.bind p f).events = _
  unfold Pass.bind
  rw [h]

/-- Every event of a pass satisfies a predicate. -/
def Reports (P : Event → Prop) (p : Pass α) : Prop :=
  ∀ e ∈ p.events, P e

variable {P : Event → Prop}

theorem reports_pure (a : α) : Reports P (Pure.pure a : Pass α) := by
  intro e he
  cases he

theorem reports_fail (f : Fault) : Reports P (fail f : Pass α) := by
  intro e he
  cases he

theorem reports_report
    {es : List Event}
    (h : ∀ e ∈ es, P e) :
    Reports P (report es) :=
  h

/-- A composition reports what its first part reports, and what its second part
reports on the result of the first one. -/
theorem reports_bind_of_ok
    {p : Pass α} {f : α → Pass β}
    (hp : Reports P p)
    (hf : ∀ a, p.outcome = .ok a → Reports P (f a)) :
    Reports P (p >>= f) := by
  intro e he
  change e ∈ (Pass.bind p f).events at he
  unfold Pass.bind at he
  split at he
  · rename_i a ha
    rcases List.mem_append.1 he with h | h
    · exact hp e h
    · exact hf a ha e h
  · exact hp e he

theorem reports_bind
    {p : Pass α} {f : α → Pass β}
    (hp : Reports P p)
    (hf : ∀ a, Reports P (f a)) :
    Reports P (p >>= f) :=
  reports_bind_of_ok hp fun a _ => hf a

theorem reports_each
    {f : α → Pass β} {as : List α}
    (hf : ∀ a ∈ as, Reports P (f a)) :
    Reports P (each f as) := by
  induction as with
  | nil => exact reports_pure []
  | cons a as ih =>
      obtain ⟨ha, has⟩ := List.forall_mem_cons.1 hf
      refine reports_bind ha fun b => ?_
      exact reports_bind (ih has) fun bs => reports_pure _

end Events

section Faults

/-- Every fault that a pass can end with satisfies a predicate. -/
def FailsOnly (P : Fault → Prop) (p : Pass α) : Prop :=
  ∀ f, p.outcome = .error f → P f

variable {P : Fault → Prop}

theorem failsOnly_pure (a : α) : FailsOnly P (Pure.pure a : Pass α) := by
  intro f hf
  cases hf

theorem failsOnly_report (es : List Event) : FailsOnly P (report es) := by
  intro f hf
  cases hf

theorem failsOnly_fail
    {f : Fault}
    (h : P f) :
    FailsOnly P (fail f : Pass α) := by
  intro f' hf
  cases hf
  exact h

/-- A composition fails as its first part does, or as its second part does on the
result of the first one. -/
theorem failsOnly_bind_of_ok
    {p : Pass α} {k : α → Pass β}
    (hp : FailsOnly P p)
    (hk : ∀ a, p.outcome = .ok a → FailsOnly P (k a)) :
    FailsOnly P (p >>= k) := by
  intro f hf
  rw [outcome_bind] at hf
  cases hout : p.outcome with
  | ok a =>
      rw [hout] at hf
      exact hk a hout f hf
  | error f' =>
      rw [hout] at hf
      cases hf
      exact hp f hout

theorem failsOnly_bind
    {p : Pass α} {k : α → Pass β}
    (hp : FailsOnly P p)
    (hk : ∀ a, FailsOnly P (k a)) :
    FailsOnly P (p >>= k) :=
  failsOnly_bind_of_ok hp fun a _ => hk a

theorem failsOnly_each
    {k : α → Pass β} {as : List α}
    (hk : ∀ a ∈ as, FailsOnly P (k a)) :
    FailsOnly P (each k as) := by
  induction as with
  | nil => exact failsOnly_pure []
  | cons a as ih =>
      obtain ⟨ha, has⟩ := List.forall_mem_cons.1 hk
      refine failsOnly_bind ha fun b => ?_
      exact failsOnly_bind (ih has) fun bs => failsOnly_pure _

/-- A pass that never fails ends with a result. -/
theorem exists_ok_of_failsOnly
    {p : Pass α}
    (h : FailsOnly (fun _ => False) p) :
    ∃ a, p.outcome = .ok a := by
  cases hp : p.outcome with
  | ok a => exact ⟨a, rfl⟩
  | error f => exact (h f hp).elim

end Faults

section Implication

/-- Whatever the first pass results in, the second one results in. -/
def Implies (p q : Pass α) : Prop :=
  ∀ a, p.outcome = .ok a → q.outcome = .ok a

theorem implies_refl (p : Pass α) : p.Implies p :=
  fun _ h => h

theorem Implies.bind
    {p q : Pass α} {k l : α → Pass β}
    (hp : p.Implies q)
    (hk : ∀ a, (k a).Implies (l a)) :
    (p >>= k).Implies (q >>= l) := by
  intro b hb
  obtain ⟨a, ha, hb⟩ := outcome_bind_eq_ok_iff.1 hb
  exact outcome_bind_eq_ok_iff.2 ⟨a, hp a ha, hk a b hb⟩

theorem Implies.each
    {k l : α → Pass β} {as : List α}
    (h : ∀ a ∈ as, (k a).Implies (l a)) :
    (Pass.each k as).Implies (Pass.each l as) := by
  intro bs hbs
  rw [outcome_each_eq_ok_iff] at hbs ⊢
  exact (forall₂_mem hbs).imp fun a b ⟨ha, _, hb⟩ => h a ha b hb

end Implication

section Mapping

variable {γ δ : Type}

/-- Applies a function to the result of a pass. -/
def map (f : α → β) (p : Pass α) : Pass β :=
  ⟨p.events, p.outcome.map f⟩

@[simp]
theorem map_pure (f : α → β) (a : α) : (Pure.pure a : Pass α).map f = Pure.pure (f a) :=
  rfl

@[simp]
theorem map_bind (p : Pass α) (k : α → Pass β) (f : β → γ) :
    (p >>= k).map f = p >>= fun a => (k a).map f := by
  show (Pass.bind p k).map f = Pass.bind p _
  unfold Pass.bind
  cases p.outcome with
  | ok a => rfl
  | error e => rfl

@[simp]
theorem bind_map (p : Pass α) (f : α → β) (k : β → Pass γ) :
    p.map f >>= k = p >>= fun a => k (f a) := by
  show Pass.bind (p.map f) k = Pass.bind p _
  unfold Pass.bind map
  cases p.outcome with
  | ok a => rfl
  | error e => rfl

@[simp]
theorem map_map (p : Pass α) (f : α → β) (g : β → γ) : (p.map f).map g = p.map fun a => g (f a) := by
  unfold map
  cases p.outcome with
  | ok a => rfl
  | error e => rfl

theorem bind_pure_eq_map (p : Pass α) (f : α → β) : (p >>= fun a => Pure.pure (f a)) = p.map f := by
  show Pass.bind p _ = _
  unfold Pass.bind map
  cases p.outcome with
  | ok a => exact congrArg (Pass.mk · _) (List.append_nil _)
  | error e => rfl

theorem bind_pure (p : Pass α) : p >>= Pure.pure = p := by
  show Pass.bind p _ = _
  rcases p with ⟨events, error | a⟩
  · rfl
  · exact congrArg (Pass.mk · _) (List.append_nil _)

/-- Second parts that agree on the result of the first one make the same composition. -/
theorem bind_congr_of_ok
    {p : Pass α} {k l : α → Pass β}
    (h : ∀ a, p.outcome = .ok a → k a = l a) :
    p >>= k = p >>= l := by
  show Pass.bind p k = Pass.bind p l
  unfold Pass.bind
  cases hp : p.outcome with
  | ok a =>
      dsimp only
      rw [h a hp]
  | error e => rfl

/-- Changing the items of a pass on every item. -/
theorem each_map_eq
    {k : α → Pass β} {l : γ → Pass β} {f : α → γ} {as : List α}
    (h : ∀ a ∈ as, l (f a) = k a) :
    each l (as.map f) = each k as := by
  induction as with
  | nil => rfl
  | cons a as ih =>
      obtain ⟨ha, has⟩ := List.forall_mem_cons.1 h
      rw [List.map_cons, each, each, ha, ih has]

theorem each_congr
    {k l : α → Pass β} {as : List α}
    (h : ∀ a ∈ as, l a = k a) :
    each l as = each k as := by
  rw [← each_map_eq (f := id) h, List.map_id]

end Mapping

end Pass
end DeclGraph
