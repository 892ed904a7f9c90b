import DeclGraph.TypeExpr.Basic

/-!
# Induction on JSON values and their equality

JSON values contain lists of values and of entries, so induction on them assumes
the statement for every item of an array and for the value of every entry of an
object.  With it, the comparison `Json.same` is shown to decide equality, and
equality of links is decided by comparing identifiers and names.
-/

namespace DeclGraph
namespace Json

variable {ν μ : Type}

section Induction

@[elab_as_elim]
theorem induct
    {P : Json ν → Prop}
    (null : P .null)
    (bool : ∀ b, P (.bool b))
    (int : ∀ n, P (.int n))
    (float : ∀ x, P (.float x))
    (str : ∀ s, P (.str s))
    (arr : ∀ items, (∀ j ∈ items, P j) → P (.arr items))
    (obj : ∀ entries, (∀ e ∈ entries, P e.2) → P (.obj entries)) :
    ∀ j, P j :=
  @Json.rec ν P (fun js => ∀ j ∈ js, P j) (fun es => ∀ e ∈ es, P e.2) (fun e => P e.2)
    null bool int float str arr obj
    (fun _ h => absurd h List.not_mem_nil)
    (fun _ _ head tail => List.forall_mem_cons.2 ⟨head, tail⟩)
    (fun _ h => absurd h List.not_mem_nil)
    (fun _ _ head tail => List.forall_mem_cons.2 ⟨head, tail⟩)
    (fun _ _ h => h)

end Induction

section Equality

variable [DecidableEq ν]

mutual

/-- Compares two values. -/
def same : Json ν → Json ν → Bool
  | .null, .null => true
  | .bool a, .bool b => a == b
  | .int m, .int n => m == n
  | .float x, .float y => x == y
  | .str s, .str t => s == t
  | .arr xs, .arr ys => sameItems xs ys
  | .obj xs, .obj ys => sameEntries xs ys
  | _, _ => false

def sameItems : List (Json ν) → List (Json ν) → Bool
  | [], [] => true
  | x :: xs, y :: ys => same x y && sameItems xs ys
  | _, _ => false

def sameEntries : List (ν × Json ν) → List (ν × Json ν) → Bool
  | [], [] => true
  | (k, x) :: xs, (l, y) :: ys => k == l && same x y && sameEntries xs ys
  | _, _ => false

end

theorem sameItems_iff
    {xs ys : List (Json ν)}
    (h : ∀ x ∈ xs, ∀ y, same x y = true ↔ x = y) :
    sameItems xs ys = true ↔ xs = ys := by
  induction xs generalizing ys with
  | nil => cases ys <;> simp [sameItems]
  | cons x xs ih =>
      obtain ⟨hx, hxs⟩ := List.forall_mem_cons.1 h
      cases ys with
      | nil => simp [sameItems]
      | cons y ys =>
          rw [sameItems, Bool.and_eq_true, hx y, ih hxs, List.cons.injEq]

theorem sameEntries_iff
    {xs ys : List (ν × Json ν)}
    (h : ∀ e ∈ xs, ∀ y, same e.2 y = true ↔ e.2 = y) :
    sameEntries xs ys = true ↔ xs = ys := by
  induction xs generalizing ys with
  | nil => cases ys <;> simp [sameEntries]
  | cons e xs ih =>
      obtain ⟨hx, hxs⟩ := List.forall_mem_cons.1 h
      obtain ⟨k, x⟩ := e
      cases ys with
      | nil => simp [sameEntries]
      | cons f ys =>
          obtain ⟨l, y⟩ := f
          rw [sameEntries, Bool.and_eq_true, Bool.and_eq_true, hx y, ih hxs, List.cons.injEq,
            Prod.mk.injEq, beq_iff_eq]

theorem same_iff (x y : Json ν) : same x y = true ↔ x = y := by
  induction x using Json.induct generalizing y with
  | null => cases y <;> simp [same]
  | bool a => cases y <;> simp [same]
  | int m => cases y <;> simp [same]
  | float a => cases y <;> simp [same]
  | str s => cases y <;> simp [same]
  | arr items ih =>
      cases y with
      | arr ys => rw [same, sameItems_iff ih, Json.arr.injEq]
      | _ => simp [same]
  | obj entries ih =>
      cases y with
      | obj ys => rw [same, sameEntries_iff ih, Json.obj.injEq]
      | _ => simp [same]

instance : DecidableEq (Json ν) :=
  fun x y => decidable_of_iff (same x y = true) (same_iff x y)

end Equality

end Json

instance {ν : Type} [DecidableEq ν] : DecidableEq (Link ν) :=
  fun l k => decidable_of_iff (l.id = k.id ∧ l.name = k.name) (by cases l; cases k; simp)

end DeclGraph
