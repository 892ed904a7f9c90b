import DeclGraph.Proofs.Comments
import DeclGraph.Proofs.JsonValues
import DeclGraph.Proofs.Outcomes

/-!
# Export and ambient wrappers

Declarations are looked for behind wrappers, and nowhere else.

* `Syntax.Node.Behind` is the relation "reached through wrappers only".  What a top-level
  node unwraps to is a declaration node behind it (`behind_of_unwrap`), so each declaration
  of a tree comes from a node behind a child of the root.
* `Wraps` says how a declaration node is put into a stack of wrappers: each export has what
  it wraps as its declaration, and in an ambient wrapper it comes before every other
  declaration or wrapper.  Unwrapping the stack gives the declaration node back
  (`unwrap_of_wraps`), known to its parent by another name, which nothing reads.
-/

namespace DeclGraph

open Syntax (Node)

section Wrapper

namespace Syntax.Node

/-- The wrappers of declarations. -/
def IsWrapper (n : Node) : Prop :=
  n.kind = "export_statement" ∨ n.kind = "ambient_declaration"

/-- A node that is read as a declaration. -/
def IsDeclaration (n : Node) : Prop :=
  (declarationKind? n.kind).isSome = true

instance : DecidablePred IsWrapper := fun n =>
  inferInstanceAs (Decidable (n.kind = "export_statement" ∨ n.kind = "ambient_declaration"))

instance : DecidablePred IsDeclaration := fun n =>
  inferInstanceAs (Decidable ((declarationKind? n.kind).isSome = true))

/-- `n.Behind c` when `n` is `c` or is reached from it through wrappers only. -/
inductive Behind : Node → Node → Prop
  | self (n : Node) : Behind n n
  | wrapper {n m c : Node} : c.IsWrapper → m ∈ c.children → Behind n m → Behind n c

end Syntax.Node

/-- `w` is the declaration node `d` in a stack of wrappers. -/
inductive Wraps (d : Node) : Node → Prop
  /-- Its parent may know the node by any name. -/
  | bare (field : Option String) : Wraps d { d with field }
  | exported {m w : Node} :
    w.kind = "export_statement" → w.child? "declaration" = some m → Wraps d m → Wraps d w
  /-- What comes before it in the wrapper is neither a declaration nor a wrapper. -/
  | ambient {m w : Node} {before after : List Node} :
    w.kind = "ambient_declaration" → w.children = before ++ m :: after → m.named = true →
    (∀ c ∈ before, c.named = true → ¬ c.IsDeclaration ∧ ¬ c.IsWrapper) → Wraps d m → Wraps d w

variable {c d m n w : Node}

theorem unwrap_of_isDeclaration
    (h : n.IsDeclaration) :
    unwrap n = some n := by
  rw [unwrap_eq]
  exact if_pos h

theorem unwrap_of_neither
    (hdeclaration : ¬ n.IsDeclaration)
    (hwrapper : ¬ n.IsWrapper) :
    unwrap n = none := by
  rw [unwrap_eq]
  refine (if_neg hdeclaration).trans ?_
  rw [if_neg fun h => hwrapper (.inl (beq_iff_eq.1 h)),
    if_neg fun h => hwrapper (.inr (beq_iff_eq.1 h))]

theorem not_isDeclaration_of_isWrapper
    (h : n.IsWrapper) :
    ¬ n.IsDeclaration := by
  unfold Syntax.Node.IsDeclaration
  rcases h with h | h
  · rw [h]
    decide
  · rw [h]
    decide

/-- An export unwraps to what its declaration does. -/
theorem unwrap_of_export
    (h : w.kind = "export_statement")
    (hm : w.child? "declaration" = some m) :
    unwrap w = unwrap m := by
  rw [unwrap_eq]
  refine (if_neg (not_isDeclaration_of_isWrapper (.inl h))).trans ?_
  rw [if_pos (beq_iff_eq.2 h), hm]

/-- An ambient wrapper unwraps to the first declaration node behind a named child. -/
theorem unwrap_of_ambient
    (h : w.kind = "ambient_declaration") :
    unwrap w = w.namedChildren.findSome? unwrap := by
  rw [unwrap_eq]
  refine (if_neg (not_isDeclaration_of_isWrapper (.inr h))).trans ?_
  rw [if_neg (by simp [h]), if_pos (beq_iff_eq.2 h)]

/-- Unwrapping finds a declaration node behind wrappers. -/
theorem behind_of_unwrap
    (h : unwrap c = some n) :
    n.Behind c ∧ n.IsDeclaration := by
  induction c using Syntax.Node.childInduct with
  | step c ih =>
      have hbelow : c.IsWrapper → ∀ m ∈ c.children, unwrap m = some n →
          n.Behind c ∧ n.IsDeclaration := by
        intro hwrapper m hm hn
        obtain ⟨hbehind, hdeclaration⟩ := ih m hm hn
        exact ⟨.wrapper hwrapper hm hbehind, hdeclaration⟩
      have hfirst : c.IsWrapper → c.namedChildren.findSome? unwrap = some n →
          n.Behind c ∧ n.IsDeclaration := by
        intro hwrapper hn
        obtain ⟨m, hm, hn⟩ := List.exists_of_findSome?_eq_some hn
        exact hbelow hwrapper m (Syntax.Node.mem_children_of_mem_namedChildren hm) hn
      rw [unwrap_eq] at h
      split at h
      · rename_i hdeclaration
        cases h
        exact ⟨.self _, hdeclaration⟩
      · split at h
        · rename_i hexport
          have hwrapper : c.IsWrapper := .inl (beq_iff_eq.1 hexport)
          split at h
          · rename_i declared hdeclared
            exact hbelow hwrapper declared (List.mem_of_find?_eq_some hdeclared) h
          · split at h
            · rename_i value hvalue
              split at h
              · rename_i hclass
                cases h
                have hkind : n.kind = "class" := beq_iff_eq.1 (Bool.and_eq_true_iff.1 hclass).1
                refine ⟨.wrapper hwrapper (List.mem_of_find?_eq_some hvalue) (.self _), ?_⟩
                unfold Syntax.Node.IsDeclaration
                rw [hkind]
                rfl
              · exact hfirst hwrapper h
            · exact hfirst hwrapper h
        · split at h
          · rename_i hambient
            exact hfirst (.inr (beq_iff_eq.1 hambient)) h
          · cases h

/-- A stack of wrappers unwraps to the declaration node in it. -/
theorem unwrap_of_wraps
    (hd : d.IsDeclaration)
    (h : Wraps d w) :
    ∃ field, unwrap w = some { d with field } := by
  induction h with
  | bare field => exact ⟨field, unwrap_of_isDeclaration hd⟩
  | exported hkind hdeclared _ ih =>
      obtain ⟨field, hm⟩ := ih
      exact ⟨field, (unwrap_of_export hkind hdeclared).trans hm⟩
  | @ambient m w before after hkind hchildren hnamed hbefore _ ih =>
      obtain ⟨field, hm⟩ := ih
      refine ⟨field, ?_⟩
      have hnone : (before.filter (·.named)).findSome? unwrap = none := by
        rw [List.findSome?_eq_none_iff]
        intro c hc
        obtain ⟨hc, hcnamed⟩ := List.mem_filter.1 hc
        obtain ⟨hdeclaration, hwrapper⟩ := hbefore c hc hcnamed
        exact unwrap_of_neither hdeclaration hwrapper
      have hnamedChildren : w.namedChildren =
          before.filter (·.named) ++ m :: after.filter (·.named) := by
        unfold Syntax.Node.namedChildren
        rw [hchildren, List.filter_append, List.filter_cons_of_pos hnamed]
      rw [unwrap_of_ambient hkind, hnamedChildren, List.findSome?_append, hnone,
        List.findSome?_cons, hm]
      rfl

/-- A sound node has sound children only. -/
theorem hasError_of_mem_children
    (hn : n.hasError = false)
    (hc : c ∈ n.children) :
    c.hasError = false := by
  rw [Syntax.Node.hasError_eq, Bool.or_eq_false_iff] at hn
  exact Bool.eq_false_iff.2 (List.any_eq_false.1 hn.2 c hc)

/-- The declaration node in a sound stack of wrappers is sound. -/
theorem hasError_of_wraps
    (h : Wraps d w)
    (hw : w.hasError = false) :
    d.hasError = false := by
  induction h with
  | bare field =>
      rw [Syntax.Node.hasError_eq] at hw ⊢
      exact hw
  | exported _ hdeclared _ ih =>
      exact ih (hasError_of_mem_children hw (List.mem_of_find?_eq_some hdeclared))
  | ambient _ hchildren _ _ _ ih =>
      exact ih (hasError_of_mem_children hw (by simp [hchildren]))

/-- A stack of wrappers declares what the declaration node in it declares. -/
theorem readTopLevel_of_wraps
    (hd : d.IsDeclaration)
    (h : Wraps d w) :
    readTopLevel w = readTopLevel d := by
  obtain ⟨field, hw⟩ := unwrap_of_wraps hd h
  unfold readTopLevel
  rw [hw, unwrap_of_isDeclaration hd]
  rfl

end Wrapper

section TopLevel

/-- A declaration is read from a node behind a top-level node. -/
def DeclaredBehind (c : Node) (d : Declaration) : Prop :=
  ∃ n kind, n.Behind c ∧ declarationKind? n.kind = some kind ∧
    (readDeclaration kind n).outcome = .ok (some d)

/-- The tree `root` with `w` among its children. -/
def Syntax.Node.around (root : Node) (before : List Node) (w : Node) (after : List Node) : Node :=
  { root with children := before ++ w :: after }

variable {root c d w : Node} {before after : List Node}

theorem declaredBehind_of_readTopLevel
    {e : Declaration}
    (h : (readTopLevel c).outcome = .ok (some e)) :
    DeclaredBehind c e := by
  unfold readTopLevel at h
  split at h
  · cases h
  · rename_i n hn
    split at h
    · rename_i kind hkind
      exact ⟨n, kind, (behind_of_unwrap hn).1, hkind, h⟩
    · cases h

/-- Each declaration comes from another child of the root, and they are in order. -/
theorem exists_sublist_of_forall₂
    {ns : List Node} {read : List (Option Declaration)}
    (h : List.Forall₂ (fun n r => (readTopLevel n).outcome = .ok r) ns read) :
    ∃ cs, cs.Sublist ns ∧ List.Forall₂ DeclaredBehind cs (read.filterMap id) := by
  induction h with
  | nil => exact ⟨[], .slnil, .nil⟩
  | @cons n r ns read hn _ ih =>
      obtain ⟨cs, hcs, hread⟩ := ih
      cases r with
      | none => exact ⟨cs, hcs.cons n, hread⟩
      | some e => exact ⟨n :: cs, hcs.cons_cons n, .cons (declaredBehind_of_readTopLevel hn) hread⟩

theorem namedChildren_around
    (hw : w.named = true) :
    (root.around before w after).namedChildren =
      before.filter (·.named) ++ w :: after.filter (·.named) := by
  unfold Syntax.Node.namedChildren Syntax.Node.around
  rw [List.filter_append, List.filter_cons_of_pos hw]

theorem hasError_around_of_wraps
    (h : Wraps d w)
    (hsound : (root.around before w after).hasError = false) :
    (root.around before d after).hasError = false := by
  have hd : d.hasError = false :=
    hasError_of_wraps h (hasError_of_mem_children hsound (by simp [Syntax.Node.around]))
  have hw : w.hasError = false := hasError_of_mem_children hsound (by simp [Syntax.Node.around])
  rw [Syntax.Node.hasError_eq] at hsound ⊢
  simpa [Syntax.Node.around, hd, hw] using hsound

/-- An item of a list can be replaced by one on which the pass does the same. -/
theorem each_replace
    {α β : Type} {k : α → Pass β} {a b : α}
    (h : k a = k b)
    (as bs : List α) :
    Pass.each k (as ++ a :: bs) = Pass.each k (as ++ b :: bs) := by
  induction as with
  | nil => rw [List.nil_append, List.nil_append, Pass.each, Pass.each, h]
  | cons c as ih => rw [List.cons_append, List.cons_append, Pass.each, Pass.each, ih]

theorem readDeclarations_around_of_wraps
    (hd : d.IsDeclaration)
    (hdnamed : d.named = true)
    (h : Wraps d w)
    (hwnamed : w.named = true)
    (hsound : (root.around before w after).hasError = false) :
    readDeclarations (root.around before w after) =
      readDeclarations (root.around before d after) := by
  unfold readDeclarations
  rw [if_neg (Bool.eq_false_iff.1 hsound),
    if_neg (Bool.eq_false_iff.1 (hasError_around_of_wraps h hsound)),
    namedChildren_around hwnamed, namedChildren_around hdnamed,
    each_replace (readTopLevel_of_wraps hd h)]

/-- Export and ambient wrappers are transparent, and nothing else is top level.

* A sound tree is read, if its instantiated base classes have targets.  Each declaration
  comes from another named child of the root, in order, and is read from a node that is
  reached from there through wrappers only.
* A declaration node in a stack of wrappers can stand for the bare one in a sound tree:
  declarations, events and the extracted graph are the same. -/
theorem wrappers_transparent :
    (∀ root : Node, root.hasError = false →
      (root.Every Syntax.Node.HasTarget → ∃ ds, (readDeclarations root).outcome = .ok ds) ∧
      ∀ ds, (readDeclarations root).outcome = .ok ds →
        ∃ cs, cs.Sublist root.namedChildren ∧ List.Forall₂ DeclaredBehind cs ds) ∧
    (∀ (root d w : Node) (before after : List Node), d.IsDeclaration → d.named = true →
      Wraps d w → w.named = true → (root.around before w after).hasError = false →
      readDeclarations (root.around before w after) =
        readDeclarations (root.around before d after) ∧
      ∀ options, extract options (root.around before w after) =
        extract options (root.around before d after)) := by
  constructor
  · intro root hsound
    refine ⟨fun htargets => exists_readDeclarations htargets hsound, fun ds hds => ?_⟩
    obtain ⟨-, read, hread, rfl⟩ := readDeclarations_eq_ok_iff.1 hds
    exact exists_sublist_of_forall₂ hread
  · intro root d w before after hd hdnamed h hwnamed hsound
    have hread : readDeclarations (root.around before w after) =
        readDeclarations (root.around before d after) :=
      readDeclarations_around_of_wraps hd hdnamed h hwnamed hsound
    refine ⟨hread, fun options => ?_⟩
    unfold extract
    rw [hread]

/-- An interface in an ambient wrapper with a comment, in an export with a decorator. -/
def exportedInterface : Node :=
  .build "export_statement" "" none
    [.build "decorator" "" (some "decorator") [],
      .build "ambient_declaration" "" (some "declaration")
        [.build "comment" "" none [], interfaceNode "A" "b" "B"]]

/-- Two interfaces that refer to each other, the first of them in wrappers. -/
def exportedReferences : Node :=
  crossReferences.around [] exportedInterface [interfaceNode "B" "a" "A"]

theorem wraps_exportedInterface : Wraps (interfaceNode "A" "b" "B") exportedInterface := by
  have hcomment : ∀ c ∈ [Syntax.Node.build "comment" "" none []], c.named = true →
      ¬ c.IsDeclaration ∧ ¬ c.IsWrapper :=
    List.forall_mem_singleton.2 fun _ => by decide
  exact .exported rfl rfl (.ambient rfl rfl rfl hcomment (.bare none))

theorem wrappers_transparent_exportedInterface :
    (∃ ds cs, (readDeclarations exportedReferences).outcome = .ok ds ∧
      ds.map (·.name) = ["A", "B"] ∧
      cs.Sublist exportedReferences.namedChildren ∧ List.Forall₂ DeclaredBehind cs ds) ∧
    readDeclarations exportedReferences = readDeclarations crossReferences ∧
    extract {} exportedReferences = extract {} crossReferences ∧
    ∃ g, (extract {} exportedReferences).outcome = .ok g ∧
      g.models.map (·.name) = [.str "A", .str "B"] := by
  obtain ⟨hread, hwrap⟩ := wrappers_transparent
  have hsound : exportedReferences.hasError = false := by decide
  obtain ⟨hreturns, hdeclared⟩ := hread exportedReferences hsound
  obtain ⟨ds, hds⟩ := hreturns (by decide)
  obtain ⟨cs, hcs, hbehind⟩ := hdeclared ds hds
  obtain ⟨ds', hds', hnames⟩ := Pass.exists_ok_of_toOption_map
    (p := readDeclarations exportedReferences) (f := fun ds => ds.map (·.name))
    (b := ["A", "B"]) (by decide +kernel)
  cases hds.symm.trans hds'
  obtain ⟨g, hg, hmodels⟩ := Pass.exists_ok_of_toOption_map
    (p := extract {} exportedReferences) (f := fun g => g.models.map (·.name))
    (b := [.str "A", .str "B"]) (by decide +kernel)
  obtain ⟨hsame, hextract⟩ := hwrap crossReferences (interfaceNode "A" "b" "B") exportedInterface
    [] [interfaceNode "B" "a" "A"] (by decide) rfl wraps_exportedInterface rfl hsound
  exact ⟨⟨ds, cs, hds, hnames, hcs, hbehind⟩, hsame, hextract {}, g, hg, hmodels⟩

end TopLevel

end DeclGraph
