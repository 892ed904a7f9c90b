import DeclGraph.Proofs.LinkedGraph
import DeclGraph.Proofs.Outcomes

/-!
# The place of the first fault

A faulty tree is refused with the place of its first fault.

* `Syntax.Node.preorder` lists the nodes of a tree in source order: a node before what is
  below it, and its children from left to right, punctuation among them.
* `Syntax.Node.Candid` says that the marks of a tree tell the truth: a node counts as faulty
  exactly if there is a fault in its tree.

The search for the first fault goes down one path and never turns back.  In a candid tree
it finds the first fault of the list (`find?_preorder`): a faulty child leads to a fault,
and a child that is not faulty holds none.
-/

namespace DeclGraph

open Syntax (Node)

section Preorder

namespace Syntax.Node

mutual

/-- The nodes of a tree, each before what is below it, and children from left to right. -/
def preorder : Node → List Node
  | ⟨kind, source, start, field, named, missing, broken, children⟩ =>
    ⟨kind, source, start, field, named, missing, broken, children⟩ :: preorderOf children

/-- The nodes of several trees. -/
def preorderOf : List Node → List Node
  | [] => []
  | n :: ns => n.preorder ++ preorderOf ns

end

theorem preorderOf_eq_flatMap (ns : List Node) : preorderOf ns = ns.flatMap preorder := by
  induction ns with
  | nil => rfl
  | cons n ns ih => rw [preorderOf, ih, List.flatMap_cons]

theorem preorder_eq (n : Node) : n.preorder = n :: n.children.flatMap preorder := by
  obtain ⟨kind, source, start, field, named, missing, broken, children⟩ := n
  rw [preorder, preorderOf_eq_flatMap]

theorem mem_preorder_iff {m n : Node} : m ∈ n.preorder ↔ m.Within n := by
  induction n using childInduct with
  | step n ih =>
      rw [preorder_eq, List.mem_cons, List.mem_flatMap]
      constructor
      · rintro (rfl | ⟨c, hc, hm⟩)
        · exact .self m
        · exact .child hc ((ih c hc).1 hm)
      · intro hm
        cases hm with
        | self => exact .inl rfl
        | child hc hm => exact .inr ⟨_, hc, (ih _ hc).2 hm⟩

end Syntax.Node

end Preorder

section Faults

namespace Syntax.Node

/-- A node that is at fault itself: text that fits no rule, or a token that is not there. -/
def isFault (n : Node) : Bool :=
  n.isError || n.missing

/-- A tree whose marks tell the truth: each node counts as faulty exactly if it is at fault
itself or something below it is. -/
def Candid (root : Node) : Prop :=
  root.Every fun n => n.hasError = true ↔ ∃ m : Node, m.Within n ∧ m.isFault = true

variable {m n root : Node}

theorem exists_isFault_iff :
    (∃ m : Node, m.Within n ∧ m.isFault = true)
      ↔
    n.preorder.any isFault = true := by
  rw [List.any_eq_true]
  exact exists_congr fun m => and_congr_left fun _ => mem_preorder_iff.symm

instance : DecidablePred Candid := fun root =>
  decidable_of_iff (root.Every fun n => n.hasError = n.preorder.any isFault) <| by
    refine forall₂_congr fun n _ => ?_
    show n.hasError = n.preorder.any isFault ↔ (n.hasError = true ↔ _)
    rw [exists_isFault_iff, Bool.eq_iff_iff]

theorem hasError_of_isFault (h : n.isFault = true) : n.hasError = true := by
  rw [hasError_eq]
  rcases Bool.or_eq_true_iff.1 h with herror | hmissing
  · simp [eq_of_beq herror]
  · simp [hmissing]

theorem hasError_of_within
    (hm : m.Within n)
    (h : m.isFault = true) :
    n.hasError = true := by
  induction hm with
  | self => exact hasError_of_isFault h
  | child hc _ ih =>
      rw [hasError_eq, Bool.or_eq_true]
      exact .inr (List.any_eq_true.2 ⟨_, hc, ih⟩)

end Syntax.Node

/-- Of several nodes, the first one that is faulty is searched. -/
theorem firstErrorOf_eq (ns : List Node) :
    Syntax.firstErrorOf ns = (ns.find? (·.hasError)).map Syntax.Node.firstError := by
  induction ns with
  | nil => rfl
  | cons n ns ih =>
      have hmark : (n.hasError || n.missing) = n.hasError := by
        cases hmissing : n.missing with
        | false => rw [Bool.or_false]
        | true =>
            rw [Syntax.Node.hasError_of_isFault (Bool.or_eq_true_iff.2 (.inr hmissing)), Bool.or_true]
      rw [Syntax.firstErrorOf, hmark, ih, List.find?_cons]
      cases n.hasError <;> rfl

theorem firstError_eq (n : Node) :
    n.firstError =
      if n.isFault then n
      else ((n.children.find? (·.hasError)).map Syntax.Node.firstError).getD n := by
  obtain ⟨kind, source, start, field, named, missing, broken, children⟩ := n
  rw [Syntax.Node.firstError, firstErrorOf_eq]
  rfl

/-- Where the search is right about each of several trees, the first fault of all of them is
the one found in the first faulty tree. -/
theorem find?_flatMap_preorder
    {ns : List Node}
    (h : ∀ n ∈ ns, n.preorder.find? Syntax.Node.isFault =
      if n.hasError then some n.firstError else none) :
    (ns.flatMap Syntax.Node.preorder).find? Syntax.Node.isFault =
      (ns.find? (·.hasError)).map Syntax.Node.firstError := by
  induction ns with
  | nil => rfl
  | cons n ns ih =>
      obtain ⟨hn, hns⟩ := List.forall_mem_cons.1 h
      rw [List.flatMap_cons, List.find?_append, hn, ih hns, List.find?_cons]
      cases n.hasError <;> rfl

/-- The search finds the first fault of a candid tree, if the tree is faulty. -/
theorem find?_preorder
    {n : Node}
    (h : n.Candid) :
    n.preorder.find? Syntax.Node.isFault = if n.hasError then some n.firstError else none := by
  induction n using Syntax.Node.childInduct with
  | step n ih =>
      have hchildren : (n.children.flatMap Syntax.Node.preorder).find? Syntax.Node.isFault =
          (n.children.find? (·.hasError)).map Syntax.Node.firstError :=
        find?_flatMap_preorder fun c hc => ih c hc (h.within (.child hc (.self c)))
      rw [Syntax.Node.preorder_eq, List.find?_cons, hchildren, firstError_eq]
      cases hfault : n.isFault with
      | true => rw [if_pos (Syntax.Node.hasError_of_isFault hfault), if_pos rfl]
      | false =>
          cases hfound : n.children.find? (·.hasError) with
          | some c =>
              -- A faulty child makes the node faulty, so the search goes on in it.
              have hc : n.hasError = true := by
                rw [Syntax.Node.hasError_eq, Bool.or_eq_true]
                exact .inr (List.any_eq_true.2
                  ⟨c, List.mem_of_find?_eq_some hfound, List.find?_some hfound⟩)
              rw [if_pos hc]
              rfl
          | none =>
              -- No child is faulty and the node is not at fault: its own mark must be clear.
              have hclear : ¬ n.hasError = true := by
                intro herror
                obtain ⟨m, hm, hmfault⟩ := h.self.1 herror
                cases hm with
                | self => exact Bool.false_ne_true (hfault.symm.trans hmfault)
                | child hc hm =>
                    exact List.find?_eq_none.1 hfound _ hc
                      (Syntax.Node.hasError_of_within hm hmfault)
              rw [if_neg hclear]
              rfl

/-- A faulty tree whose marks tell the truth is refused at its first fault in source order,
with the line and the column where that node starts, counted from one. -/
theorem refused_at_first_fault
    {root : Node}
    (hcandid : root.Candid)
    (herror : root.hasError = true) :
    ∃ before bad after,
      root.preorder = before ++ bad :: after ∧
      (∀ m ∈ before, m.isFault = false) ∧
      bad.isFault = true ∧
      root.firstError = bad ∧
      let trouble : Trouble := if bad.missing then .missing bad.kind else .unexpected bad.text
      let fault : Fault := .malformed trouble (bad.start.row + 1) (bad.start.column + 1)
      (readDeclarations root).outcome = .error fault ∧
      ∀ options, (extract options root).outcome = .error fault := by
  have hfirst := find?_preorder hcandid
  rw [if_pos herror, List.find?_eq_some_iff_append] at hfirst
  obtain ⟨hbad, before, after, hsplit, hbefore⟩ := hfirst
  refine ⟨before, root.firstError, after, hsplit, ?_, hbad, rfl, ?_, ?_⟩
  · exact fun m hm => by simpa using hbefore m hm
  · unfold readDeclarations
    rw [if_pos herror]
    rfl
  · exact fun options => outcome_extract_of_faulty herror

/-- An interface without its closing brace, and a stray token after it. -/
def unclosedInterface : Node :=
  let brace : Node :=
    { Syntax.Node.build "\x7d" "" none [] with start := ⟨1, 14⟩, named := false, missing := true }
  let stray : Node := { Syntax.Node.build "ERROR" ")" none [] with start := ⟨2, 0⟩ }
  let body : Node := .build "interface_body" "" (some "body") [brace]
  { Syntax.Node.build "program" "" none
      [interfaceNode "A" "b" "B",
        .build "interface_declaration" "" none
          [.build "type_identifier" "B" (some "name") [], body],
        stray] with
    broken := true }

theorem refused_at_first_fault_unclosedInterface :
    unclosedInterface.Candid ∧ unclosedInterface.hasError = true ∧
    unclosedInterface.firstError.kind = "\x7d" ∧
    ∃ trouble, (readDeclarations unclosedInterface).outcome = .error (.malformed trouble 2 15) := by
  have hcandid : unclosedInterface.Candid := by decide +kernel
  have herror : unclosedInterface.hasError = true := by decide +kernel
  obtain ⟨before, bad, after, -, -, -, hbad, houtcome, -⟩ :=
    refused_at_first_fault hcandid herror
  have hkind : unclosedInterface.firstError.kind = "\x7d" := by decide +kernel
  have hplace : unclosedInterface.firstError.start = ⟨1, 14⟩ := by decide +kernel
  rw [← hbad, hplace] at houtcome
  exact ⟨hcandid, herror, hkind, _, houtcome⟩

end Faults

end DeclGraph
