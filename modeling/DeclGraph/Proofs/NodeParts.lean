import DeclGraph.Proofs.Constructs
import DeclGraph.Proofs.Passes

/-!
# The nodes of syntax trees and of declarations

Statements about all nodes of a tree are made with two notions, as for type
expressions.

* `Node.Within` is the relation "lies in the tree of": a node itself, or something
  below one of its children.
* `Node.Every P n` says that `P` holds of every node in the tree of `n`.

What is read from a tree lies in it: `Declaration.nodes` lists the nodes that a
declaration holds, and each of them lies in the tree that the declaration was read
from.  So what holds of every node of a tree holds of every node of its
declarations.
-/

namespace DeclGraph

open Syntax (Node)

section Trees

namespace Syntax.Node

/-- `m.Within n` when `m` is `n` or lies at some depth below it. -/
inductive Within : Node → Node → Prop
  | self (n : Node) : Within n n
  | child {m c n : Node} : c ∈ n.children → Within m c → Within m n

/-- A predicate holds of every node of a tree. -/
def Every (P : Node → Prop) (n : Node) : Prop :=
  ∀ m, m.Within n → P m

variable {P : Node → Prop} {m n c : Node}

theorem Within.trans
    {l : Node}
    (hlm : l.Within m)
    (hmn : m.Within n) :
    l.Within n := by
  induction hmn with
  | self => exact hlm
  | child hc _ ih => exact .child hc ih

theorem Every.within
    (h : n.Every P)
    (hm : m.Within n) :
    m.Every P :=
  fun _ hl => h _ (hl.trans hm)

/-- A predicate holds of every node of a tree when it holds of the root and of every
node below its children. -/
theorem every_iff :
    n.Every P
      ↔
    P n ∧ ∀ c ∈ n.children, c.Every P := by
  constructor
  · intro h
    exact ⟨h n (.self n), fun c hc => h.within (.child hc (.self c))⟩
  · rintro ⟨hn, hchildren⟩ m hm
    cases hm with
    | self => exact hn
    | child hc hm => exact hchildren _ hc m hm

theorem Every.self (h : n.Every P) : P n :=
  h n (.self n)

theorem within_of_mem_namedChildren (h : c ∈ n.namedChildren) : c.Within n :=
  .child (mem_children_of_mem_namedChildren h) (.self c)

theorem within_of_child? {field : String} (h : n.child? field = some c) : c.Within n :=
  .child (List.mem_of_find?_eq_some h) (.self c)

theorem within_of_annotated? (h : n.annotated? = some c) : c.Within n := by
  unfold annotated? at h
  split at h
  · exact within_of_mem_namedChildren (List.mem_of_head? h)
  · cases h
    exact .self n

/-- The type under an annotation that a field holds. -/
theorem within_of_child?_annotated?
    {field : String}
    (h : (n.child? field).bind annotated? = some c) :
    c.Within n := by
  obtain ⟨a, ha, hc⟩ := Option.bind_eq_some_iff.1 h
  exact (within_of_annotated? hc).trans (within_of_child? ha)

theorem hasError_eq (n : Node) :
    n.hasError = (n.broken || n.kind == "ERROR" || n.missing || n.children.any (·.hasError)) := by
  cases n
  rw [hasError, Syntax.anyError_eq_any]

/-- Induction on trees: what holds of a node whenever it holds of its children holds of
every node. -/
@[elab_as_elim]
theorem childInduct
    {P : Node → Prop}
    (step : ∀ n : Node, (∀ c ∈ n.children, P c) → P n)
    (n : Node) :
    P n := by
  induction hsize : n.size using Nat.strongRecOn generalizing n with
  | ind size ih => exact step n fun c hc => ih c.size (hsize ▸ size_lt_of_mem_children hc) c rfl

mutual

/-- Checks every node of a tree. -/
def all (p : Node → Bool) : Node → Bool
  | ⟨kind, source, start, field, named, missing, broken, children⟩ =>
    p ⟨kind, source, start, field, named, missing, broken, children⟩ && allOf p children

/-- Checks every node of several trees. -/
def allOf (p : Node → Bool) : List Node → Bool
  | [] => true
  | n :: ns => n.all p && allOf p ns

end

theorem allOf_eq_all (p : Node → Bool) (ns : List Node) : allOf p ns = ns.all (·.all p) := by
  induction ns with
  | nil => rfl
  | cons n ns ih => rw [allOf, ih, List.all_cons]

theorem all_eq (p : Node → Bool) (n : Node) : n.all p = (p n && n.children.all (·.all p)) := by
  obtain ⟨kind, source, start, field, named, missing, broken, children⟩ := n
  rw [all, allOf_eq_all]

theorem all_eq_true_iff {p : Node → Bool} : n.all p = true ↔ n.Every (p · = true) := by
  induction n using childInduct with
  | step n ih =>
      rw [all_eq, every_iff, Bool.and_eq_true, List.all_eq_true]
      exact and_congr_right fun _ => forall₂_congr ih

instance [DecidablePred P] (n : Node) : Decidable (n.Every P) :=
  decidable_of_iff (n.all fun m => decide (P m)) (by simp only [all_eq_true_iff, decide_eq_true_eq])

end Syntax.Node

end Trees

section Nodes

/-- The nodes of a type parameter: its bound and its default. -/
def TypeParam.nodes (p : TypeParam Node) : List Node :=
  p.bound.toList ++ p.default.toList

/-- The nodes of a member: the types of a property, of the parts of a signature, or of
the parts of an index signature. -/
def Member.nodes : Member → List Node
  | .property _ type _ => type.toList
  | .method _ _ typeParams params result =>
    typeParams.flatMap TypeParam.nodes ++ params.filterMap (·.type) ++ result.toList
  | .index _ keyType valueType => keyType.toList ++ valueType.toList

/-- The nodes of a declaration: of its type parameters, its members, its value and the
arguments of its base types. -/
def Declaration.nodes (d : Declaration) : List Node :=
  d.typeParams.flatMap TypeParam.nodes ++ d.members.flatMap Member.nodes ++ d.value.toList ++
    d.heritage.flatMap (·.args)

/-- A predicate holds of every node that a declaration holds, and of every node below. -/
def Declaration.Every (P : Node → Prop) (d : Declaration) : Prop :=
  ∀ n ∈ d.nodes, n.Every P

end Nodes

section Reading

variable {root n m : Node}

/-- What stands last in the clause that a field holds. -/
theorem within_of_clause
    {field : String}
    (h : (n.child? field).bind (·.namedChildren.getLast?) = some m) :
    m.Within n := by
  obtain ⟨clause, hclause, hm⟩ := Option.bind_eq_some_iff.1 h
  exact (Syntax.Node.within_of_mem_namedChildren (List.mem_of_getLast? hm)).trans
    (Syntax.Node.within_of_child? hclause)

theorem within_of_readTypeParams
    {params : Option Node} {p : TypeParam Node}
    (hparams : ∀ n ∈ params, n.Within root)
    (hp : p ∈ readTypeParams params)
    (hm : m ∈ p.nodes) :
    m.Within root := by
  cases params with
  | none => cases hp
  | some list =>
      obtain ⟨n, hn, hread⟩ := List.mem_filterMap.1 hp
      have hroot : n.Within root :=
        (Syntax.Node.within_of_mem_namedChildren hn).trans (hparams list rfl)
      unfold readTypeParam? at hread
      split at hread
      · cases hread
        rcases List.mem_append.1 hm with hm | hm
        · exact (within_of_clause (Option.mem_toList.1 hm)).trans hroot
        · exact (within_of_clause (Option.mem_toList.1 hm)).trans hroot
      · cases hread

theorem within_of_readParameters
    {params : Option Node} {f : Field (Option Node)}
    (hparams : ∀ n ∈ params, n.Within root)
    (hf : f ∈ readParameters params)
    (hm : f.type = some m) :
    m.Within root := by
  cases params with
  | none => cases hf
  | some list =>
      obtain ⟨n, hn, hread⟩ := List.mem_filterMap.1 hf
      have hroot : n.Within root :=
        (Syntax.Node.within_of_mem_namedChildren hn).trans (hparams list rfl)
      unfold readParameter? at hread
      split at hread
      · obtain ⟨pattern, -, rfl⟩ := Option.map_eq_some_iff.1 hread
        exact (Syntax.Node.within_of_child?_annotated? hm).trans hroot
      · cases hread

/-- The node that a field of a node in a tree holds lies in the tree. -/
theorem within_root_of_child?
    (hroot : n.Within root)
    (field : String) :
    ∀ c ∈ n.child? field, c.Within root :=
  fun _ hc => (Syntax.Node.within_of_child? hc).trans hroot

theorem within_of_readBodyItem
    {member : Member}
    (hread : readBodyItem n = .member member)
    (hm : m ∈ member.nodes) :
    m.Within n := by
  unfold readBodyItem at hread
  split at hread
  · cases hread
    exact Syntax.Node.within_of_child?_annotated? (Option.mem_toList.1 hm)
  · split at hread
    · dsimp only at hread
      split at hread
      · cases hread
      · split at hread
        · cases hread
          exact Syntax.Node.within_of_child?_annotated? (Option.mem_toList.1 hm)
        · cases hread
          rcases List.mem_append.1 hm with hm | hm
          · rcases List.mem_append.1 hm with hm | hm
            · obtain ⟨p, hp, hm⟩ := List.mem_flatMap.1 hm
              exact within_of_readTypeParams (within_root_of_child? (.self n) _) hp hm
            · obtain ⟨f, hf, hm⟩ := List.mem_filterMap.1 hm
              exact within_of_readParameters (within_root_of_child? (.self n) _) hf hm
          · exact Syntax.Node.within_of_child?_annotated? (Option.mem_toList.1 hm)
    · split at hread
      · split at hread
        · rename_i parts hparts
          cases hread
          have hmem := mem_of_readIndexParts hparts
          rcases List.mem_append.1 hm with hm | hm
          · rcases hmem.1 m (Option.mem_toList.1 hm) with hnone | hm
            · cases hnone
            · exact Syntax.Node.within_of_mem_namedChildren hm
          · rcases hmem.2 m (Option.mem_toList.1 hm) with hnone | ⟨a, ha, hm⟩
            · cases hnone
            · exact (Syntax.Node.within_of_annotated? hm).trans
                (Syntax.Node.within_of_mem_namedChildren ha)
        · cases hread
      · split at hread
        · cases hread
        · cases hread

theorem within_of_readBody
    {body : Option Node} {member : Member}
    (hbody : ∀ n ∈ body, n.Within root)
    (hmember : member ∈ membersOf (readBody body))
    (hm : m ∈ member.nodes) :
    m.Within root := by
  cases body with
  | none => cases hmember
  | some list =>
      obtain ⟨item, hitem, hmem⟩ := List.mem_filterMap.1 hmember
      obtain ⟨n, hn, rfl⟩ := List.mem_map.1 hitem
      have hread : readBodyItem n = .member member := by
        revert hmem
        cases readBodyItem n with
        | member x =>
            intro h
            cases h
            rfl
        | skipped label =>
            intro h
            cases h
        | nothing =>
            intro h
            cases h
      have hroot : n.Within root :=
        (Syntax.Node.within_of_mem_namedChildren hn).trans (hbody list rfl)
      exact (within_of_readBodyItem hread hm).trans hroot

/-- The parts of a construct lie in the tree of its node. -/
theorem within_of_mem_typeShape
    {t : Node}
    (h : m ∈ (typeShape t).parts) :
    m.Within t := by
  rcases construct_cases t with hkind | hkind | hkind | hkind | hkind | ⟨key, value, hkeyed⟩ | hkept
  · rw [typeShape_wrapper hkind] at h
    cases hlast : t.namedChildren.getLast? with
    | none =>
        rw [hlast] at h
        cases h
    | some inner =>
        rw [hlast] at h
        cases List.mem_singleton.1 h
        exact Syntax.Node.within_of_mem_namedChildren (List.mem_of_getLast? hlast)
  · rw [typeShape_name hkind] at h
    cases h
  · rw [typeShape_array hkind] at h
    cases hhead : t.namedChildren.head? with
    | none =>
        rw [hhead] at h
        cases h
    | some element =>
        rw [hhead] at h
        cases List.mem_singleton.1 h
        exact Syntax.Node.within_of_mem_namedChildren (List.mem_of_head? hhead)
  · rw [typeShape_generic hkind] at h
    change m ∈ ((t.child? "type_arguments").map (·.namedChildren)).getD [] at h
    cases hargs : t.child? "type_arguments" with
    | none =>
        rw [hargs] at h
        cases h
    | some args =>
        rw [hargs] at h
        exact (Syntax.Node.within_of_mem_namedChildren h).trans
          (Syntax.Node.within_of_child? hargs)
  · rw [typeShape_function hkind] at h
    rcases List.mem_append.1 h with h | h
    · obtain ⟨f, hf, hm⟩ := List.mem_filterMap.1 h
      exact within_of_readParameters (within_root_of_child? (.self t) _) hf hm
    · exact Syntax.Node.within_of_child? (Option.mem_toList.1 h)
  · rw [typeShape_keyed hkeyed] at h
    obtain ⟨-, label, hmembers⟩ := hkeyed
    have hmember : Member.index label key value ∈ membersOf (readBody (some t)) := by
      rw [hmembers]
      exact List.mem_singleton_self _
    refine within_of_readBody ?_ hmember h
    rintro _ ⟨⟩
    exact .self t
  · obtain ⟨skipped, hshape⟩ := exists_typeShape_of_keptAsText hkept
    rw [hshape] at h
    cases h

theorem Syntax.Node.within_of_mem_shape
    (h : m ∈ n.shape.parts) :
    m.Within n := by
  unfold Syntax.Node.shape at h
  split at h
  · cases h
  · rename_i t ht
    exact (within_of_mem_typeShape h).trans (Syntax.Node.within_of_annotated? ht)

end Reading

section Heritage

variable {root n m : Node}

/-- A base type as it is read in a tree: its name is the text of a node there, and its
arguments are nodes there. -/
structure Heritage.ReadIn (root : Node) (h : Heritage) : Prop where
  name : ∃ m : Node, m.Within root ∧ m.text = h.name
  args : ∀ m ∈ h.args, m.Within root

/-- Base types as they are read in a tree. -/
def BasesIn (root : Node) (bases : List Heritage) : Prop :=
  ∀ h ∈ bases, h.ReadIn root

theorem basesIn_nil : BasesIn root [] := by
  intro h hh
  cases hh

theorem basesIn_append_iff {bases more : List Heritage} :
    BasesIn root (bases ++ more) ↔ BasesIn root bases ∧ BasesIn root more :=
  List.forall_mem_append

theorem basesIn_singleton_iff {h : Heritage} : BasesIn root [h] ↔ h.ReadIn root :=
  List.forall_mem_singleton

theorem readIn_of_text
    (hroot : n.Within root) :
    (⟨n.text, []⟩ : Heritage).ReadIn root :=
  ⟨⟨n, hroot, rfl⟩, fun _ hm => absurd hm List.not_mem_nil⟩

theorem readIn_readBaseType
    (hroot : n.Within root) :
    (readBaseType n).ReadIn root := by
  unfold readBaseType
  split
  · constructor
    · cases hname : n.child? "name" with
      | none => exact ⟨n, hroot, rfl⟩
      | some c => exact ⟨c, (Syntax.Node.within_of_child? hname).trans hroot, rfl⟩
    · intro m hm
      cases hargs : n.child? "type_arguments" with
      | none => simp [hargs] at hm
      | some args =>
          simp only [hargs, Option.map_some, Option.getD_some] at hm
          exact (Syntax.Node.within_of_mem_namedChildren hm).trans
            ((Syntax.Node.within_of_child? hargs).trans hroot)
  · exact readIn_of_text hroot

theorem basesIn_map_readBaseType
    (hroot : n.Within root) :
    BasesIn root (n.namedChildren.map readBaseType) := by
  intro h hh
  obtain ⟨c, hc, rfl⟩ := List.mem_map.1 hh
  exact readIn_readBaseType ((Syntax.Node.within_of_mem_namedChildren hc).trans hroot)

theorem basesIn_setLastArgs
    {bases : List Heritage} {args : List Node}
    (hbases : BasesIn root bases)
    (hargs : ∀ m ∈ args, m.Within root) :
    BasesIn root (setLastArgs bases args) := by
  unfold setLastArgs
  split
  · exact basesIn_nil
  · rename_i last hlast
    refine basesIn_append_iff.2 ⟨?_, basesIn_singleton_iff.2 ⟨?_, hargs⟩⟩
    · exact fun h hh => hbases h (List.dropLast_subset _ hh)
    · exact (hbases last (List.mem_of_getLast? hlast)).name

theorem basesIn_readBaseClasses
    {ns : List Node} {bases result : List Heritage}
    (h : readBaseClasses bases ns = .ok result)
    (hns : ∀ n ∈ ns, n.Within root)
    (hbases : BasesIn root bases) :
    BasesIn root result := by
  induction ns generalizing bases with
  | nil =>
      cases h
      exact hbases
  | cons n ns ih =>
      obtain ⟨hn, hns⟩ := List.forall_mem_cons.1 hns
      have hchildren : ∀ m ∈ n.namedChildren, m.Within root :=
        fun m hm => (Syntax.Node.within_of_mem_namedChildren hm).trans hn
      unfold readBaseClasses at h
      split at h
      · exact ih h hns (basesIn_setLastArgs hbases hchildren)
      · split at h
        · split at h
          · cases h
          · rename_i target rest heq
            have htarget : target ∈ n.namedChildren := by
              rw [heq]
              exact List.mem_cons_self
            refine ih h hns (basesIn_append_iff.2 ⟨hbases, basesIn_singleton_iff.2 ?_⟩)
            refine ⟨⟨target, hchildren target htarget, rfl⟩, ?_⟩
            intro m hm
            dsimp only at hm
            split at hm
            · rename_i r rest'
              split at hm
              · have hr : r ∈ n.namedChildren := by
                  rw [heq]
                  simp
                exact (Syntax.Node.within_of_mem_namedChildren hm).trans (hchildren r hr)
              · cases hm
            · cases hm
        · exact ih h hns (basesIn_append_iff.2 ⟨hbases, basesIn_singleton_iff.2 (readIn_of_text hn)⟩)

/-- The base types of several nodes, one after the other. -/
def gatherBases (read : Node → Except Fault (List Heritage)) :
    List Node → Except Fault (List Heritage)
  | [] => .ok []
  | n :: ns => do
    let first ← read n
    let rest ← gatherBases read ns
    return first ++ rest

/-- The base types of one clause of a class. -/
def readClassClause (n : Node) : Except Fault (List Heritage) :=
  if n.kind == "extends_clause" then readBaseClasses [] n.namedChildren
  else if n.kind == "implements_clause" then .ok (n.namedChildren.map readBaseType)
  else .ok []

/-- The base types of one part of a declaration. -/
def readHeritagePart (n : Node) : Except Fault (List Heritage) :=
  if n.kind == "extends_type_clause" then .ok (n.namedChildren.map readBaseType)
  else if n.kind == "class_heritage" then readClassHeritage n.namedChildren
  else .ok []

theorem readClassHeritage_eq (ns : List Node) :
    readClassHeritage ns = gatherBases readClassClause ns := by
  induction ns with
  | nil => rfl
  | cons n ns ih =>
      rw [readClassHeritage, gatherBases, ih, readClassClause]
      split
      · rfl
      · split
        · rfl
        · rfl

theorem readHeritage_eq (ns : List Node) :
    readHeritage ns = gatherBases readHeritagePart ns := by
  induction ns with
  | nil => rfl
  | cons n ns ih =>
      rw [readHeritage, gatherBases, ih, readHeritagePart]
      split
      · rfl
      · split
        · rfl
        · rfl

theorem basesIn_gatherBases
    {read : Node → Except Fault (List Heritage)} {ns : List Node} {result : List Heritage}
    (h : gatherBases read ns = .ok result)
    (hread : ∀ n ∈ ns, ∀ bases, read n = .ok bases → BasesIn root bases) :
    BasesIn root result := by
  induction ns generalizing result with
  | nil =>
      cases h
      exact basesIn_nil
  | cons n ns ih =>
      obtain ⟨hn, hns⟩ := List.forall_mem_cons.1 hread
      obtain ⟨first, hfirst, hresult⟩ := except_bind_eq_ok_iff.1 h
      obtain ⟨rest, hrest, hresult⟩ := except_bind_eq_ok_iff.1 hresult
      cases hresult
      exact basesIn_append_iff.2 ⟨hn first hfirst, ih hrest hns⟩

theorem basesIn_readClassClause
    {bases : List Heritage}
    (h : readClassClause n = .ok bases)
    (hn : n.Within root) :
    BasesIn root bases := by
  unfold readClassClause at h
  split at h
  · exact basesIn_readBaseClasses h
      (fun m hm => (Syntax.Node.within_of_mem_namedChildren hm).trans hn) basesIn_nil
  · split at h
    · cases h
      exact basesIn_map_readBaseType hn
    · cases h
      exact basesIn_nil

theorem basesIn_readHeritage
    {ns : List Node} {result : List Heritage}
    (h : readHeritage ns = .ok result)
    (hns : ∀ n ∈ ns, n.Within root) :
    BasesIn root result := by
  rw [readHeritage_eq] at h
  refine basesIn_gatherBases h fun n hn bases hbases => ?_
  unfold readHeritagePart at hbases
  split at hbases
  · cases hbases
    exact basesIn_map_readBaseType (hns n hn)
  · split at hbases
    · rw [readClassHeritage_eq] at hbases
      refine basesIn_gatherBases hbases fun c hc clause hclause => ?_
      exact basesIn_readClassClause hclause
        ((Syntax.Node.within_of_mem_namedChildren hc).trans (hns n hn))
    · cases hbases
      exact basesIn_nil

end Heritage

section Declarations

theorem unwrapField_eq (field : String) (ns : List Node) :
    unwrapField field ns = (ns.find? (·.field == some field)).map unwrap := by
  induction ns with
  | nil => rfl
  | cons n ns ih =>
      rw [unwrapField, List.find?_cons]
      by_cases h : (n.field == some field) = true
      · rw [if_pos h, h]
        rfl
      · rw [if_neg h, ih, Bool.eq_false_iff.2 h]

theorem unwrapFirst_eq (ns : List Node) :
    unwrapFirst ns = (ns.filter (·.named)).findSome? unwrap := by
  induction ns with
  | nil => rfl
  | cons n ns ih =>
      rw [unwrapFirst, List.filter_cons]
      by_cases h : n.named = true
      · rw [if_pos h, if_pos h, List.findSome?_cons, ih]
        cases unwrap n with
        | none => rfl
        | some found => rfl
      · rw [if_neg h, if_neg h, ih]

/-- What a wrapper wraps, in terms of its fields and its named children. -/
theorem unwrap_eq (n : Node) :
    unwrap n =
      if (declarationKind? n.kind).isSome then some n
      else if n.kind == "export_statement" then
        match n.child? "declaration" with
        | some declared => unwrap declared
        | none =>
          match n.child? "value" with
          | some value =>
            if value.kind == "class" && (value.child? "name").isSome then some value
            else n.namedChildren.findSome? unwrap
          | none => n.namedChildren.findSome? unwrap
      else if n.kind == "ambient_declaration" then n.namedChildren.findSome? unwrap
      else none := by
  obtain ⟨kind, source, start, field, named, missing, broken, children⟩ := n
  rw [unwrap, unwrapField_eq, unwrapFirst_eq]
  simp only [Syntax.Node.child?, Syntax.Node.namedChildren]
  cases children.find? (·.field == some "declaration") with
  | none => rfl
  | some declared => rfl

/-- What a node unwraps to lies in its tree. -/
theorem within_of_unwrap
    {n m : Node}
    (h : unwrap n = some m) :
    m.Within n := by
  induction n using Syntax.Node.childInduct with
  | step n ih =>
      have hfirst : n.namedChildren.findSome? unwrap = some m → m.Within n := by
        intro hm
        obtain ⟨c, hc, hm⟩ := List.exists_of_findSome?_eq_some hm
        have hc := Syntax.Node.mem_children_of_mem_namedChildren hc
        exact .child hc (ih c hc hm)
      rw [unwrap_eq] at h
      split at h
      · cases h
        exact .self _
      · split at h
        · split at h
          · rename_i declared hdeclared
            have hc := List.mem_of_find?_eq_some hdeclared
            exact .child hc (ih declared hc h)
          · split at h
            · rename_i value hvalue
              split at h
              · cases h
                exact Syntax.Node.within_of_child? hvalue
              · exact hfirst h
            · exact hfirst h
        · split at h
          · exact hfirst h
          · cases h

variable {root n m : Node} {d : Declaration}

/-- A declaration as it is read in a tree: its nodes lie there, and the names of its
base types are texts of nodes there. -/
structure Declaration.ReadIn (root : Node) (d : Declaration) : Prop where
  nodes : ∀ m ∈ d.nodes, m.Within root
  bases : ∀ b ∈ d.heritage, ∃ m : Node, m.Within root ∧ m.text = b.name

theorem readIn_of_parts
    (htypeParams : ∀ p ∈ d.typeParams, ∀ m ∈ p.nodes, m.Within root)
    (hmembers : ∀ member ∈ d.members, ∀ m ∈ member.nodes, m.Within root)
    (hvalue : ∀ m ∈ d.value, m.Within root)
    (hheritage : BasesIn root d.heritage) :
    d.ReadIn root := by
  refine ⟨?_, fun b hb => (hheritage b hb).name⟩
  intro m hm
  rcases List.mem_append.1 hm with hm | hm
  · rcases List.mem_append.1 hm with hm | hm
    · rcases List.mem_append.1 hm with hm | hm
      · obtain ⟨p, hp, hm⟩ := List.mem_flatMap.1 hm
        exact htypeParams p hp m hm
      · obtain ⟨member, hmember, hm⟩ := List.mem_flatMap.1 hm
        exact hmembers member hmember m hm
    · exact hvalue m (Option.mem_toList.1 hm)
  · obtain ⟨h, hh, hm⟩ := List.mem_flatMap.1 hm
    exact (hheritage h hh).args m hm

theorem readIn_of_readDeclaration
    {kind : Kind}
    (h : (readDeclaration kind n).outcome = .ok (some d)) :
    d.ReadIn n := by
  have hparams : ∀ p ∈ readTypeParams (n.child? "type_parameters"), ∀ m ∈ p.nodes, m.Within n :=
    fun p hp m hm => within_of_readTypeParams (within_root_of_child? (.self n) _) hp hm
  unfold readDeclaration at h
  split at h
  · rw [Pass.outcome_report_bind] at h
    cases h
  · dsimp only at h
    split at h
    · split at h
      · rename_i value hvalue
        have hwithin := Syntax.Node.within_of_child? hvalue
        split at h
        · rw [Pass.outcome_report_bind] at h
          cases h
          refine readIn_of_parts hparams ?_ (fun m hm => by cases hm) basesIn_nil
          refine fun member hmember m hm => within_of_readBody ?_ hmember hm
          rintro _ ⟨⟩
          exact hwithin
        · cases h
          refine readIn_of_parts hparams (fun member hm => by cases hm) ?_ basesIn_nil
          rintro _ ⟨⟩
          exact hwithin
      · cases h
        exact readIn_of_parts hparams (fun member hm => by cases hm) (fun m hm => by cases hm)
          basesIn_nil
    · rw [Pass.outcome_report_bind] at h
      split at h
      · rename_i heritage hheritage
        cases h
        refine readIn_of_parts hparams ?_ (fun m hm => by cases hm) ?_
        · exact fun member hmember m hm =>
            within_of_readBody (within_root_of_child? (.self n) _) hmember hm
        · exact basesIn_readHeritage hheritage
            fun m hm => Syntax.Node.within_of_mem_namedChildren hm
      · cases h

/-- The declarations of a tree are what its top-level nodes declare, in order. -/
theorem readDeclarations_eq_ok_iff
    {ds : List Declaration} :
    (readDeclarations root).outcome = .ok ds
      ↔
    root.hasError = false ∧ ∃ read : List (Option Declaration),
      List.Forall₂ (fun n r => (readTopLevel n).outcome = .ok r) root.namedChildren read ∧
      ds = read.filterMap id := by
  unfold readDeclarations
  split
  · rename_i herror
    constructor
    · intro h
      cases h
    · rintro ⟨hsound, -⟩
      rw [hsound] at herror
      cases herror
  · rename_i herror
    rw [Pass.outcome_bind_eq_ok_iff]
    simp only [Pass.outcome_report_bind, Pass.outcome_pure, Except.ok.injEq,
      Pass.outcome_each_eq_ok_iff, Bool.eq_false_iff.2 herror, true_and, eq_comm (a := ds)]

/-- The nodes of the declarations of a tree lie in the tree. -/
theorem within_of_readDeclarations
    {ds : List Declaration}
    (h : (readDeclarations root).outcome = .ok ds)
    (hd : d ∈ ds) :
    ∀ m ∈ d.nodes, m.Within root := by
  obtain ⟨-, read, hread, rfl⟩ := readDeclarations_eq_ok_iff.1 h
  obtain ⟨r, hr, rfl⟩ := List.mem_filterMap.1 hd
  obtain ⟨n, hn, htop⟩ := exists_mem_left_of_forall₂ hread _ hr
  intro m hm
  unfold readTopLevel at htop
  split at htop
  · cases htop
  · rename_i found hfound
    split at htop
    · exact ((readIn_of_readDeclaration htop).nodes m hm).trans
        ((within_of_unwrap hfound).trans (Syntax.Node.within_of_mem_namedChildren hn))
    · cases htop

/-- What holds of every node of a tree holds of every node of its declarations. -/
theorem every_of_readDeclarations
    {P : Node → Prop} {ds : List Declaration}
    (hroot : root.Every P)
    (h : (readDeclarations root).outcome = .ok ds) :
    ∀ d ∈ ds, d.Every P :=
  fun _ hd n hn => hroot.within (within_of_readDeclarations h hd n hn)

end Declarations

end DeclGraph
