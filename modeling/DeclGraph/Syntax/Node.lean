import DeclGraph.Text.Blank

/-!
# Syntax nodes

A syntax tree as the declaration reader sees it.  Every node has a kind, the
source text it covers, the place where it starts, and its children; a child may
be known to its parent by a field name.  Named nodes are the constructs of the
grammar and its comments; the others are punctuation and keywords.

A node is faulty when it stands for text that fits no rule, when it stands for a
token that is not there, or when one of its children is faulty.
-/

namespace DeclGraph
namespace Syntax

section Node

/-- A place in a source text. -/
structure Position where
  /-- Number of line feeds before the place. -/
  row : Nat
  /-- Number of bytes between the last line feed and the place. -/
  column : Nat
deriving DecidableEq, Repr, Inhabited

/-- A node of a syntax tree. -/
structure Node where
  /-- The grammar's name for the construct, or the token itself. -/
  kind : String
  /-- The source text from the node's first to its last character. -/
  source : String
  /-- Where the node starts. -/
  start : Position
  /-- The name under which the parent knows the node. -/
  field : Option String
  /-- Whether the node is a construct or comment rather than punctuation. -/
  named : Bool
  /-- Whether the node stands for a token that is not in the text. -/
  missing : Bool
  /-- Whether the node is marked as containing text that fits no rule. -/
  broken : Bool
  children : List Node
deriving Repr, Inhabited

namespace Node

/-- The text of a node with its layout collapsed. -/
def text (n : Node) : String :=
  Text.collapse n.source

/-- The number of the line on which a node starts, counted from one. -/
def line (n : Node) : Nat :=
  n.start.row + 1

/-- The children that are constructs or comments. -/
def namedChildren (n : Node) : List Node :=
  n.children.filter (·.named)

/-- The first child known by a field name. -/
def child? (n : Node) (field : String) : Option Node :=
  n.children.find? (·.field == some field)

end Node

end Node

section Size

mutual

/-- The number of nodes of a tree. -/
def Node.size : Node → Nat
  | ⟨_, _, _, _, _, _, _, children⟩ => 1 + sizeList children

/-- The number of nodes of a list of trees. -/
def sizeList : List Node → Nat
  | [] => 0
  | n :: ns => n.size + sizeList ns

end

theorem Node.size_eq (n : Node) : n.size = 1 + sizeList n.children := by
  cases n
  rfl

@[simp]
theorem sizeList_nil : sizeList [] = 0 :=
  rfl

@[simp]
theorem sizeList_cons (n : Node) (ns : List Node) :
    sizeList (n :: ns) = n.size + sizeList ns :=
  rfl

@[simp]
theorem sizeList_append (ns ms : List Node) :
    sizeList (ns ++ ms) = sizeList ns + sizeList ms := by
  induction ns with
  | nil => simp
  | cons n ns ih => simp [ih, Nat.add_assoc]

theorem sizeList_filter_le (p : Node → Bool) (ns : List Node) :
    sizeList (ns.filter p) ≤ sizeList ns := by
  induction ns with
  | nil => simp
  | cons n ns ih =>
    by_cases h : p n
    · simpa [h] using ih
    · simp [h]
      omega

theorem Node.size_le_sizeList {n : Node} {ns : List Node} (h : n ∈ ns) :
    n.size ≤ sizeList ns := by
  induction ns with
  | nil => cases h
  | cons m ns ih =>
    rcases List.mem_cons.1 h with rfl | h
    · simp
    · have := ih h
      simp
      omega

theorem Node.size_lt_of_mem_children {c n : Node} (h : c ∈ n.children) : c.size < n.size := by
  have := Node.size_le_sizeList h
  rw [n.size_eq]
  omega

theorem Node.mem_children_of_mem_namedChildren {c n : Node} (h : c ∈ n.namedChildren) :
    c ∈ n.children :=
  (List.mem_filter.1 h).1

theorem Node.size_lt_of_mem_namedChildren {c n : Node} (h : c ∈ n.namedChildren) :
    c.size < n.size :=
  size_lt_of_mem_children (mem_children_of_mem_namedChildren h)

theorem Node.size_lt_of_child? {c n : Node} {field : String} (h : n.child? field = some c) :
    c.size < n.size :=
  size_lt_of_mem_children (List.mem_of_find?_eq_some h)

theorem Node.sizeList_namedChildren_lt (n : Node) : sizeList n.namedChildren < n.size := by
  have := sizeList_filter_le (·.named) n.children
  rw [n.size_eq]
  simp only [namedChildren]
  omega

end Size

section Faults

/-- The kind of a node for text that fits no rule. -/
def Node.isError (n : Node) : Bool :=
  n.kind == "ERROR"

mutual

/-- Whether a node or something below it is faulty. -/
def Node.hasError : Node → Bool
  | ⟨kind, _, _, _, _, missing, broken, children⟩ =>
    broken || kind == "ERROR" || missing || anyError children

/-- Whether one of several nodes is faulty. -/
def anyError : List Node → Bool
  | [] => false
  | n :: ns => n.hasError || anyError ns

end

theorem anyError_eq_any (ns : List Node) : anyError ns = ns.any (·.hasError) := by
  induction ns with
  | nil => rfl
  | cons n ns ih => simp [anyError, ih]

mutual

/-- The first faulty place below a node: descends into the first faulty child
until it stands on a node that is itself at fault. -/
def Node.firstError : Node → Node
  | ⟨kind, source, start, field, named, missing, broken, children⟩ =>
    let self : Node := ⟨kind, source, start, field, named, missing, broken, children⟩
    if kind == "ERROR" || missing then self else (firstErrorOf children).getD self

/-- The first faulty place below the first faulty one of several nodes. -/
def firstErrorOf : List Node → Option Node
  | [] => none
  | n :: ns => if n.hasError || n.missing then some n.firstError else firstErrorOf ns

end

end Faults

end Syntax
end DeclGraph
