import DeclGraph.Proofs.NameSearch
import DeclGraph.Proofs.NodeMaps

/-!
# Trees without comments

A comment is a named node and may stand between any two tokens, so a reader that
takes the first, the last or all constructs of a node may take a comment instead.

* `Node.strip` takes the comments out of a tree and leaves all texts and positions.
* `CommentsAside` lists, for one node, where the reader takes what it finds, and says
  that no comment stands there.

If the comments stand aside everywhere in a tree, then reading and stripping commute:
what is read from the stripped tree is what is read from the tree, with every node
stripped.  So a type node reads as the same type without its comments
(`readsAlike_strip`).
-/

namespace DeclGraph

open Syntax (Node)

section Lists

variable {α : Type} {p q : α → Bool} {l : List α}

theorem head?_filter_of_forall
    (h : ∀ a ∈ l.head?, p a = true) :
    (l.filter p).head? = l.head? := by
  cases l with
  | nil => rfl
  | cons a l => rw [List.filter_cons_of_pos (h a rfl)]; rfl

theorem getLast?_filter_of_forall
    (h : ∀ a ∈ l.getLast?, p a = true) :
    (l.filter p).getLast? = l.getLast? := by
  rw [List.getLast?_eq_head?_reverse, List.getLast?_eq_head?_reverse, ← List.filter_reverse]
  rw [List.getLast?_eq_head?_reverse] at h
  exact head?_filter_of_forall h

theorem find?_filter_of_forall
    (h : ∀ a ∈ l.find? q, p a = true) :
    (l.filter p).find? q = l.find? q := by
  induction l with
  | nil => rfl
  | cons a l ih =>
      by_cases hq : q a = true
      · rw [List.find?_cons_of_pos hq] at h ⊢
        rw [List.filter_cons_of_pos (h a rfl), List.find?_cons_of_pos hq]
      · rw [List.find?_cons_of_neg hq] at h ⊢
        by_cases hp : p a = true
        · rw [List.filter_cons_of_pos hp, List.find?_cons_of_neg hq, ih h]
        · rw [List.filter_cons_of_neg hp, ih h]

end Lists

section Stripping

namespace Syntax.Node

/-- Whether a node is something else than a comment. -/
def isConstruct (n : Node) : Bool :=
  n.kind != "comment"

theorem kind_mem_of_beq
    {n : Node} {kind : String} {kinds : List String}
    (h : (n.kind == kind) = true)
    (hmem : kind ∈ kinds) :
    n.kind ∈ kinds :=
  beq_iff_eq.1 h ▸ hmem

theorem kind_of_isConstruct_eq_false
    {n : Node}
    (h : n.isConstruct = false) :
    n.kind = "comment" := by
  unfold isConstruct at h
  simpa using h

theorem isConstruct_of_kind
    {n : Node} {kind : String}
    (h : n.kind = kind)
    (hkind : kind ≠ "comment") :
    n.isConstruct = true := by
  unfold isConstruct
  simpa [h] using hkind

mutual

/-- A tree without the comments below its root. -/
def strip : Node → Node
  | ⟨kind, source, start, field, named, missing, broken, children⟩ =>
    ⟨kind, source, start, field, named, missing, broken, stripAll children⟩

/-- Several trees without comments. -/
def stripAll : List Node → List Node
  | [] => []
  | n :: ns => if n.isConstruct then n.strip :: stripAll ns else stripAll ns

end

theorem stripAll_eq_map (ns : List Node) : stripAll ns = (ns.filter isConstruct).map strip := by
  induction ns with
  | nil => rfl
  | cons n ns ih =>
      rw [stripAll, List.filter_cons]
      split
      · rw [List.map_cons, ih]
      · exact ih

variable (n : Node)

@[simp]
theorem kind_strip : n.strip.kind = n.kind := by
  cases n
  rfl

@[simp]
theorem text_strip : n.strip.text = n.text := by
  cases n
  rfl

@[simp]
theorem line_strip : n.strip.line = n.line := by
  cases n
  rfl

@[simp]
theorem field_strip : n.strip.field = n.field := by
  cases n
  rfl

@[simp]
theorem named_strip : n.strip.named = n.named := by
  cases n
  rfl

theorem children_strip : n.strip.children = (n.children.filter isConstruct).map strip := by
  cases n
  exact stripAll_eq_map _

theorem namedChildren_strip :
    n.strip.namedChildren = (n.namedChildren.filter isConstruct).map strip := by
  unfold namedChildren
  rw [children_strip, List.filter_map, List.filter_filter, List.filter_filter]
  refine congrArg (List.map strip) (List.filter_congr fun c _ => ?_)
  show (c.strip.named && c.isConstruct) = _
  rw [named_strip, Bool.and_comm]

variable {n}

theorem namedChildren_strip_of_forall
    (h : ∀ c ∈ n.namedChildren, c.isConstruct = true) :
    n.strip.namedChildren = n.namedChildren.map strip := by
  rw [namedChildren_strip, List.filter_eq_self.2 h]

theorem head?_namedChildren_strip
    (h : ∀ c ∈ n.namedChildren.head?, c.isConstruct = true) :
    n.strip.namedChildren.head? = n.namedChildren.head?.map strip := by
  rw [namedChildren_strip, List.head?_map, head?_filter_of_forall h]

theorem getLast?_namedChildren_strip
    (h : ∀ c ∈ n.namedChildren.getLast?, c.isConstruct = true) :
    n.strip.namedChildren.getLast? = n.namedChildren.getLast?.map strip := by
  rw [namedChildren_strip, List.getLast?_map, getLast?_filter_of_forall h]

/-- The first construct of a kind. -/
theorem find?_namedChildren_strip
    {kind : String}
    (hkind : kind ≠ "comment") :
    n.strip.namedChildren.find? (·.kind == kind) =
      (n.namedChildren.find? (·.kind == kind)).map strip := by
  have hfound : ∀ c ∈ n.namedChildren.find? (·.kind == kind), c.isConstruct = true := by
    intro c hc
    have hc := List.find?_some hc
    exact isConstruct_of_kind (beq_iff_eq.1 hc) hkind
  rw [namedChildren_strip, List.find?_map, ← find?_filter_of_forall hfound]
  simp only [Function.comp_def, kind_strip]

/-- Whether there is a construct of a kind. -/
theorem exists_namedChildren_strip_iff
    {kind : String}
    (hkind : kind ≠ "comment") :
    (∃ c ∈ n.strip.namedChildren, c.kind = kind) ↔ ∃ c ∈ n.namedChildren, c.kind = kind := by
  rw [namedChildren_strip]
  constructor
  · rintro ⟨_, hstripped, hc⟩
    obtain ⟨c, hmem, rfl⟩ := List.mem_map.1 hstripped
    exact ⟨c, (List.mem_filter.1 hmem).1, c.kind_strip ▸ hc⟩
  · rintro ⟨c, hmem, hc⟩
    have hconstruct := List.mem_filter.2 ⟨hmem, isConstruct_of_kind hc hkind⟩
    exact ⟨c.strip, List.mem_map_of_mem hconstruct, c.kind_strip.trans hc⟩

/-- Something read from the constructs of a node, of which comments give nothing. -/
theorem filterMap_namedChildren_strip
    {α β : Type} {f : Node → Option β} {g : Node → Option α} {φ : α → β}
    (hcomment : ∀ c : Node, c.isConstruct = false → g c = none)
    (h : ∀ c ∈ n.namedChildren, f c.strip = (g c).map φ) :
    n.strip.namedChildren.filterMap f = (n.namedChildren.filterMap g).map φ := by
  rw [namedChildren_strip]
  generalize n.namedChildren = ns at h ⊢
  induction ns with
  | nil => rfl
  | cons c ns ih =>
      obtain ⟨hc, hns⟩ := List.forall_mem_cons.1 h
      cases hconstruct : c.isConstruct with
      | false =>
          rw [List.filter_cons_of_neg (by simp [hconstruct]), ih hns,
            List.filterMap_cons_none (hcomment c hconstruct)]
      | true =>
          rw [List.filter_cons_of_pos hconstruct, List.map_cons, List.filterMap_cons, hc,
            List.filterMap_cons]
          cases g c with
          | none => exact ih hns
          | some a => exact congrArg (φ a :: ·) (ih hns)

/-- Lists read from the constructs of a node, of which comments give none. -/
theorem flatMap_namedChildren_strip
    {α : Type} {f : Node → List α}
    (hcomment : ∀ c ∈ n.namedChildren, c.isConstruct = false → f c = [])
    (h : ∀ c ∈ n.namedChildren, f c.strip = f c) :
    n.strip.namedChildren.flatMap f = n.namedChildren.flatMap f := by
  rw [namedChildren_strip, List.flatMap_map]
  generalize n.namedChildren = ns at hcomment h
  induction ns with
  | nil => rfl
  | cons c ns ih =>
      obtain ⟨hc, hns⟩ := List.forall_mem_cons.1 h
      obtain ⟨hc', hns'⟩ := List.forall_mem_cons.1 hcomment
      cases hconstruct : c.isConstruct with
      | true =>
          rw [List.filter_cons_of_pos hconstruct, List.flatMap_cons, List.flatMap_cons, hc,
            ih hns' hns]
      | false =>
          rw [List.filter_cons_of_neg (by simp [hconstruct]), List.flatMap_cons, hc' hconstruct,
            List.nil_append, ih hns' hns]

end Syntax.Node

end Stripping

section Aside

/-- The kinds of nodes of which the first construct counts. -/
def firstKinds : List String :=
  annotationKinds ++ ["array_type", "rest_pattern"]

/-- The kinds of nodes of which the last construct counts. -/
def lastKinds : List String :=
  ["parenthesized_type", "readonly_type"]

/-- The kinds of nodes of which every construct counts. -/
def listKinds : List String :=
  ["type_arguments", "extends_type_clause", "implements_clause", "extends_clause"]

/-- No comment stands where something is taken from a node by its field or by its place,
and a comment holds no type names. -/
@[mk_iff]
structure CommentsAside (n : Node) : Prop where
  field : ∀ c ∈ n.children, ∀ d ∈ c.field.bind n.child?, d.isConstruct = true
  first : n.kind ∈ firstKinds → ∀ c ∈ n.namedChildren.head?, c.isConstruct = true
  last : n.kind ∈ lastKinds → ∀ c ∈ n.namedChildren.getLast?, c.isConstruct = true
  all : n.kind ∈ listKinds → ∀ c ∈ n.namedChildren, c.isConstruct = true
  /-- The bound and the default of a type parameter. -/
  clause : n.kind = "type_parameter" → ∀ f ∈ ["constraint", "value"],
    ∀ c ∈ (n.child? f).bind (·.namedChildren.getLast?), c.isConstruct = true
  /-- The arguments of a reference. -/
  argument : n.kind = "generic_type" → ∀ c ∈ referenceArgs n, c.isConstruct = true
  /-- The type of the key of an index signature. -/
  key : n.kind = "index_signature" → ∀ parts ∈ readIndexParts {} n.namedChildren,
    ∀ c ∈ parts.keyType, c.isConstruct = true
  /-- An instantiated base class and its arguments. -/
  target : n.kind = "instantiation_expression" →
    ∀ c ∈ n.namedChildren.take 2, c.isConstruct = true
  comment : n.isConstruct = false → n.typeNames = []

instance (n : Node) : Decidable (CommentsAside n) :=
  decidable_of_iff' _ (commentsAside_iff n)

variable {n : Node}

theorem child?_strip
    (h : CommentsAside n)
    (field : String) :
    n.strip.child? field = (n.child? field).map Syntax.Node.strip := by
  have hfound : ∀ c ∈ n.child? field, c.isConstruct = true := by
    intro c hc
    have hfield := List.find?_some hc
    refine h.field c (List.mem_of_find?_eq_some hc) c ?_
    rw [beq_iff_eq.1 hfield]
    exact hc
  unfold Syntax.Node.child? at hfound ⊢
  rw [Syntax.Node.children_strip, List.find?_map, ← find?_filter_of_forall hfound]
  simp only [Function.comp_def, Syntax.Node.field_strip]

theorem text_child?_strip
    (h : CommentsAside n)
    (field : String) :
    (n.strip.child? field).map (·.text) = (n.child? field).map (·.text) := by
  rw [child?_strip h, Option.map_map]
  exact congrArg (Option.map · _) (funext Syntax.Node.text_strip)

theorem annotated?_strip
    (h : CommentsAside n) :
    n.strip.annotated? = n.annotated?.map Syntax.Node.strip := by
  unfold Syntax.Node.annotated? Syntax.Node.isAnnotation
  rw [Syntax.Node.kind_strip]
  split
  · rename_i hkind
    refine Syntax.Node.head?_namedChildren_strip (h.first (List.mem_append_left _ ?_))
    exact List.contains_iff_mem.1 hkind
  · rfl

theorem Syntax.Node.Every.child?
    {P : Node → Prop} {field : String} {c : Node}
    (h : n.Every P)
    (hc : n.child? field = some c) :
    c.Every P :=
  h.within (Syntax.Node.within_of_child? hc)

theorem Syntax.Node.Every.namedChild
    {P : Node → Prop} {c : Node}
    (h : n.Every P)
    (hc : c ∈ n.namedChildren) :
    c.Every P :=
  h.within (Syntax.Node.within_of_mem_namedChildren hc)

end Aside

section Signatures

variable {n : Node}

theorem child?_annotated?_strip
    (h : n.Every CommentsAside)
    (field : String) :
    (n.strip.child? field).bind Syntax.Node.annotated? =
      ((n.child? field).bind Syntax.Node.annotated?).map Syntax.Node.strip := by
  rw [child?_strip h.self]
  cases hc : n.child? field with
  | none => rfl
  | some c => exact annotated?_strip (h.child? hc).self

theorem text_patternName_strip
    (h : CommentsAside n) :
    (patternName n.strip).text = (patternName n).text := by
  unfold patternName
  rw [Syntax.Node.kind_strip]
  split
  · rename_i hkind
    have hfirst : n.kind ∈ firstKinds := Syntax.Node.kind_mem_of_beq hkind (by decide)
    rw [Syntax.Node.head?_namedChildren_strip (h.first hfirst)]
    cases n.namedChildren.head? with
    | none => exact n.text_strip
    | some c => exact c.text_strip
  · exact n.text_strip

theorem readParameter?_strip
    (h : n.Every CommentsAside) :
    readParameter? n.strip = (readParameter? n).map (Field.mapNode Syntax.Node.strip) := by
  unfold readParameter?
  rw [Syntax.Node.kind_strip, child?_annotated?_strip h, child?_strip h.self]
  split
  · cases hpattern : n.child? "pattern" with
    | none => rfl
    | some pattern =>
        simp only [Option.map_some, text_patternName_strip (h.child? hpattern).self]
        rfl
  · rfl

theorem readParameters_strip
    {params : Option Node}
    (h : ∀ n ∈ params, n.Every CommentsAside) :
    readParameters (params.map Syntax.Node.strip) =
      (readParameters params).map (Field.mapNode Syntax.Node.strip) := by
  cases params with
  | none => rfl
  | some n =>
      refine Syntax.Node.filterMap_namedChildren_strip ?_ fun c hc =>
        readParameter?_strip ((h n rfl).namedChild hc)
      intro c hc
      unfold readParameter?
      rw [Syntax.Node.kind_of_isConstruct_eq_false hc]
      rfl

/-- What stands last in a clause of a type parameter. -/
theorem clause_strip
    (h : n.Every CommentsAside)
    (hkind : n.kind = "type_parameter")
    {field : String}
    (hfield : field ∈ ["constraint", "value"]) :
    (n.strip.child? field).bind (·.namedChildren.getLast?) =
      ((n.child? field).bind (·.namedChildren.getLast?)).map Syntax.Node.strip := by
  have hlast := h.self.clause hkind field hfield
  rw [child?_strip h.self]
  cases hc : n.child? field with
  | none => rfl
  | some c =>
      rw [hc] at hlast
      exact Syntax.Node.getLast?_namedChildren_strip hlast

theorem readTypeParam?_strip
    (h : n.Every CommentsAside) :
    readTypeParam? n.strip = (readTypeParam? n).map (TypeParam.mapNodes Syntax.Node.strip) := by
  unfold readTypeParam?
  rw [Syntax.Node.kind_strip]
  split
  · rename_i hkind
    have hkind := beq_iff_eq.1 hkind
    rw [text_child?_strip h.self, clause_strip h hkind (by simp), clause_strip h hkind (by simp)]
    rfl
  · rfl

theorem readTypeParams_strip
    {params : Option Node}
    (h : ∀ n ∈ params, n.Every CommentsAside) :
    readTypeParams (params.map Syntax.Node.strip) =
      (readTypeParams params).map (TypeParam.mapNodes Syntax.Node.strip) := by
  cases params with
  | none => rfl
  | some n =>
      refine Syntax.Node.filterMap_namedChildren_strip ?_ fun c hc =>
        readTypeParam?_strip ((h n rfl).namedChild hc)
      intro c hc
      unfold readTypeParam?
      rw [Syntax.Node.kind_of_isConstruct_eq_false hc]
      rfl

/-- The child of a field, and everything below it, has its comments aside. -/
theorem every_of_child?
    (h : n.Every CommentsAside)
    (field : String) :
    ∀ c ∈ n.child? field, c.Every CommentsAside :=
  fun _ hc => h.child? hc

theorem functionTypeParams_strip
    (h : n.Every CommentsAside) :
    functionTypeParams n.strip = functionTypeParams n := by
  have hnode : ((n.strip.child? "type_parameters").orElse fun _ =>
        n.strip.namedChildren.find? (·.kind == "type_parameters")) =
      ((n.child? "type_parameters").orElse fun _ =>
        n.namedChildren.find? (·.kind == "type_parameters")).map Syntax.Node.strip := by
    rw [child?_strip h.self, Syntax.Node.find?_namedChildren_strip (by decide)]
    cases n.child? "type_parameters" with
    | none => rfl
    | some c => rfl
  have hevery : ∀ c ∈ (n.child? "type_parameters").orElse fun _ =>
      n.namedChildren.find? (·.kind == "type_parameters"), c.Every CommentsAside := by
    intro c hc
    cases hchild : n.child? "type_parameters" with
    | none =>
        rw [hchild] at hc
        exact h.namedChild (List.mem_of_find?_eq_some hc)
    | some d =>
        rw [hchild] at hc
        cases hc
        exact h.child? hchild
  unfold functionTypeParams
  dsimp only
  rw [hnode, readTypeParams_strip hevery, List.map_map]
  rfl

end Signatures

section Members

variable {n : Node}

theorem memberName_strip
    (h : CommentsAside n) :
    memberName n.strip = memberName n := by
  unfold memberName
  rw [child?_strip h]
  cases n.child? "name" with
  | none => rfl
  | some name =>
      dsimp only [Option.map_some]
      rw [name.kind_strip, name.text_strip]

/-- Comments are not among the tokens of a member, and do not end its head. -/
theorem hasToken_strip
    (n : Node)
    {token : String}
    (htoken : token ≠ "comment") :
    hasToken n.strip token = hasToken n token := by
  unfold hasToken
  rw [Syntax.Node.children_strip]
  generalize n.children = cs
  induction cs with
  | nil => rfl
  | cons c cs ih =>
      cases hconstruct : c.isConstruct with
      | false =>
          have hkind := Syntax.Node.kind_of_isConstruct_eq_false hconstruct
          have htakes : (!(["statement_block", "type_annotation", "formal_parameters"].contains
              c.kind)) = true := by
            rw [hkind]
            rfl
          have hother : (!c.named && c.kind == token) = false := by
            rw [hkind, beq_false_of_ne htoken.symm, Bool.and_false]
          rw [List.filter_cons_of_neg (by simp [hconstruct])]
          dsimp only at ih ⊢
          rw [ih, List.takeWhile_cons]
          simp only [htakes, if_true, List.any_cons, hother, Bool.false_or]
      | true =>
          rw [List.filter_cons_of_pos hconstruct, List.map_cons]
          dsimp only at ih ⊢
          rw [List.takeWhile_cons, List.takeWhile_cons, c.kind_strip]
          split
          · rw [List.any_cons, List.any_cons, ih, c.named_strip, c.kind_strip]
          · rfl

/-- The parts of an index signature after one more construct. -/
def IndexParts.add (parts : IndexParts) (n : Node) : IndexParts :=
  if n.kind == "identifier" then { parts with key := n.text }
  else if n.isAnnotation then { parts with valueType := n.annotated? }
  else { parts with keyType := parts.keyType.orElse fun _ => some n }

theorem readIndexParts_eq (parts : IndexParts) (ns : List Node) :
    readIndexParts parts ns =
      if ∃ n ∈ ns, n.kind = "mapped_type_clause" then none
      else some (ns.foldl IndexParts.add parts) := by
  induction ns generalizing parts with
  | nil => simp [readIndexParts]
  | cons n ns ih =>
      have hann : n.isAnnotation = true → n.kind ≠ "mapped_type_clause" := by
        intro hann hkind
        unfold Syntax.Node.isAnnotation at hann
        rw [hkind] at hann
        exact absurd hann (by decide)
      rw [readIndexParts, List.foldl_cons, IndexParts.add]
      split
      · rename_i hkind
        simp [ih, beq_iff_eq.1 hkind]
      · split
        · rename_i h
          simp [ih, hann h]
        · split
          · rename_i hkind
            simp [beq_iff_eq.1 hkind]
          · rename_i hkind
            simp [ih, show n.kind ≠ "mapped_type_clause" by simpa using hkind]

/-- The parts of an index signature without comments. -/
def IndexParts.strip (parts : IndexParts) : IndexParts :=
  ⟨parts.key, parts.keyType.map Syntax.Node.strip, parts.valueType.map Syntax.Node.strip⟩

theorem IndexParts.add_strip
    (h : CommentsAside n)
    (parts : IndexParts) :
    parts.strip.add n.strip = (parts.add n).strip := by
  have hkind : n.strip.isAnnotation = n.isAnnotation := by
    unfold Syntax.Node.isAnnotation
    rw [n.kind_strip]
  unfold IndexParts.add
  rw [n.kind_strip, n.text_strip, hkind, annotated?_strip h]
  split
  · rfl
  · split
    · rfl
    · unfold IndexParts.strip
      cases parts.keyType with
      | none => rfl
      | some c => rfl

/-- The first type of a key stays. -/
theorem IndexParts.keyType_foldl_add
    {parts : IndexParts} {c : Node}
    (hc : parts.keyType = some c)
    (ns : List Node) :
    (ns.foldl IndexParts.add parts).keyType = some c := by
  induction ns generalizing parts with
  | nil => exact hc
  | cons n ns ih =>
      refine ih ?_
      unfold IndexParts.add
      split
      · exact hc
      · split
        · exact hc
        · dsimp only
          rw [hc]
          rfl

theorem IndexParts.add_comment
    (h : n.isConstruct = false)
    (parts : IndexParts) :
    parts.add n = { parts with keyType := parts.keyType.orElse fun _ => some n } := by
  unfold IndexParts.add Syntax.Node.isAnnotation
  rw [Syntax.Node.kind_of_isConstruct_eq_false h]
  rfl

theorem IndexParts.foldl_add_strip
    {parts : IndexParts} {ns : List Node}
    (hns : ∀ n ∈ ns, CommentsAside n)
    (hkey : ∀ c ∈ (ns.foldl IndexParts.add parts).keyType, c.isConstruct = true) :
    ((ns.filter Syntax.Node.isConstruct).map Syntax.Node.strip).foldl IndexParts.add parts.strip =
      (ns.foldl IndexParts.add parts).strip := by
  induction ns generalizing parts with
  | nil => rfl
  | cons n ns ih =>
      obtain ⟨hn, hns⟩ := List.forall_mem_cons.1 hns
      rw [List.foldl_cons] at hkey ⊢
      cases hconstruct : n.isConstruct with
      | true =>
          rw [List.filter_cons_of_pos hconstruct, List.map_cons, List.foldl_cons,
            IndexParts.add_strip hn]
          exact ih hns hkey
      | false =>
          -- A comment that comes first would be taken for the type of the key.
          have hsame : parts.add n = parts := by
            rw [IndexParts.add_comment hconstruct] at hkey ⊢
            cases hfirst : parts.keyType with
            | none =>
                rw [hfirst] at hkey
                have htaken := hkey n (IndexParts.keyType_foldl_add rfl ns)
                rw [hconstruct] at htaken
                cases htaken
            | some c =>
                cases parts
                cases hfirst
                rfl
          rw [hsame] at hkey ⊢
          rw [List.filter_cons_of_neg (by simp [hconstruct])]
          exact ih hns hkey

theorem readIndexParts_strip
    (h : n.Every CommentsAside)
    (hkind : n.kind = "index_signature") :
    readIndexParts {} n.strip.namedChildren =
      (readIndexParts {} n.namedChildren).map IndexParts.strip := by
  have hmapped : (∃ c ∈ n.strip.namedChildren, c.kind = "mapped_type_clause") ↔
      ∃ c ∈ n.namedChildren, c.kind = "mapped_type_clause" :=
    Syntax.Node.exists_namedChildren_strip_iff (by decide)
  have hkey := h.self.key hkind
  rw [readIndexParts_eq] at hkey ⊢
  rw [readIndexParts_eq]
  by_cases hclause : ∃ c ∈ n.namedChildren, c.kind = "mapped_type_clause"
  · rw [if_pos hclause, if_pos (hmapped.2 hclause)]
    rfl
  · rw [if_neg hclause] at hkey ⊢
    rw [if_neg (mt hmapped.1 hclause), Syntax.Node.namedChildren_strip]
    have hchildren : ∀ c ∈ n.namedChildren, CommentsAside c := fun c hc => (h.namedChild hc).self
    exact congrArg some (IndexParts.foldl_add_strip hchildren (hkey _ rfl))

/-- Replaces the nodes of a body item. -/
def BodyItem.mapNodes (φ : Node → Node) : BodyItem → BodyItem
  | .member m => .member (m.mapNodes φ)
  | .skipped label => .skipped label
  | .nothing => .nothing

theorem readBodyItem_strip
    (h : n.Every CommentsAside) :
    readBodyItem n.strip = (readBodyItem n).mapNodes Syntax.Node.strip := by
  unfold readBodyItem
  rw [n.kind_strip, memberName_strip h.self, hasToken_strip n (by decide), hasToken_strip n (by decide),
    hasToken_strip n (by decide), child?_annotated?_strip h, child?_annotated?_strip h,
    child?_strip h.self, child?_strip h.self, readTypeParams_strip (every_of_child? h _),
    readParameters_strip (every_of_child? h _)]
  split
  · rfl
  · split
    · dsimp only
      split
      · rfl
      · split
        · rfl
        · rfl
    · split
      · rename_i hkind
        rw [readIndexParts_strip h (beq_iff_eq.1 hkind)]
        cases readIndexParts {} n.namedChildren with
        | none => rfl
        | some parts => rfl
      · split
        · rfl
        · rfl

theorem readBodyItem_comment
    (h : n.isConstruct = false) :
    readBodyItem n = .nothing := by
  unfold readBodyItem
  rw [Syntax.Node.kind_of_isConstruct_eq_false h]
  rfl

/-- What is picked from a body without comments. -/
theorem filterMap_readBody_strip
    {α : Type} {pick : BodyItem → Option α} {φ : α → α} {body : Option Node}
    (hnothing : pick .nothing = none)
    (hpick : ∀ item, pick (item.mapNodes Syntax.Node.strip) = (pick item).map φ)
    (h : ∀ n ∈ body, n.Every CommentsAside) :
    (readBody (body.map Syntax.Node.strip)).filterMap pick =
      ((readBody body).filterMap pick).map φ := by
  cases body with
  | none => rfl
  | some n =>
      show (n.strip.namedChildren.map readBodyItem).filterMap _ =
        ((n.namedChildren.map readBodyItem).filterMap _).map _
      rw [List.filterMap_map, List.filterMap_map]
      refine Syntax.Node.filterMap_namedChildren_strip (fun c hc => ?_) fun c hc => ?_
      · rw [Function.comp_apply, readBodyItem_comment hc, hnothing]
      · rw [Function.comp_apply, Function.comp_apply, readBodyItem_strip ((h n rfl).namedChild hc),
          hpick]

theorem membersOf_readBody_strip
    {body : Option Node}
    (h : ∀ n ∈ body, n.Every CommentsAside) :
    membersOf (readBody (body.map Syntax.Node.strip)) =
      (membersOf (readBody body)).map (Member.mapNodes Syntax.Node.strip) := by
  refine filterMap_readBody_strip rfl (fun item => ?_) h
  cases item with
  | member m => rfl
  | skipped label => rfl
  | nothing => rfl

theorem skippedOf_readBody_strip
    {body : Option Node}
    (h : ∀ n ∈ body, n.Every CommentsAside) :
    skippedOf (readBody (body.map Syntax.Node.strip)) = skippedOf (readBody body) := by
  rw [← List.map_id (skippedOf (readBody body))]
  refine filterMap_readBody_strip rfl (fun item => ?_) h
  cases item with
  | member m => rfl
  | skipped label => rfl
  | nothing => rfl

end Members

section Types

variable {n t : Node}

theorem typeNames_strip
    (h : n.Every CommentsAside) :
    n.strip.typeNames = n.typeNames := by
  induction n using Syntax.Node.childInduct with
  | step n ih =>
      have hchildren : n.strip.namedChildren.flatMap Syntax.Node.typeNames =
          n.namedChildren.flatMap Syntax.Node.typeNames := by
        refine Syntax.Node.flatMap_namedChildren_strip
          (fun c hc => (h.namedChild hc).self.comment) fun c hc => ?_
        exact ih c (Syntax.Node.mem_children_of_mem_namedChildren hc) (h.namedChild hc)
      rw [typeNames_eq, typeNames_eq n, n.kind_strip, n.text_strip, hchildren]

/-- Replaces the nodes of a construct. -/
def Shape.mapNodes (φ : Node → Node) : Shape → Shape
  | .wrapped line inner => .wrapped line (φ inner)
  | .array line element => .array line (φ element)
  | .reference line label args => .reference line label (args.map φ)
  | .function line typeParams params result =>
    .function line typeParams (params.map (Field.mapNode φ)) (result.map φ)
  | .keyed line skipped key value => .keyed line skipped (key.map φ) (value.map φ)
  | shape => shape

/-- A construct of nodes that read alike is written alike. -/
theorem written_mapNodes
    {φ : Node → Node} {shape : Shape}
    (h : ∀ n ∈ shape.parts, ReadsAlike φ n) :
    (shape.mapNodes φ).written = shape.written := by
  cases shape with
  | wrapped line inner => exact congrArg (Written.wrapped line) (h inner (List.mem_singleton_self _))
  | array line element => exact congrArg (Written.array line) (h element (List.mem_singleton_self _))
  | reference line label args =>
      show Written.reference line label ((args.map φ).map .ofNode) = _
      rw [List.map_map]
      exact congrArg _ (List.map_congr_left h)
  | function line typeParams params result =>
      obtain ⟨hparams, hresult⟩ := List.forall_mem_append.1 h
      show Written.function line typeParams ((params.map (Field.mapNode φ)).map writtenParam)
        (.ofNode? (result.map φ)) = _
      rw [writtenParams_mapNode fun f hf m hm => hparams m (List.mem_filterMap.2 ⟨f, hf, hm⟩),
        ofNode?_map fun m hm => hresult m (Option.mem_toList.2 hm)]
      rfl
  | keyed line skipped key value =>
      obtain ⟨hkey, hvalue⟩ := List.forall_mem_append.1 h
      show Written.keyed line skipped (.ofNode? (key.map φ)) (.ofNode? (value.map φ)) = _
      rw [ofNode?_map fun m hm => hkey m (Option.mem_toList.2 hm),
        ofNode?_map fun m hm => hvalue m (Option.mem_toList.2 hm)]
      rfl
  | absent => rfl
  | hollow line text => rfl
  | name line label => rfl
  | bareArray line => rfl
  | verbatim line skipped text names => rfl

theorem referenceArgs_strip
    (h : n.Every CommentsAside)
    (hkind : n.kind = "generic_type") :
    referenceArgs n.strip = (referenceArgs n).map Syntax.Node.strip := by
  have hargs := h.self.argument hkind
  unfold referenceArgs at hargs ⊢
  rw [child?_strip h.self]
  cases hc : n.child? "type_arguments" with
  | none => rfl
  | some args =>
      rw [hc] at hargs
      exact Syntax.Node.namedChildren_strip_of_forall hargs

theorem objectShape_strip
    (h : t.Every CommentsAside) :
    objectShape t.strip = (objectShape t).mapNodes Syntax.Node.strip := by
  have hbody : ∀ n ∈ some t, n.Every CommentsAside := by
    rintro _ ⟨⟩
    exact h
  have hmembers := membersOf_readBody_strip hbody
  have hskipped := skippedOf_readBody_strip hbody
  rw [Option.map_some] at hmembers hskipped
  unfold objectShape
  dsimp only
  rw [hmembers, hskipped, t.line_strip, t.text_strip, typeNames_strip h]
  generalize membersOf (readBody (some t)) = members
  rcases members with _ | ⟨member, _ | ⟨other, rest⟩⟩
  · rfl
  · cases member with
    | property name type optional => rfl
    | method name optional typeParams params result => rfl
    | index label key value => rfl
  · cases member with
    | property name type optional => rfl
    | method name optional typeParams params result => rfl
    | index label key value => rfl

/-- Without comments a type is the same construct, of parts without comments. -/
theorem typeShape_strip
    (h : t.Every CommentsAside) :
    typeShape t.strip = (typeShape t).mapNodes Syntax.Node.strip := by
  unfold typeShape
  rw [t.kind_strip, t.line_strip, t.text_strip]
  split
  · rename_i hkind
    have hlast : t.kind ∈ lastKinds := by simpa [lastKinds] using hkind
    rw [Syntax.Node.getLast?_namedChildren_strip (h.self.last hlast)]
    cases t.namedChildren.getLast? with
    | none => rfl
    | some inner => rfl
  · split
    · rfl
    · split
      · rename_i hkind
        have hfirst : t.kind ∈ firstKinds := Syntax.Node.kind_mem_of_beq hkind (by decide)
        rw [Syntax.Node.head?_namedChildren_strip (h.self.first hfirst)]
        cases t.namedChildren.head? with
        | none => rfl
        | some element => rfl
      · split
        · rename_i hkind
          rw [text_child?_strip h.self, referenceArgs_strip h (beq_iff_eq.1 hkind)]
          rfl
        · split
          · rw [functionTypeParams_strip h, child?_strip h.self, child?_strip h.self,
              readParameters_strip (every_of_child? h _)]
            rfl
          · split
            · exact objectShape_strip h
            · rw [typeNames_strip h]
              rfl

theorem shape_strip
    (h : n.Every CommentsAside) :
    n.strip.shape = n.shape.mapNodes Syntax.Node.strip := by
  unfold Syntax.Node.shape
  rw [annotated?_strip h.self]
  cases ht : n.annotated? with
  | none => rfl
  | some t => exact typeShape_strip (h.within (Syntax.Node.within_of_annotated? ht))

/-- A node whose comments stand aside is read as it is without them. -/
theorem readsAlike_strip
    (h : n.Every CommentsAside) :
    ReadsAlike Syntax.Node.strip n := by
  induction hsize : n.size using Nat.strongRecOn generalizing n with
  | ind size ih =>
      unfold ReadsAlike
      rw [Written.ofNode_eq, Written.ofNode_eq n, shape_strip h]
      refine written_mapNodes fun m hm => ?_
      have hlt := Syntax.Node.size_lt_of_mem_shape hm
      exact ih m.size (hsize ▸ hlt) (h.within (Syntax.Node.within_of_mem_shape hm)) rfl

end Types

end DeclGraph
