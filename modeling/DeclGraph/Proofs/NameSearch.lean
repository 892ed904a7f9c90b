import DeclGraph.Proofs.Constructs
import DeclGraph.Proofs.LinkedGraph
import DeclGraph.Proofs.NodeParts

/-!
# The search for type names

A type that is kept as text keeps references to the declared models that it mentions.
Their names are found by a search with a stack of nodes still to be looked at, and each is
kept once, in order of first sight.  The same names can be described in two other ways.

* `Syntax.Node.namesBelow` collects the names by recursion on the tree.
* `Syntax.Node.sightings` lists all nodes of a tree, each with the nodes above it.  A sighting
  counts when it is a type name and nothing above it is a type name or a qualified name.

`NameSearch` is the search round by round.  Every round leaves the names that are found in
the end as they are (`result_step`) and leaves less to look at (`sizeList_step_lt`), so the
search comes to its end within as many rounds as the tree has nodes (`run_of_le`).
-/

namespace DeclGraph

open Syntax (Node sizeList)

section Collecting

theorem collectNames_append (ns ms : List Node) :
    collectNames (ns ++ ms) = collectNames ns ++ collectNames ms := by
  induction ns using collectNames.induct with
  | case1 => simp [collectNames]
  | case2 n rest hnested ih =>
      rw [List.cons_append, collectNames, collectNames, if_pos hnested, if_pos hnested, ih]
  | case3 n rest hnested hname ih =>
      rw [List.cons_append, collectNames, collectNames, if_neg hnested, if_pos hname,
        if_neg hnested, if_pos hname, ih, List.cons_append]
  | case4 n rest hnested hname ih =>
      rw [List.cons_append, collectNames, collectNames, if_neg hnested, if_neg hname,
        if_neg hnested, if_neg hname, ← ih, List.append_assoc]

theorem collectNames_eq_flatMap (ns : List Node) :
    collectNames ns = ns.flatMap Syntax.Node.typeNames := by
  induction ns with
  | nil => simp [collectNames]
  | cons n ns ih =>
      rw [← List.singleton_append, collectNames_append, ih]
      rfl

theorem typeNames_eq (n : Node) :
    n.typeNames =
      if n.kind == "nested_type_identifier" then []
      else if n.kind == "type_identifier" then [n.text]
      else n.namedChildren.flatMap Syntax.Node.typeNames := by
  have hnil : collectNames [] = [] := by rw [collectNames]
  show collectNames [n] = _
  rw [collectNames, List.append_nil, collectNames_eq_flatMap n.namedChildren, hnil]

end Collecting

section Recursion

mutual

/-- The type names of a tree.  A qualified name holds none, and neither does anything below
a type name. -/
def Syntax.Node.namesBelow : Node → List String
  | ⟨kind, source, _, _, _, _, _, children⟩ =>
    if kind == "nested_type_identifier" then []
    else if kind == "type_identifier" then [Text.collapse source]
    else namesBelowAll children

/-- The type names of the constructs among several trees. -/
def namesBelowAll : List Node → List String
  | [] => []
  | n :: ns => if n.named then n.namesBelow ++ namesBelowAll ns else namesBelowAll ns

end

theorem namesBelowAll_eq (ns : List Node) :
    namesBelowAll ns = (ns.filter (·.named)).flatMap Syntax.Node.namesBelow := by
  induction ns with
  | nil => rfl
  | cons n ns ih =>
      rw [namesBelowAll, ih, List.filter_cons]
      cases n.named <;> rfl

theorem namesBelow_eq (n : Node) :
    n.namesBelow =
      if n.kind == "nested_type_identifier" then []
      else if n.kind == "type_identifier" then [n.text]
      else n.namedChildren.flatMap Syntax.Node.namesBelow := by
  obtain ⟨kind, source, start, field, named, missing, broken, children⟩ := n
  rw [Syntax.Node.namesBelow, namesBelowAll_eq]
  rfl

/-- The search with a list of pending nodes finds what the recursion finds. -/
theorem typeNames_eq_namesBelow (n : Node) : n.typeNames = n.namesBelow := by
  induction n using Syntax.Node.childInduct with
  | step n ih =>
      have hchildren : n.namedChildren.flatMap Syntax.Node.typeNames =
          n.namedChildren.flatMap Syntax.Node.namesBelow :=
        List.flatMap_congr fun c hc => ih c (Syntax.Node.mem_children_of_mem_namedChildren hc)
      rw [typeNames_eq, namesBelow_eq, hchildren]

end Recursion

section Sightings

/-- A node of a tree, with the nodes of the tree above it, the nearest first. -/
structure Sighting where
  above : List Node
  node : Node

mutual

/-- The nodes of a tree in source order; constructs only, its root apart. -/
def Syntax.Node.sightings (above : List Node) : Node → List Sighting
  | ⟨kind, source, start, field, named, missing, broken, children⟩ =>
    let self : Node := ⟨kind, source, start, field, named, missing, broken, children⟩
    ⟨above, self⟩ :: sightingsAll (self :: above) children

/-- The nodes of the constructs among several trees. -/
def sightingsAll (above : List Node) : List Node → List Sighting
  | [] => []
  | n :: ns =>
    if n.named then n.sightings above ++ sightingsAll above ns else sightingsAll above ns

end

theorem sightingsAll_eq (above ns : List Node) :
    sightingsAll above ns = (ns.filter (·.named)).flatMap (Syntax.Node.sightings above) := by
  induction ns with
  | nil => rfl
  | cons n ns ih =>
      rw [sightingsAll, ih, List.filter_cons]
      cases n.named <;> rfl

theorem sightings_eq (above : List Node) (n : Node) :
    n.sightings above =
      ⟨above, n⟩ :: n.namedChildren.flatMap (Syntax.Node.sightings (n :: above)) := by
  obtain ⟨kind, source, start, field, named, missing, broken, children⟩ := n
  rw [Syntax.Node.sightings, sightingsAll_eq]
  rfl

/-- A node below which no type name counts. -/
def Syntax.Node.isName (n : Node) : Bool :=
  n.kind == "nested_type_identifier" || n.kind == "type_identifier"

/-- A type name that is not inside a qualified name and not below another type name. -/
def Sighting.counts (s : Sighting) : Bool :=
  s.node.kind == "type_identifier" && !s.above.any (·.isName)

theorem filter_sightings_below_name
    {above : List Node}
    (h : above.any (·.isName) = true)
    (n : Node) :
    (n.sightings above).filter Sighting.counts = [] := by
  induction n using Syntax.Node.childInduct generalizing above with
  | step n ih =>
      have hbelow : (n :: above).any (·.isName) = true := by rw [List.any_cons, h, Bool.or_true]
      have hself : ¬ Sighting.counts ⟨above, n⟩ = true := by simp [Sighting.counts, h]
      rw [sightings_eq, List.filter_cons_of_neg hself, List.filter_flatMap, List.flatMap_eq_nil_iff]
      exact fun c hc => ih c (Syntax.Node.mem_children_of_mem_namedChildren hc) hbelow

/-- The names of the sightings that count are those that the recursion collects. -/
theorem map_filter_sightings
    {above : List Node}
    (h : above.any (·.isName) = false)
    (n : Node) :
    ((n.sightings above).filter Sighting.counts).map (·.node.text) = n.namesBelow := by
  induction n using Syntax.Node.childInduct generalizing above with
  | step n ih =>
      rw [sightings_eq, namesBelow_eq]
      cases hname : n.isName with
      | true =>
          -- Nothing below a name counts, so only the node itself can.
          have hbelow : (n :: above).any (·.isName) = true := by
            rw [List.any_cons, hname, Bool.true_or]
          have hnone : (n.namedChildren.flatMap (Syntax.Node.sightings (n :: above))).filter
              Sighting.counts = [] := by
            rw [List.filter_flatMap, List.flatMap_eq_nil_iff]
            exact fun c _ => filter_sightings_below_name hbelow c
          rw [List.filter_cons, hnone]
          rcases Bool.or_eq_true_iff.1 hname with hkind | hkind
          · have hkind := eq_of_beq hkind
            simp [Sighting.counts, hkind]
          · have hkind := eq_of_beq hkind
            simp [Sighting.counts, hkind, h]
      | false =>
          obtain ⟨hnested, hkind⟩ := Bool.or_eq_false_iff.1 hname
          have hbelow : (n :: above).any (·.isName) = false := by
            rw [List.any_cons, hname, h, Bool.false_or]
          have hself : ¬ Sighting.counts ⟨above, n⟩ = true := by simp [Sighting.counts, hkind]
          rw [List.filter_cons_of_neg hself, List.filter_flatMap, List.map_flatMap, hnested, hkind]
          exact List.flatMap_congr fun c hc =>
            ih c (Syntax.Node.mem_children_of_mem_namedChildren hc) hbelow

end Sightings

section Rounds

/-- A search for the names of declared models: the nodes still to be looked at, the next one
last, and the names found, in order of first sight. -/
structure NameSearch where
  stack : List Node
  found : List String

namespace NameSearch

/-- The names that count in a scope: declared, and not the name of a type parameter. -/
def wants (ctx : Context) (scope : List String) (name : String) : Bool :=
  ctx.known.contains name && !scope.contains name

/-- Adds a name that counts and was not found before. -/
def record (ctx : Context) (scope found : List String) (name : String) : List String :=
  if wants ctx scope name && !found.contains name then found ++ [name] else found

/-- One round: takes the last node off the stack, and records it or puts its constructs on
the stack, the first of them last. -/
def step (ctx : Context) (scope : List String) (s : NameSearch) : Option NameSearch :=
  match s.stack.getLast? with
  | none => none
  | some n =>
    let rest := s.stack.dropLast
    if n.kind == "nested_type_identifier" then some ⟨rest, s.found⟩
    else if n.kind == "type_identifier" then some ⟨rest, record ctx scope s.found n.text⟩
    else some ⟨rest ++ n.namedChildren.reverse, s.found⟩

/-- So many rounds, or fewer if the stack gets empty. -/
def run (ctx : Context) (scope : List String) : Nat → NameSearch → NameSearch
  | 0, s => s
  | rounds + 1, s =>
    match s.step ctx scope with
    | none => s
    | some s' => run ctx scope rounds s'

/-- A search that is about to look at one node. -/
def start (n : Node) : NameSearch :=
  ⟨[n], []⟩

/-- The names that a search has found in the end. -/
def result (ctx : Context) (scope : List String) (s : NameSearch) : List String :=
  (collectNames s.stack.reverse).foldl (record ctx scope) s.found

variable {ctx : Context} {scope : List String} {s s' : NameSearch}

theorem step_eq_none_iff : s.step ctx scope = none ↔ s.stack = [] := by
  unfold step
  rw [← List.getLast?_eq_none_iff]
  cases s.stack.getLast? with
  | none => simp
  | some n =>
      dsimp only
      split_ifs <;> simp

/-- A round looks at the last node of the stack. -/
theorem step_concat (rest : List Node) (n : Node) (found : List String) :
    step ctx scope ⟨rest ++ [n], found⟩ =
      if n.kind == "nested_type_identifier" then some ⟨rest, found⟩
      else if n.kind == "type_identifier" then some ⟨rest, record ctx scope found n.text⟩
      else some ⟨rest ++ n.namedChildren.reverse, found⟩ := by
  unfold step
  rw [List.getLast?_concat, List.dropLast_concat]

/-- What one round can do. -/
theorem step_cases
    (h : s.step ctx scope = some s') :
    ∃ rest n, s.stack = rest ++ [n] ∧
      ((n.kind = "nested_type_identifier" ∧ s' = ⟨rest, s.found⟩) ∨
        (n.kind ≠ "nested_type_identifier" ∧ n.kind = "type_identifier" ∧
          s' = ⟨rest, record ctx scope s.found n.text⟩) ∨
        (n.kind ≠ "nested_type_identifier" ∧ n.kind ≠ "type_identifier" ∧
          s' = ⟨rest ++ n.namedChildren.reverse, s.found⟩)) := by
  obtain ⟨stack, found⟩ := s
  rcases List.eq_nil_or_concat' stack with rfl | ⟨rest, n, rfl⟩
  · cases h
  · rw [step_concat] at h
    refine ⟨rest, n, rfl, ?_⟩
    split_ifs at h with hnested hname
    · exact .inl ⟨eq_of_beq hnested, (Option.some.inj h).symm⟩
    · exact .inr (.inl ⟨by simpa using hnested, eq_of_beq hname, (Option.some.inj h).symm⟩)
    · exact .inr (.inr ⟨by simpa using hnested, by simpa using hname, (Option.some.inj h).symm⟩)

theorem sizeList_reverse (ns : List Node) : sizeList ns.reverse = sizeList ns := by
  induction ns with
  | nil => rfl
  | cons n ns ih =>
      rw [List.reverse_cons, Syntax.sizeList_append, ih, Syntax.sizeList_cons, Syntax.sizeList_cons,
        Syntax.sizeList_nil]
      omega

/-- A round leaves less work. -/
theorem sizeList_step_lt
    (h : s.step ctx scope = some s') :
    sizeList s'.stack < sizeList s.stack := by
  obtain ⟨rest, n, hstack, hcases⟩ := step_cases h
  have hsize : sizeList s.stack = sizeList rest + n.size := by
    rw [hstack, Syntax.sizeList_append]
    rfl
  have hpos := n.size_eq
  have hchildren := n.sizeList_namedChildren_lt
  rcases hcases with ⟨-, rfl⟩ | ⟨-, -, rfl⟩ | ⟨-, -, rfl⟩
  · dsimp only
    omega
  · dsimp only
    omega
  · rw [Syntax.sizeList_append, sizeList_reverse]
    omega

/-- A round does not change what is found in the end. -/
theorem result_step
    (h : s.step ctx scope = some s') :
    s'.result ctx scope = s.result ctx scope := by
  obtain ⟨rest, n, hstack, hcases⟩ := step_cases h
  unfold result
  rw [hstack, List.reverse_append, List.reverse_singleton, List.singleton_append, collectNames]
  rcases hcases with ⟨hnested, rfl⟩ | ⟨hnested, hname, rfl⟩ | ⟨hnested, hname, rfl⟩
  · rw [if_pos (beq_iff_eq.2 hnested)]
  · rw [if_neg (by simpa using hnested), if_pos (beq_iff_eq.2 hname), List.foldl_cons]
  · rw [if_neg (by simpa using hnested), if_neg (by simpa using hname), List.reverse_append,
      List.reverse_reverse]

/-- A search with nothing left to look at has found what it finds. -/
theorem eq_of_stack_eq_nil
    (h : s.stack = []) :
    s = ⟨[], s.result ctx scope⟩ := by
  obtain ⟨stack, found⟩ := s
  cases h
  unfold result
  rw [List.reverse_nil, collectNames]
  rfl

/-- With as many rounds as there are nodes left, the search comes to its end. -/
theorem run_of_le
    {rounds : Nat}
    (h : sizeList s.stack ≤ rounds) :
    s.run ctx scope rounds = ⟨[], s.result ctx scope⟩ := by
  induction rounds generalizing s with
  | zero =>
      cases hstack : s.stack with
      | nil => exact eq_of_stack_eq_nil hstack
      | cons n ns =>
          have hpos := n.size_eq
          rw [hstack, Syntax.sizeList_cons] at h
          omega
  | succ rounds ih =>
      rw [run]
      cases hstep : s.step ctx scope with
      | none => exact eq_of_stack_eq_nil (step_eq_none_iff.1 hstep)
      | some s' =>
          have hlt := sizeList_step_lt hstep
          rw [← result_step hstep]
          exact ih (by omega)

/-- Recording names one after the other keeps each name that counts once. -/
theorem foldl_record (ctx : Context) (scope names : List String) :
    names.foldl (record ctx scope) [] = (names.filter (wants ctx scope)).eraseDups := by
  induction names using List.reverseRecOn with
  | nil => rfl
  | append_singleton names name ih =>
      rw [List.foldl_append, ih, List.filter_append, List.foldl_cons, List.foldl_nil, record]
      cases hwants : wants ctx scope name with
      | false =>
          rw [Bool.false_and, if_neg Bool.false_ne_true, List.filter_cons_of_neg (by simp [hwants]),
            List.filter_nil, List.append_nil]
      | true =>
          have hcontains : (names.filter (wants ctx scope)).eraseDups.contains name =
              decide (name ∈ names.filter (wants ctx scope)) := by
            rw [List.contains_eq_mem]
            exact decide_eq_decide.2 List.mem_eraseDups
          rw [List.filter_cons_of_pos hwants, List.filter_nil, eraseDups_concat, Bool.true_and,
            hcontains]
          by_cases hmem : name ∈ names.filter (wants ctx scope)
          · rw [if_pos hmem, decide_eq_true hmem]
            rfl
          · rw [if_neg hmem, decide_eq_false hmem]
            rfl

/-- What the search finds in a tree. -/
theorem result_start (ctx : Context) (scope : List String) (n : Node) :
    (start n).result ctx scope = (n.namesBelow.filter (wants ctx scope)).eraseDups := by
  rw [← typeNames_eq_namesBelow, ← foldl_record]
  rfl

end NameSearch

end Rounds

section FirstSight

/-- `names` are the items of `seen`, each once and in order of first occurrence. -/
structure FirstOccurrences (names seen : List String) : Prop where
  mem_iff (name : String) : name ∈ names ↔ name ∈ seen
  ordered : names.Pairwise fun a b => seen.idxOf a < seen.idxOf b

theorem firstOccurrences_eraseDups (seen : List String) :
    FirstOccurrences seen.eraseDups seen := by
  refine ⟨fun name => List.mem_eraseDups, ?_⟩
  induction seen using List.reverseRecOn with
  | nil => exact List.Pairwise.nil
  | append_singleton seen last ih =>
      have hkept : seen.eraseDups.Pairwise fun a b =>
          (seen ++ [last]).idxOf a < (seen ++ [last]).idxOf b := by
        refine ih.imp_of_mem fun {a b} ha hb hlt => ?_
        rwa [List.idxOf_append_of_mem (List.mem_eraseDups.1 ha),
          List.idxOf_append_of_mem (List.mem_eraseDups.1 hb)]
      rw [eraseDups_concat]
      split_ifs with hlast
      · exact hkept
      · refine List.pairwise_append.2 ⟨hkept, List.pairwise_singleton _ _, ?_⟩
        intro a ha b hb
        cases List.mem_singleton.1 hb
        have ha := List.mem_eraseDups.1 ha
        rw [List.idxOf_append_of_mem ha, List.idxOf_append_of_notMem hlast]
        exact Nat.lt_of_lt_of_le (List.idxOf_lt_length_of_mem ha) (Nat.le_add_right _ _)

/-- The references of a type that is kept as text are found by a search that ends within as
many rounds as the type has nodes.  They are the declared names that no type parameter in
scope has, each once, in order of first sight: of the sightings that count, and likewise of the
names that the recursion collects. -/
theorem references_in_order_of_first_sight
    (ctx : Context) (scope : List String) (t : Node) :
    ∃ names : List String,
      (∀ rounds, t.size ≤ rounds → (NameSearch.start t).run ctx scope rounds = ⟨[], names⟩) ∧
      FirstOccurrences names
        ((((t.sightings []).filter Sighting.counts).map (·.node.text)).filter
          (NameSearch.wants ctx scope)) ∧
      FirstOccurrences names (t.namesBelow.filter (NameSearch.wants ctx scope)) ∧
      ctx.references scope t.typeNames = names.map .pending ∧
      ∀ (n : Node) (depth : Nat), n.annotated? = some t → KeptAsText t →
        (depth : Int) ≤ ctx.limit →
        (resolve ctx scope depth (.ofNode n)).outcome =
          .ok (.verbatim t.text (names.map .pending)) := by
  have hsightings : ((t.sightings []).filter Sighting.counts).map (·.node.text) = t.namesBelow :=
    map_filter_sightings rfl t
  have hfirst := firstOccurrences_eraseDups (t.namesBelow.filter (NameSearch.wants ctx scope))
  have hreferences : ctx.references scope t.typeNames =
      (t.namesBelow.filter (NameSearch.wants ctx scope)).eraseDups.map .pending := by
    rw [typeNames_eq_namesBelow]
    rfl
  refine ⟨(t.namesBelow.filter (NameSearch.wants ctx scope)).eraseDups, ?_, ?_, hfirst, hreferences,
    ?_⟩
  · intro rounds hrounds
    rw [NameSearch.run_of_le hrounds, NameSearch.result_start]
  · rw [hsightings]
    exact hfirst
  · intro n depth ht hkept hdepth
    obtain ⟨skipped, hshape⟩ := exists_typeShape_of_keptAsText hkept
    rw [Written.ofNode_of_type ht, hshape, ← hreferences]
    exact resolve_verbatim_eq_ok_iff.2 ⟨hdepth, rfl⟩

/-- A tuple of names, one of them twice and one of them qualified. -/
def tupleOfNames : Node :=
  .build "tuple_type" "[B, T, C, ns.A, B]" none
    [.build "type_identifier" "B" none [],
      .build "type_identifier" "T" none [],
      .build "type_identifier" "C" none [],
      .build "nested_type_identifier" "ns.A" none
        [.build "identifier" "ns" (some "module") [], .build "type_identifier" "A" (some "name") []],
      .build "type_identifier" "B" none []]

theorem references_in_order_of_first_sight_tupleOfNames :
    (NameSearch.start tupleOfNames).run ⟨["A", "B", "C", "T"], 8⟩ ["T"] tupleOfNames.size =
      ⟨[], ["B", "C"]⟩ ∧
    (resolve ⟨["A", "B", "C", "T"], 8⟩ ["T"] 0 (.ofNode tupleOfNames)).outcome =
      .ok (.verbatim "[B, T, C, ns.A, B]" [.pending "B", .pending "C"]) := by
  obtain ⟨names, hrun, -, -, -, hresolve⟩ :=
    references_in_order_of_first_sight ⟨["A", "B", "C", "T"], 8⟩ ["T"] tupleOfNames
  have hfound : ((NameSearch.start tupleOfNames).run ⟨["A", "B", "C", "T"], 8⟩ ["T"]
      tupleOfNames.size).found = ["B", "C"] := by decide +kernel
  have hnames : names = ["B", "C"] := by rwa [hrun _ (Nat.le_refl _)] at hfound
  have hkept : KeptAsText tupleOfNames :=
    ⟨by decide, fun _ _ h => absurd h.1 (by decide)⟩
  have htext : tupleOfNames.text = "[B, T, C, ns.A, B]" := by decide +kernel
  subst hnames
  rw [← htext]
  exact ⟨hrun _ (Nat.le_refl _), hresolve tupleOfNames 0 rfl hkept (by decide)⟩

end FirstSight

end DeclGraph
