import DeclGraph.Proofs.LinkedGraph
import DeclGraph.Proofs.NodeParts

/-!
# How an extraction ends

An extraction can end in few ways, and which one it is depends on the stage.

* Reading refuses a faulty tree.  On any other tree it ends with declarations, unless
  an instantiated base class has no target.
* Gathering fails exactly for declarations that give one name two kinds.
* Resolving fails only at a type that stands too deep, unless an array type has no
  element.
* Linking always ends with models.

The two exceptions are missing children that every grammatical tree has
(`HasElement`, `HasTarget`).  Nothing else that may be missing from a tree matters:
names, bodies, fields and wrappers.
-/

namespace DeclGraph

open Syntax (Node)

section Grammar

/-- An array type has an element. -/
def Syntax.Node.HasElement (n : Node) : Prop :=
  n.kind = "array_type" → n.namedChildren ≠ []

/-- An instantiated base class has a target. -/
def Syntax.Node.HasTarget (n : Node) : Prop :=
  n.kind = "instantiation_expression" → n.namedChildren ≠ []

instance : DecidablePred Syntax.Node.HasElement := fun n =>
  if hkind : n.kind = "array_type" then
    match hchildren : n.namedChildren with
    | [] => isFalse fun h => h hkind hchildren
    | _ :: _ => isTrue fun _ hnil => by simp [hchildren] at hnil
  else isTrue fun h => absurd h hkind

instance : DecidablePred Syntax.Node.HasTarget := fun n =>
  if hkind : n.kind = "instantiation_expression" then
    match hchildren : n.namedChildren with
    | [] => isFalse fun h => h hkind hchildren
    | _ :: _ => isTrue fun _ hnil => by simp [hchildren] at hnil
  else isTrue fun h => absurd h hkind

end Grammar

section Resolving

variable {ctx : Context} {P : Fault → Prop} {scope : List String} {depth : Nat}

theorem failsOnly_checkDepth
    (hdeep : ∀ line, P (.tooDeep ctx.limit line))
    (line : Nat) :
    (ctx.checkDepth depth line).FailsOnly P := by
  unfold Context.checkDepth
  split
  · exact Pass.failsOnly_fail (hdeep line)
  · exact Pass.failsOnly_pure ()

/-- Resolving a node fails only with the faults in question, in any scope and at any depth. -/
def ResolvesOr (ctx : Context) (P : Fault → Prop) (n : Node) : Prop :=
  ∀ scope depth, (resolve ctx scope depth (.ofNode n)).FailsOnly P

theorem failsOnly_ofNode?
    {n : Option Node}
    (hn : ∀ m ∈ n, ResolvesOr ctx P m) :
    (resolve ctx scope depth (.ofNode? n)).FailsOnly P := by
  cases n with
  | none => exact Pass.failsOnly_pure _
  | some m => exact hn m rfl scope depth

theorem failsOnly_resolveParams
    {params : List (Field (Option Node))}
    (hparams : ∀ f ∈ params, ∀ m ∈ f.type, ResolvesOr ctx P m) :
    (resolveParams ctx scope depth (params.map writtenParam)).FailsOnly P := by
  induction params with
  | nil => exact Pass.failsOnly_pure []
  | cons f params ih =>
      obtain ⟨hf, hparams⟩ := List.forall_mem_cons.1 hparams
      refine Pass.failsOnly_bind (failsOnly_ofNode? hf) fun t => ?_
      exact Pass.failsOnly_bind (ih hparams) fun ts => Pass.failsOnly_pure _

theorem failsOnly_resolveAll
    {args : List Node}
    (hargs : ∀ m ∈ args, ResolvesOr ctx P m) :
    (resolveAll ctx scope depth (args.map .ofNode)).FailsOnly P := by
  rw [resolveAll_eq_each]
  refine Pass.failsOnly_each (List.forall_mem_map.2 fun m hm => ?_)
  exact hargs m hm scope depth

/-- A construct fails because it stands too deep, because it is an array without an
element, or as one of its parts does. -/
theorem failsOnly_of_shape
    (hdeep : ∀ line, P (.tooDeep ctx.limit line))
    {shape : Shape}
    (hbare : ∀ line, shape = .bareArray line → P .noElement)
    (hparts : ∀ m ∈ shape.parts, ResolvesOr ctx P m) :
    (resolve ctx scope depth shape.written).FailsOnly P := by
  cases shape with
  | absent => exact Pass.failsOnly_pure _
  | wrapped line inner =>
      refine Pass.failsOnly_bind (failsOnly_checkDepth hdeep line) fun _ => ?_
      exact hparts inner (List.mem_singleton_self _) _ _
  | hollow line text =>
      exact Pass.failsOnly_bind (failsOnly_checkDepth hdeep line) fun _ => Pass.failsOnly_pure _
  | name line label =>
      exact Pass.failsOnly_bind (failsOnly_checkDepth hdeep line) fun _ => Pass.failsOnly_pure _
  | array line element =>
      refine Pass.failsOnly_bind (failsOnly_checkDepth hdeep line) fun _ => ?_
      exact Pass.failsOnly_bind (hparts element (List.mem_singleton_self _) _ _)
        fun _ => Pass.failsOnly_pure _
  | bareArray line =>
      refine Pass.failsOnly_bind (failsOnly_checkDepth hdeep line) fun _ => ?_
      exact Pass.failsOnly_fail (hbare line rfl)
  | reference line label args =>
      refine Pass.failsOnly_bind (failsOnly_checkDepth hdeep line) fun _ => ?_
      exact Pass.failsOnly_bind (failsOnly_resolveAll hparts) fun _ => Pass.failsOnly_pure _
  | function line typeParams params result =>
      have hparam : ∀ f ∈ params, ∀ m ∈ f.type, ResolvesOr ctx P m := fun f hf m hm =>
        hparts m (List.mem_append_left _ (List.mem_filterMap.2 ⟨f, hf, hm⟩))
      have hresult : ∀ m ∈ result, ResolvesOr ctx P m := fun m hm =>
        hparts m (List.mem_append_right _ (Option.mem_toList.2 hm))
      refine Pass.failsOnly_bind (failsOnly_checkDepth hdeep line) fun _ => ?_
      refine Pass.failsOnly_bind (failsOnly_resolveParams hparam) fun _ => ?_
      exact Pass.failsOnly_bind (failsOnly_ofNode? hresult) fun _ => Pass.failsOnly_pure _
  | keyed line skipped key value =>
      have hkey : ∀ m ∈ key, ResolvesOr ctx P m := fun m hm =>
        hparts m (List.mem_append_left _ (Option.mem_toList.2 hm))
      have hvalue : ∀ m ∈ value, ResolvesOr ctx P m := fun m hm =>
        hparts m (List.mem_append_right _ (Option.mem_toList.2 hm))
      refine Pass.failsOnly_bind (failsOnly_checkDepth hdeep line) fun _ => ?_
      refine Pass.failsOnly_bind (Pass.failsOnly_report _) fun _ => ?_
      refine Pass.failsOnly_bind (failsOnly_ofNode? hkey) fun _ => ?_
      exact Pass.failsOnly_bind (failsOnly_ofNode? hvalue) fun _ => Pass.failsOnly_pure _
  | verbatim line skipped text names =>
      refine Pass.failsOnly_bind (failsOnly_checkDepth hdeep line) fun _ => ?_
      exact Pass.failsOnly_bind (Pass.failsOnly_report _) fun _ => Pass.failsOnly_pure _

theorem not_hasElement_of_bareArray
    {t : Node} {line : Nat}
    (h : typeShape t = .bareArray line) :
    ¬ t.HasElement := by
  intro helement
  rcases construct_cases t with hkind | hkind | hkind | hkind | hkind | ⟨key, value, hkeyed⟩ | hkept
  · rw [typeShape_wrapper hkind] at h
    cases hlast : t.namedChildren.getLast? <;> simp [hlast] at h
  · simp [typeShape_name hkind] at h
  · rw [typeShape_array hkind] at h
    cases hhead : t.namedChildren.head? with
    | none => exact helement hkind (List.head?_eq_none_iff.1 hhead)
    | some element => simp [hhead] at h
  · simp [typeShape_generic hkind] at h
  · simp [typeShape_function hkind] at h
  · simp [typeShape_keyed hkeyed] at h
  · obtain ⟨skipped, hshape⟩ := exists_typeShape_of_keptAsText hkept
    simp [hshape] at h

/-- Resolving a node fails because a type stands too deep, or else because an array type
has no element. -/
theorem resolvesOr
    (hdeep : ∀ line, P (.tooDeep ctx.limit line))
    {n : Node}
    (hn : n.Every fun m => m.HasElement ∨ P .noElement) :
    ResolvesOr ctx P n := by
  induction n using Syntax.Node.typeInduct with
  | absent n hnone =>
      intro scope depth
      rw [Written.ofNode_of_absent hnone]
      exact Pass.failsOnly_pure _
  | type n t ht ih =>
      intro scope depth
      have hwithin := Syntax.Node.within_of_annotated? ht
      rw [Written.ofNode_of_type ht]
      refine failsOnly_of_shape hdeep ?_ fun m hm => ?_
      · intro line hbare
        exact (hn t hwithin).resolve_left (not_hasElement_of_bareArray hbare)
      · exact ih m hm (hn.within ((within_of_mem_typeShape hm).trans hwithin))

theorem failsOnly_resolveNode?
    {n : Option Node}
    (hn : ∀ m ∈ n, ResolvesOr ctx P m) :
    (resolveNode? ctx scope n).FailsOnly P := by
  cases n with
  | none => exact Pass.failsOnly_pure _
  | some m =>
      exact Pass.failsOnly_bind (failsOnly_ofNode? hn) fun _ => Pass.failsOnly_pure _

theorem failsOnly_resolveMember
    {member : Member}
    (hmember : ∀ n ∈ member.nodes, ResolvesOr ctx P n) :
    (resolveMember ctx scope member).FailsOnly P := by
  cases member with
  | property name type optional =>
      refine Pass.failsOnly_bind (failsOnly_ofNode? fun m hm => ?_) fun _ => Pass.failsOnly_pure _
      exact hmember m (Option.mem_toList.2 hm)
  | method name optional typeParams params result =>
      refine Pass.failsOnly_bind (failsOnly_resolveParams fun f hf m hm => ?_) fun _ => ?_
      · exact hmember m (List.mem_append_left _ (List.mem_append_right _
          (List.mem_filterMap.2 ⟨f, hf, hm⟩)))
      · refine Pass.failsOnly_bind (failsOnly_ofNode? fun m hm => ?_) fun _ => Pass.failsOnly_pure _
        exact hmember m (List.mem_append_right _ (Option.mem_toList.2 hm))
  | index key keyType valueType =>
      refine Pass.failsOnly_bind (failsOnly_ofNode? fun m hm => ?_) fun _ => ?_
      · exact hmember m (List.mem_append_left _ (Option.mem_toList.2 hm))
      · refine Pass.failsOnly_bind (failsOnly_ofNode? fun m hm => ?_) fun _ => Pass.failsOnly_pure _
        exact hmember m (List.mem_append_right _ (Option.mem_toList.2 hm))

theorem failsOnly_resolveDeclaration
    {draft : Draft} {d : Declaration}
    (hd : ∀ n ∈ d.nodes, ResolvesOr ctx P n) :
    (resolveDeclaration ctx draft d).FailsOnly P := by
  obtain ⟨hd, hheritage⟩ := List.forall_mem_append.1 hd
  obtain ⟨hd, hvalue⟩ := List.forall_mem_append.1 hd
  obtain ⟨hparams, hmembers⟩ := List.forall_mem_append.1 hd
  refine Pass.failsOnly_bind (Pass.failsOnly_each fun p hp => ?_) fun _ => ?_
  · have hp : ∀ n ∈ p.nodes, ResolvesOr ctx P n :=
      fun n hn => hparams n (List.mem_flatMap.2 ⟨p, hp, hn⟩)
    refine Pass.failsOnly_bind (failsOnly_resolveNode? fun m hm => ?_) fun _ => ?_
    · exact hp m (List.mem_append_left _ (Option.mem_toList.2 hm))
    · refine Pass.failsOnly_bind (failsOnly_resolveNode? fun m hm => ?_) fun _ => Pass.failsOnly_pure _
      exact hp m (List.mem_append_right _ (Option.mem_toList.2 hm))
  refine Pass.failsOnly_bind (failsOnly_resolveNode? fun m hm => ?_) fun _ => ?_
  · exact hvalue m (Option.mem_toList.2 hm)
  refine Pass.failsOnly_bind (Pass.failsOnly_each fun member hmember => ?_) fun _ => ?_
  · exact failsOnly_resolveMember fun n hn => hmembers n (List.mem_flatMap.2 ⟨member, hmember, hn⟩)
  refine Pass.failsOnly_bind (Pass.failsOnly_each fun base hbase => ?_) fun _ => Pass.failsOnly_pure _
  refine Pass.failsOnly_bind (failsOnly_resolveAll fun m hm => ?_) fun _ => Pass.failsOnly_pure _
  exact hheritage m (List.mem_flatMap.2 ⟨base, hbase, hm⟩)

theorem failsOnly_resolveDeclarations
    {draft : Draft} {ds : List Declaration}
    (hds : ∀ d ∈ ds, ∀ n ∈ d.nodes, ResolvesOr ctx P n) :
    (resolveDeclarations ctx draft ds).FailsOnly P := by
  induction ds generalizing draft with
  | nil => exact Pass.failsOnly_pure _
  | cons d ds ih =>
      obtain ⟨hd, hds⟩ := List.forall_mem_cons.1 hds
      exact Pass.failsOnly_bind (failsOnly_resolveDeclaration hd) fun _ => ih hds

/-- Resolving the groups of declarations fails because a type stands too deep, or else
because an array type has no element. -/
theorem failsOnly_resolveGroups
    {limit : Int} {groups : List Group} {ds : List Declaration}
    (hgathers : Gathers groups ds)
    (hdeep : ∀ line, P (.tooDeep limit line))
    (hds : ∀ d ∈ ds, d.Every fun m => m.HasElement ∨ P .noElement) :
    (resolveGroups limit groups).FailsOnly P := by
  refine Pass.failsOnly_each fun g hg => failsOnly_resolveDeclarations fun d hd n hn => ?_
  have hd := ((hgathers.mem_declarations_iff hg).1 hd).1
  exact resolvesOr hdeep (hds d hd n hn)

end Resolving

section Reading

variable {n : Node}

/-- Reading base classes ends with a result if every instantiated one has a target. -/
theorem exists_readBaseClasses
    {ns : List Node}
    (h : ∀ n ∈ ns, n.HasTarget)
    (bases : List Heritage) :
    ∃ result, readBaseClasses bases ns = .ok result := by
  induction ns generalizing bases with
  | nil => exact ⟨bases, rfl⟩
  | cons n ns ih =>
      obtain ⟨hn, hns⟩ := List.forall_mem_cons.1 h
      unfold readBaseClasses
      split
      · exact ih hns _
      · split
        · rename_i hkind
          split
          · rename_i hnil
            exact absurd hnil (hn (beq_iff_eq.1 hkind))
          · exact ih hns _
        · exact ih hns _

theorem exists_gatherBases
    {read : Node → Except Fault (List Heritage)} {ns : List Node}
    (h : ∀ n ∈ ns, ∃ bases, read n = .ok bases) :
    ∃ result, gatherBases read ns = .ok result := by
  induction ns with
  | nil => exact ⟨[], rfl⟩
  | cons n ns ih =>
      obtain ⟨⟨first, hfirst⟩, hns⟩ := List.forall_mem_cons.1 h
      obtain ⟨rest, hrest⟩ := ih hns
      exact ⟨first ++ rest, except_bind_eq_ok_iff.2
        ⟨first, hfirst, except_bind_eq_ok_iff.2 ⟨rest, hrest, rfl⟩⟩⟩

theorem exists_readHeritage
    {ns : List Node}
    (h : ∀ n ∈ ns, n.Every Syntax.Node.HasTarget) :
    ∃ result, readHeritage ns = .ok result := by
  rw [readHeritage_eq]
  refine exists_gatherBases fun n hn => ?_
  unfold readHeritagePart
  split
  · exact ⟨_, rfl⟩
  · split
    · rw [readClassHeritage_eq]
      refine exists_gatherBases fun c hc => ?_
      unfold readClassClause
      split
      · refine exists_readBaseClasses (fun m hm => ?_) []
        exact h n hn m ((Syntax.Node.within_of_mem_namedChildren hm).trans
          (Syntax.Node.within_of_mem_namedChildren hc))
      · split
        · exact ⟨_, rfl⟩
        · exact ⟨_, rfl⟩
    · exact ⟨_, rfl⟩

theorem readDeclaration_never_fails
    (kind : Kind)
    (h : n.Every Syntax.Node.HasTarget) :
    (readDeclaration kind n).FailsOnly fun _ => False := by
  unfold readDeclaration
  split
  · exact Pass.failsOnly_bind (Pass.failsOnly_report _) fun _ => Pass.failsOnly_pure _
  · dsimp only
    split
    · split
      · split
        · exact Pass.failsOnly_bind (Pass.failsOnly_report _) fun _ => Pass.failsOnly_pure _
        · exact Pass.failsOnly_pure _
      · exact Pass.failsOnly_pure _
    · refine Pass.failsOnly_bind (Pass.failsOnly_report _) fun _ => ?_
      obtain ⟨heritage, hheritage⟩ := exists_readHeritage fun c hc =>
        h.within (Syntax.Node.within_of_mem_namedChildren hc)
      rw [hheritage]
      exact Pass.failsOnly_pure _

/-- A sound tree is read. -/
theorem exists_readDeclarations
    {root : Node}
    (h : root.Every Syntax.Node.HasTarget)
    (hsound : root.hasError = false) :
    ∃ ds, (readDeclarations root).outcome = .ok ds := by
  refine Pass.exists_ok_of_failsOnly ?_
  unfold readDeclarations
  rw [if_neg (Bool.eq_false_iff.1 hsound)]
  refine Pass.failsOnly_bind (Pass.failsOnly_each fun n hn => ?_) fun _ => ?_
  · unfold readTopLevel
    split
    · exact Pass.failsOnly_pure _
    · rename_i found hfound
      split
      · exact readDeclaration_never_fails _ (h.within
          ((within_of_unwrap hfound).trans (Syntax.Node.within_of_mem_namedChildren hn)))
      · exact Pass.failsOnly_pure _
  · exact Pass.failsOnly_bind (Pass.failsOnly_report _) fun _ => Pass.failsOnly_pure _

end Reading

section Extraction

variable {options : Options} {root : Node} {ds : List Declaration} {groups : List Group}

theorem outcome_extract_of_faulty
    (h : root.hasError = true) :
    (extract options root).outcome = .error (malformedAt root.firstError) := by
  unfold extract readDeclarations
  rw [if_pos h]
  rfl

theorem outcome_extract_of_read
    (h : (readDeclarations root).outcome = .ok ds) :
    (extract options root).outcome = (assemble options ds).outcome :=
  Pass.outcome_bind_of_ok h _

theorem outcome_assemble_of_collect
    (h : (collect ds).outcome = .ok groups) :
    (assemble options ds).outcome =
      (resolveGroups options.depthLimit groups).outcome.map fun drafts =>
        ⟨(linkedModels drafts options.withHeritage).map Model.freeze⟩ := by
  unfold assemble
  rw [Pass.outcome_bind_of_ok h, Pass.outcome_bind]
  cases (resolveGroups options.depthLimit groups).outcome with
  | error f => rfl
  | ok drafts => rfl

theorem outcome_assemble_of_conflict
    {f : Fault}
    (h : (collect ds).outcome = .error f) :
    (assemble options ds).outcome = .error f := by
  unfold assemble
  rw [Pass.outcome_bind, h]
  rfl

/-- The models of drafts have the names of the groups they come from. -/
theorem names_linkedModels
    {drafts : List Draft}
    (h : (resolveGroups options.depthLimit groups).outcome = .ok drafts)
    (hgathers : Gathers groups ds) :
    ((linkedModels drafts options.withHeritage).map Model.freeze).map (·.name) =
      (ds.map (·.name)).eraseDups.map .str := by
  have hlinks := links_linkedModels_freeze (every_unlinked_resolveGroups h) options.withHeritage
  rw [← hgathers.names_eq, names_resolveGroups h, List.map_map (l := drafts)]
  exact names_of_links (g := ⟨_⟩) hlinks

/-- How the assembly of declarations ends, if their array types have elements. -/
theorem assemble_cases
    (options : Options)
    (hds : ∀ d ∈ ds, d.Every Syntax.Node.HasElement) :
    (¬ Consistent ds ∧ ∃ name first second line,
      (assemble options ds).outcome = .error (.conflict name first second line)) ∨
    (Consistent ds ∧ ∃ line,
      (assemble options ds).outcome = .error (.tooDeep options.depthLimit line)) ∨
    (Consistent ds ∧ ∃ g, (assemble options ds).outcome = .ok g ∧
      g.models.map (·.name) = (ds.map (·.name)).eraseDups.map .str) := by
  rcases collect_cases ds with
    ⟨groups, hcollect, hgathers, hconsistent⟩ | ⟨name, first, second, line, hcollect, hconflict⟩
  · refine .inr ?_
    rw [outcome_assemble_of_collect hcollect]
    cases hout : (resolveGroups options.depthLimit groups).outcome with
    | ok drafts => exact .inr ⟨hconsistent, _, rfl, names_linkedModels hout hgathers⟩
    | error f =>
        have hdeep : ∃ line, f = .tooDeep options.depthLimit line :=
          failsOnly_resolveGroups (P := fun f => ∃ line, f = .tooDeep options.depthLimit line)
            hgathers (fun line => ⟨line, rfl⟩) (fun d hd n hn m hm => .inl (hds d hd n hn m hm))
            f hout
        obtain ⟨line, rfl⟩ := hdeep
        exact .inl ⟨hconsistent, line, rfl⟩
  · exact .inl ⟨hconflict, name, first, second, line, outcome_assemble_of_conflict hcollect⟩

/-- How an extraction ends.

* It refuses the tree exactly if the tree is faulty.
* Otherwise the tree has declarations.  The extraction fails because of a conflict
  exactly if two of them have one name and two kinds.
* Otherwise it ends because a type stands too deep, or with a graph that has one model
  for each name, in order of first declaration.

So of a tree whose array types have elements and whose instantiated base classes have
targets, nothing else that is missing makes an extraction fail. -/
theorem extract_classified
    (options : Options)
    (hroot : root.Every fun n => n.HasElement ∧ n.HasTarget) :
    ((∃ trouble line column,
        (extract options root).outcome = .error (.malformed trouble line column)) ↔
      root.hasError = true) ∧
    (root.hasError = false → ∃ ds,
      (readDeclarations root).outcome = .ok ds ∧
      ((∃ name first second line,
          (extract options root).outcome = .error (.conflict name first second line)) ↔
        ∃ d ∈ ds, ∃ e ∈ ds, d.name = e.name ∧ d.kind ≠ e.kind) ∧
      ((¬ ∃ d ∈ ds, ∃ e ∈ ds, d.name = e.name ∧ d.kind ≠ e.kind) →
        (∃ line, (extract options root).outcome = .error (.tooDeep options.depthLimit line)) ∨
        ∃ g, (extract options root).outcome = .ok g ∧
          g.models.map (·.name) = (ds.map (·.name)).eraseDups.map .str)) := by
  have hread : root.hasError = false → ∃ ds, (readDeclarations root).outcome = .ok ds :=
    exists_readDeclarations fun m hm => (hroot m hm).2
  have helements : ∀ ds, (readDeclarations root).outcome = .ok ds →
      ∀ d ∈ ds, d.Every Syntax.Node.HasElement :=
    fun ds hds => every_of_readDeclarations (fun m hm => (hroot m hm).1) hds
  constructor
  · constructor
    · rintro ⟨trouble, line, column, hout⟩
      by_contra hsound
      obtain ⟨ds, hds⟩ := hread (Bool.eq_false_iff.2 hsound)
      rw [outcome_extract_of_read hds] at hout
      rcases assemble_cases options (helements ds hds) with
        ⟨-, _, _, _, _, h⟩ | ⟨-, _, h⟩ | ⟨-, _, h, -⟩
      · cases h.symm.trans hout
      · cases h.symm.trans hout
      · cases h.symm.trans hout
    · intro hfaulty
      exact ⟨_, _, _, outcome_extract_of_faulty hfaulty⟩
  · intro hsound
    obtain ⟨ds, hds⟩ := hread hsound
    have hconsistent : Consistent ds ↔ ¬ ∃ d ∈ ds, ∃ e ∈ ds, d.name = e.name ∧ d.kind ≠ e.kind := by
      simp only [Consistent, not_exists, not_and, not_not]
    refine ⟨ds, hds, ?_⟩
    rw [outcome_extract_of_read hds, ← hconsistent]
    rcases assemble_cases options (helements ds hds) with
      ⟨hconflict, hout⟩ | ⟨hagree, line, hout⟩ | ⟨hagree, g, hout, hnames⟩
    · exact ⟨iff_of_true hout (not_not.1 (mt hconsistent.2 hconflict)),
        fun h => absurd h hconflict⟩
    · refine ⟨iff_of_false ?_ (hconsistent.1 hagree), fun _ => .inl ⟨line, hout⟩⟩
      rintro ⟨_, _, _, _, h⟩
      cases hout.symm.trans h
    · refine ⟨iff_of_false ?_ (hconsistent.1 hagree), fun _ => .inr ⟨g, hout, hnames⟩⟩
      rintro ⟨_, _, _, _, h⟩
      cases hout.symm.trans h

/-- A tree with holes: an interface without a body, one without a name, an export of
nothing, and a class whose base class is instantiated with nothing. -/
def sparseTree : Node :=
  .build "program" "" none
    [.build "interface_declaration" "" none [.build "type_identifier" "A" (some "name") []],
      .build "interface_declaration" "" none [],
      .build "export_statement" "" none [],
      .build "class_declaration" "" none
        [.build "type_identifier" "B" (some "name") [],
          .build "class_heritage" "" none
            [.build "extends_clause" "" none
              [.build "instantiation_expression" "" none [.build "identifier" "A" none []]]],
          .build "class_body" "" (some "body")
            [.build "public_field_definition" "" none
              [.build "property_identifier" "xs" (some "name") [],
                .build "type_annotation" "" (some "type")
                  [.build "array_type" "A[]" none [.build "type_identifier" "A" none []]]]]]]

/-- With room for one level of nesting the tree gives its two models. -/
theorem extract_classified_sparseTree :
    (sparseTree.Every fun n => n.HasElement ∧ n.HasTarget) ∧
    sparseTree.hasError = false ∧
    ∃ g, (extract { depthLimit := 1 } sparseTree).outcome = .ok g ∧
      g.models.map (·.name) = [.str "A", .str "B"] := by
  have hroot : sparseTree.Every fun n => n.HasElement ∧ n.HasTarget := by decide +kernel
  have hsound : sparseTree.hasError = false := by decide +kernel
  refine ⟨hroot, hsound, ?_⟩
  obtain ⟨ds, hds, hconflict, hrest⟩ := (extract_classified { depthLimit := 1 } hroot).2 hsound
  obtain ⟨_, hread, hnames⟩ := Pass.exists_ok_of_toOption_map
    (p := readDeclarations sparseTree) (f := List.map Declaration.name)
    (b := ["A", "B"]) (by decide +kernel)
  obtain ⟨_, hok, -⟩ := Pass.exists_ok_of_toOption_map
    (p := extract { depthLimit := 1 } sparseTree) (f := fun g => g.models.length)
    (b := 2) (by decide +kernel)
  cases hds.symm.trans hread
  rw [hok] at hconflict hrest
  rcases hrest (fun h => by simpa using hconflict.mpr h) with ⟨_, h⟩ | ⟨g, hg, hg'⟩
  · cases h
  · exact ⟨g, hok.trans hg, by rw [hg', hnames]; rfl⟩

end Extraction

end DeclGraph
