import DeclGraph.Proofs.LinkedGraph
import DeclGraph.Proofs.Stripping

/-!
# Comments in declarations

Comments that stand aside do not change an extraction (`extract_strip`): the tree
without them gives the same graph or the same fault, and the same events.

Reading a declaration and stripping its tree commute, for its base types, its head and
its body, and comments between declarations declare nothing.  What is read then differs
by stripped nodes only, and these read alike.

A comment that does not stand aside is taken for a part, so it can change the graph.
-/

namespace DeclGraph

open Syntax (Node)

section Heritage

variable {n : Node}

theorem readBaseType_strip
    (h : n.Every CommentsAside) :
    readBaseType n.strip = (readBaseType n).mapNodes Syntax.Node.strip := by
  unfold readBaseType
  rw [n.kind_strip, n.text_strip]
  split
  · rename_i hkind
    have hargs := referenceArgs_strip h (beq_iff_eq.1 hkind)
    unfold referenceArgs at hargs
    rw [text_child?_strip h.self, hargs]
    rfl
  · rfl

theorem map_readBaseType_strip
    (h : n.Every CommentsAside)
    (hkind : n.kind ∈ listKinds) :
    n.strip.namedChildren.map readBaseType =
      (n.namedChildren.map readBaseType).map (Heritage.mapNodes Syntax.Node.strip) := by
  rw [Syntax.Node.namedChildren_strip_of_forall (h.self.all hkind), List.map_map, List.map_map]
  exact List.map_congr_left fun c hc => readBaseType_strip (h.namedChild hc)

theorem setLastArgs_mapNodes (φ : Node → Node) (bases : List Heritage) (args : List Node) :
    setLastArgs (bases.map (Heritage.mapNodes φ)) (args.map φ) =
      (setLastArgs bases args).map (Heritage.mapNodes φ) := by
  unfold setLastArgs
  rw [List.getLast?_map]
  cases bases.getLast? with
  | none => rfl
  | some h =>
      dsimp only [Option.map_some]
      rw [List.map_append, List.map_dropLast]
      rfl

/-- The type arguments that follow an instantiated base class. -/
def instantiationArgs : List Node → List Node
  | r :: _ => if r.kind == "type_arguments" then r.namedChildren else []
  | [] => []

theorem instantiationArgs_strip
    {rest : List Node}
    (hfirst : ∀ r ∈ rest.head?, r.isConstruct = true ∧ CommentsAside r) :
    instantiationArgs ((rest.filter Syntax.Node.isConstruct).map Syntax.Node.strip) =
      (instantiationArgs rest).map Syntax.Node.strip := by
  cases rest with
  | nil => rfl
  | cons r rest =>
      obtain ⟨hconstruct, hr⟩ := hfirst r rfl
      rw [List.filter_cons_of_pos hconstruct, List.map_cons, instantiationArgs, instantiationArgs,
        r.kind_strip]
      split
      · rename_i hkind
        have hlist : r.kind ∈ listKinds := Syntax.Node.kind_mem_of_beq hkind (by decide)
        exact Syntax.Node.namedChildren_strip_of_forall (hr.all hlist)
      · rfl

theorem readBaseClasses_strip
    {ns : List Node}
    (hns : ∀ n ∈ ns, n.Every CommentsAside)
    (bases : List Heritage) :
    readBaseClasses (bases.map (Heritage.mapNodes Syntax.Node.strip)) (ns.map Syntax.Node.strip) =
      (readBaseClasses bases ns).map (List.map (Heritage.mapNodes Syntax.Node.strip)) := by
  induction ns generalizing bases with
  | nil => rfl
  | cons n ns ih =>
      obtain ⟨hn, hns⟩ := List.forall_mem_cons.1 hns
      rw [List.map_cons, readBaseClasses, readBaseClasses, n.kind_strip, n.text_strip]
      split
      · rename_i hkind
        have hlist : n.kind ∈ listKinds := Syntax.Node.kind_mem_of_beq hkind (by decide)
        rw [Syntax.Node.namedChildren_strip_of_forall (hn.self.all hlist), setLastArgs_mapNodes]
        exact ih hns _
      · split
        · rename_i hkind
          have htaken := hn.self.target (beq_iff_eq.1 hkind)
          rw [Syntax.Node.namedChildren_strip]
          cases hchildren : n.namedChildren with
          | nil => rfl
          | cons target rest =>
              rw [hchildren] at htaken
              have htarget : target.isConstruct = true := htaken target (by simp)
              have hfirst : ∀ r ∈ rest.head?, r.isConstruct = true ∧ CommentsAside r := by
                intro r hr
                obtain ⟨rest, rfl⟩ := List.head?_eq_some_iff.1 hr
                exact ⟨htaken r (by simp), (hn.namedChild (by rw [hchildren]; simp)).self⟩
              rw [List.filter_cons_of_pos htarget, List.map_cons]
              show readBaseClasses (_ ++ [⟨target.strip.text, instantiationArgs _⟩]) _ =
                (readBaseClasses (bases ++ [⟨target.text, instantiationArgs rest⟩]) ns).map _
              rw [← ih hns _, target.text_strip, instantiationArgs_strip hfirst, List.map_append]
              rfl
        · rw [← ih hns _, List.map_append]
          rfl

theorem gatherBases_strip
    {read : Node → Except Fault (List Heritage)} {ns : List Node}
    (hcomment : ∀ n, n.isConstruct = false → read n = .ok [])
    (hread : ∀ n ∈ ns, read n.strip =
      (read n).map (List.map (Heritage.mapNodes Syntax.Node.strip))) :
    gatherBases read ((ns.filter Syntax.Node.isConstruct).map Syntax.Node.strip) =
      (gatherBases read ns).map (List.map (Heritage.mapNodes Syntax.Node.strip)) := by
  induction ns with
  | nil => rfl
  | cons n ns ih =>
      obtain ⟨hn, hns⟩ := List.forall_mem_cons.1 hread
      cases hconstruct : n.isConstruct with
      | true =>
          rw [List.filter_cons_of_pos hconstruct, List.map_cons, gatherBases, gatherBases, hn, ih hns]
          cases read n with
          | error f => rfl
          | ok first =>
              cases gatherBases read ns with
              | error f => rfl
              | ok rest => exact congrArg Except.ok List.map_append.symm
      | false =>
          rw [List.filter_cons_of_neg (by simp [hconstruct]), gatherBases, hcomment n hconstruct,
            ih hns]
          cases gatherBases read ns with
          | error f => rfl
          | ok rest => rfl

theorem readClassClause_strip
    (h : n.Every CommentsAside) :
    readClassClause n.strip =
      (readClassClause n).map (List.map (Heritage.mapNodes Syntax.Node.strip)) := by
  unfold readClassClause
  rw [n.kind_strip]
  split
  · rename_i hkind
    have hlist : n.kind ∈ listKinds := Syntax.Node.kind_mem_of_beq hkind (by decide)
    rw [Syntax.Node.namedChildren_strip_of_forall (h.self.all hlist)]
    have hchildren : ∀ c ∈ n.namedChildren, c.Every CommentsAside := fun c hc => h.namedChild hc
    exact readBaseClasses_strip hchildren []
  · split
    · rename_i hkind
      have hlist : n.kind ∈ listKinds := Syntax.Node.kind_mem_of_beq hkind (by decide)
      rw [map_readBaseType_strip h hlist]
      rfl
    · rfl

theorem readHeritagePart_strip
    (h : n.Every CommentsAside) :
    readHeritagePart n.strip =
      (readHeritagePart n).map (List.map (Heritage.mapNodes Syntax.Node.strip)) := by
  unfold readHeritagePart
  rw [n.kind_strip]
  split
  · rename_i hkind
    have hlist : n.kind ∈ listKinds := Syntax.Node.kind_mem_of_beq hkind (by decide)
    rw [map_readBaseType_strip h hlist]
    rfl
  · split
    · rw [readClassHeritage_eq, readClassHeritage_eq, Syntax.Node.namedChildren_strip]
      refine gatherBases_strip (fun c hc => ?_) fun c hc => readClassClause_strip (h.namedChild hc)
      unfold readClassClause
      rw [Syntax.Node.kind_of_isConstruct_eq_false hc]
      rfl
    · rfl

theorem readHeritage_strip
    (h : n.Every CommentsAside) :
    readHeritage n.strip.namedChildren =
      (readHeritage n.namedChildren).map (List.map (Heritage.mapNodes Syntax.Node.strip)) := by
  rw [readHeritage_eq, readHeritage_eq, Syntax.Node.namedChildren_strip]
  refine gatherBases_strip (fun c hc => ?_) fun c hc => readHeritagePart_strip (h.namedChild hc)
  unfold readHeritagePart
  rw [Syntax.Node.kind_of_isConstruct_eq_false hc]
  rfl

end Heritage

section Declarations

variable {n root : Node}

theorem unwrap_comment
    (h : n.isConstruct = false) :
    unwrap n = none := by
  rw [unwrap_eq, Syntax.Node.kind_of_isConstruct_eq_false h]
  rfl

theorem findSome?_unwrap_strip
    {cs : List Node}
    (h : ∀ c ∈ cs, unwrap c.strip = (unwrap c).map Syntax.Node.strip) :
    ((cs.filter Syntax.Node.isConstruct).map Syntax.Node.strip).findSome? unwrap =
      (cs.findSome? unwrap).map Syntax.Node.strip := by
  induction cs with
  | nil => rfl
  | cons c cs ih =>
      obtain ⟨hc, hcs⟩ := List.forall_mem_cons.1 h
      cases hconstruct : c.isConstruct with
      | true =>
          rw [List.filter_cons_of_pos hconstruct, List.map_cons, List.findSome?_cons,
            List.findSome?_cons, hc]
          cases unwrap c with
          | none => exact ih hcs
          | some found => rfl
      | false =>
          rw [List.filter_cons_of_neg (by simp [hconstruct]), List.findSome?_cons,
            unwrap_comment hconstruct]
          exact ih hcs

theorem unwrap_strip
    (h : n.Every CommentsAside) :
    unwrap n.strip = (unwrap n).map Syntax.Node.strip := by
  induction n using Syntax.Node.childInduct with
  | step n ih =>
      have hfirst : n.strip.namedChildren.findSome? unwrap =
          (n.namedChildren.findSome? unwrap).map Syntax.Node.strip := by
        rw [Syntax.Node.namedChildren_strip]
        refine findSome?_unwrap_strip fun c hc => ?_
        exact ih c (Syntax.Node.mem_children_of_mem_namedChildren hc) (h.namedChild hc)
      rw [unwrap_eq, unwrap_eq n, n.kind_strip, child?_strip h.self, child?_strip h.self, hfirst]
      split
      · rfl
      · split
        · cases hdeclared : n.child? "declaration" with
          | some declared =>
              exact ih declared (List.mem_of_find?_eq_some hdeclared) (h.child? hdeclared)
          | none =>
              cases hvalue : n.child? "value" with
              | none => rfl
              | some value =>
                  have hname : (value.strip.child? "name").isSome = (value.child? "name").isSome := by
                    rw [child?_strip (h.child? hvalue).self, Option.isSome_map]
                  dsimp only [Option.map_some, Option.map_none]
                  rw [value.kind_strip, hname]
                  split
                  · rfl
                  · rfl
        · split
          · rfl
          · rfl

/-- A declaration with what its body and its base types add. -/
def readWithBody (head : Declaration) (items : List BodyItem)
    (heritage : Except Fault (List Heritage)) : Pass (Option Declaration) := do
  Pass.report ((skippedOf items).map .memberSkipped)
  match heritage with
  | .ok heritage => return some { head with members := membersOf items, heritage }
  | .error f => Pass.fail f

theorem readWithBody_strip
    (head : Declaration)
    {body : Option Node}
    (h : ∀ n ∈ body, n.Every CommentsAside)
    (heritage : Except Fault (List Heritage)) :
    readWithBody (head.mapNodes Syntax.Node.strip) (readBody (body.map Syntax.Node.strip))
        (heritage.map (List.map (Heritage.mapNodes Syntax.Node.strip))) =
      (readWithBody head (readBody body) heritage).map
        (Option.map (Declaration.mapNodes Syntax.Node.strip)) := by
  unfold readWithBody
  rw [skippedOf_readBody_strip h, membersOf_readBody_strip h, Pass.map_bind]
  cases heritage with
  | error f => rfl
  | ok bases => rfl

/-- What a declaration has before its body is read. -/
def declarationHead (kind : Kind) (n name : Node) : Declaration :=
  { kind, name := name.text, line := n.line
    typeParams := readTypeParams (n.child? "type_parameters") }

theorem declarationHead_strip
    (kind : Kind)
    (h : n.Every CommentsAside)
    (name : Node) :
    declarationHead kind n.strip name.strip =
      (declarationHead kind n name).mapNodes Syntax.Node.strip := by
  unfold declarationHead
  rw [n.line_strip, name.text_strip, child?_strip h.self, readTypeParams_strip (every_of_child? h _)]
  rfl

theorem readDeclaration_eq (kind : Kind) (n : Node) :
    readDeclaration kind n =
      match n.child? "name" with
      | none => do
        Pass.report [.declarationSkipped kind n.line]
        return none
      | some name =>
        match kind with
        | .aliasDecl =>
          match n.child? "value" with
          | some value =>
            if value.kind == "object_type" then
              readWithBody (declarationHead kind n name) (readBody (some value)) (.ok [])
            else return some { declarationHead kind n name with value := some value }
          | none => return some (declarationHead kind n name)
        | _ =>
          readWithBody (declarationHead kind n name) (readBody (n.child? "body"))
            (readHeritage n.namedChildren) := by
  rfl

theorem readDeclaration_strip
    (kind : Kind)
    (h : n.Every CommentsAside) :
    readDeclaration kind n.strip =
      (readDeclaration kind n).map (Option.map (Declaration.mapNodes Syntax.Node.strip)) := by
  rw [readDeclaration_eq, readDeclaration_eq, n.line_strip, child?_strip h.self, child?_strip h.self,
    child?_strip h.self, readHeritage_strip h]
  cases n.child? "name" with
  | none => rfl
  | some name =>
      dsimp only [Option.map_some]
      rw [declarationHead_strip kind h]
      have hbody := readWithBody_strip (declarationHead kind n name) (every_of_child? h "body")
        (readHeritage n.namedChildren)
      cases kind with
      | aliasDecl =>
          cases hvalue : n.child? "value" with
          | none => rfl
          | some value =>
              dsimp only [Option.map_some]
              rw [value.kind_strip]
              split
              · exact readWithBody_strip _ (fun _ hm => h.child? (hvalue.trans hm)) (.ok [])
              · rfl
      | interfaceDecl => exact hbody
      | classDecl => exact hbody

theorem readTopLevel_strip
    (h : n.Every CommentsAside) :
    readTopLevel n.strip =
      (readTopLevel n).map (Option.map (Declaration.mapNodes Syntax.Node.strip)) := by
  unfold readTopLevel
  rw [unwrap_strip h]
  cases hfound : unwrap n with
  | none => rfl
  | some found =>
      dsimp only [Option.map_some]
      rw [found.kind_strip]
      cases declarationKind? found.kind with
      | none => rfl
      | some kind => exact readDeclaration_strip kind (h.within (within_of_unwrap hfound))

theorem readTopLevel_comment
    (h : n.isConstruct = false) :
    readTopLevel n = pure none := by
  unfold readTopLevel
  rw [unwrap_comment h]

/-- The declarations among several nodes. -/
def topLevelDeclarations (ns : List Node) : Pass (List Declaration) :=
  (Pass.each readTopLevel ns).map (List.filterMap id)

theorem topLevelDeclarations_cons (n : Node) (ns : List Node) :
    topLevelDeclarations (n :: ns) =
      readTopLevel n >>= fun d => (topLevelDeclarations ns).map (d.toList ++ ·) := by
  unfold topLevelDeclarations
  rw [Pass.each, Pass.map_bind]
  refine Pass.bind_congr_of_ok fun d _ => ?_
  rw [Pass.bind_pure_eq_map, Pass.map_map, Pass.map_map]
  cases d with
  | none => rfl
  | some d => rfl

theorem topLevelDeclarations_strip
    {ns : List Node}
    (h : ∀ n ∈ ns, n.Every CommentsAside) :
    topLevelDeclarations ((ns.filter Syntax.Node.isConstruct).map Syntax.Node.strip) =
      (topLevelDeclarations ns).map (List.map (Declaration.mapNodes Syntax.Node.strip)) := by
  induction ns with
  | nil => rfl
  | cons n ns ih =>
      obtain ⟨hn, hns⟩ := List.forall_mem_cons.1 h
      rw [topLevelDeclarations_cons]
      cases hconstruct : n.isConstruct with
      | false =>
          rw [List.filter_cons_of_neg (by simp [hconstruct]), ih hns,
            readTopLevel_comment hconstruct]
          exact (Pass.map_map _ _ _).symm
      | true =>
          rw [List.filter_cons_of_pos hconstruct, List.map_cons, topLevelDeclarations_cons,
            readTopLevel_strip hn, ih hns, Pass.bind_map, Pass.map_bind]
          refine Pass.bind_congr_of_ok fun d _ => ?_
          rw [Pass.map_map, Pass.map_map]
          cases d with
          | none => rfl
          | some d => rfl

theorem hasError_strip
    (h : n.hasError = false) :
    n.strip.hasError = false := by
  induction n using Syntax.Node.childInduct with
  | step n ih =>
      rw [Syntax.Node.hasError_eq, Bool.or_eq_false_iff] at h ⊢
      obtain ⟨hself, hchildren⟩ := h
      refine ⟨?_, List.any_eq_false.2 ?_⟩
      · cases n
        exact hself
      · rw [Syntax.Node.children_strip]
        refine List.forall_mem_map.2 fun c hc => ?_
        have hc := (List.mem_filter.1 hc).1
        have hsound := Bool.eq_false_iff.2 (List.any_eq_false.1 hchildren c hc)
        exact Bool.eq_false_iff.1 (ih c hc hsound)

/-- Without its comments a sound tree has the same declarations, of nodes without comments. -/
theorem readDeclarations_strip
    (hsound : root.hasError = false)
    (h : root.Every CommentsAside) :
    readDeclarations root.strip =
      (readDeclarations root).map (List.map (Declaration.mapNodes Syntax.Node.strip)) := by
  have hread : ∀ n : Node, n.hasError = false → readDeclarations n =
      topLevelDeclarations n.namedChildren >>= fun ds =>
        Pass.report [.declarations ds.length] >>= fun _ => pure ds := by
    intro n hn
    unfold readDeclarations topLevelDeclarations
    rw [hn, Pass.bind_map]
    rfl
  rw [hread root hsound, hread root.strip (hasError_strip hsound), Syntax.Node.namedChildren_strip,
    topLevelDeclarations_strip fun c hc => h.namedChild hc, Pass.bind_map, Pass.map_bind]
  refine Pass.bind_congr_of_ok fun ds _ => ?_
  rw [List.length_map, Pass.map_bind]
  rfl

/-- A sound tree in which no comment stands where something is taken by its field or its
place has the same extraction without its comments: the same graph or fault, and the same
events. -/
theorem extract_strip
    (options : Options)
    (hsound : root.hasError = false)
    (h : root.Every CommentsAside) :
    extract options root.strip = extract options root := by
  unfold extract
  rw [readDeclarations_strip hsound h, Pass.bind_map]
  refine Pass.bind_congr_of_ok fun ds hds => ?_
  refine assemble_mapNodes options fun d hd n hn => readsAlike_strip ?_
  exact every_of_readDeclarations h hds d hd n hn

/-- A tree with comments between declarations, in a body and behind the element of an array. -/
def commentedTree : Node :=
  .build "program" "" none
    [.build "comment" "// models" none [],
      .build "interface_declaration" "" none
        [.build "type_identifier" "A" (some "name") [],
          .build "comment" "/* body */" none [],
          .build "interface_body" "" (some "body")
            [.build "comment" "// links" none [],
              .build "property_signature" "" none
                [.build "property_identifier" "as" (some "name") [],
                  .build "type_annotation" "" (some "type")
                    [.build "array_type" "A /* own */ []" none
                      [.build "type_identifier" "A" none [],
                        .build "comment" "/* own */" none []]]]]]]

/-- A tree with a comment in front of the type of a property. -/
def commentedType : Node :=
  .build "program" "" none
    [.build "interface_declaration" "" none
      [.build "type_identifier" "A" (some "name") [],
        .build "interface_body" "" (some "body")
          [.build "property_signature" "" none
            [.build "property_identifier" "a" (some "name") [],
              .build "type_annotation" "" (some "type")
                [.build "comment" "/* c */" none [],
                  .build "predefined_type" "string" none []]]]]]

/-- The texts of the fields of a graph that are kept as text. -/
def Graph.fieldTexts (g : Graph) : List String :=
  g.models.flatMap fun m => m.schema.filterMap fun f =>
    match f.type with
    | .verbatim text _ => some text
    | _ => none

/-- The first tree has the same extraction without its comments.  In the second one the
comment is taken for the type. -/
theorem extract_strip_commentedTree :
    (commentedTree.hasError = false ∧
      commentedTree.Every CommentsAside ∧
      commentedTree.strip.size + 4 = commentedTree.size ∧
      extract {} commentedTree.strip = extract {} commentedTree) ∧
    (commentedType.hasError = false ∧
      ¬ commentedType.Every CommentsAside ∧
      ∃ g k,
        (extract {} commentedType).outcome = .ok g ∧ g.fieldTexts = ["/* c */"] ∧
        (extract {} commentedType.strip).outcome = .ok k ∧ k.fieldTexts = ["string"]) := by
  have hsound : commentedTree.hasError = false := by decide +kernel
  have haside : commentedTree.Every CommentsAside := by decide +kernel
  refine ⟨⟨hsound, haside, by decide +kernel, extract_strip {} hsound haside⟩, ?_⟩
  refine ⟨by decide +kernel, by decide +kernel, ?_⟩
  obtain ⟨g, hg, htext⟩ := Pass.exists_ok_of_toOption_map
    (p := extract {} commentedType) (f := Graph.fieldTexts) (b := ["/* c */"]) (by decide +kernel)
  obtain ⟨k, hk, htext'⟩ := Pass.exists_ok_of_toOption_map
    (p := extract {} commentedType.strip) (f := Graph.fieldTexts) (b := ["string"])
    (by decide +kernel)
  exact ⟨g, k, hg, htext, hk, htext'⟩

end Declarations

end DeclGraph
