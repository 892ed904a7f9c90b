import DeclGraph.Extraction
import DeclGraph.Proofs.Groups
import DeclGraph.Proofs.NodeParts

/-!
# What declarations are read through

Declarations hold syntax nodes, and these matter only as the types they are read as.
If every node of some declarations is replaced by one that reads alike, then the
declarations have the same graph.

`Declaration.mapNodes` replaces the nodes of a declaration, and `ReadsAlike` says of a
node that its replacement is read as the same type.  Gathering does not look at nodes
at all, and resolving looks at each through `Written.ofNode` only.
-/

namespace DeclGraph

open Syntax (Node)

section Replacement

variable (φ : Node → Node)

/-- A node is read as its replacement is. -/
def ReadsAlike (n : Node) : Prop :=
  Written.ofNode (φ n) = Written.ofNode n

/-- Replaces the nodes of a type parameter. -/
def TypeParam.mapNodes (p : TypeParam Node) : TypeParam Node :=
  ⟨p.name, p.bound.map φ, p.default.map φ⟩

/-- Replaces the node of a parameter. -/
def Field.mapNode (f : Field (Option Node)) : Field (Option Node) :=
  ⟨f.name, f.type.map φ, f.optional⟩

/-- Replaces the nodes of a member. -/
def Member.mapNodes : Member → Member
  | .property name type optional => .property name (type.map φ) optional
  | .method name optional typeParams params result =>
    .method name optional (typeParams.map (TypeParam.mapNodes φ)) (params.map (Field.mapNode φ))
      (result.map φ)
  | .index key keyType valueType => .index key (keyType.map φ) (valueType.map φ)

/-- Replaces the nodes of a base type. -/
def Heritage.mapNodes (h : Heritage) : Heritage :=
  ⟨h.name, h.args.map φ⟩

/-- Replaces the nodes of a declaration. -/
def Declaration.mapNodes (d : Declaration) : Declaration :=
  { d with
    typeParams := d.typeParams.map (TypeParam.mapNodes φ)
    members := d.members.map (Member.mapNodes φ)
    value := d.value.map φ
    heritage := d.heritage.map (Heritage.mapNodes φ) }

/-- Replaces the nodes of the declarations of a group. -/
def Group.mapNodes (g : Group) : Group :=
  { g with declarations := g.declarations.map (Declaration.mapNodes φ) }

end Replacement

section Resolving

variable {φ : Node → Node} {ctx : Context} {scope : List String} {depth : Nat}

theorem ofNode?_map
    {n : Option Node}
    (hn : ∀ m ∈ n, ReadsAlike φ m) :
    Written.ofNode? (n.map φ) = Written.ofNode? n := by
  cases n with
  | none => rfl
  | some m => exact hn m rfl

theorem writtenParams_mapNode
    {params : List (Field (Option Node))}
    (hparams : ∀ f ∈ params, ∀ m ∈ f.type, ReadsAlike φ m) :
    (params.map (Field.mapNode φ)).map writtenParam = params.map writtenParam := by
  rw [List.map_map]
  refine List.map_congr_left fun f hf => ?_
  show (⟨f.name, .ofNode? (f.type.map φ), f.optional⟩ : Field Written) = writtenParam f
  rw [ofNode?_map (hparams f hf)]
  rfl

theorem resolveNode?_map
    {n : Option Node}
    (hn : ∀ m ∈ n, ReadsAlike φ m) :
    resolveNode? ctx scope (n.map φ) = resolveNode? ctx scope n := by
  cases n with
  | none => rfl
  | some m =>
      show (resolveNode ctx scope (some (φ m)) >>= _) = (resolveNode ctx scope (some m) >>= _)
      unfold resolveNode
      rw [← Option.map_some, ofNode?_map hn]

theorem resolveTypeParam_mapNodes
    {p : TypeParam Node}
    (hp : ∀ n ∈ p.nodes, ReadsAlike φ n) :
    resolveTypeParam ctx scope (p.mapNodes φ) = resolveTypeParam ctx scope p := by
  obtain ⟨hbound, hdefault⟩ := List.forall_mem_append.1 hp
  unfold resolveTypeParam TypeParam.mapNodes
  rw [resolveNode?_map fun m hm => hbound m (Option.mem_toList.2 hm),
    resolveNode?_map fun m hm => hdefault m (Option.mem_toList.2 hm)]

theorem resolveMember_mapNodes
    {member : Member}
    (hmember : ∀ n ∈ member.nodes, ReadsAlike φ n) :
    resolveMember ctx scope (member.mapNodes φ) = resolveMember ctx scope member := by
  cases member with
  | property name type optional =>
      have htype := ofNode?_map (n := type) fun m hm => hmember m (Option.mem_toList.2 hm)
      rw [Member.mapNodes, resolveMember, resolveMember, resolveNode, resolveNode, htype]
  | method name optional typeParams params result =>
      obtain ⟨hmember, hresult⟩ := List.forall_mem_append.1 hmember
      obtain ⟨-, hparams⟩ := List.forall_mem_append.1 hmember
      have hnames : (typeParams.map (TypeParam.mapNodes φ)).map (·.name) = typeParams.map (·.name) := by
        rw [List.map_map]
        rfl
      have hresult := ofNode?_map (n := result) fun m hm => hresult m (Option.mem_toList.2 hm)
      rw [Member.mapNodes, resolveMember, resolveMember, hnames, hresult,
        writtenParams_mapNode fun f hf m hm => hparams m (List.mem_filterMap.2 ⟨f, hf, hm⟩)]
  | index key keyType valueType =>
      obtain ⟨hkey, hvalue⟩ := List.forall_mem_append.1 hmember
      have hkey := ofNode?_map (n := keyType) fun m hm => hkey m (Option.mem_toList.2 hm)
      have hvalue := ofNode?_map (n := valueType) fun m hm => hvalue m (Option.mem_toList.2 hm)
      rw [Member.mapNodes, resolveMember, resolveMember, hkey, hvalue]

theorem resolveHeritage_mapNodes
    {h : Heritage}
    (hargs : ∀ n ∈ h.args, ReadsAlike φ n) :
    resolveHeritage ctx scope (h.mapNodes φ) = resolveHeritage ctx scope h := by
  have hwritten : (h.args.map φ).map Written.ofNode = h.args.map Written.ofNode := by
    rw [List.map_map]
    exact List.map_congr_left hargs
  unfold resolveHeritage Heritage.mapNodes
  rw [hwritten]

theorem resolveDeclaration_mapNodes
    {draft : Draft} {d : Declaration}
    (hd : ∀ n ∈ d.nodes, ReadsAlike φ n) :
    resolveDeclaration ctx draft (d.mapNodes φ) = resolveDeclaration ctx draft d := by
  obtain ⟨hd, hheritage⟩ := List.forall_mem_append.1 hd
  obtain ⟨hd, hvalue⟩ := List.forall_mem_append.1 hd
  obtain ⟨hparams, hmembers⟩ := List.forall_mem_append.1 hd
  have hnames : (d.typeParams.map (TypeParam.mapNodes φ)).map (·.name) = d.typeParams.map (·.name) := by
    rw [List.map_map]
    rfl
  unfold resolveDeclaration Declaration.mapNodes
  dsimp only
  rw [hnames, resolveNode?_map fun m hm => hvalue m (Option.mem_toList.2 hm),
    Pass.each_map_eq fun p hp => resolveTypeParam_mapNodes fun n hn =>
      hparams n (List.mem_flatMap.2 ⟨p, hp, hn⟩),
    Pass.each_map_eq fun member hmember => resolveMember_mapNodes fun n hn =>
      hmembers n (List.mem_flatMap.2 ⟨member, hmember, hn⟩),
    Pass.each_map_eq fun base hbase => resolveHeritage_mapNodes fun n hn =>
      hheritage n (List.mem_flatMap.2 ⟨base, hbase, hn⟩)]

theorem resolveDeclarations_mapNodes
    {draft : Draft} {ds : List Declaration}
    (hds : ∀ d ∈ ds, ∀ n ∈ d.nodes, ReadsAlike φ n) :
    resolveDeclarations ctx draft (ds.map (Declaration.mapNodes φ)) =
      resolveDeclarations ctx draft ds := by
  induction ds generalizing draft with
  | nil => rfl
  | cons d ds ih =>
      obtain ⟨hd, hds⟩ := List.forall_mem_cons.1 hds
      rw [List.map_cons, resolveDeclarations, resolveDeclarations, resolveDeclaration_mapNodes hd]
      exact Pass.bind_congr_of_ok fun next _ => ih hds

/-- Groups of declarations whose nodes read alike are resolved alike. -/
theorem resolveGroups_mapNodes
    {limit : Int} {gs : List Group}
    (hgs : ∀ g ∈ gs, ∀ d ∈ g.declarations, ∀ n ∈ d.nodes, ReadsAlike φ n) :
    resolveGroups limit (gs.map (Group.mapNodes φ)) = resolveGroups limit gs := by
  have hnames : (gs.map (Group.mapNodes φ)).map (·.name) = gs.map (·.name) := by
    rw [List.map_map]
    rfl
  unfold resolveGroups
  rw [hnames]
  exact Pass.each_map_eq fun g hg => resolveDeclarations_mapNodes (hgs g hg)

end Resolving

section Assembling

variable {φ : Node → Node}

theorem Group.mapNodes_concat (g : Group) (d : Declaration) :
    ({ g with declarations := g.declarations ++ [d] } : Group).mapNodes φ =
      { g.mapNodes φ with declarations := (g.mapNodes φ).declarations ++ [d.mapNodes φ] } := by
  unfold Group.mapNodes
  rw [List.map_append]
  rfl

theorem addDeclaration_mapNodes (d : Declaration) (gs : List Group) :
    addDeclaration (d.mapNodes φ) (gs.map (Group.mapNodes φ)) =
      (addDeclaration d gs).map (List.map (Group.mapNodes φ)) := by
  induction gs with
  | nil => rfl
  | cons g gs ih =>
      rw [List.map_cons, addDeclaration, addDeclaration, ih]
      show (if (g.name == d.name) = true then _ else _) = _
      split
      · show (if (g.kind == d.kind) = true then _ else _) = _
        split
        · rw [Pass.map_bind, Pass.map_pure, List.map_cons, Group.mapNodes_concat]
          rfl
        · rfl
      · simp only [Pass.map_bind, Pass.map_pure, Pass.bind_map, List.map_cons]

theorem addDeclarations_mapNodes (gs : List Group) (ds : List Declaration) :
    addDeclarations (gs.map (Group.mapNodes φ)) (ds.map (Declaration.mapNodes φ)) =
      (addDeclarations gs ds).map (List.map (Group.mapNodes φ)) := by
  induction ds generalizing gs with
  | nil => rfl
  | cons d ds ih =>
      rw [List.map_cons, addDeclarations, addDeclarations, addDeclaration_mapNodes, Pass.bind_map,
        Pass.map_bind]
      exact Pass.bind_congr_of_ok fun next _ => ih next

/-- Gathering does not look at nodes. -/
theorem collect_mapNodes (ds : List Declaration) :
    collect (ds.map (Declaration.mapNodes φ)) =
      (collect ds).map (List.map (Group.mapNodes φ)) :=
  addDeclarations_mapNodes [] ds

/-- Declarations whose nodes read alike have the same graph. -/
theorem assemble_mapNodes
    (options : Options)
    {ds : List Declaration}
    (hds : ∀ d ∈ ds, ∀ n ∈ d.nodes, ReadsAlike φ n) :
    assemble options (ds.map (Declaration.mapNodes φ)) = assemble options ds := by
  unfold assemble
  rw [collect_mapNodes, Pass.bind_map]
  refine Pass.bind_congr_of_ok fun groups hgroups => ?_
  have hgathers := gathers_collect hgroups
  rw [resolveGroups_mapNodes fun g hg d hd => hds d ((hgathers.mem_declarations_iff hg).1 hd).1]

end Assembling

end DeclGraph
