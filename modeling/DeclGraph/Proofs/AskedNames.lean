import DeclGraph.Proofs.NodeParts
import DeclGraph.Proofs.Passes
import DeclGraph.TypeExpr.Resolve

/-!
# Names that resolution asks for

Resolving a written type asks of some names whether they are declared: of names that
stand alone, of the names of references, and of the type names in what is kept as
text.  `Written.asked` lists them, and `AsksOnly P` says of a node or a declaration
that all of these names satisfy `P`.

What resolution gives depends on the declared names only as far as they are asked
for: contexts that agree on these names (`Context.AgreesOn`) resolve everything alike.
-/

namespace DeclGraph

open Syntax (Node)

section Induction

/-- Induction on written types: what holds of a written type whenever it holds of
those it is made of holds of every written type. -/
@[elab_as_elim]
theorem Written.induct
    {P : Written → Prop}
    (absent : P .absent)
    (wrapped : ∀ line inner, P inner → P (.wrapped line inner))
    (hollow : ∀ line text, P (.hollow line text))
    (name : ∀ line name, P (.name line name))
    (array : ∀ line element, P element → P (.array line element))
    (bareArray : ∀ line, P (.bareArray line))
    (reference : ∀ line name args, (∀ a ∈ args, P a) → P (.reference line name args))
    (function : ∀ line typeParams params result, (∀ f ∈ params, P f.type) → P result →
      P (.function line typeParams params result))
    (keyed : ∀ line skipped key value, P key → P value → P (.keyed line skipped key value))
    (verbatim : ∀ line skipped text names, P (.verbatim line skipped text names)) :
    ∀ w, P w :=
  @Written.rec P (fun ws => ∀ w ∈ ws, P w) (fun fs => ∀ f ∈ fs, P f.type) (fun f => P f.type)
    absent wrapped hollow name array bareArray reference function keyed verbatim
    (fun _ h => absurd h List.not_mem_nil)
    (fun _ _ head tail => List.forall_mem_cons.2 ⟨head, tail⟩)
    (fun _ h => absurd h List.not_mem_nil)
    (fun _ _ head tail => List.forall_mem_cons.2 ⟨head, tail⟩)
    (fun _ _ _ h => h)

end Induction

section Asked

mutual

/-- The names that resolving a written type asks for. -/
def Written.asked : Written → List String
  | .absent => []
  | .wrapped _ inner => inner.asked
  | .hollow _ _ => []
  | .name _ name => [name]
  | .array _ element => element.asked
  | .bareArray _ => []
  | .reference _ name args => name :: askedAll args
  | .function _ _ params result => askedParams params ++ result.asked
  | .keyed _ _ key value => key.asked ++ value.asked
  | .verbatim _ _ _ names => names

def askedAll : List Written → List String
  | [] => []
  | w :: ws => w.asked ++ askedAll ws

def askedParams : List (Field Written) → List String
  | [] => []
  | ⟨_, w, _⟩ :: fs => w.asked ++ askedParams fs

end

theorem askedAll_eq_flatMap (ws : List Written) : askedAll ws = ws.flatMap Written.asked := by
  induction ws with
  | nil => rfl
  | cons w ws ih => rw [askedAll, ih, List.flatMap_cons]

theorem askedParams_eq_flatMap (fs : List (Field Written)) :
    askedParams fs = fs.flatMap fun f => f.type.asked := by
  induction fs with
  | nil => rfl
  | cons f fs ih =>
      obtain ⟨name, w, optional⟩ := f
      rw [askedParams, ih, List.flatMap_cons]

variable {P : String → Prop}

/-- A reference asks for its name and for what its arguments ask for. -/
theorem forall_asked_reference_iff {line : Nat} {name : String} {args : List Written} :
    (∀ label ∈ (Written.reference line name args).asked, P label)
      ↔
    P name ∧ ∀ w ∈ args, ∀ label ∈ w.asked, P label := by
  rw [Written.asked, askedAll_eq_flatMap, List.forall_mem_cons, List.forall_mem_flatMap]

/-- A signature asks for what its parameters and its result ask for. -/
theorem forall_asked_function_iff
    {line : Nat} {typeParams : List String} {params : List (Field Written)} {result : Written} :
    (∀ label ∈ (Written.function line typeParams params result).asked, P label)
      ↔
    (∀ f ∈ params, ∀ label ∈ f.type.asked, P label) ∧ ∀ label ∈ result.asked, P label := by
  rw [Written.asked, askedParams_eq_flatMap, List.forall_mem_append, List.forall_mem_flatMap]

theorem forall_asked_keyed_iff
    {line : Nat} {skipped : List String} {key value : Written} :
    (∀ label ∈ (Written.keyed line skipped key value).asked, P label)
      ↔
    (∀ label ∈ key.asked, P label) ∧ ∀ label ∈ value.asked, P label := by
  rw [Written.asked, List.forall_mem_append]

/-- Resolving a node asks only for names with a property. -/
def Syntax.Node.AsksOnly (P : String → Prop) (n : Node) : Prop :=
  ∀ label ∈ (Written.ofNode n).asked, P label

theorem asked_ofNode?
    {n : Option Node}
    (hn : ∀ m ∈ n, m.AsksOnly P) :
    ∀ label ∈ (Written.ofNode? n).asked, P label := by
  cases n with
  | none =>
      intro label hlabel
      cases hlabel
  | some m => exact hn m rfl

/-- Resolving a declaration asks only for names with a property: in its nodes, and as
the names of its base types. -/
structure Declaration.AsksOnly (P : String → Prop) (d : Declaration) : Prop where
  nodes : ∀ n ∈ d.nodes, n.AsksOnly P
  bases : ∀ b ∈ d.heritage, P b.name

namespace Declaration.AsksOnly

variable {d : Declaration} (h : d.AsksOnly P)
include h

theorem typeParams : ∀ p ∈ d.typeParams, ∀ n ∈ p.nodes, n.AsksOnly P :=
  fun _ hp n hn => h.nodes n (List.mem_append_left _ (List.mem_append_left _
    (List.mem_append_left _ (List.mem_flatMap.2 ⟨_, hp, hn⟩))))

theorem members : ∀ m ∈ d.members, ∀ n ∈ m.nodes, n.AsksOnly P :=
  fun _ hm n hn => h.nodes n (List.mem_append_left _ (List.mem_append_left _
    (List.mem_append_right _ (List.mem_flatMap.2 ⟨_, hm, hn⟩))))

theorem value : ∀ n ∈ d.value, n.AsksOnly P :=
  fun n hn => h.nodes n (List.mem_append_left _ (List.mem_append_right _ (Option.mem_toList.2 hn)))

theorem args : ∀ b ∈ d.heritage, ∀ n ∈ b.args, n.AsksOnly P :=
  fun _ hb n hn => h.nodes n (List.mem_append_right _ (List.mem_flatMap.2 ⟨_, hb, hn⟩))

end Declaration.AsksOnly

/-- Every declaration asks for some names. -/
theorem Declaration.asksOnly_true (d : Declaration) : d.AsksOnly fun _ => True :=
  ⟨fun _ _ _ _ => trivial, fun _ _ => trivial⟩

end Asked

section Agreement

namespace Context

/-- Contexts with the same limit that know the same names among those with a property. -/
structure AgreesOn (P : String → Prop) (c k : Context) : Prop where
  limit_eq : c.limit = k.limit
  known_iff : ∀ name, P name → (name ∈ c.known ↔ name ∈ k.known)

variable {c k : Context} {P : String → Prop}

theorem resolveAll_congr
    {scope : List String} {depth : Nat} {ws : List Written}
    (hws : ∀ w ∈ ws, resolve c scope depth w = resolve k scope depth w) :
    resolveAll c scope depth ws = resolveAll k scope depth ws := by
  induction ws with
  | nil => rfl
  | cons w ws ih =>
      obtain ⟨hw, hws⟩ := List.forall_mem_cons.1 hws
      rw [resolveAll, resolveAll, hw, ih hws]

theorem resolveParams_congr
    {scope : List String} {depth : Nat} {ps : List (Field Written)}
    (hps : ∀ p ∈ ps, resolve c scope depth p.type = resolve k scope depth p.type) :
    resolveParams c scope depth ps = resolveParams k scope depth ps := by
  induction ps with
  | nil => rfl
  | cons p ps ih =>
      obtain ⟨name, w, optional⟩ := p
      obtain ⟨hp, hps⟩ := List.forall_mem_cons.1 hps
      rw [resolveParams, resolveParams, hp, ih hps]

namespace AgreesOn

variable (h : c.AgreesOn P k)
include h

theorem contains_eq
    {name : String}
    (hname : P name) :
    c.known.contains name = k.known.contains name := by
  rw [Bool.eq_iff_iff, List.contains_iff_mem, List.contains_iff_mem]
  exact h.known_iff name hname

theorem checkDepth_eq : c.checkDepth = k.checkDepth := by
  funext depth line
  unfold Context.checkDepth
  rw [h.limit_eq]

theorem nameType_eq
    {name : String}
    (hname : P name)
    (scope : List String) :
    c.nameType scope name = k.nameType scope name := by
  unfold Context.nameType
  rw [h.contains_eq hname]

theorem referenceType_eq
    {name : String}
    (hname : P name)
    (scope : List String) (args : List TypeExpr) :
    c.referenceType scope name args = k.referenceType scope name args := by
  unfold Context.referenceType
  rw [h.nameType_eq hname]

theorem references_eq
    {names : List String}
    (hnames : ∀ name ∈ names, P name)
    (scope : List String) :
    c.references scope names = k.references scope names := by
  unfold Context.references
  refine congrArg (fun kept => (List.eraseDups kept).map TypeExpr.pending) ?_
  exact List.filter_congr fun name hname => by rw [h.contains_eq (hnames name hname)]

/-- Of the declared names, resolving only asks which of those that it meets they are. -/
theorem resolve_eq
    {w : Written}
    (hw : ∀ label ∈ w.asked, P label)
    (scope : List String) (depth : Nat) :
    resolve c scope depth w = resolve k scope depth w := by
  induction w using Written.induct generalizing scope depth with
  | absent => rfl
  | wrapped line inner ih => rw [resolve, resolve, h.checkDepth_eq, ih hw]
  | hollow line text => rw [resolve, resolve, h.checkDepth_eq]
  | name line name =>
      rw [resolve, resolve, h.checkDepth_eq, h.nameType_eq (hw name (List.mem_singleton_self _))]
  | array line element ih => rw [resolve, resolve, h.checkDepth_eq, ih hw]
  | bareArray line => rw [resolve, resolve, h.checkDepth_eq]
  | reference line name args ih =>
      obtain ⟨hname, hargs⟩ := forall_asked_reference_iff.1 hw
      rw [resolve, resolve, h.checkDepth_eq,
        resolveAll_congr fun w hmem => ih w hmem (hargs w hmem) scope (depth + 1)]
      simp only [h.referenceType_eq hname]
  | function line typeParams params result ihparams ihresult =>
      obtain ⟨hparams, hresult⟩ := forall_asked_function_iff.1 hw
      rw [resolve, resolve, h.checkDepth_eq, ihresult hresult,
        resolveParams_congr fun p hp => ihparams p hp (hparams p hp) (typeParams ++ scope) (depth + 1)]
  | keyed line skipped key value ihkey ihvalue =>
      obtain ⟨hkey, hvalue⟩ := forall_asked_keyed_iff.1 hw
      rw [resolve, resolve, h.checkDepth_eq, ihkey hkey, ihvalue hvalue]
  | verbatim line skipped text names =>
      have hnames : ∀ name ∈ names, P name := hw
      rw [resolve, resolve, h.checkDepth_eq, h.references_eq hnames]

theorem resolve_ofNode?_eq
    {n : Option Node}
    (hn : ∀ m ∈ n, m.AsksOnly P)
    (scope : List String) (depth : Nat) :
    resolve c scope depth (.ofNode? n) = resolve k scope depth (.ofNode? n) :=
  h.resolve_eq (asked_ofNode? hn) scope depth

theorem resolveNode?_eq
    {n : Option Node}
    (hn : ∀ m ∈ n, m.AsksOnly P)
    (scope : List String) :
    resolveNode? c scope n = resolveNode? k scope n := by
  cases n with
  | none => rfl
  | some n =>
      rw [resolveNode?, resolveNode?, resolveNode, resolveNode, h.resolve_ofNode?_eq hn]

theorem resolveTypeParam_eq
    {p : TypeParam Node}
    (hp : ∀ n ∈ p.nodes, n.AsksOnly P)
    (scope : List String) :
    resolveTypeParam c scope p = resolveTypeParam k scope p := by
  obtain ⟨hbound, hdefault⟩ := List.forall_mem_append.1 hp
  unfold resolveTypeParam
  rw [h.resolveNode?_eq (fun m hm => hbound m (Option.mem_toList.2 hm)),
    h.resolveNode?_eq (fun m hm => hdefault m (Option.mem_toList.2 hm))]

theorem resolveMember_eq
    {member : Member}
    (hmember : ∀ n ∈ member.nodes, n.AsksOnly P)
    (scope : List String) :
    resolveMember c scope member = resolveMember k scope member := by
  cases member with
  | property name type optional =>
      rw [resolveMember, resolveMember, resolveNode, resolveNode,
        h.resolve_ofNode?_eq fun n hn => hmember n (Option.mem_toList.2 hn)]
  | method name optional typeParams params result =>
      obtain ⟨hinner, hresult⟩ := List.forall_mem_append.1 hmember
      have hparams := (List.forall_mem_append.1 hinner).2
      have hall : ∀ inner, resolveParams c inner 1 (params.map writtenParam) =
          resolveParams k inner 1 (params.map writtenParam) := fun inner =>
        resolveParams_congr (List.forall_mem_map.2 fun p hp =>
          h.resolve_ofNode?_eq (fun n hn => hparams n (List.mem_filterMap.2 ⟨p, hp, hn⟩)) inner 1)
      rw [resolveMember, resolveMember, hall,
        h.resolve_ofNode?_eq fun n hn => hresult n (Option.mem_toList.2 hn)]
  | index key keyType valueType =>
      obtain ⟨hkey, hvalue⟩ := List.forall_mem_append.1 hmember
      rw [resolveMember, resolveMember,
        h.resolve_ofNode?_eq fun n hn => hkey n (Option.mem_toList.2 hn),
        h.resolve_ofNode?_eq fun n hn => hvalue n (Option.mem_toList.2 hn)]

theorem resolveHeritage_eq
    {base : Heritage}
    (hname : P base.name)
    (hargs : ∀ n ∈ base.args, n.AsksOnly P)
    (scope : List String) :
    resolveHeritage c scope base = resolveHeritage k scope base := by
  have hall : resolveAll c scope 1 (base.args.map .ofNode) =
      resolveAll k scope 1 (base.args.map .ofNode) :=
    resolveAll_congr (List.forall_mem_map.2 fun n hn => h.resolve_eq (hargs n hn) scope 1)
  unfold resolveHeritage
  rw [hall]
  simp only [h.referenceType_eq hname]

theorem resolveDeclaration_eq
    {d : Declaration}
    (hd : d.AsksOnly P)
    (draft : Draft) :
    resolveDeclaration c draft d = resolveDeclaration k draft d := by
  have hparams (scope : List String) : Pass.each (resolveTypeParam c scope) d.typeParams =
      Pass.each (resolveTypeParam k scope) d.typeParams :=
    Pass.each_congr fun p hp => h.resolveTypeParam_eq (hd.typeParams p hp) scope
  have hfields (scope : List String) : Pass.each (resolveMember c scope) d.members =
      Pass.each (resolveMember k scope) d.members :=
    Pass.each_congr fun m hm => h.resolveMember_eq (hd.members m hm) scope
  have hbases (scope : List String) : Pass.each (resolveHeritage c scope) d.heritage =
      Pass.each (resolveHeritage k scope) d.heritage :=
    Pass.each_congr fun b hb => h.resolveHeritage_eq (hd.bases b hb) (hd.args b hb) scope
  unfold resolveDeclaration
  dsimp only
  rw [hparams, h.resolveNode?_eq hd.value, hfields, hbases]

theorem resolveDeclarations_eq
    {ds : List Declaration}
    (hds : ∀ d ∈ ds, d.AsksOnly P)
    (draft : Draft) :
    resolveDeclarations c draft ds = resolveDeclarations k draft ds := by
  induction ds generalizing draft with
  | nil => rfl
  | cons d ds ih =>
      obtain ⟨hd, hds⟩ := List.forall_mem_cons.1 hds
      rw [resolveDeclarations, resolveDeclarations, h.resolveDeclaration_eq hd]
      exact congrArg (Bind.bind _) (funext fun next => ih hds next)

/-- Groups that ask only for names on which contexts agree have one draft in both. -/
theorem resolveGroup_eq
    {g : Group}
    (hg : ∀ d ∈ g.declarations, d.AsksOnly P) :
    resolveGroup c g = resolveGroup k g :=
  h.resolveDeclarations_eq hg _

end AgreesOn

end Context

end Agreement

end DeclGraph
