import DeclGraph.Proofs.Constructs
import DeclGraph.Proofs.Merging

/-!
# Scopes of resolved types

A position in a type is given by a path of places (`Place`), and `TypeExpr.at?` looks up
what stands there.  The same path leads through the node that the type was resolved
from, and `Syntax.Node.SignatureAround` gives the function types that it enters on its
way.

Resolved types are in normal form (`TypeExpr.Normal`), and a type parameter in them is
one of the scope or is declared by a signature around it.  Both are carried through
resolution by `TypeExpr.Scoped`, which follows the constructs.  Every declaration is
resolved in the scope of its own type parameters, and the draft of a group has them all,
so outside of signatures a draft mentions only type parameters of its own.
-/

namespace DeclGraph

open Syntax (Node)

section Places

/-- Where a type stands in the type that it is immediately part of. -/
inductive Place where
  | reference (i : Nat)
  | element
  | key
  | value
  | argument (i : Nat)
  | parameter (i : Nat)
  | result
deriving DecidableEq, Repr

/-- The places inside a signature. -/
def Place.inSignature : Place → Bool
  | .parameter _ => true
  | .result => true
  | _ => false

/-- A path that enters a signature. -/
def InSignature (path : List Place) : Prop :=
  ∃ place ∈ path, place.inSignature = true

/-- What stands at a place of a type. -/
def TypeExpr.part? : TypeExpr → Place → Option TypeExpr
  | .verbatim _ references, .reference i => references[i]?
  | .array element, .element => some element
  | .keyed key _, .key => some key
  | .keyed _ value, .value => some value
  | .generic _ args _, .argument i => args[i]?
  | .function args _, .parameter i => args[i]?.map (·.type)
  | .function _ result, .result => some result
  | _, _ => none

/-- What stands at the end of a path into a type. -/
def TypeExpr.at? : TypeExpr → List Place → Option TypeExpr
  | t, [] => some t
  | t, place :: path => (t.part? place).bind fun p => p.at? path

variable {s t p : TypeExpr} {place : Place} {path : List Place}

theorem TypeExpr.exists_part?_of_mem_parts
    (h : p ∈ t.parts) :
    ∃ place, t.part? place = some p := by
  cases t with
  | verbatim text references =>
      obtain ⟨i, hi⟩ := List.mem_iff_getElem?.1 h
      exact ⟨.reference i, hi⟩
  | array element =>
      cases List.mem_singleton.1 h
      exact ⟨.element, rfl⟩
  | keyed key value =>
      rcases List.mem_pair.1 h with rfl | rfl
      · exact ⟨.key, rfl⟩
      · exact ⟨.value, rfl⟩
  | generic name args target =>
      obtain ⟨i, hi⟩ := List.mem_iff_getElem?.1 h
      exact ⟨.argument i, hi⟩
  | function args result =>
      rcases List.mem_append.1 h with h | h
      · obtain ⟨i, hi⟩ := List.mem_iff_getElem?.1 h
        rw [List.getElem?_map] at hi
        exact ⟨.parameter i, hi⟩
      · cases List.mem_singleton.1 h
        exact ⟨.result, rfl⟩
  | model target => cases h
  | pending name => cases h
  | param name => cases h

/-- Whatever occurs in a type stands at some path. -/
theorem TypeExpr.exists_at?_of_within
    (h : s.Within t) :
    ∃ path, t.at? path = some s := by
  induction h with
  | self => exact ⟨[], rfl⟩
  | part hp _ ih =>
      obtain ⟨path, hpath⟩ := ih
      obtain ⟨place, hplace⟩ := exists_part?_of_mem_parts hp
      exact ⟨place :: path, Option.bind_eq_some_iff.2 ⟨_, hplace, hpath⟩⟩

/-- The node at a place of a construct.  The argument of an array written as a reference
is its element. -/
def Shape.part? : Shape → Place → Option Node
  | .array _ element, .element => some element
  | .reference _ _ args, .element => args.head?
  | .reference _ _ args, .argument i => args[i]?
  | .function _ _ params _, .parameter i => params[i]?.bind (·.type)
  | .function _ _ _ result, .result => result
  | .keyed _ _ key _, .key => key
  | .keyed _ _ _ value, .value => value
  | _, _ => none

/-- The function types of a node that stand around a position of its type.  Wrappers
take no place in a type, so a path passes through them. -/
inductive Syntax.Node.SignatureAround : Node → List Place → Node → Prop
  | here
      {n t : Node} {place : Place} {path : List Place}
      (ht : n.annotated? = some t)
      (hkind : t.kind = "function_type")
      (hplace : place.inSignature = true) :
      SignatureAround n (place :: path) t
  | inner
      {n t m f : Node} {place : Place} {path : List Place}
      (ht : n.annotated? = some t)
      (hm : (typeShape t).part? place = some m)
      (hf : SignatureAround m path f) :
      SignatureAround n (place :: path) f
  | through
      {n t m f : Node} {line : Nat} {path : List Place}
      (ht : n.annotated? = some t)
      (hm : typeShape t = .wrapped line m)
      (hf : SignatureAround m path f) :
      SignatureAround n path f

/-- The type parameters that signatures of a node declare around a position. -/
def Syntax.Node.Binds (n : Node) (path : List Place) (name : String) : Prop :=
  ∃ f, n.SignatureAround path f ∧ name ∈ functionTypeParams f

theorem Syntax.Node.SignatureAround.inSignature
    {n f : Node}
    (h : n.SignatureAround path f) :
    InSignature path := by
  induction h with
  | here ht hkind hplace => exact ⟨_, List.mem_cons_self, hplace⟩
  | inner ht hm hf ih =>
      obtain ⟨place, hmem, hplace⟩ := ih
      exact ⟨place, List.mem_cons_of_mem _ hmem, hplace⟩
  | through ht hm hf ih => exact ih

end Places

section Scoped

/-- What holds at every depth of a resolved type.  No link has been made, a reference by
name is to a declared model whose name is not in scope, text comes with distinct
references, and a generic reference has arguments and does not denote an array. -/
def TypeExpr.Normal (known scope : List String) : TypeExpr → Prop
  | .verbatim _ references => ∃ names : List String, names.Nodup ∧ references = names.map .pending
  | .model _ => False
  | .pending name => name ∈ known ∧ name ∉ scope
  | .generic name args target =>
    args ≠ [] ∧ target = none ∧ ¬ (name ∈ arrayNames ∧ args.length = 1)
  | _ => True

/-- A type is in normal form at every depth, and a type parameter in it is in scope or
allowed where it stands. -/
def TypeExpr.Scoped
    (known scope : List String) (allowed : List Place → String → Prop) (t : TypeExpr) : Prop :=
  ∀ path s, t.at? path = some s →
    s.Normal known scope ∧ ∀ x, s = .param x → x ∈ scope ∨ allowed path x

namespace TypeExpr

variable {known scope : List String} {allowed inner : List Place → String → Prop}
  {t element key value result : TypeExpr} {args : List (Field TypeExpr)}

theorem scoped_iff :
    t.Scoped known scope allowed
      ↔
    (t.Normal known scope ∧ ∀ x, t = .param x → x ∈ scope ∨ allowed [] x) ∧
      ∀ place p, t.part? place = some p →
        p.Scoped known scope fun path => allowed (place :: path) := by
  constructor
  · intro h
    refine ⟨h [] t rfl, fun place p hp path s hs => ?_⟩
    exact h (place :: path) s (Option.bind_eq_some_iff.2 ⟨p, hp, hs⟩)
  · rintro ⟨htop, hparts⟩ path s hs
    cases path with
    | nil =>
        cases hs
        exact htop
    | cons place path =>
        obtain ⟨p, hp, hs⟩ := Option.bind_eq_some_iff.1 hs
        exact hparts place p hp path s hs

/-- What is scoped within more type parameters is scoped where these are allowed. -/
theorem Scoped.of_inner
    (params : List String)
    (h : t.Scoped known (params ++ scope) inner)
    (hparams : ∀ path, ∀ x ∈ params, allowed path x)
    (hinner : ∀ path x, inner path x → allowed path x) :
    t.Scoped known scope allowed := by
  intro path s hs
  obtain ⟨hnormal, hparam⟩ := h path s hs
  constructor
  · cases s with
    | pending name => exact ⟨hnormal.1, fun hmem => hnormal.2 (List.mem_append_right _ hmem)⟩
    | verbatim text references => exact hnormal
    | model target => exact hnormal
    | generic name args target => exact hnormal
    | param name => trivial
    | array element => trivial
    | keyed key value => trivial
    | function args result => trivial
  · intro x hx
    rcases hparam x hx with hmem | hallowed
    · rcases List.mem_append.1 hmem with hmem | hmem
      · exact .inr (hparams path x hmem)
      · exact .inl hmem
    · exact .inr (hinner path x hallowed)

theorem Scoped.mono
    (h : t.Scoped known scope inner)
    (hinner : ∀ path x, inner path x → allowed path x) :
    t.Scoped known scope allowed :=
  h.of_inner [] (fun _ _ hx => absurd hx List.not_mem_nil) hinner

theorem scoped_text (text : String) : (TypeExpr.verbatim text []).Scoped known scope allowed := by
  refine scoped_iff.2 ⟨⟨⟨[], List.nodup_nil, rfl⟩, fun x hx => by cases hx⟩, fun place p hp => ?_⟩
  cases place <;> cases hp

theorem scoped_array
    (h : element.Scoped known scope fun path => allowed (.element :: path)) :
    (TypeExpr.array element).Scoped known scope allowed := by
  refine scoped_iff.2 ⟨⟨trivial, fun x hx => by cases hx⟩, fun place p hp => ?_⟩
  cases place <;> cases hp
  exact h

theorem scoped_keyed
    (hkey : key.Scoped known scope fun path => allowed (.key :: path))
    (hvalue : value.Scoped known scope fun path => allowed (.value :: path)) :
    (TypeExpr.keyed key value).Scoped known scope allowed := by
  refine scoped_iff.2 ⟨⟨trivial, fun x hx => by cases hx⟩, fun place p hp => ?_⟩
  cases place <;> cases hp
  · exact hkey
  · exact hvalue

theorem scoped_function
    (hargs : ∀ (i : Nat) f, args[i]? = some f →
      f.type.Scoped known scope fun path => allowed (.parameter i :: path))
    (hresult : result.Scoped known scope fun path => allowed (.result :: path)) :
    (TypeExpr.function args result).Scoped known scope allowed := by
  refine scoped_iff.2 ⟨⟨trivial, fun x hx => by cases hx⟩, fun place p hp => ?_⟩
  cases place with
  | parameter i =>
      obtain ⟨f, hf, rfl⟩ := Option.map_eq_some_iff.1 hp
      exact hargs i f hf
  | result =>
      cases hp
      exact hresult
  | reference i => cases hp
  | element => cases hp
  | key => cases hp
  | value => cases hp
  | argument i => cases hp

end TypeExpr

open TypeExpr (scoped_iff)

variable {ctx : Context} {scope : List String} {allowed : List Place → String → Prop}

theorem scoped_pending
    {name : String}
    (hknown : name ∈ ctx.known)
    (hscope : name ∉ scope) :
    (TypeExpr.pending name).Scoped ctx.known scope allowed := by
  refine scoped_iff.2 ⟨⟨⟨hknown, hscope⟩, fun x hx => by cases hx⟩, fun place p hp => ?_⟩
  cases place <;> cases hp

theorem scoped_nameType (name : String) :
    (ctx.nameType scope name).Scoped ctx.known scope allowed := by
  unfold Context.nameType
  split
  · rename_i hscope
    refine scoped_iff.2 ⟨⟨trivial, fun x hx => ?_⟩, fun place p hp => ?_⟩
    · cases hx
      exact .inl (List.contains_iff_mem.1 hscope)
    · cases place <;> cases hp
  · rename_i hscope
    split
    · rename_i hknown
      exact scoped_pending (List.contains_iff_mem.1 hknown) (mt List.contains_iff_mem.2 hscope)
    · exact TypeExpr.scoped_text name

theorem scoped_references
    (text : String) (names : List String) :
    (TypeExpr.verbatim text (ctx.references scope names)).Scoped ctx.known scope allowed := by
  have hnormal : (TypeExpr.verbatim text (ctx.references scope names)).Normal ctx.known scope :=
    ⟨_, nodup_eraseDups _, rfl⟩
  refine scoped_iff.2 ⟨⟨hnormal, fun x hx => by cases hx⟩, fun place p hp => ?_⟩
  cases place with
  | reference i =>
      obtain ⟨name, -, hknown, hscope, rfl⟩ := mem_references_iff.1 (List.mem_of_getElem? hp)
      exact scoped_pending hknown hscope
  | element => cases hp
  | key => cases hp
  | value => cases hp
  | argument i => cases hp
  | parameter i => cases hp
  | result => cases hp

theorem scoped_generic
    {name : String} {args : List TypeExpr}
    (hnormal : args ≠ [] ∧ ¬ (name ∈ arrayNames ∧ args.length = 1))
    (hargs : ∀ (i : Nat) a, args[i]? = some a →
      a.Scoped ctx.known scope fun path => allowed (.argument i :: path)) :
    (TypeExpr.generic name args none).Scoped ctx.known scope allowed := by
  refine scoped_iff.2 ⟨⟨⟨hnormal.1, rfl, hnormal.2⟩, fun x hx => by cases hx⟩, fun place p hp => ?_⟩
  cases place with
  | argument i => exact hargs i p hp
  | reference i => cases hp
  | element => cases hp
  | key => cases hp
  | value => cases hp
  | parameter i => cases hp
  | result => cases hp

/-- A reference denotes a name, an array or a generic reference, by its name and the
number of its arguments. -/
theorem scoped_referenceType
    {args : List TypeExpr}
    (name : String)
    (hargs : ∀ (i : Nat) a, args[i]? = some a →
      a.Scoped ctx.known scope fun path => allowed (.argument i :: path))
    (helement : ∀ a, args = [a] →
      a.Scoped ctx.known scope fun path => allowed (.element :: path)) :
    (ctx.referenceType scope name args).Scoped ctx.known scope allowed := by
  unfold Context.referenceType
  split
  · exact scoped_nameType name
  · rename_i arg
    split
    · exact TypeExpr.scoped_array (helement arg rfl)
    · rename_i harray
      refine scoped_generic ⟨List.cons_ne_nil _ _, fun h => harray ?_⟩ hargs
      exact List.contains_iff_mem.2 h.1
  · rename_i hnil hone
    refine scoped_generic ⟨hnil, fun h => ?_⟩ hargs
    obtain ⟨a, ha⟩ := List.length_eq_one_iff.1 h.2
    exact hone a ha

end Scoped

section Resolving

open TypeExpr (scoped_text scoped_array scoped_keyed scoped_function)

variable {ctx : Context} {scope : List String} {depth : Nat} {n t m : Node} {r : TypeExpr}
  {path : List Place} {x : String}

theorem forall₂_getElem?
    {α β : Type} {R : α → β → Prop} {as : List α} {bs : List β} {i : Nat} {b : β}
    (h : List.Forall₂ R as bs)
    (hb : bs[i]? = some b) :
    ∃ a, as[i]? = some a ∧ R a b := by
  induction h generalizing i with
  | nil => cases hb
  | cons hab _ ih =>
      cases i with
      | zero =>
          cases hb
          exact ⟨_, rfl, hab⟩
      | succ i => exact ih hb

/-- Resolving a node gives a scoped type, in any scope and at any depth. -/
def ResolvesScoped (ctx : Context) (n : Node) : Prop :=
  ∀ scope depth r, (resolve ctx scope depth (.ofNode n)).outcome = .ok r →
    r.Scoped ctx.known scope n.Binds

theorem Syntax.Node.Binds.inner
    {place : Place}
    (ht : n.annotated? = some t)
    (hm : (typeShape t).part? place = some m)
    (h : m.Binds path x) :
    n.Binds (place :: path) x := by
  obtain ⟨f, hf, hx⟩ := h
  exact ⟨f, .inner ht hm hf, hx⟩

/-- A signature binds its own type parameters at all its places. -/
theorem Syntax.Node.binds_of_mem_params
    {place : Place}
    (ht : n.annotated? = some t)
    (hplace : place.inSignature = true)
    (hx : x ∈ (typeShape t).params) :
    n.Binds (place :: path) x := by
  rw [← signatureParams_eq, signatureParams] at hx
  split at hx
  · rename_i hkind
    exact ⟨t, .here ht hkind hplace, hx⟩
  · cases hx

theorem scoped_resolve_ofNode?
    {n : Option Node}
    (hn : ∀ m ∈ n, ResolvesScoped ctx m)
    (h : (resolve ctx scope depth (.ofNode? n)).outcome = .ok r) :
    r.Scoped ctx.known scope fun path x => ∃ m ∈ n, m.Binds path x := by
  cases n with
  | none =>
      cases resolve_absent_eq_ok_iff.1 h
      exact scoped_text "any"
  | some m => exact (hn m rfl scope depth r h).mono fun path x hx => ⟨m, rfl, hx⟩

/-- The only argument of an array is its element, any other one is an argument. -/
theorem scoped_resolve_reference
    {line : Nat} {name : String} {args : List Node} {allowed : List Place → String → Prop}
    (hargs : ∀ c ∈ args, ResolvesScoped ctx c)
    (hargument : ∀ (i : Nat) c, args[i]? = some c → ∀ path x, c.Binds path x →
      allowed (.argument i :: path) x)
    (helement : ∀ c, args.head? = some c → ∀ path x, c.Binds path x →
      allowed (.element :: path) x)
    (h : (resolve ctx scope depth (.reference line name (args.map .ofNode))).outcome = .ok r) :
    r.Scoped ctx.known scope allowed := by
  obtain ⟨-, ts, hts, rfl⟩ := resolve_reference_eq_ok_iff.1 h
  rw [List.forall₂_map_left_iff] at hts
  refine scoped_referenceType name (fun i a ha => ?_) (fun a ha => ?_)
  · obtain ⟨c, hc, hresolved⟩ := forall₂_getElem? hts ha
    exact (hargs c (List.mem_of_getElem? hc) _ _ _ hresolved).mono (hargument i c hc)
  · subst ha
    obtain ⟨c, _, hresolved, hnil, rfl⟩ := List.forall₂_cons_right_iff.1 hts
    exact (hargs c List.mem_cons_self _ _ _ hresolved).mono (helement c rfl)

/-- What stands in a signature is resolved in the scope of its type parameters. -/
theorem scoped_resolve_function
    {line : Nat} {typeParams : List String} {params : List (Field (Option Node))}
    {result : Option Node} {allowed : List Place → String → Prop}
    (hparts : ∀ c ∈ params.filterMap (·.type) ++ result.toList, ResolvesScoped ctx c)
    (hown : ∀ place path, place.inSignature = true → ∀ x ∈ typeParams, allowed (place :: path) x)
    (hparameter : ∀ (i : Nat) f, params[i]? = some f → ∀ path x,
      (∃ m ∈ f.type, m.Binds path x) → allowed (.parameter i :: path) x)
    (hresult : ∀ path x, (∃ m ∈ result, m.Binds path x) → allowed (.result :: path) x)
    (h : (resolve ctx scope depth (.function line typeParams (params.map writtenParam)
      (.ofNode? result))).outcome = .ok r) :
    r.Scoped ctx.known scope allowed := by
  obtain ⟨-, fs, s, hfs, hs, rfl⟩ := resolve_function_eq_ok_iff.1 h
  rw [List.forall₂_map_left_iff] at hfs
  refine scoped_function (fun i f hf => ?_) ?_
  · obtain ⟨p, hp, -, -, hresolved⟩ := forall₂_getElem? hfs hf
    have hnodes : ∀ m ∈ p.type, ResolvesScoped ctx m := fun m hm =>
      hparts m (List.mem_append_left _ (List.mem_filterMap.2 ⟨p, List.mem_of_getElem? hp, hm⟩))
    exact (scoped_resolve_ofNode? hnodes hresolved).of_inner typeParams
      (fun path => hown _ path rfl) (hparameter i p hp)
  · have hnodes : ∀ m ∈ result, ResolvesScoped ctx m := fun m hm =>
      hparts m (List.mem_append_right _ (Option.mem_toList.2 hm))
    exact (scoped_resolve_ofNode? hnodes hs).of_inner typeParams
      (fun path => hown _ path rfl) hresult

/-- One step of resolution: a construct is scoped if its parts are. -/
theorem scoped_resolve_written
    (ht : n.annotated? = some t)
    (hparts : ∀ c ∈ (typeShape t).parts, ResolvesScoped ctx c)
    (h : (resolve ctx scope depth (typeShape t).written).outcome = .ok r) :
    r.Scoped ctx.known scope n.Binds := by
  have hown (place : Place) (path : List Place) (hplace : place.inSignature = true) :
      ∀ x ∈ (typeShape t).params, n.Binds (place :: path) x := fun x hx =>
    Syntax.Node.binds_of_mem_params ht hplace hx
  have hinner {place : Place} {path : List Place} {x : String} {o : Option Node}
      (ho : (typeShape t).part? place = o) :
      (∃ m ∈ o, m.Binds path x) → n.Binds (place :: path) x :=
    fun ⟨m, hm, hx⟩ => hx.inner ht (ho.trans hm)
  cases hshape : typeShape t with
  | absent =>
      rw [hshape] at h
      cases resolve_absent_eq_ok_iff.1 h
      exact scoped_text "any"
  | wrapped line inner =>
      rw [hshape] at h hparts
      refine (hparts inner (List.mem_singleton_self _) _ _ _ (resolve_wrapped_eq_ok_iff.1 h).2).mono ?_
      rintro path x ⟨f, hf, hx⟩
      exact ⟨f, .through ht hshape hf, hx⟩
  | hollow line text =>
      rw [hshape] at h
      cases (resolve_hollow_eq_ok_iff.1 h).2
      exact scoped_text text
  | name line name =>
      rw [hshape] at h
      cases (resolve_name_eq_ok_iff.1 h).2
      exact scoped_nameType name
  | array line element =>
      rw [hshape] at h hparts hinner
      obtain ⟨-, e, he, rfl⟩ := resolve_array_eq_ok_iff.1 h
      refine scoped_array ((hparts element (List.mem_singleton_self _) _ _ _ he).mono fun path x hx => ?_)
      exact hinner rfl ⟨element, rfl, hx⟩
  | bareArray line =>
      rw [hshape] at h
      exact absurd h resolve_bareArray_ne_ok
  | reference line name args =>
      rw [hshape] at h hparts hinner
      refine scoped_resolve_reference hparts (fun i c hc path x hx => ?_) (fun c hc path x hx => ?_) h
      · exact hinner hc ⟨c, rfl, hx⟩
      · exact hinner hc ⟨c, rfl, hx⟩
  | function line typeParams params result =>
      rw [hshape] at h hparts hinner hown
      refine scoped_resolve_function hparts hown (fun i f hf path x => ?_) (fun path x => hinner rfl) h
      exact hinner (congrArg (Option.bind · Field.type) hf)
  | keyed line skipped key value =>
      rw [hshape] at h hparts hinner
      obtain ⟨-, k, v, hk, hv, rfl⟩ := resolve_keyed_eq_ok_iff.1 h
      have hkey := scoped_resolve_ofNode?
        (fun m hm => hparts m (List.mem_append_left _ (Option.mem_toList.2 hm))) hk
      have hvalue := scoped_resolve_ofNode?
        (fun m hm => hparts m (List.mem_append_right _ (Option.mem_toList.2 hm))) hv
      exact scoped_keyed (hkey.mono fun path x => hinner rfl) (hvalue.mono fun path x => hinner rfl)
  | verbatim line skipped text names =>
      rw [hshape] at h
      cases (resolve_verbatim_eq_ok_iff.1 h).2
      exact scoped_references text names

/-- Resolved types are scoped. -/
theorem resolvesScoped (n : Node) : ResolvesScoped ctx n := by
  induction n using Syntax.Node.typeInduct with
  | absent n hn =>
      intro scope depth r h
      rw [Written.ofNode_of_absent hn] at h
      cases resolve_absent_eq_ok_iff.1 h
      exact scoped_text "any"
  | type n t ht ih =>
      intro scope depth r h
      rw [Written.ofNode_of_type ht] at h
      exact scoped_resolve_written ht ih h

end Resolving

section Drafts

open TypeExpr (scoped_keyed scoped_function)

variable {ctx : Context} {scope : List String} {depth : Nat}

theorem InSignature.cons
    {path : List Place}
    (place : Place)
    (h : InSignature path) :
    InSignature (place :: path) := by
  obtain ⟨q, hq, hin⟩ := h
  exact ⟨q, List.mem_cons_of_mem _ hq, hin⟩

/-- A type is in normal form, and its type parameters outside of signatures are in scope. -/
abbrev TypeExpr.ScopedOutside (known scope : List String) (t : TypeExpr) : Prop :=
  t.Scoped known scope fun path _ => InSignature path

open TypeExpr (ScopedOutside)

theorem scopedOutside_of_resolve
    {n : Option Node} {t : TypeExpr}
    (h : (resolve ctx scope depth (.ofNode? n)).outcome = .ok t) :
    t.ScopedOutside ctx.known scope := by
  refine (scoped_resolve_ofNode? (fun m _ => resolvesScoped m) h).mono ?_
  rintro path x ⟨m, -, f, hf, -⟩
  exact hf.inSignature

theorem scopedOutside_of_resolveNode?
    {n : Option Node} {o : Option TypeExpr}
    (h : (resolveNode? ctx scope n).outcome = .ok o) :
    ∀ t ∈ o.toList, t.ScopedOutside ctx.known scope := by
  rw [resolveNode?_eq_ok_iff] at h
  intro t ht
  cases n with
  | none =>
      cases h
      cases ht
  | some c =>
      obtain ⟨u, hu, rfl⟩ := h
      cases List.mem_singleton.1 ht
      exact scopedOutside_of_resolve hu

theorem scopedOutside_of_resolveTypeParam
    {p : TypeParam Node} {q : TypeParam TypeExpr}
    (h : (resolveTypeParam ctx scope p).outcome = .ok q) :
    ∀ t ∈ q.types, t.ScopedOutside ctx.known scope := by
  obtain ⟨bound, hbound, hrest⟩ := Pass.outcome_bind_eq_ok_iff.1 h
  obtain ⟨default, hdefault, hq⟩ := Pass.outcome_bind_eq_ok_iff.1 hrest
  cases hq
  intro t ht
  rcases List.mem_append.1 ht with ht | ht
  · exact scopedOutside_of_resolveNode? hbound t ht
  · exact scopedOutside_of_resolveNode? hdefault t ht

/-- The signature of a method is one place around all that stands in it. -/
theorem scopedOutside_of_resolveMember
    {m : Member} {f : Field TypeExpr}
    (h : (resolveMember ctx scope m).outcome = .ok f) :
    f.type.ScopedOutside ctx.known scope := by
  cases m with
  | property name type optional =>
      obtain ⟨t, ht, hf⟩ := Pass.outcome_bind_eq_ok_iff.1 h
      cases hf
      exact scopedOutside_of_resolve ht
  | method name optional typeParams params result =>
      obtain ⟨args, hargs, hrest⟩ := Pass.outcome_bind_eq_ok_iff.1 h
      obtain ⟨r, hr, hf⟩ := Pass.outcome_bind_eq_ok_iff.1 hrest
      cases hf
      rw [resolveParams_eq_ok_iff, List.forall₂_map_left_iff] at hargs
      refine scoped_function (fun i a ha => ?_) ?_
      · obtain ⟨p, -, -, -, hresolved⟩ := forall₂_getElem? hargs ha
        exact (scopedOutside_of_resolve hresolved).of_inner _
          (fun path x _ => ⟨_, List.mem_cons_self, rfl⟩) (fun path x => InSignature.cons _)
      · exact (scopedOutside_of_resolve hr).of_inner _
          (fun path x _ => ⟨_, List.mem_cons_self, rfl⟩) (fun path x => InSignature.cons _)
  | index key keyType valueType =>
      obtain ⟨k, hk, hrest⟩ := Pass.outcome_bind_eq_ok_iff.1 h
      obtain ⟨v, hv, hf⟩ := Pass.outcome_bind_eq_ok_iff.1 hrest
      cases hf
      exact scoped_keyed
        ((scopedOutside_of_resolve hk).mono fun path x => InSignature.cons _)
        ((scopedOutside_of_resolve hv).mono fun path x => InSignature.cons _)

theorem scopedOutside_of_resolveHeritage
    {b : Heritage} {t : TypeExpr}
    (h : (resolveHeritage ctx scope b).outcome = .ok t) :
    t.ScopedOutside ctx.known scope := by
  obtain ⟨args, hargs, ht⟩ := Pass.outcome_bind_eq_ok_iff.1 h
  cases ht
  rw [resolveAll_eq_ok_iff, List.forall₂_map_left_iff] at hargs
  have hscoped : ∀ a ∈ args, a.ScopedOutside ctx.known scope :=
    forall_mem_of_forall₂ hargs fun n _ a ha => scopedOutside_of_resolve (n := some n) ha
  refine scoped_referenceType b.name (fun i a ha => ?_) (fun a ha => ?_)
  · exact (hscoped a (List.mem_of_getElem? ha)).mono fun path x => InSignature.cons _
  · exact (hscoped a (ha ▸ List.mem_singleton_self a)).mono fun path x => InSignature.cons _

/-- The types of a draft are in normal form, and outside of signatures they mention only
type parameters of the draft. -/
def Draft.Scoped (known : List String) (d : Draft) : Prop :=
  ∀ t ∈ d.types, t.Scoped known [] fun path x => InSignature path ∨ x ∈ d.typeParams.map (·.name)

theorem Draft.Scoped.merge
    {known : List String} {d e : Draft}
    (hd : d.Scoped known)
    (he : e.Scoped known) :
    (d.merge e).Scoped known := by
  intro t ht
  have hmem : t ∈ d.types ∨ t ∈ e.types := by
    simp only [Draft.types, Draft.merge, List.mem_append, List.map_append, List.mem_flatMap] at ht ⊢
    rcases ht with ((ht | ht) | ⟨p, hp, ht⟩) | ht | ht
    · exact .inl (.inl (.inl ht))
    · exact .inr (.inl (.inl ht))
    · rcases mem_of_mem_mergeTypeParams hp with hp | hp
      · exact .inl (.inl (.inr ⟨p, hp, ht⟩))
      · exact .inr (.inl (.inr ⟨p, hp, ht⟩))
    · exact .inl (.inr ht)
    · exact .inr (.inr ht)
  rcases hmem with hmem | hmem
  · exact (hd t hmem).mono fun path x => Or.imp_right fun hx => mem_names_mergeTypeParams.2 (.inl hx)
  · exact (he t hmem).mono fun path x => Or.imp_right fun hx => mem_names_mergeTypeParams.2 (.inr hx)

/-- What a declaration gives by itself has the type parameters of its scope. -/
theorem scoped_of_resolveDeclaration
    {d : Declaration} {name : String} {kind : Kind} {own : Draft}
    (h : (resolveDeclaration ctx { name, kind } d).outcome = .ok own) :
    own.Scoped ctx.known := by
  obtain ⟨typeParams, value, fields, heritage, hparams, hvalue, hfields, hheritage, rfl⟩ :=
    resolveDeclaration_eq_ok_iff.1 h
  intro t ht
  have hscoped : t.ScopedOutside ctx.known (d.typeParams.map (·.name) ++ []) := by
    rw [List.append_nil]
    simp only [Draft.types, List.nil_append, List.mem_append, List.map_append, List.map_map,
      List.mem_flatMap] at ht
    rcases ht with ((ht | ht) | ⟨q, hq, ht⟩) | ht
    · obtain ⟨u, hu, rfl⟩ := List.mem_map.1 ht
      exact scopedOutside_of_resolveNode? hvalue u hu
    · obtain ⟨f, hf, rfl⟩ := List.mem_map.1 ht
      exact forall_mem_of_forall₂ hfields
        (fun m _ f hresolved => scopedOutside_of_resolveMember hresolved) f hf
    · have hq := (mem_of_mem_mergeTypeParams hq).resolve_left List.not_mem_nil
      exact forall_mem_of_forall₂ hparams
        (fun p _ q hresolved => scopedOutside_of_resolveTypeParam hresolved) q hq t ht
    · exact forall_mem_of_forall₂ hheritage
        (fun b _ t hresolved => scopedOutside_of_resolveHeritage hresolved) t ht
  refine hscoped.of_inner _ (fun path x hx => .inr ?_) (fun path x => .inl)
  refine mem_names_mergeTypeParams.2 (.inr ?_)
  rw [names_resolveTypeParams hparams]
  exact hx

theorem scoped_of_resolveDeclarations
    {ds : List Declaration} {draft result : Draft}
    (h : (resolveDeclarations ctx draft ds).outcome = .ok result)
    (hdraft : draft.Scoped ctx.known) :
    result.Scoped ctx.known := by
  induction ds generalizing draft with
  | nil =>
      cases h
      exact hdraft
  | cons d ds ih =>
      obtain ⟨next, hnext, hrest⟩ := Pass.outcome_bind_eq_ok_iff.1 h
      obtain ⟨own, hown, rfl⟩ := (resolveDeclaration_eq_ok_iff_merge d.name d.kind).1 hnext
      exact ih hrest (hdraft.merge (scoped_of_resolveDeclaration hown))

theorem TypeExpr.Scoped.every_normal
    {known scope : List String} {allowed : List Place → String → Prop} {t : TypeExpr}
    (h : t.Scoped known scope allowed) :
    t.Every (TypeExpr.Normal known scope) := by
  intro s hs
  obtain ⟨path, hpath⟩ := TypeExpr.exists_at?_of_within hs
  exact (h path s hpath).1

/-- Resolved types are in normal form and well scoped.

* At every depth of a resolved type the normal form holds, and a type parameter is one of
  the scope or is declared by a function type of the node around its position.
* The same normal form holds of all types of a group, and outside of signatures they
  mention only the type parameters that the group has. -/
theorem resolved_types_scoped :
    (∀ (ctx : Context) (scope : List String) (n : Node) (t : TypeExpr),
      (resolveNode ctx scope (some n)).outcome = .ok t →
        t.Every (TypeExpr.Normal ctx.known scope) ∧
        ∀ path x, t.at? path = some (.param x) →
          x ∈ scope ∨ ∃ f, n.SignatureAround path f ∧ x ∈ functionTypeParams f) ∧
    ∀ (ctx : Context) (g : Group) (d : Draft),
      (resolveGroup ctx g).outcome = .ok d →
        ∀ t ∈ d.types,
          t.Every (TypeExpr.Normal ctx.known []) ∧
          ∀ path x, t.at? path = some (.param x) → ¬ InSignature path →
            x ∈ d.typeParams.map (·.name) := by
  constructor
  · intro ctx scope n t h
    have hscoped := resolvesScoped n scope 0 t h
    exact ⟨hscoped.every_normal, fun path x hx => (hscoped path _ hx).2 x rfl⟩
  · intro ctx g d h t ht
    have hempty : ({ name := g.name, kind := g.kind } : Draft).Scoped ctx.known :=
      fun t ht => by cases ht
    have hscoped := scoped_of_resolveDeclarations h hempty t ht
    refine ⟨hscoped.every_normal, fun path x hx houtside => ?_⟩
    have hparam := (hscoped path _ hx).2 x rfl
    exact (hparam.resolve_left List.not_mem_nil).resolve_left houtside

/-- The name of a type parameter. -/
def TypeExpr.paramName? : TypeExpr → Option String
  | .param name => some name
  | _ => none

theorem TypeExpr.eq_param_of_paramName?
    {s : TypeExpr} {x : String}
    (h : s.paramName? = some x) :
    s = .param x := by
  cases s <;> cases h
  rfl

/-- A signature that declares `U`, from arrays of `U` to `T`. -/
def genericSignature : Node :=
  .build "function_type" "" none
    [.build "type_parameters" "" (some "type_parameters")
        [.build "type_parameter" "" none [.build "type_identifier" "U" (some "name") []]],
      .build "formal_parameters" "" (some "parameters")
        [.build "required_parameter" "" none
          [.build "identifier" "x" (some "pattern") [],
            .build "array_type" "U[]" (some "type") [.build "type_identifier" "U" none []]]],
      .build "type_identifier" "T" (some "return_type") []]

/-- In the scope of `T` alone, `U` is bound by the signature itself; and the item of a
generic box is of the type that the box is given. -/
theorem resolved_types_scoped_genericSignature :
    (∃ t, (resolveNode ⟨["U"], 50⟩ ["T"] (some genericSignature)).outcome = .ok t ∧
      t.at? [.parameter 0, .element] = some (.param "U") ∧
      t.Every (TypeExpr.Normal ["U"] ["T"]) ∧
      ("U" ∈ ["T"] ∨ ∃ f, genericSignature.SignatureAround [.parameter 0, .element] f ∧
        "U" ∈ functionTypeParams f)) ∧
    ∃ d, (resolveGroup ⟨["Box"], 50⟩
        ⟨"Box", .interfaceDecl, [boxOf [namedProperty "item" "T"] []]⟩).outcome = .ok d ∧
      ∃ t ∈ d.types, t.at? [] = some (.param "T") ∧ "T" ∈ d.typeParams.map (·.name) := by
  constructor
  · obtain ⟨t, ht, hname⟩ := Pass.exists_ok_of_toOption_map
      (p := resolveNode ⟨["U"], 50⟩ ["T"] (some genericSignature))
      (f := fun t => (t.at? [.parameter 0, .element]).bind TypeExpr.paramName?) (b := some "U")
      (by decide +kernel)
    obtain ⟨s, hs, hx⟩ := Option.bind_eq_some_iff.1 hname
    cases TypeExpr.eq_param_of_paramName? hx
    obtain ⟨hnormal, hscoped⟩ := resolved_types_scoped.1 _ _ _ t ht
    exact ⟨t, ht, hs, hnormal, hscoped _ _ hs⟩
  · obtain ⟨d, hd, hname⟩ := Pass.exists_ok_of_toOption_map
      (p := resolveGroup ⟨["Box"], 50⟩
        ⟨"Box", .interfaceDecl, [boxOf [namedProperty "item" "T"] []]⟩)
      (f := fun d => d.types.head?.bind TypeExpr.paramName?) (b := some "T") (by decide +kernel)
    obtain ⟨t, hhead, hx⟩ := Option.bind_eq_some_iff.1 hname
    cases TypeExpr.eq_param_of_paramName? hx
    have hmem := List.mem_of_head? hhead
    have houtside : ¬ InSignature [] := fun ⟨_, h, _⟩ => List.not_mem_nil h
    exact ⟨d, hd, _, hmem, rfl, (resolved_types_scoped.2 _ _ d hd _ hmem).2 [] "T" rfl houtside⟩

end Drafts

end DeclGraph
