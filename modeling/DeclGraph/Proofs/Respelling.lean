import DeclGraph.Proofs.Constructs
import DeclGraph.Proofs.Denotation
import DeclGraph.Proofs.LinkedGraph
import Mathlib.Data.List.Forall2

/-!
# Spellings of one type

`X[]`, `Array<X>` and `ReadonlyArray<X>` are spellings of one type, and so are `X`, `(X)`
and `readonly X`.  `Respelled` relates the nodes that differ in spelling only.  It contains
these pairs, it is an equivalence, and it is kept at the places that resolution goes to:
inside parentheses, in the element of an array, in type arguments, in the parameters and
the result of a signature, and in the key and the value of an association.  What stays
text has to be the same text.  Where the nodes stand plays no part.

What a node denotes does not depend on its spelling (`Respelled.sameDenotation`), and so
neither does what it is resolved to.
-/

namespace DeclGraph

open Syntax (Node)

section Spelling

/-- The parameters of a function type. -/
def signatureFields (t : Node) : List (Field (Option Node)) :=
  readParameters (t.child? "parameters")

/-- A parameter apart from its type: its name, whether it is optional, and whether it has
a type. -/
def paramHeader (f : Field (Option Node)) : String × Bool × Bool :=
  (f.name, f.optional, f.type.isSome)

/-- Nodes that differ only in how arrays are spelled and in parentheses and `readonly`, at
places that resolution goes to. -/
inductive Respelled : Node → Node → Prop
  /-- A type before brackets, and the same type as the argument of an array name. -/
  | array
      {t g x y : Node}
      (ht : t.kind = "array_type")
      (hx : t.namedChildren = [x])
      (hg : g.kind = "generic_type")
      (hname : referenceLabel g ∈ arrayNames)
      (hy : referenceArgs g = [y])
      (hxy : Respelled x y) :
      Respelled t g
  /-- Parentheses or `readonly` around a single type, and the type without them. -/
  | wrapper
      {t x : Node}
      (ht : t.kind = "parenthesized_type" ∨ t.kind = "readonly_type")
      (hx : t.namedChildren = [x]) :
      Respelled t x
  /-- Inside parentheses or under `readonly`. -/
  | inner
      {t u x y : Node}
      (ht : t.kind = "parenthesized_type" ∨ t.kind = "readonly_type")
      (hu : u.kind = "parenthesized_type" ∨ u.kind = "readonly_type")
      (hx : t.namedChildren.getLast? = some x)
      (hy : u.namedChildren.getLast? = some y)
      (hxy : Respelled x y) :
      Respelled t u
  /-- In the element of an array. -/
  | element
      {t u x y : Node}
      (ht : t.kind = "array_type")
      (hu : u.kind = "array_type")
      (hx : t.namedChildren.head? = some x)
      (hy : u.namedChildren.head? = some y)
      (hxy : Respelled x y) :
      Respelled t u
  /-- In the type arguments of a reference. -/
  | arguments
      {t u : Node}
      (ht : t.kind = "generic_type")
      (hu : u.kind = "generic_type")
      (hname : referenceLabel t = referenceLabel u)
      (hlength : (referenceArgs t).length = (referenceArgs u).length)
      (hargs : ∀ x y, (x, y) ∈ (referenceArgs t).zip (referenceArgs u) → Respelled x y) :
      Respelled t u
  /-- In the parameters and the result of a signature. -/
  | signature
      {t u : Node}
      (ht : t.kind = "function_type")
      (hu : u.kind = "function_type")
      (htypeParams : functionTypeParams t = functionTypeParams u)
      (hheaders : (signatureFields t).map paramHeader = (signatureFields u).map paramHeader)
      (hparams : ∀ f g, (f, g) ∈ (signatureFields t).zip (signatureFields u) →
        ∀ x ∈ f.type, ∀ y ∈ g.type, Respelled x y)
      (hsome : (t.child? "return_type").isSome = (u.child? "return_type").isSome)
      (hresult : ∀ x ∈ t.child? "return_type", ∀ y ∈ u.child? "return_type", Respelled x y) :
      Respelled t u
  /-- In the key and the value of an association. -/
  | association
      {t u : Node} {key value key' value' : Option Node}
      (ht : KeyedBy t key value)
      (hu : KeyedBy u key' value')
      (hkeySome : key.isSome = key'.isSome)
      (hkey : ∀ x ∈ key, ∀ y ∈ key', Respelled x y)
      (hvalueSome : value.isSome = value'.isSome)
      (hvalue : ∀ x ∈ value, ∀ y ∈ value', Respelled x y) :
      Respelled t u
  /-- One name at two places. -/
  | name
      {t u : Node}
      (ht : t.kind = "type_identifier" ∨ t.kind = "identifier")
      (hu : u.kind = "type_identifier" ∨ u.kind = "identifier")
      (htext : t.text = u.text) :
      Respelled t u
  /-- One type that stays text, at two places. -/
  | text
      {t u : Node}
      (ht : KeptAsText t)
      (hu : KeptAsText u)
      (httype : t.isAnnotation = false)
      (hutype : u.isAnnotation = false)
      (htext : t.text = u.text)
      (hnames : t.typeNames = u.typeNames) :
      Respelled t u
  /-- A type with a colon before it, and the type itself. -/
  | colon
      {n t : Node}
      (ht : n.annotated? = some t)
      (htype : t.isAnnotation = false) :
      Respelled n t
  | refl
      (n : Node) :
      Respelled n n
  | symm
      {n m : Node}
      (h : Respelled n m) :
      Respelled m n
  | trans
      {n m k : Node}
      (hnm : Respelled n m)
      (hmk : Respelled m k) :
      Respelled n k

/-- Nodes that denote one type, whatever is known and in scope. -/
def SameDenotation (n m : Node) : Prop :=
  ∀ known scope, (Written.ofNode n).denote known scope = (Written.ofNode m).denote known scope

end Spelling

section Denotations

variable {known scope : List String} {t u x y : Node}

theorem denoteAll_ofNode_eq
    {as bs : List Node}
    (hlength : as.length = bs.length)
    (h : ∀ x y, (x, y) ∈ as.zip bs → SameDenotation x y) :
    denoteAll known scope (as.map .ofNode) = denoteAll known scope (bs.map .ofNode) := by
  have hall : List.Forall₂ SameDenotation as bs :=
    List.forall₂_iff_zip.2 ⟨hlength, fun {x y} hxy => h x y hxy⟩
  clear hlength h
  induction hall with
  | nil => rfl
  | cons hab _ ih => rw [List.map_cons, List.map_cons, denoteAll, denoteAll, hab known scope, ih]

theorem denote_ofNode?_eq
    {a b : Option Node}
    (hsome : a.isSome = b.isSome)
    (h : ∀ x ∈ a, ∀ y ∈ b, SameDenotation x y) :
    (Written.ofNode? a).denote known scope = (Written.ofNode? b).denote known scope := by
  cases a with
  | none =>
      cases b with
      | none => rfl
      | some y => cases hsome
  | some x =>
      cases b with
      | none => cases hsome
      | some y => exact h x rfl y rfl known scope

theorem denoteParams_eq
    {ps qs : List (Field (Option Node))}
    (hheaders : ps.map paramHeader = qs.map paramHeader)
    (h : ∀ f g, (f, g) ∈ ps.zip qs → ∀ x ∈ f.type, ∀ y ∈ g.type, SameDenotation x y) :
    denoteParams known scope (ps.map writtenParam) =
      denoteParams known scope (qs.map writtenParam) := by
  induction ps generalizing qs with
  | nil =>
      cases qs with
      | nil => rfl
      | cons g qs => cases hheaders
  | cons f ps ih =>
      cases qs with
      | nil => cases hheaders
      | cons g qs =>
          obtain ⟨name, type, optional⟩ := f
          obtain ⟨name', type', optional'⟩ := g
          obtain ⟨hheader, htail⟩ := List.cons.inj hheaders
          obtain ⟨rfl, hheader⟩ := Prod.mk.inj hheader
          obtain ⟨rfl, hsome⟩ := Prod.mk.inj hheader
          have htype : (Written.ofNode? type).denote known scope =
              (Written.ofNode? type').denote known scope :=
            denote_ofNode?_eq hsome (h _ _ (.head _))
          have hparams := ih htail fun f g hfg => h f g (.tail _ hfg)
          show (⟨name, (Written.ofNode? type).denote known scope, optional⟩ : Field TypeExpr) ::
              denoteParams known scope (ps.map writtenParam) = _
          rw [htype, hparams]
          rfl

theorem denote_wrapper
    (ht : t.kind = "parenthesized_type" ∨ t.kind = "readonly_type")
    (hx : t.namedChildren.getLast? = some x) :
    (Written.ofNode t).denote known scope = (Written.ofNode x).denote known scope := by
  have hkind : t.kind ∉ annotationKinds := by
    rcases ht with ht | ht <;> simp [ht, annotationKinds]
  rw [Written.ofNode_of_kind hkind, typeShape_wrapper ht, hx]
  rfl

theorem denote_array
    (ht : t.kind = "array_type")
    (hx : t.namedChildren.head? = some x) :
    (Written.ofNode t).denote known scope = .array ((Written.ofNode x).denote known scope) := by
  rw [Written.ofNode_of_kind (by simp [ht, annotationKinds]), typeShape_array ht, hx]
  rfl

theorem denote_generic
    (ht : t.kind = "generic_type") :
    (Written.ofNode t).denote known scope =
      Context.referenceType ⟨known, 0⟩ scope (referenceLabel t)
        (denoteAll known scope ((referenceArgs t).map .ofNode)) := by
  rw [Written.ofNode_of_kind (by simp [ht, annotationKinds]), typeShape_generic ht]
  rfl

theorem denote_function
    (ht : t.kind = "function_type") :
    (Written.ofNode t).denote known scope =
      .function
        (denoteParams known (functionTypeParams t ++ scope) ((signatureFields t).map writtenParam))
        ((Written.ofNode? (t.child? "return_type")).denote known (functionTypeParams t ++ scope)) := by
  rw [Written.ofNode_of_kind (by simp [ht, annotationKinds]), typeShape_function ht]
  rfl

theorem denote_association
    {key value : Option Node}
    (ht : KeyedBy t key value) :
    (Written.ofNode t).denote known scope =
      .keyed ((Written.ofNode? key).denote known scope)
        ((Written.ofNode? value).denote known scope) := by
  rw [Written.ofNode_of_kind (by simp [ht.1, annotationKinds]), typeShape_keyed ht]
  rfl

theorem denote_name
    (ht : t.kind = "type_identifier" ∨ t.kind = "identifier") :
    (Written.ofNode t).denote known scope = Context.nameType ⟨known, 0⟩ scope t.text := by
  have hkind : t.kind ∉ annotationKinds := by
    rcases ht with ht | ht <;> simp [ht, annotationKinds]
  rw [Written.ofNode_of_kind hkind, typeShape_name ht]
  rfl

theorem denote_text
    (ht : KeptAsText t)
    (htype : t.isAnnotation = false) :
    (Written.ofNode t).denote known scope =
      .verbatim t.text (Context.references ⟨known, 0⟩ scope t.typeNames) := by
  have hself : t.annotated? = some t := if_neg (Bool.eq_false_iff.1 htype)
  obtain ⟨skipped, hshape⟩ := exists_typeShape_of_keptAsText ht
  rw [Written.ofNode_of_type hself, hshape]
  rfl

/-- Respelling a node does not change the type that it denotes. -/
theorem Respelled.sameDenotation
    {n m : Node}
    (h : Respelled n m) :
    SameDenotation n m := by
  induction h with
  | @array t g x y ht hx hg hname hy _ ih =>
      intro known scope
      rw [denote_array ht (by rw [hx]; rfl), denote_generic hg, hy, ih known scope]
      exact (if_pos (List.contains_iff_mem.2 hname)).symm
  | @wrapper t x ht hx => exact fun known scope => denote_wrapper ht (by rw [hx]; rfl)
  | inner ht hu hx hy _ ih =>
      intro known scope
      rw [denote_wrapper ht hx, denote_wrapper hu hy, ih known scope]
  | element ht hu hx hy _ ih =>
      intro known scope
      rw [denote_array ht hx, denote_array hu hy, ih known scope]
  | arguments ht hu hname hlength _ ih =>
      intro known scope
      rw [denote_generic ht, denote_generic hu, hname, denoteAll_ofNode_eq hlength ih]
  | signature ht hu htypeParams hheaders _ hsome _ ihparams ihresult =>
      intro known scope
      rw [denote_function ht, denote_function hu, htypeParams, denoteParams_eq hheaders ihparams,
        denote_ofNode?_eq hsome ihresult]
  | association ht hu hkeySome _ hvalueSome _ ihkey ihvalue =>
      intro known scope
      rw [denote_association ht, denote_association hu, denote_ofNode?_eq hkeySome ihkey,
        denote_ofNode?_eq hvalueSome ihvalue]
  | name ht hu htext =>
      intro known scope
      rw [denote_name ht, denote_name hu, htext]
  | text ht hu httype hutype htext hnames =>
      intro known scope
      rw [denote_text ht httype, denote_text hu hutype, htext, hnames]
  | @colon n t ht htype =>
      intro known scope
      have hself : t.annotated? = some t := if_neg (Bool.eq_false_iff.1 htype)
      rw [Written.ofNode_of_type ht, Written.ofNode_of_type hself]
  | refl n => exact fun known scope => rfl
  | symm _ ih => exact fun known scope => (ih known scope).symm
  | trans _ _ ihnm ihmk => exact fun known scope => (ihnm known scope).trans (ihmk known scope)

end Denotations

section Agreement

/-- Respelled types are resolved to one type: whatever is known, array names included, and
whatever is in scope, if both are resolved, then the results are equal.  The limits need
not be the same, since one spelling may nest deeper than the other. -/
theorem respelled_types_agree
    {n m : Node}
    (h : Respelled n m)
    (known scope : List String) (limit limit' : Int)
    {t u : TypeExpr}
    (ht : (resolveNode ⟨known, limit⟩ scope (some n)).outcome = .ok t)
    (hu : (resolveNode ⟨known, limit'⟩ scope (some m)).outcome = .ok u) :
    t = u := by
  calc
    t = (Written.ofNode n).denote known scope := eq_denote_of_resolve ht
    _ = (Written.ofNode m).denote known scope := h.sameDenotation known scope
    _ = u := (eq_denote_of_resolve hu).symm

/-- The type `A`. -/
def nameA : Node :=
  .build "type_identifier" "A" none []

/-- The type `A[]`. -/
def arrayOfA : Node :=
  .build "array_type" "A[]" none [nameA]

/-- The type `ReadonlyArray<(A)>`. -/
def readonlyArrayOfA : Node :=
  .build "generic_type" "ReadonlyArray<(A)>" none
    [.build "type_identifier" "ReadonlyArray" (some "name") [],
      .build "type_arguments" "<(A)>" (some "type_arguments")
        [.build "parenthesized_type" "(A)" none [nameA]]]

/-- The name `Map`. -/
def mapName : Node :=
  .build "type_identifier" "Map" (some "name") []

/-- The type `string`. -/
def stringType : Node :=
  .build "predefined_type" "string" none []

/-- A map from strings to a type. -/
def mapTo (source : String) (t : Node) : Node :=
  .build "generic_type" source none
    [mapName, .build "type_arguments" "" (some "type_arguments") [stringType, t]]

/-- The type `(Map<string, ReadonlyArray<(A)>>)`. -/
def wrappedMap : Node :=
  .build "parenthesized_type" "(Map<string, ReadonlyArray<(A)>>)" none
    [mapTo "Map<string, ReadonlyArray<(A)>>" readonlyArrayOfA]

theorem denote_stringType (known scope : List String) :
    (Written.ofNode stringType).denote known scope = .verbatim "string" [] := by
  have hkept : KeptAsText stringType := ⟨by decide, fun _ _ h => absurd h.1 (by decide)⟩
  have htext : stringType.text = "string" := by decide +kernel
  have hnames : stringType.typeNames = [] := by decide +kernel
  rw [denote_text hkept rfl, htext, hnames]
  rfl

/-- A map to arrays of `A`, where `A` is declared. -/
theorem denote_mapTo_arrayOfA (source : String) :
    (Written.ofNode (mapTo source arrayOfA)).denote ["A", "ReadonlyArray"] ["Array"] =
      .generic "Map" [.verbatim "string" [], .array (.pending "A")] none := by
  have hlabel : mapName.text = "Map" := by decide +kernel
  have hname : nameA.text = "A" := by decide +kernel
  rw [denote_generic rfl]
  show Context.referenceType _ _ mapName.text
    [Written.denote _ _ (.ofNode stringType), Written.denote _ _ (.ofNode arrayOfA)] = _
  rw [hlabel, denote_stringType, denote_array rfl rfl, denote_name (.inl rfl), hname]
  rfl

theorem respelled_types_agree_wrappedMap :
    Respelled (mapTo "Map<string, A[]>" arrayOfA) wrappedMap ∧
    (resolveNode ⟨["A", "ReadonlyArray"], 2⟩ ["Array"]
        (some (mapTo "Map<string, A[]>" arrayOfA))).outcome =
      .ok (.generic "Map" [.verbatim "string" [], .array (.pending "A")] none) ∧
    (resolveNode ⟨["A", "ReadonlyArray"], 4⟩ ["Array"] (some wrappedMap)).outcome =
      .ok (.generic "Map" [.verbatim "string" [], .array (.pending "A")] none) := by
  have harray : Respelled arrayOfA readonlyArrayOfA :=
    .array rfl rfl rfl (by decide +kernel) rfl (.symm (.wrapper (.inl rfl) rfl))
  have hlabel (source : String) (t : Node) : referenceLabel (mapTo source t) = mapName.text := rfl
  have hmap : Respelled (mapTo "Map<string, A[]>" arrayOfA)
      (mapTo "Map<string, ReadonlyArray<(A)>>" readonlyArrayOfA) := by
    refine .arguments rfl rfl ((hlabel _ _).trans (hlabel _ _).symm) rfl fun x y hxy => ?_
    rcases hxy with _ | ⟨_, _ | ⟨_, ⟨⟩⟩⟩
    · exact .refl _
    · exact harray
  have hwrapped : Respelled (mapTo "Map<string, A[]>" arrayOfA) wrappedMap :=
    hmap.trans (.symm (.wrapper (.inl rfl) rfl))
  obtain ⟨t, ht, -⟩ := Pass.exists_ok_of_toOption_map
    (p := resolveNode ⟨["A", "ReadonlyArray"], 2⟩ ["Array"]
      (some (mapTo "Map<string, A[]>" arrayOfA)))
    (f := fun _ => ()) (b := ()) (by decide +kernel)
  obtain ⟨u, hu, -⟩ := Pass.exists_ok_of_toOption_map
    (p := resolveNode ⟨["A", "ReadonlyArray"], 4⟩ ["Array"] (some wrappedMap))
    (f := fun _ => ()) (b := ()) (by decide +kernel)
  have htype : t = .generic "Map" [.verbatim "string" [], .array (.pending "A")] none :=
    (eq_denote_of_resolve ht).trans (denote_mapTo_arrayOfA _)
  have htu := respelled_types_agree hwrapped ["A", "ReadonlyArray"] ["Array"] 2 4 ht hu
  rw [← htype]
  exact ⟨hwrapped, ht, htu ▸ hu⟩

end Agreement

end DeclGraph
