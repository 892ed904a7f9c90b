import DeclGraph.Proofs.AskedNames
import DeclGraph.Proofs.Resolution

/-!
# What written types denote

Resolution counts the depth at which it stands and gives up at the limit.  Apart from that
a written type has one meaning: `Written.denote` gives the type that it is resolved to when
depth does not matter, and every resolution that ends with a result ends with this one
(`eq_denote_of_resolve`).  Lines and skipped members play no part in it.
-/

namespace DeclGraph

section Denotation

mutual

/-- The type that a written type denotes.  An array type without an element denotes
nothing, and is given any type here. -/
def Written.denote (known scope : List String) : Written → TypeExpr
  | .absent => .unannotated
  | .wrapped _ inner => inner.denote known scope
  | .hollow _ text => .verbatim text []
  | .name _ name => Context.nameType ⟨known, 0⟩ scope name
  | .array _ element => .array (element.denote known scope)
  | .bareArray _ => .unannotated
  | .reference _ name args =>
    Context.referenceType ⟨known, 0⟩ scope name (denoteAll known scope args)
  | .function _ typeParams params result =>
    .function (denoteParams known (typeParams ++ scope) params)
      (result.denote known (typeParams ++ scope))
  | .keyed _ _ key value => .keyed (key.denote known scope) (value.denote known scope)
  | .verbatim _ _ text names => .verbatim text (Context.references ⟨known, 0⟩ scope names)

def denoteAll (known scope : List String) : List Written → List TypeExpr
  | [] => []
  | w :: ws => w.denote known scope :: denoteAll known scope ws

def denoteParams (known scope : List String) : List (Field Written) → List (Field TypeExpr)
  | [] => []
  | ⟨name, w, optional⟩ :: fs =>
    ⟨name, w.denote known scope, optional⟩ :: denoteParams known scope fs

end

theorem denoteAll_eq_map (known scope : List String) (ws : List Written) :
    denoteAll known scope ws = ws.map (Written.denote known scope) := by
  induction ws with
  | nil => rfl
  | cons w ws ih => rw [denoteAll, ih, List.map_cons]

theorem denoteParams_eq_map (known scope : List String) (fs : List (Field Written)) :
    denoteParams known scope fs =
      fs.map fun f => ⟨f.name, f.type.denote known scope, f.optional⟩ := by
  induction fs with
  | nil => rfl
  | cons f fs ih =>
      obtain ⟨name, w, optional⟩ := f
      rw [denoteParams, ih, List.map_cons]

variable {ctx : Context} {scope : List String} {depth : Nat} {w : Written} {t : TypeExpr}

/-- A resolution that ends with a result ends with the denoted type. -/
theorem eq_denote_of_resolve
    (h : (resolve ctx scope depth w).outcome = .ok t) :
    t = w.denote ctx.known scope := by
  -- The scope is general too: a signature resolves its parts in a larger one.
  induction w using Written.induct generalizing scope depth t with
  | absent => exact resolve_absent_eq_ok_iff.1 h
  | wrapped line inner ih => exact ih (resolve_wrapped_eq_ok_iff.1 h).2
  | hollow line text => exact (resolve_hollow_eq_ok_iff.1 h).2
  | name line name => exact (resolve_name_eq_ok_iff.1 h).2
  | array line element ih =>
      obtain ⟨-, e, he, rfl⟩ := resolve_array_eq_ok_iff.1 h
      rw [Written.denote, ih he]
  | bareArray line => exact absurd h resolve_bareArray_ne_ok
  | reference line name args ih =>
      obtain ⟨-, ts, hts, rfl⟩ := resolve_reference_eq_ok_iff.1 h
      have hargs : ts = args.map (Written.denote ctx.known scope) := by
        clear h
        induction hts with
        | nil => rfl
        | cons hw _ ihs =>
            obtain ⟨ihw, ihws⟩ := List.forall_mem_cons.1 ih
            rw [List.map_cons, ihw hw, ← ihs ihws]
      rw [Written.denote, denoteAll_eq_map, hargs]
      rfl
  | function line typeParams params result ihparams ihresult =>
      obtain ⟨-, fs, r, hfs, hr, rfl⟩ := resolve_function_eq_ok_iff.1 h
      have hparams : fs = params.map fun f =>
          ⟨f.name, f.type.denote ctx.known (typeParams ++ scope), f.optional⟩ := by
        clear h
        induction hfs with
        | nil => rfl
        | @cons p f _ _ hp _ ihs =>
            obtain ⟨ihp, ihps⟩ := List.forall_mem_cons.1 ihparams
            obtain ⟨name, type, optional⟩ := f
            obtain ⟨rfl, rfl, htype⟩ := hp
            rw [List.map_cons, ← ihp htype, ← ihs ihps]
      rw [Written.denote, denoteParams_eq_map, hparams, ihresult hr]
  | keyed line skipped key value ihkey ihvalue =>
      obtain ⟨-, k, v, hk, hv, rfl⟩ := resolve_keyed_eq_ok_iff.1 h
      rw [Written.denote, ihkey hk, ihvalue hv]
  | verbatim line skipped text names => exact (resolve_verbatim_eq_ok_iff.1 h).2

end Denotation

end DeclGraph
