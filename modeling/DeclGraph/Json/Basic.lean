import DeclGraph.Json.Binary64

/-!
# JSON values

The values an artifact is made of.  An object keeps its entries in the order in
which their keys first appeared, one entry per key: `put` replaces the value of
a key it already has, and `get?` finds it.

Values are generic in the type of the texts in them: what is built from source
text holds ordinary texts, and what is read from an artifact may hold any code
points.  `Json.map` changes the texts of a value.

`Json.sameKey` is the equality under which model identifiers are compared:
numbers and truth values by the number they stand for, everything else by
structure.  Arrays and objects cannot be identifiers (`Json.isKey`).
-/

namespace DeclGraph

/-- A JSON value with texts of a type. -/
inductive Json (ν : Type := String) where
  | null
  | bool (b : Bool)
  | int (n : Int)
  | float (x : Binary64)
  | str (s : ν)
  | arr (items : List (Json ν))
  | obj (entries : List (ν × Json ν))
deriving Repr, Inhabited

namespace Json

variable {ν μ : Type}

section Entries

variable [DecidableEq ν]

/-- The value of a key. -/
def get? (entries : List (ν × Json ν)) (key : ν) : Option (Json ν) :=
  (entries.find? (·.1 == key)).map (·.2)

/-- Sets the value of a key; a new key goes to the end. -/
def put (entries : List (ν × Json ν)) (key : ν) (value : Json ν) : List (ν × Json ν) :=
  match entries with
  | [] => [(key, value)]
  | (k, v) :: rest => if k == key then (k, value) :: rest else (k, v) :: put rest key value

@[simp]
theorem get?_nil (key : ν) : get? [] key = none :=
  rfl

@[simp]
theorem get?_cons (k : ν) (v : Json ν) (rest : List (ν × Json ν)) (key : ν) :
    get? ((k, v) :: rest) key = if k = key then some v else get? rest key := by
  by_cases h : k = key <;> simp [get?, h]

end Entries

section Keys

/-- Whether a value can identify something: everything but arrays and objects. -/
def isKey : Json ν → Bool
  | arr _ | obj _ => false
  | _ => true

/-- The integer a value stands for, truth values counting as zero and one. -/
def toInt? : Json ν → Option Int
  | bool b => some (if b then 1 else 0)
  | int n => some n
  | float x => x.toInt?
  | _ => none

variable [DecidableEq ν]

/-- Equality of identifiers. -/
def sameKey (x y : Json ν) : Bool :=
  match x.toInt?, y.toInt? with
  | some m, some n => m == n
  | none, none =>
    match x, y with
    | null, null => true
    | float a, float b => a == b
    | str s, str t => s == t
    | _, _ => false
  | _, _ => false

@[simp]
theorem sameKey_str (s t : ν) : sameKey (str s) (str t) = (s == t) :=
  rfl

end Keys

section Texts

mutual

/-- Changes the texts of a value. -/
def map (f : ν → μ) : Json ν → Json μ
  | .null => .null
  | .bool b => .bool b
  | .int n => .int n
  | .float x => .float x
  | .str s => .str (f s)
  | .arr items => .arr (mapItems f items)
  | .obj entries => .obj (mapEntries f entries)

/-- Changes the texts of several values. -/
def mapItems (f : ν → μ) : List (Json ν) → List (Json μ)
  | [] => []
  | x :: xs => x.map f :: mapItems f xs

/-- Changes the texts of several entries. -/
def mapEntries (f : ν → μ) : List (ν × Json ν) → List (μ × Json μ)
  | [] => []
  | (k, v) :: es => (f k, v.map f) :: mapEntries f es

end

end Texts

end Json
end DeclGraph
