import ZkNft.Lib.Double
import ZkNft.Lib.Exec
import ZkNft.Lib.Json

/-! JSON values as the objects of a script: properties, assignments along a path, and arrays.
The value `undefined` is `none`, and a member that is `undefined` is one that is not there. -/

/-- An exception. -/
structure Thrown where
  deriving DecidableEq

namespace Json

/-- A number of a JSON text, as a script reads it. -/
def number (n : ℕ) : Json := .num (Double.round n)

/-- `v.name`. -/
def property (name : String) : Option Json → Except Thrown (Option Json)
  | none | some .null => throw ⟨⟩
  | some (.obj members) => pure ((members.find? fun m => m.1 = name).map (·.2))
  | some _ => pure none

/-- `v.name₁.name₂` and so on. -/
def get (v : Json) (path : List String) : Except Thrown (Option Json) :=
  path.foldlM (fun v name => property name v) (some v)

def put (name : String) (v : Json) : List (String × Json) → List (String × Json)
  | [] => [(name, v)]
  | m :: members => if m.1 = name then (name, v) :: members else m :: put name v members

/-- Changes the value at the end of a path in place. -/
def update (f : Json → Except Thrown Json) : List String → Json → Except Thrown Json
  | [], v => f v
  | name :: path, .obj members => do
      let some v ← property name (some (.obj members)) | throw ⟨⟩
      return .obj (put name (← update f path v) members)
  | _ :: _, _ => throw ⟨⟩

/-- The assignment `v.name = value`. -/
def assign (name : String) (value : Option Json) : Json → Except Thrown Json
  | .obj members =>
      match value with
      | some value => pure (.obj (put name value members))
      | none => pure (.obj (members.filter fun m => m.1 ≠ name))
  | _ => throw ⟨⟩

/-- `delete v.name`. -/
def delete (name : String) : Json → Except Thrown Json
  | .obj members => pure (.obj (members.filter fun m => m.1 ≠ name))
  | .null => throw ⟨⟩
  | v => pure v

/-- `v.length` of an array. -/
def arrayLength : Option Json → Except Thrown ℕ
  | some (.arr vs) => pure vs.length
  | _ => throw ⟨⟩

/-- `v.slice(i, j)` of an array. -/
def slice (i j : ℕ) : Option Json → Except Thrown Json
  | some (.arr vs) => pure (.arr ((vs.take j).drop i))
  | _ => throw ⟨⟩

/-- `v.flatMap(item => item)` of an array. -/
def flatten : Option Json → Except Thrown Json
  | some (.arr vs) => pure (.arr (vs.flatMap fun item => match item with
      | .arr items => items
      | item => [item]))
  | _ => throw ⟨⟩

/-- `v.map(f)` of an array, for an `f` that changes the items in place. -/
def each (f : Json → Except Thrown Json) : Json → Except Thrown Json
  | .arr vs => return .arr (← vs.mapM f)
  | _ => throw ⟨⟩

/-- An array that is a member is changed item by item. -/
theorem update_each {f : Json → Except Thrown Json} {name : String}
    {members : List (String × Json)} {vs : List Json}
    (h : members.find? (fun m => m.1 = name) = some (name, arr vs)) (x : Json) :
    update (each f) [name] (obj members) = .ok x ↔
      ∃ ws, vs.mapM f = .ok ws ∧ obj (put name (arr ws) members) = x := by
  have hvalue : property name (some (obj members)) = .ok (some (arr vs)) := by
    rw [property, h]
    rfl
  simp [update, hvalue, Exec.except_bind_eq_ok, each, pure, Except.pure]

end Json
