import ZkNft.Lib.Bytes

/-! JSON values, and readers of them that follow the derived deserialisers of serde. -/

inductive Json where
  | null
  | bool (b : Bool)
  | num (n : ℕ)
  | arr (vs : List Json)
  | obj (members : List (String × Json))

namespace Json

/-- `Array.from` of a byte array. -/
def ofBytes (bs : List UInt8) : Json := .arr (bs.map fun b => .num b.toNat)

def toBool? : Json → Option Bool
  | .bool b => some b
  | _ => none

def toU8? : Json → Option UInt8
  | .num n => if n < 256 then some (UInt8.ofNat n) else none
  | _ => none

variable {α β : Type}

def toVec? (f : Json → Option α) : Json → Option (List α)
  | .arr vs => vs.mapM f
  | _ => none

def toPair? (f : Json → Option α) (g : Json → Option β) : Json → Option (α × β)
  | .arr [a, b] => do return (← f a, ← g b)
  | _ => none

def toTriple? (f : Json → Option α) : Json → Option (α × α × α)
  | .arr [a, b, c] => do return (← f a, ← f b, ← f c)
  | _ => none

/-- The array type `[u8; n]`. -/
def toBytes? (n : ℕ) (v : Json) : Option (Bytes n) := do
  Bytes.ofList? n (← v.toVec? toU8?)

/-- The values of the named members of a struct, which may also be written as an array. A member
that is missing or there twice is an error; members of other names are ignored. -/
def toStruct? (names : List String) : Json → Option (List Json)
  | .obj members => names.mapM fun name =>
      match members.filter fun m => m.1 = name with
      | [(_, v)] => some v
      | _ => none
  | .arr vs => if vs.length = names.length then some vs else none
  | _ => none

/-- As `toStruct?`, of a struct that denies unknown members. -/
def toClosed? (names : List String) : Json → Option (List Json)
  | .obj members =>
      if members.all fun m => m.1 ∈ names then (obj members).toStruct? names else none
  | v => v.toStruct? names

def toOption? (f : Json → Option α) : Json → Option (Option α)
  | .null => some none
  | v => (f v).map some

@[simp] theorem toU8?_num (b : UInt8) : (num b.toNat).toU8? = some b := by
  rw [toU8?, if_pos b.toNat_lt, UInt8.ofNat_toNat]

theorem toVec?_arr {f : Json → Option α} {g : α → Json} (h : ∀ a, f (g a) = some a)
    (as : List α) : (arr (as.map g)).toVec? f = some as := by
  rw [toVec?]
  induction as with
  | nil => rfl
  | cons a as ih =>
    rw [List.map_cons, List.mapM_cons, h a, ih]
    rfl

theorem toBytes?_ofBytes {n : ℕ} (b : Bytes n) : (ofBytes b.toList).toBytes? n = some b := by
  have hvec : (ofBytes b.toList).toVec? toU8? = some b.toList := toVec?_arr toU8?_num b.toList
  rw [toBytes?, hvec]
  exact Bytes.ofList?_toList b

end Json
