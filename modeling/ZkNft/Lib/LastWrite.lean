import ZkNft.Lib.Run

/-! A register of a machine, and the last move of a run that wrote it. -/

namespace LastWrite
variable {S M V : Type*} {next : S → M → S} {allowed : S → M → Prop} {s₀ s : S}
  {tr : List (S × M)} {m : M} {write : S → M → Option V}

/-- The last value written in a record; `write` says what a move writes, if it writes. -/
def lastWrite (write : S → M → Option V) (tr : List (S × M)) : Option V :=
  (tr.filterMap fun x => write x.1 x.2).getLast?

theorem lastWrite_snoc :
    lastWrite write (tr ++ [(s, m)]) = (write s m).or (lastWrite write tr) := by
  unfold lastWrite
  rw [List.filterMap_append]
  cases h : write s m <;> simp [h]

theorem exists_of_lastWrite {v : V} (h : lastWrite write tr = some v) :
    ∃ x ∈ tr, write x.1 x.2 = some v :=
  List.mem_filterMap.mp (List.mem_of_getLast? h)

/-- A register that only moves which write it change holds the last value written. -/
theorem observe_eq (observe : S → V) (h : Run next allowed s₀ tr s)
    (hstep : ∀ s m, allowed s m → observe (next s m) = (write s m).getD (observe s)) :
    observe s = (lastWrite write tr).getD (observe s₀) := by
  induction h with
  | nil => rfl
  | snoc _ hm ih =>
    rw [hstep _ _ hm, lastWrite_snoc, ih]
    cases write _ _ <;> rfl

end LastWrite
