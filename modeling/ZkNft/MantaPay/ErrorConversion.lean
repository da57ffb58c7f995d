import ZkNft.MantaPay.Sample

/-! Which errors of a post the chain of conversions turns into the pallet's error. -/

namespace ZkNft

variable {R : Runtime}

/-- An error that posting a transfer can produce. -/
inductive PostingError (R : Runtime) where
  | transferLedger (e : TransferLedgerError R)
  | senderLedger (e : SenderLedgerError)
  | receiverLedger (e : ReceiverLedgerError R.crypto)
  | fungibleLedger (e : R.LedgerError)
  | transferPost (e : TransferPostError R)
  | senderPost (e : SenderPostError SenderLedgerError)
  | receiverPost (e : ReceiverPostError (ReceiverLedgerError R.crypto))

namespace PostingError

/-- The chain of conversions from an error to the pallet's error, on a stack of `depth` frames. -/
def toError (depth : ℕ) : PostingError R → Option Error
  | transferLedger e => e.toTransferPostError.toError depth
  | senderLedger e => some e.toSenderPostError.toError
  | receiverLedger e => some e.toReceiverPostError.toError
  | fungibleLedger e => some e.toError
  | transferPost e => e.toError depth
  | senderPost e => some e.toError
  | receiverPost e => some e.toError

/-- On a stack that is large enough the chain yields a value. -/
def Terminates (e : PostingError R) : Prop := ∃ depth, (e.toError depth).isSome

/-- The ledger errors that `TransferPostError` has no variant of its own for. -/
def Unexpected : PostingError R → Prop
  | transferPost (.unexpectedError _) => True
  | transferLedger .checksumError => True
  | transferLedger (.verifyingContextDecodeError _) => True
  | transferLedger (.fpEncodeError _) => True
  | transferLedger (.fungibleLedgerError _) => True
  | transferLedger (.proofSystemError _) => True
  | transferLedger .marker => True
  | _ => False

theorem terminates_transferPost (e : TransferPostError R) :
    (transferPost e).Terminates ↔ ∀ e', e ≠ .unexpectedError e' := by
  constructor
  · intro ⟨depth, h⟩
    cases depth with
    | zero => cases h
    | succ depth => exact (TransferPostError.toError_isSome (by omega) e).mp h
  · intro h
    exact ⟨1, (TransferPostError.toError_isSome (by omega) e).mpr h⟩

/-- The chain of conversions ends for an error exactly if it is not an unexpected one. -/
theorem terminates_iff (e : PostingError R) : e.Terminates ↔ ¬ e.Unexpected := by
  cases e with
  | senderLedger e => exact iff_of_true ⟨0, rfl⟩ id
  | receiverLedger e => exact iff_of_true ⟨0, rfl⟩ id
  | fungibleLedger e => exact iff_of_true ⟨0, rfl⟩ id
  | senderPost e => exact iff_of_true ⟨0, rfl⟩ id
  | receiverPost e => exact iff_of_true ⟨0, rfl⟩ id
  | transferPost e =>
    rw [terminates_transferPost]
    cases e <;> simp [Unexpected]
  | transferLedger e =>
    have hpost : (transferLedger e).Terminates ↔ (transferPost e.toTransferPostError).Terminates :=
      Iff.rfl
    rw [hpost, terminates_transferPost]
    cases e <;> simp [Unexpected, TransferLedgerError.toTransferPostError]

open Sample in
/-- A failure of the proof system is converted without end. -/
theorem proofSystemError_not_terminates :
    ¬ (transferLedger (.proofSystemError ()) : PostingError runtime).Terminates := by
  intro ⟨depth, h⟩
  have hnone : (TransferPostError.unexpectedError (R := runtime) (.proofSystemError ())).toError
      depth = none := TransferPostError.toError_unexpectedError _
  have h' : ((TransferPostError.unexpectedError (R := runtime) (.proofSystemError ())).toError
      depth).isSome := h
  rw [hnone] at h'
  cases h'

end PostingError

end ZkNft
