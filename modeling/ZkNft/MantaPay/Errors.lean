import ZkNft.MantaPay.Storage

/-! The errors of the ledgers and the conversions of `errors.rs` that lead to the pallet's
error. -/

namespace ZkNft

/-- The pallet's `Error`. -/
inductive Error where
  | uninitializedSupply
  | zeroTransfer
  | balanceLow
  | invalidSerializedForm
  | invalidAssetId
  | invalidShape
  | invalidAuthorizationSignature
  | assetSpent
  | invalidUtxoAccumulatorOutput
  | assetRegistered
  | duplicateSpend
  | duplicateRegister
  | invalidProof
  | invalidSourceAccount
  | invalidSinkAccount
  | publicUpdateInvalidAssetId
  | publicUpdateBelowMinimum
  | publicUpdateCannotCreate
  | publicUpdateUnknownAsset
  | publicUpdateOverflow
  | publicUpdateCannotWithdraw
  | publicUpdateInvalidMint
  | publicUpdateInvalidBurn
  | publicUpdateInvalidTransfer
  | internalLedgerError
  | encodeError
  | privateTransferNotAllowed
  | privateTransferZkAddressNotExist
  | privateTransferZkAddressNotMatch
  | privateTransferAccountNotExist
  | privateTransferAccountNotMatch
  deriving DecidableEq, Repr

inductive SenderLedgerError where
  | fpEncodeError (e : ScaleError)
  | outgoingNoteDecodeError (e : ScaleError)
  | assetSpent
  | invalidUtxoAccumulatorOutput

inductive ReceiverLedgerError (c : Crypto) where
  | utxoDecodeError (e : ScaleError)
  | checksumError
  | mtParametersDecodeError (e : c.MTParametersError)
  | utxoAccumulatorItemHashDecodeError (e : c.UtxoItemHashError)
  | merkleTreeCapacityError
  | fpEncodeError (e : ScaleError)
  | fpDecodeError (e : ScaleError)
  | pathDecodeError (e : ScaleError)
  | fullNoteDecodeError (e : ScaleError)
  | assetRegistered
  | marker

inductive TransferLedgerError (R : Runtime) where
  | checksumError
  | verifyingContextDecodeError (e : R.crypto.VerifyingContextError)
  | fpEncodeError (e : ScaleError)
  | unknownAsset
  | fungibleLedgerError (e : R.LedgerError)
  | senderLedgerError (e : SenderLedgerError)
  | receiverLedgerError (e : ReceiverLedgerError R.crypto)
  | invalidTransferShape
  | proofSystemError (e : R.crypto.ProofSystemError)
  | invalidProof
  | marker

/-- `SenderPostError` of manta-rs, over a ledger error. -/
inductive SenderPostError (E : Type) where
  | assetSpent
  | invalidUtxoAccumulatorOutput
  | unexpectedError (e : E)

inductive ReceiverPostError (E : Type) where
  | assetRegistered
  | unexpectedError (e : E)

structure InvalidSourceAccount (R : Runtime) where
  accountId : R.Account
  assetId : R.crypto.Fp
  withdraw : AssetValue

structure InvalidSinkAccount (R : Runtime) where
  accountId : R.Account
  assetId : R.crypto.Fp
  deposit : AssetValue

/-- `TransferPostError` of manta-rs at the pallet's error types. -/
inductive TransferPostError (R : Runtime) where
  | invalidShape
  | invalidAuthorizationSignature
  | invalidSourceAccount (e : InvalidSourceAccount R)
  | invalidSinkAccount (e : InvalidSinkAccount R)
  | sender (e : SenderPostError SenderLedgerError)
  | receiver (e : ReceiverPostError (ReceiverLedgerError R.crypto))
  | duplicateMint
  | duplicateSpend
  | invalidProof
  | unexpectedError (e : TransferLedgerError R)

section Conversions
variable {c : Crypto} {R : Runtime} {D : Type}

def SenderLedgerError.toSenderPostError : SenderLedgerError → SenderPostError SenderLedgerError
  | .assetSpent => .assetSpent
  | .invalidUtxoAccumulatorOutput => .invalidUtxoAccumulatorOutput
  | .fpEncodeError e => .unexpectedError (.fpEncodeError e)
  | .outgoingNoteDecodeError e => .unexpectedError (.outgoingNoteDecodeError e)

def ReceiverLedgerError.toReceiverPostError :
    ReceiverLedgerError c → ReceiverPostError (ReceiverLedgerError c)
  | .assetRegistered => .assetRegistered
  | e => .unexpectedError e

/-- `From<TransferLedgerError<T>> for TransferPostError<T>`. -/
def TransferLedgerError.toTransferPostError : TransferLedgerError R → TransferPostError R
  | .invalidProof => .invalidProof
  | .invalidTransferShape => .invalidShape
  | .senderLedgerError e => .sender e.toSenderPostError
  | .receiverLedgerError e => .receiver e.toReceiverPostError
  | .unknownAsset => .invalidProof
  | e => .unexpectedError e

def SenderPostError.toError : SenderPostError SenderLedgerError → Error
  | .assetSpent => .assetSpent
  | .invalidUtxoAccumulatorOutput => .invalidUtxoAccumulatorOutput
  | .unexpectedError _ => .internalLedgerError

def ReceiverPostError.toError : ReceiverPostError (ReceiverLedgerError c) → Error
  | .assetRegistered => .assetRegistered
  | .unexpectedError _ => .internalLedgerError

def FungibleLedgerError.toError : FungibleLedgerError D → Error
  | .invalidAssetId _ => .publicUpdateInvalidAssetId
  | .belowMinimum => .publicUpdateBelowMinimum
  | .cannotCreate => .publicUpdateCannotCreate
  | .unknownAsset => .publicUpdateUnknownAsset
  | .overflow => .publicUpdateOverflow
  | .cannotWithdrawMoreThan _ => .publicUpdateCannotWithdraw
  | .invalidMint _ => .publicUpdateInvalidMint
  | .invalidBurn _ => .publicUpdateInvalidBurn
  | .invalidTransfer _ => .publicUpdateInvalidTransfer
  | .encodeError => .encodeError

/-- `From<TransferPostError<T>> for Error<T>` on a stack of `depth` frames. -/
def TransferPostError.toError : (depth : ℕ) → TransferPostError R → Option Error
  | 0, _ => none
  | depth + 1, err => match err with
    | .invalidShape => some .invalidShape
    | .invalidAuthorizationSignature => some .invalidAuthorizationSignature
    | .invalidSourceAccount _ => some .invalidSourceAccount
    | .invalidSinkAccount _ => some .invalidSinkAccount
    | .sender e => some e.toError
    | .receiver e => some e.toError
    | .duplicateMint => some .duplicateRegister
    | .duplicateSpend => some .duplicateSpend
    | .invalidProof => some .invalidProof
    -- the target of `err.into()` is this same conversion
    | .unexpectedError _ => toError depth err

end Conversions

section Termination
variable {R : Runtime} {depth : ℕ}

theorem TransferPostError.toError_unexpectedError (e : TransferLedgerError R) :
    (unexpectedError e).toError depth = none := by
  induction depth with
  | zero => rfl
  | succ depth ih =>
    rw [toError]
    exact ih

/-- The conversion of any other error ends in its first frame. -/
theorem TransferPostError.toError_isSome (h : 0 < depth) (e : TransferPostError R) :
    (e.toError depth).isSome ↔ ∀ e', e ≠ .unexpectedError e' := by
  cases depth with
  | zero => omega
  | succ depth =>
    cases e with
    | unexpectedError e => simp [toError_unexpectedError]
    | _ => simp [toError]

end Termination

end ZkNft
