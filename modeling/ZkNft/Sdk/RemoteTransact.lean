import ZkNft.Lib.Compact
import ZkNft.Lib.Hex
import ZkNft.Sdk.TransferPost

/-! The transactions that the SDK makes of signed posts, and the payload that it cuts out of their
JSON text for a remote transact. -/

namespace ZkNft
namespace Sdk

/-- An unsigned extrinsic: the version byte and the encoded call. -/
structure Extrinsic where
  version : UInt8
  call : List UInt8

namespace Extrinsic

/-- The encoding behind a compact length. -/
def encode (extrinsic : Extrinsic) : List UInt8 :=
  Compact.encode (1 + extrinsic.call.length) ++ extrinsic.version :: extrinsic.call

/-- The quoted hexadecimal text. -/
def toJson (extrinsic : Extrinsic) : List Char :=
  ['"', '0', 'x'] ++ Hex.ofBytes extrinsic.encode ++ ['"']

end Extrinsic

/-- The extrinsics that `api.tx` builds: the calls of the pallet by their arguments, a batch by its
two index bytes and the calls in it. -/
structure TxApi where
  toPrivate : String → Json → Except Thrown Extrinsic
  privateTransfer : String → Json → Except Thrown Extrinsic
  privateTransferAsset : ℕ → String → Bytes 32 → Json → Except Thrown Extrinsic
  toPublic : String → Json → Except Thrown Extrinsic
  version : UInt8
  batchIndex : UInt8 × UInt8

namespace TxApi
variable (api : TxApi)

/-- `api.tx.utility.batch`. -/
def batch (calls : List Extrinsic) : Extrinsic :=
  { version := api.version
    call := api.batchIndex.1 :: api.batchIndex.2 ::
      (Compact.encode calls.length ++ calls.flatMap (·.call)) }

/-- Maps a given `post` to a known transaction type, either Mint, Private Transfer or Reclaim. -/
def mapPostToTransaction (assetType : String) (assetId : ℕ) (post : Json)
    (addressSha256 : Bytes 32) : Except Thrown Extrinsic := do
  let sources ← Json.arrayLength (← post.get ["sources"])
  let senders ← Json.arrayLength (← post.get ["sender_posts"])
  let receivers ← Json.arrayLength (← post.get ["receiver_posts"])
  let sinks ← Json.arrayLength (← post.get ["sinks"])
  if sources = 1 ∧ senders = 0 ∧ receivers = 1 ∧ sinks = 0 then
    api.toPrivate assetType post
  else if sources = 0 ∧ senders = 2 ∧ receivers = 2 ∧ sinks = 0 then
    if assetType = "SBT" then api.privateTransferAsset assetId assetType addressSha256 post
    else api.privateTransfer assetType post
  else if sources = 0 ∧ senders = 2 ∧ receivers = 1 ∧ sinks = 1 then
    api.toPublic assetType post
  else throw ⟨⟩

def MAX_BATCH := 2

/-- Batches transactions, one batch for each slice of the list. -/
def transactionsToBatches (transactions : List Extrinsic) : List Extrinsic :=
  (List.range ((transactions.length + MAX_BATCH - 1) / MAX_BATCH)).map fun i =>
    api.batch ((transactions.drop (i * MAX_BATCH)).take MAX_BATCH)

end TxApi

structure SignResult where
  posts : List Json
  transactions : List Extrinsic
  txs : List Extrinsic

/-- `sign_transaction`, from the posts that the wallet signs on. -/
def signTransaction (api : TxApi) (bn : Option Json → Except Thrown (List UInt8))
    (assetType : String) (assetId : ℕ) (addressSha256 : Bytes 32) (posts : List Json) :
    Except Thrown SignResult := do
  let transactions ← posts.mapM fun post => do
    let convertedPost ← transferPost bn post
    api.mapPostToTransaction assetType assetId convertedPost addressSha256
  return ⟨posts, transactions, api.transactionsToBatches transactions⟩

/-- `JSON.stringify` of a list of extrinsics. -/
def stringify (txs : List Extrinsic) : List Char :=
  ['['] ++ [','].intercalate (txs.map (·.toJson)) ++ [']']

/-- `getXCMRemoteTransactPayload`, where `replace` takes out the first occurrence. -/
def getXCMRemoteTransactPayload (signResult : SignResult) : List Char :=
  let res := (stringify signResult.txs).drop 10
  ((res.erase '[').erase '"').erase ']'

section Text

theorem erase_punctuation {c : Char} (hc : ∀ d < 16, c ≠ d.digitChar) (bs : List UInt8)
    (rest : List Char) : (Hex.ofBytes bs ++ c :: rest).erase c = Hex.ofBytes bs ++ rest := by
  rw [List.erase_append_right _ (Hex.not_mem_ofBytes hc bs), List.erase_cons_head]

/-- What is left of the text of one extrinsic: its bytes from the fourth one on. -/
theorem payload_singleton {result : SignResult} {tx : Extrinsic} (h : result.txs = [tx])
    (hlong : 3 ≤ tx.encode.length) :
    getXCMRemoteTransactPayload result = Hex.ofBytes (tx.encode.drop 3) := by
  have htext : (stringify result.txs).drop 10 = Hex.ofBytes (tx.encode.drop 3) ++ ['"', ']'] := by
    rw [h, stringify, List.map_singleton, List.intercalate_singleton, Extrinsic.toJson]
    show ((Hex.ofBytes tx.encode ++ ['"']) ++ [']']).drop (2 * 3) = _
    rw [List.append_assoc]
    exact Hex.ofBytes_append_drop hlong _
  have hbracket : (Hex.ofBytes (tx.encode.drop 3) ++ ['"', ']']).erase '[' =
      Hex.ofBytes (tx.encode.drop 3) ++ ['"', ']'] := by
    apply List.erase_of_not_mem
    have hhex := Hex.not_mem_ofBytes (c := '[') (by decide) (tx.encode.drop 3)
    simp [hhex]
  rw [getXCMRemoteTransactPayload, htext, hbracket, erase_punctuation (by decide),
    erase_punctuation (by decide), List.append_nil]

/-- Behind the first extrinsic there stays a comma. -/
theorem payload_several {result : SignResult} {tx tx' : Extrinsic} {txs : List Extrinsic}
    (h : result.txs = tx :: tx' :: txs) (hlong : 3 ≤ tx.encode.length) :
    ',' ∈ getXCMRemoteTransactPayload result := by
  have hmem : ',' ∈ (stringify result.txs).drop 10 := by
    rw [h, stringify, List.map_cons, List.map_cons, List.intercalate_cons_cons, Extrinsic.toJson]
    show ',' ∈ ((Hex.ofBytes tx.encode ++ ['"']) ++ [','] ++ _ ++ [']']).drop (2 * 3)
    rw [List.append_assoc, List.append_assoc, List.append_assoc,
      Hex.ofBytes_append_drop hlong]
    simp
  rw [getXCMRemoteTransactPayload, List.mem_erase_of_ne (by decide),
    List.mem_erase_of_ne (by decide), List.mem_erase_of_ne (by decide)]
  exact hmem

end Text

section Batches
variable (api : TxApi)

theorem Extrinsic.encode_length (tx : Extrinsic) :
    tx.encode.length = (Compact.encode (1 + tx.call.length)).length + 1 + tx.call.length := by
  rw [Extrinsic.encode, List.length_append, List.length_cons]
  omega

theorem TxApi.batch_long (calls : List Extrinsic) : 3 ≤ (api.batch calls).encode.length := by
  have hcompact := Compact.length_pos (1 + (api.batch calls).call.length)
  have hcall : 2 ≤ (api.batch calls).call.length := by
    simp [TxApi.batch]
  rw [Extrinsic.encode_length]
  omega

theorem transactionsToBatches_of_le {transactions : List Extrinsic} (hne : transactions ≠ [])
    (h : transactions.length ≤ 2) :
    api.transactionsToBatches transactions = [api.batch transactions] := by
  have hpos := List.length_pos_of_ne_nil hne
  have hcount : (transactions.length + 2 - 1) / 2 = 1 := by omega
  have htake : (transactions.drop (0 * 2)).take 2 = transactions := List.take_of_length_le h
  rw [TxApi.transactionsToBatches, TxApi.MAX_BATCH, hcount, List.range_one, List.map_singleton,
    htake]

theorem transactionsToBatches_of_lt {transactions : List Extrinsic}
    (h : 2 < transactions.length) : ∃ calls calls' txs,
      api.transactionsToBatches transactions = api.batch calls :: api.batch calls' :: txs := by
  obtain ⟨k, hk⟩ : ∃ k, (transactions.length + 2 - 1) / 2 = k + 2 :=
    ⟨(transactions.length + 2 - 1) / 2 - 2, by omega⟩
  rw [TxApi.transactionsToBatches, TxApi.MAX_BATCH, hk, List.range_succ_eq_map,
    List.range_succ_eq_map]
  exact ⟨_, _, _, rfl⟩

/-- The call of a batch of one or two transactions. -/
theorem TxApi.batch_length {transactions : List Extrinsic} (h : transactions.length ≤ 2) :
    (api.batch transactions).call.length =
      3 + (transactions.map (·.call.length)).sum := by
  have hcompact : (Compact.encode transactions.length).length = 1 := by
    rw [Compact.encode, if_pos (by omega), Bytes.toLE_length]
  simp only [TxApi.batch, List.length_cons, List.length_append, hcompact, List.length_flatMap]
  omega

end Batches

section Payload

/-- What follows the version byte is the call. -/
theorem drop_three_iff {tx : Extrinsic} (hlong : 3 ≤ tx.encode.length) :
    Hex.ofBytes (tx.encode.drop 3) = Hex.ofBytes tx.call ↔
      (Compact.encode (1 + tx.call.length)).length = 2 := by
  have hlen := tx.encode_length
  constructor
  · intro heq
    have hlengths := congrArg List.length heq
    rw [Hex.ofBytes_length, Hex.ofBytes_length, List.length_drop] at hlengths
    omega
  · intro htwo
    have hsplit : tx.encode =
        (Compact.encode (1 + tx.call.length) ++ [tx.version]) ++ tx.call := by
      rw [Extrinsic.encode, List.append_assoc]
      rfl
    rw [hsplit, List.drop_left' (by simp [htwo])]

/-- The payload is the hexadecimal text of the batch calls, if and only if there is one batch, and
its length is one that takes two bytes. -/
theorem getXCMRemoteTransactPayload_iff {api : TxApi}
    {bn : Option Json → Except Thrown (List UInt8)} {assetType : String} {assetId : ℕ}
    {addressSha256 : Bytes 32} {posts : List Json} {result : SignResult} (hposts : posts ≠ [])
    (h : signTransaction api bn assetType assetId addressSha256 posts = .ok result) :
    getXCMRemoteTransactPayload result = (result.txs.flatMap fun tx => Hex.ofBytes tx.call) ↔
      posts.length ≤ 2 ∧ 2 ^ 6 ≤ 4 + (result.transactions.map (·.call.length)).sum ∧
        4 + (result.transactions.map (·.call.length)).sum < 2 ^ 14 := by
  obtain ⟨transactions, hrun, hresult⟩ := Exec.except_bind_eq_ok.mp h
  have heq : result = ⟨posts, transactions, api.transactionsToBatches transactions⟩ := by
    simpa [pure, Except.pure, eq_comm] using hresult
  have hlength : transactions.length = posts.length :=
    (Exec.except_mapM_eq_ok.mp hrun).length_eq.symm
  have hne : transactions ≠ [] := by
    intro hnil
    rw [hnil] at hlength
    exact hposts (List.length_eq_zero_iff.mp hlength.symm)
  have htxs : result.txs = api.transactionsToBatches transactions := by rw [heq]
  have htransactions : result.transactions = transactions := by rw [heq]
  rw [htransactions]
  by_cases hsingle : transactions.length ≤ 2
  · have hbatches : result.txs = [api.batch transactions] := by
      rw [htxs, transactionsToBatches_of_le api hne hsingle]
    have hcall := api.batch_length hsingle
    rw [payload_singleton hbatches (api.batch_long transactions), hbatches,
      List.flatMap_singleton, drop_three_iff (api.batch_long transactions),
      Compact.length_eq_two_iff, hcall]
    omega
  · obtain ⟨calls, calls', txs, hseveral⟩ := transactionsToBatches_of_lt api (not_le.mp hsingle)
    have hcomma := payload_several (htxs.trans hseveral) (api.batch_long calls)
    constructor
    · intro hpayload
      rw [hpayload] at hcomma
      obtain ⟨tx, -, hmem⟩ := List.mem_flatMap.mp hcomma
      exact absurd hmem (Hex.not_mem_ofBytes (by decide) tx.call)
    · intro hcond
      omega

end Payload

section Witness

/-- The encoded calls of posts take a hundred bytes each. -/
def Sample.api : TxApi :=
  let extrinsic : Extrinsic := ⟨4, List.replicate 100 7⟩
  { toPrivate := fun _ _ => .ok extrinsic
    privateTransfer := fun _ _ => .ok extrinsic
    privateTransferAsset := fun _ _ _ _ => .ok extrinsic
    toPublic := fun _ _ => .ok extrinsic
    version := 4
    batchIndex := (40, 0) }

def Sample.posts (n : ℕ) : List Json :=
  List.replicate n (TransferPost.serialize .null (Sample.mint 1000))

theorem getXCMRemoteTransactPayload_two : ∃ result,
    signTransaction Sample.api Sample.bn "NFT" 1 (Bytes.zero 32) (Sample.posts 2) = .ok result ∧
      getXCMRemoteTransactPayload result =
        result.txs.flatMap fun tx => Hex.ofBytes tx.call := by
  have hsign : signTransaction Sample.api Sample.bn "NFT" 1 (Bytes.zero 32) (Sample.posts 2) =
      .ok ⟨Sample.posts 2, List.replicate 2 ⟨4, List.replicate 100 7⟩, _⟩ := rfl
  have hposts : Sample.posts 2 ≠ [] := by simp [Sample.posts]
  exact ⟨_, hsign, (getXCMRemoteTransactPayload_iff hposts hsign).mpr (by decide)⟩

/-- Three posts make two batches. -/
theorem getXCMRemoteTransactPayload_three : ∃ result,
    signTransaction Sample.api Sample.bn "NFT" 1 (Bytes.zero 32) (Sample.posts 3) = .ok result ∧
      getXCMRemoteTransactPayload result ≠
        result.txs.flatMap fun tx => Hex.ofBytes tx.call := by
  let transactions : List Extrinsic := List.replicate 3 ⟨4, List.replicate 100 7⟩
  let result : SignResult :=
    ⟨Sample.posts 3, transactions, Sample.api.transactionsToBatches transactions⟩
  have hsign : signTransaction Sample.api Sample.bn "NFT" 1 (Bytes.zero 32) (Sample.posts 3) =
      .ok result := rfl
  have hthree : 2 < transactions.length := by decide
  obtain ⟨calls, calls', txs, hseveral⟩ := transactionsToBatches_of_lt Sample.api hthree
  have hbatches : result.txs = _ := hseveral
  have hcomma := payload_several hbatches (Sample.api.batch_long calls)
  refine ⟨result, hsign, ?_⟩
  intro hpayload
  rw [hpayload] at hcomma
  obtain ⟨tx, -, hmem⟩ := List.mem_flatMap.mp hcomma
  exact Hex.not_mem_ofBytes (by decide) tx.call hmem

end Witness

end Sdk
end ZkNft
