import ZkNft.Lib.Bytes

/-! The locations of XCM, and the locations that the asset manager stores. -/

namespace ZkNft

abbrev ParaId := BitVec 32

inductive NetworkId where
  | any
  | named (name : List UInt8)
  | polkadot
  | kusama
  deriving DecidableEq

/-- A junction of XCM version 1; body and part of a plurality are kept encoded. -/
inductive Junction where
  | parachain (id : ParaId)
  | accountId32 (network : NetworkId) (id : Bytes 32)
  | accountIndex64 (network : NetworkId) (index : BitVec 64)
  | accountKey20 (network : NetworkId) (key : Bytes 20)
  | palletInstance (index : UInt8)
  | generalIndex (index : BitVec 128)
  | generalKey (key : List UInt8)
  | onlyChild
  | plurality (body : List UInt8)
  deriving DecidableEq

/-- At most eight junctions, outermost first. -/
structure Junctions where
  toList : List Junction
  length_le : toList.length ≤ 8
  deriving DecidableEq

def Junctions.here : Junctions := ⟨[], by simp⟩

structure MultiLocation where
  parents : UInt8
  interior : Junctions
  deriving DecidableEq

namespace MultiLocation

def isHere (location : MultiLocation) : Bool :=
  location.parents == 0 && location.interior.toList.isEmpty

def firstInterior (location : MultiLocation) : Option Junction := location.interior.toList.head?

/-- `(1, X1(Parachain(id)))`. -/
def sibling (id : ParaId) : MultiLocation := ⟨1, [.parachain id], by simp⟩

/-- `(0, X1(Parachain(id)))`. -/
def child (id : ParaId) : MultiLocation := ⟨0, [.parachain id], by simp⟩

def parent : MultiLocation := ⟨1, .here⟩

end MultiLocation

/-- A `VersionedMultiLocation`; a location of version 0 is kept encoded. -/
inductive AssetLocation where
  | v0 (encoded : List UInt8)
  | v1 (location : MultiLocation)
  deriving DecidableEq

/-- `Into<Option<MultiLocation>>`. -/
def AssetLocation.toMultiLocation? : AssetLocation → Option MultiLocation
  | .v0 _ => none
  | .v1 location => some location

inductive Fungibility where
  | fungible (amount : BitVec 128)
  | nonFungible (item : List UInt8)
  deriving DecidableEq

inductive XcmAssetId where
  | concrete (location : MultiLocation)
  | abstract (id : List UInt8)
  deriving DecidableEq

structure MultiAsset where
  id : XcmAssetId
  fungibility : Fungibility
  deriving DecidableEq

/-- `IsNativeConcrete`: the amount of an asset at this chain itself, seen from outside or inside. -/
def isNativeConcrete (selfReserve : MultiLocation) (asset : MultiAsset) : Option (BitVec 128) :=
  match asset.fungibility, asset.id with
  | .fungible amount, .concrete location =>
    if location = selfReserve ∨ location.isHere then some amount else none
  | _, _ => none

end ZkNft
