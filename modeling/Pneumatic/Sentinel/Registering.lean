import Pneumatic.Lib.Handler
import Pneumatic.Node.Registry
import Pneumatic.Sentinel.Error

/-!
# The Sentinel's Register

`sentinel/registering.rs`: the older way into the buckets, over the data plane.
The stake is checked for the requested type, and the node is put under every
type it declares.
-/

namespace Pneumatic

open Handler HandlerM

structure NodeRegistryRequest where
  requesterKey : Bytes
  rhash : Rhash
  requesterTypes : List NodeRegistryType
  requestedType : NodeRegistryType
  bindingSignature : Bytes

def NodeRegistryRequest.binding (request : NodeRegistryRequest) : Binding where
  key := request.requesterKey
  rhash := request.rhash
  requestedType := request.requestedType
  nodeTypes := request.requesterTypes
  signature := request.bindingSignature

def meetsMinimumStake (stake globalMin typeMin : Nat) : Bool :=
  decide (globalMin ≤ stake) && decide (typeMin ≤ stake)

variable (C : Codec) (N : NodeCodec) (cfg : NodeConfig) (world : NodeWorld)

def checkStakeForType (key : Bytes) (nodeType : NodeRegistryType) : Except SentinelError Bool :=
  match world.getUser key with
  | none => .error .data
  | some stake =>
    .ok (meetsMinimumStake stake cfg.globalMinStake (cfg.minTypeStake nodeType))

def handleRegisterRequest (request : NodeRegistryRequest) :
    HandlerM NodeBuckets SentinelError Unit := do
  require (verifyBinding C N request.binding = true) (.registry .invalidBinding)
  let nodes ← getState
  require (request.requesterKey ∉ nodes request.requestedType)
    (.registry (.alreadyRegistered request.requesterKey request.requestedType))
  let staked ← HandlerM.lift
    (checkStakeForType cfg world request.requesterKey request.requestedType)
  require (staked = true)
    (.registry (.insufficientStake request.requesterKey request.requestedType))
  update fun nodes => request.requesterTypes.foldl
    (fun nodes nodeType => nodes.modify nodeType fun bucket =>
      bucket.insert request.requesterKey (.new world request.rhash)) nodes

end Pneumatic
