import Pneumatic.Core.Messages

/-!
# The node registry

`node/registry.rs` with `registration.rs` and `heartbeat.rs`: five buckets, one
for each role, and the control messages that fill them. A bucket maps a public
key to the address of the node that holds it, and every role gate of the roles
asks it who is who.

Four handlers write the buckets here. A `Register` is filed under the types it
declares that pass the stake gate, a `RegisterAck` under all types it declares,
a directory response under the type it was asked for, and a heartbeat only moves
the clock of a node that is there. A fifth writer, the Sentinel's `Register`, is
in `Sentinel.Registering`.

What the surroundings answer while one message is handled is a `NodeWorld`. The
connection a bucket holds beside an address, and the acknowledgements that are
sent, are not part of the buckets; of an acknowledgement only its content is
kept.
-/

namespace Pneumatic

/-- `[u8; 16]`, a transport address. -/
structure Rhash where
  bytes : Bytes
  length_eq : bytes.length = 16
deriving DecidableEq

instance : Inhabited Rhash := ⟨⟨List.replicate 16 0, rfl⟩⟩

def NodeRegistryType.all : List NodeRegistryType :=
  [.committer, .sentinel, .executor, .finalizer, .archiver]

def NodeRegistryType.isConsensusRole : NodeRegistryType → Bool
  | .archiver => false
  | _ => true

/-- `NodeRegistryNode` without its connection. -/
structure NodeRegistryNode where
  rhash : Rhash
  lastSeen : Nat
  directorySignature : Bytes
  directoryRequestedType : NodeRegistryType
  directoryNodeTypes : List NodeRegistryType
deriving DecidableEq

abbrev Nodes := Finmap (fun _ : Bytes => NodeRegistryNode)

/-- The five maps of a `NodeRegistry`, as `get_nodes` tells them apart. -/
abbrev NodeBuckets := NodeRegistryType → Nodes

/-- What a node signs to bind its key to an address, and what is checked. -/
structure Binding where
  key : Bytes
  rhash : Rhash
  requestedType : NodeRegistryType
  nodeTypes : List NodeRegistryType
  signature : Bytes

inductive NodeRequestType where
  | register
  | request
  | heartbeat
  | registerAck (accepted : Bool) (nodeType : NodeRegistryType)
      (responderKey : Bytes) (reason : String)

/-- `NodeRequest`, without the two fields only a directory query reads. -/
structure NodeRequest where
  requesterKey : Bytes
  requesterRhash : Rhash
  requestType : NodeRequestType
  requesterTypes : List NodeRegistryType
  requestedType : NodeRegistryType
  bindingSignature : Bytes

structure NodeRegistryEntry where
  nodeKey : Bytes
  nodeRhash : Rhash
  signature : Bytes
  requestedType : NodeRegistryType
  nodeTypes : List NodeRegistryType

structure NodeRegistryResponse where
  responderKey : Bytes
  responderRhash : Rhash
  registryType : NodeRegistryType
  entries : List NodeRegistryEntry
  signature : Bytes

/-- The signed surfaces of the registry: a binding, and a directory response. -/
structure NodeCodec where
  rmpBinding : Rhash → NodeRegistryType → List NodeRegistryType → Bytes
  rmpDirectory : List NodeRegistryEntry → NodeRegistryType → Rhash → Bytes

structure NodeConfig where
  publicKey : Bytes
  rhash : Rhash
  directoryObserver : Bool
  maxNodeNumber : NodeRegistryType → Nat
  globalMinStake : Nat
  minTypeStake : NodeRegistryType → Nat

/-- What the surroundings answer while one message is handled: the clock, the
injected stake gate, the transport's routes, the roles the host runs and
declares, the stake the data service has for a user, and the order in which a
bucket is iterated. -/
structure NodeWorld where
  now : Nat
  stakeCheck : Bytes → NodeRegistryType → Bool
  hasRoute : Rhash → Bool
  selfRoles : List NodeRegistryType
  declaredRoles : List NodeRegistryType
  getUser : Bytes → Option Nat
  order : Finset Bytes → List Bytes

variable (C : Codec) (N : NodeCodec) (cfg : NodeConfig) (world : NodeWorld)

def verifyBinding (binding : Binding) : Bool :=
  C.checkSignature binding.signature binding.key
    (N.rmpBinding binding.rhash binding.requestedType binding.nodeTypes) == some true

/-- The binding a request carries for the key it names. -/
def NodeRequest.binding (request : NodeRequest) : Binding where
  key := request.requesterKey
  rhash := request.requesterRhash
  requestedType := request.requestedType
  nodeTypes := request.requesterTypes
  signature := request.bindingSignature

/-- The binding an acknowledgement carries for the responder. -/
def NodeRequest.ackBinding (request : NodeRequest) (nodeType : NodeRegistryType)
    (responderKey : Bytes) : Binding where
  key := responderKey
  rhash := request.requesterRhash
  requestedType := nodeType
  nodeTypes := request.requesterTypes
  signature := request.bindingSignature

def NodeRegistryEntry.binding (entry : NodeRegistryEntry) : Binding where
  key := entry.nodeKey
  rhash := entry.nodeRhash
  requestedType := entry.requestedType
  nodeTypes := entry.nodeTypes
  signature := entry.signature

namespace NodeRegistryNode

def new (rhash : Rhash) : NodeRegistryNode where
  rhash := rhash
  lastSeen := world.now
  directorySignature := []
  directoryRequestedType := .archiver
  directoryNodeTypes := []

def withBinding (rhash : Rhash) (request : NodeRequest) : NodeRegistryNode :=
  { new world rhash with
    directorySignature := request.bindingSignature
    directoryRequestedType := request.requestedType
    directoryNodeTypes := request.requesterTypes }

end NodeRegistryNode

/-- `roles_of_key`: the buckets a key is in, and for the host's own key the
roles it runs, in the order of the enumeration. -/
def rolesOfKey (nodes : NodeBuckets) (key : Bytes) : List NodeRegistryType :=
  NodeRegistryType.all.filter fun nodeType =>
    decide (key ∈ nodes nodeType) ||
      (decide (key = cfg.publicKey) && world.selfRoles.contains nodeType)

def findNodeTypeByPublicKey (nodes : NodeBuckets) (key : Bytes) : Option NodeRegistryType :=
  (rolesOfKey cfg world nodes key).head?

def typeIsMaxedOut (nodes : NodeBuckets) (nodeType : NodeRegistryType) : Bool :=
  decide (cfg.maxNodeNumber nodeType ≤ (nodes nodeType).keys.card)

def NodeBuckets.modify (nodes : NodeBuckets) (nodeType : NodeRegistryType)
    (write : Nodes → Nodes) : NodeBuckets :=
  Function.update nodes nodeType (write (nodes nodeType))

/-- The node of a key, seen just now. -/
def touch (key : Bytes) (bucket : Nodes) : Nodes :=
  match bucket.lookup key with
  | none => bucket
  | some node => bucket.insert key { node with lastSeen := world.now }

def refreshLastSeen (key : Bytes) (nodes : NodeBuckets)
    (nodeType : NodeRegistryType) : NodeBuckets :=
  nodes.modify nodeType (touch world key)

/-- `register_peer_with_binding` on its bucket: a known key is readdressed, a
new one needs a free place. -/
def registerPeerWithBinding (key : Bytes) (rhash : Rhash) (request : NodeRequest)
    (nodeType : NodeRegistryType) (bucket : Nodes) : Nodes :=
  if key ∈ bucket ∨ bucket.keys.card < cfg.maxNodeNumber nodeType then
    bucket.insert key (.withBinding world rhash request)
  else bucket

/-- `register_directory_peer` on its bucket: a known key is only refreshed. -/
def registerDirectoryPeer (nodeType : NodeRegistryType) (bucket : Nodes)
    (entry : NodeRegistryEntry) : Nodes :=
  if entry.nodeKey ∈ bucket then touch world entry.nodeKey bucket
  else if bucket.keys.card < cfg.maxNodeNumber nodeType then
    bucket.insert entry.nodeKey (.new world entry.nodeRhash)
  else bucket

/-- The types a registration can be filed under, by priority. -/
def registrationPriority : List NodeRegistryType :=
  [.finalizer, .executor, .sentinel, .committer]

def selectRegistrationNodeTypes (nodes : NodeBuckets) (request : NodeRequest) :
    List NodeRegistryType :=
  registrationPriority.filter fun nodeType =>
    request.requesterTypes.contains nodeType && !typeIsMaxedOut cfg nodes nodeType

def admitNodeUnderType (request : NodeRequest) (nodeType : NodeRegistryType)
    (nodes : NodeBuckets) : NodeBuckets × Bool :=
  if request.requesterKey ∈ nodes nodeType then (nodes, true)
  else if world.stakeCheck request.requesterKey nodeType = false then
    (nodes, false)
  else if typeIsMaxedOut cfg nodes nodeType then (nodes, false)
  else
    (nodes.modify nodeType fun bucket => bucket.insert request.requesterKey
      (.withBinding world request.requesterRhash request), true)

/-- The loop variables of `handle_register`. -/
structure Admission where
  nodes : NodeBuckets
  registered : List NodeRegistryType
  accepted : Bool
  failedStake : Bool

/-- One turn of the loop over the qualifying types. -/
def admitStep (request : NodeRequest) (admission : Admission)
    (nodeType : NodeRegistryType) : Admission :=
  if nodeType ∈ admission.registered then { admission with accepted := true }
  else
    match admitNodeUnderType cfg world request nodeType admission.nodes with
    | (nodes, true) =>
      { admission with
        nodes := nodes
        registered := admission.registered ++ [nodeType]
        accepted := true }
    | (nodes, false) => { admission with nodes := nodes, failedStake := true }

structure RegisterReply where
  accepted : Bool
  nodeType : NodeRegistryType
  reason : String
deriving DecidableEq

def handleRegister (request : NodeRequest) (nodes : NodeBuckets) : NodeBuckets × RegisterReply :=
  if verifyBinding C N request.binding = false then
    (nodes, ⟨false, request.requestedType, "invalid binding signature"⟩)
  else
    let qualifying := selectRegistrationNodeTypes cfg nodes request
    let already := rolesOfKey cfg world nodes request.requesterKey
    let refreshed := already.foldl (refreshLastSeen world request.requesterKey) nodes
    let admission := qualifying.foldl (admitStep cfg world request)
      ⟨refreshed, already, !already.isEmpty, false⟩
    let reply : RegisterReply :=
      if admission.accepted then
        ⟨true, (registrationPriority.find? (· ∈ admission.registered)).getD
          request.requestedType, ""⟩
      else
        ⟨false, request.requestedType,
          if admission.failedStake then "insufficient stake"
          else "no registry type available"⟩
    (admission.nodes, reply)

/-- The buckets an acknowledgement files its responder under. -/
def installTypes (request : NodeRequest) (nodeType : NodeRegistryType) : List NodeRegistryType :=
  if request.requesterTypes.isEmpty then [nodeType] else request.requesterTypes

/-- `handle_register_ack`. That the node ever asked the responder is not
checked. -/
def handleRegisterAck (request : NodeRequest) (accepted : Bool)
    (nodeType : NodeRegistryType) (responderKey : Bytes) (nodes : NodeBuckets) :
    NodeBuckets :=
  if accepted = false then nodes
  else if responderKey.isEmpty then nodes
  else if verifyBinding C N (request.ackBinding nodeType responderKey) = false then
    nodes
  else
    (installTypes request nodeType).foldl (fun nodes installType => nodes.modify installType
        (registerPeerWithBinding cfg world responderKey request.requesterRhash
          request installType)) nodes

def handleHeartbeat (request : NodeRequest) (nodes : NodeBuckets) : NodeBuckets :=
  if verifyBinding C N request.binding = false then nodes
  else
    match findNodeTypeByPublicKey cfg world nodes request.requesterKey with
    | none => nodes
    | some nodeType => refreshLastSeen world request.requesterKey nodes nodeType

/-- `handle_control`. A directory query is answered from the buckets and leaves
them alone. -/
def handleControl (request : NodeRequest) (nodes : NodeBuckets) : NodeBuckets :=
  match request.requestType with
  | .register => (handleRegister C N cfg world request nodes).1
  | .request => nodes
  | .heartbeat => handleHeartbeat C N cfg world request nodes
  | .registerAck accepted nodeType responderKey _ =>
    handleRegisterAck C N cfg world request accepted nodeType responderKey nodes

def mayTrustUnregisteredDirectoryResponder (response : NodeRegistryResponse) : Bool :=
  cfg.directoryObserver && !world.declaredRoles.any (·.isConsensusRole) &&
    world.hasRoute response.responderRhash

inductive DirectoryFault where
  | unregisteredResponder
  | invalidSignature
  | invalidEntry
deriving DecidableEq

def checkDirectoryResponse (nodes : NodeBuckets)
    (response : NodeRegistryResponse) : Except DirectoryFault Unit :=
  if findNodeTypeByPublicKey cfg world nodes response.responderKey = none ∧
      mayTrustUnregisteredDirectoryResponder cfg world response = false then
    .error .unregisteredResponder
  else if C.checkSignature response.signature response.responderKey
      (N.rmpDirectory response.entries response.registryType
        response.responderRhash) ≠ some true then
    .error .invalidSignature
  else if response.entries.any (fun entry => !verifyBinding C N entry.binding) then
    .error .invalidEntry
  else .ok ()

def otherEntries (response : NodeRegistryResponse) : List NodeRegistryEntry :=
  response.entries.filter fun entry =>
    decide (entry.nodeRhash ≠ cfg.rhash) && decide (entry.nodeKey ≠ cfg.publicKey)

def handleDirectoryResponse (response : NodeRegistryResponse)
    (nodes : NodeBuckets) : Except DirectoryFault Unit × NodeBuckets :=
  match checkDirectoryResponse C N cfg world nodes response with
  | .error e => (.error e, nodes)
  | .ok () =>
    (.ok (), nodes.modify response.registryType fun bucket =>
      (otherEntries cfg response).foldl
        (registerDirectoryPeer cfg world response.registryType) bucket)

/-- `evict_expired`: who was not seen for thirty seconds goes. The clock counts
seconds. -/
def evictExpired (nodes : NodeBuckets) : NodeBuckets := fun nodeType =>
  let bucket := nodes nodeType
  let expired := (world.order bucket.keys).filter fun key =>
    match bucket.lookup key with
    | none => false
    | some node => node.lastSeen + 30 < world.now
  expired.foldl (fun bucket key => bucket.erase key) bucket

/-! ## Sends -/

/-- What one `send_to_all` does: the frames for the host itself, and the peers that the data
is sent to over the network, by key and address. -/
structure FanOut where
  selfCopies : List Bytes
  sends : List (Bytes × Rhash)

section

variable (data : Bytes) (nodes : NodeBuckets) (nodeType : NodeRegistryType)

/-- A role of the host gets its copy locally, unless the host is among its peers. -/
def deliverSelfCopy : List Bytes :=
  if world.selfRoles.contains nodeType = false then []
  else if cfg.publicKey ∈ nodes nodeType then []
  else [data]

def sendToAll : FanOut where
  selfCopies := deliverSelfCopy cfg world data nodes nodeType
  sends := (world.order (nodes nodeType).keys).filterMap fun key =>
    ((nodes nodeType).lookup key).map fun node => (key, node.rhash)

end

end Pneumatic
