import Pneumatic.DataService.Server

/-!
# The client of the data service

`DefaultDataProvider` of `data.rs` over the senders of `conns/senders.rs`. A call
sends one frame and reads one. A get decodes the reply to the kind it asked for;
a save takes any reply it can authenticate for success.
-/

namespace Pneumatic

open Handler HandlerM LittleEndian

/-- What becomes of one connection: whether there is a sender and a listener,
whether the whole frame gets through, and whether the reply does in time. -/
structure Link where
  resolves : Bool
  connects : Bool
  sends : Bool
  answers : Bool
deriving DecidableEq

/-- `ConnError`, as far as a sender gives it. -/
inductive ConnError where
  | io
  | frameTooLarge (size : Nat)
  | shortResponse
  | writeError
  | readError
  | timeout
  | unauthenticated
deriving DecidableEq

def connErrorToDataError : ConnError → DataError
  | .timeout => .timeout
  | .unauthenticated => .peerUnauthenticated
  | _ => .fromStore

/-- The two secrets, the connection and what fails while the service writes its
store out. -/
structure Channel where
  clientSecret : Option Bytes
  serverSecret : Option Bytes
  link : Link
  fault : Option PersistFault

variable (D : DataCodec) (F : StateFormat) (channel : Channel)

def unframe (secret : Option Bytes) (body : Bytes) : Except ConnError Bytes :=
  if body.length < authTagLen then .error .shortResponse
  else if verifyPayload D secret (body.take authTagLen) (body.drop authTagLen) then
    .ok (body.drop authTagLen)
  else .error .unauthenticated

/-- The reading half of `get_response`. -/
def readReply (secret : Option Bytes) (stream : Bytes) : Except ConnError Bytes :=
  if stream.length < 4 then .error .readError
  else
    let len := leNat (stream.take 4).reverse
    if len > maxFrameSize then .error (.frameTooLarge len)
    else if (stream.drop 4).length < len then .error .readError
    else unframe D secret ((stream.drop 4).take len)

/-- `Sender::get_response`, with the service at the other end. A frame that does
not get through whole is not served. -/
def getResponse (data : Bytes) : HandlerM DataStore ConnError Bytes := do
  require (channel.link.connects = true) .io
  require (channel.link.sends = true) .writeError
  let store ← getState
  let (reply, after) := serveConnection D F channel.fault channel.serverSecret
    (frame D channel.clientSecret data) store
  update fun _ => after
  require (channel.link.answers = true) .timeout
  let stream ← ofOption reply .readError
  HandlerM.lift (readReply D channel.clientSecret stream)

abbrev DataM := HandlerM DataStore DataError

/-- A request and its reply; `serialize_request` comes after the sender was
found. -/
def exchange (request : DataRequest) : DataM Bytes := do
  require (channel.link.resolves = true) .storeNotFound
  let data ← ofOption (D.serializeRequest request) .serialization
  zoom id (fun _ store => store) connErrorToDataError (getResponse D F channel data)

def getDataInternal (kind : Kind) (key : Bytes) (op : GetOp) (partitionId : String) :
    DataM kind.Stored := do
  let response ← exchange D F channel ⟨key, .get op, partitionId⟩
  ofOption (D.deserialize kind response) .deserialization

def saveDataInternal (key : Bytes) (op : SaveOp) (partitionId : String) : DataM Unit := do
  let _ ← exchange D F channel ⟨key, .save op, partitionId⟩
  pure ()

/-- What every `get_*` does. -/
def getEntity (entity : Entity) (partitionId : String) : DataM entity.kind.Value := do
  let stored ← getDataInternal D F channel entity.kind entity.storageKey entity.getOp partitionId
  HandlerM.lift (entity.unwrap D stored)

/-- What every `save_*` does. -/
def saveEntity (entity : Entity) (value : entity.kind.Value) (partitionId : String) : DataM Unit :=
  saveDataInternal D F channel entity.storageKey ⟨entity.kind, entity.wrap D value⟩ partitionId

namespace DefaultDataProvider

def getToken (key : Bytes) (partitionId : String) : DataM Token :=
  getEntity D F channel (.token key) partitionId

def saveToken (key : Bytes) (token : Token) (partitionId : String) : DataM Unit :=
  saveEntity D F channel (.token key) token partitionId

def getData (key : Bytes) (partitionId : String) : DataM Bytes :=
  getEntity D F channel (.data key) partitionId

def saveData (key data : Bytes) (partitionId : String) : DataM Unit :=
  saveEntity D F channel (.data key) data partitionId

def getUser (key : Bytes) (partitionId : String) : DataM User :=
  getEntity D F channel (.user key) partitionId

def saveUser (key : Bytes) (user : User) (partitionId : String) : DataM Unit :=
  saveEntity D F channel (.user key) user partitionId

def getStakeSnapshot (epoch : UInt64) (partitionId : String) : DataM StakeSet :=
  getEntity D F channel (.stakeSnapshot epoch) partitionId

def saveStakeSnapshot (epoch : UInt64) (snapshot : StakeSet) (partitionId : String) : DataM Unit :=
  saveEntity D F channel (.stakeSnapshot epoch) snapshot partitionId

def getExecutorSet (epoch : UInt64) (partitionId : String) : DataM ExecutorSet :=
  getEntity D F channel (.executorSet epoch) partitionId

def saveExecutorSet (epoch : UInt64) (set : ExecutorSet) (partitionId : String) : DataM Unit :=
  saveEntity D F channel (.executorSet epoch) set partitionId

/-- A state that is there; a missing one is an error of the decoding. -/
def getShieldedPool (partitionId : String) : DataM (Option ShieldedPoolState) := do
  let state ← getEntity D F channel .shieldedPool partitionId
  pure (some state)

def saveShieldedPool (state : ShieldedPoolState) (partitionId : String) : DataM Unit :=
  saveEntity D F channel .shieldedPool state partitionId

end DefaultDataProvider

/-- The two saves at the end of `advance_epoch_to`. -/
def persistSnapshots (epoch : UInt64) (stakes : StakeSet) (partitionId : String) : DataM Unit := do
  DefaultDataProvider.saveStakeSnapshot D F channel epoch stakes partitionId
  DefaultDataProvider.saveExecutorSet D F channel epoch stakes.toExecutorSet partitionId

end Pneumatic
