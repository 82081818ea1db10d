import Pneumatic.DataService.Entities
import Pneumatic.DataService.Store

/-!
# The wire face of the data service

`server.rs` of the data service with the two helpers of `conns/uds.rs` it shares
with its clients. A frame is a length, a tag and a body; the length counts the
tag and the body, in thirty-two bits. One request is served on a connection. A
frame that cannot be read or authenticated gets no reply; every other request
gets one, and the reply to a failed save is the reply to a save.
-/

namespace Pneumatic

open Handler HandlerM LittleEndian

def authTagLen : Nat := 32

def maxFrameSize : Nat := 16 * 1024 * 1024

variable (D : DataCodec)

/-- The tag of `sign_payload`; without a secret it is zero. -/
def signPayload (secret : Option Bytes) (payload : Bytes) : Bytes32 :=
  match secret with
  | some secret => D.hmacSha256 secret payload
  | none => Bytes32.ofNat 0

def verifyPayload (secret : Option Bytes) (tag payload : Bytes) : Bool :=
  match secret with
  | none => true
  | some secret => (D.hmacSha256 secret payload).bytes == tag

/-- `(n as u32).to_be_bytes()`: the four low bytes. -/
def frameHeader (n : Nat) : Bytes := (leBytes 4 n).reverse

/-- The frame `write_frame` and `write_body` send. -/
def frame (secret : Option Bytes) (payload : Bytes) : Bytes :=
  frameHeader (authTagLen + payload.length) ++ ((signPayload D secret payload).bytes ++ payload)

/-- The tag and the body of a frame, as `read_body` reads them off a connection
that has no more to give. -/
def readBody (stream : Bytes) : Option Bytes :=
  if stream.length < 4 then none
  else
    let len := leNat (stream.take 4).reverse
    if len < authTagLen then none
    else if len > maxFrameSize then none
    else if (stream.drop 4).length < len then none
    else some ((stream.drop 4).take len)

/-- The payload of a frame that the service accepts. -/
def receive (secret : Option Bytes) (stream : Bytes) : Option Bytes :=
  match readBody stream with
  | none => none
  | some body =>
    if verifyPayload D secret (body.take authTagLen) (body.drop authTagLen) then
      some (body.drop authTagLen)
    else none

variable (F : StateFormat) (fault : Option PersistFault)

def handleGet (store : DataStore) (request : DataRequest) : Bytes :=
  match request.op with
  | .get _ => (store.get request.partitionId request.key).getD []
  | .save _ => []

def handleSave (request : DataRequest) : StoreM Bytes :=
  match request.op with
  | .get _ => pure []
  | .save op => do
    let value ← ofOption (D.serialize op.kind op.stored) .invalidData
    put F fault request.partitionId request.key value
    pure []

/-- The reply to a payload, and the store after it. -/
def dispatchRequest (payload : Bytes) (store : DataStore) : Bytes × DataStore :=
  match D.deserializeRequest payload with
  | none => ([], store)
  | some request =>
    match request.op with
    | .get _ => (handleGet store request, store)
    | .save _ =>
      match (handleSave D F fault request).exec store with
      | (.ok body, store) => (body, store)
      | (.error _, store) => ([], store)

/-- One connection: the frame that is sent back, if any, and the store after
it. -/
def serveConnection (secret : Option Bytes) (stream : Bytes) (store : DataStore) :
    Option Bytes × DataStore :=
  match receive D secret stream with
  | none => (none, store)
  | some payload =>
    let (response, store) := dispatchRequest D F fault payload store
    (some (frame D secret response), store)

end Pneumatic
