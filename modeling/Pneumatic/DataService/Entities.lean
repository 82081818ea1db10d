import Pneumatic.Committer.ShieldedPool
import Pneumatic.Committer.Chain
import Pneumatic.Core.Messages

/-!
# What the data service keeps

The entities of `data.rs` and the requests that carry them. There are six kinds;
what travels and is stored is the value itself for three of them and an envelope
with the value's fingerprint for the others.

The encodings are outside of the repository. A value reads back as it was
written. Structs are written as maps with the names of their fields, so a value
is not read as one of another kind, nothing reads from no bytes, and a request
whose end is missing is not read.
-/

namespace Pneumatic

inductive Kind where
  | token
  | data
  | user
  | stakeSnapshot
  | executorSet
  | shieldedPool
deriving DecidableEq

structure User where
  publicKey : Bytes
  fuelBalance : Nat
  stake : Nat
  nonce : Nat
deriving DecidableEq

structure ExecutorSet where
  executors : Finmap (fun _ : Bytes => Nat)
deriving DecidableEq

def StakeSet.toExecutorSet (stakers : StakeSet) : ExecutorSet := ⟨stakers⟩

/-- The three envelopes; the epoch is absent from the pool's. -/
structure Envelope (Payload : Type) where
  payload : Payload
  hash : Bytes32
  epoch : Option UInt64
deriving DecidableEq

def Kind.Value : Kind → Type
  | .token => Token
  | .data => Bytes
  | .user => User
  | .stakeSnapshot => StakeSet
  | .executorSet => ExecutorSet
  | .shieldedPool => ShieldedPoolState

def Kind.Stored : Kind → Type
  | .token => Token
  | .data => Bytes
  | .user => User
  | .stakeSnapshot => Envelope StakeSet
  | .executorSet => Envelope ExecutorSet
  | .shieldedPool => Envelope ShieldedPoolState

instance : (kind : Kind) → DecidableEq kind.Stored
  | .token => inferInstanceAs (DecidableEq Token)
  | .data => inferInstanceAs (DecidableEq Bytes)
  | .user => inferInstanceAs (DecidableEq User)
  | .stakeSnapshot => inferInstanceAs (DecidableEq (Envelope StakeSet))
  | .executorSet => inferInstanceAs (DecidableEq (Envelope ExecutorSet))
  | .shieldedPool => inferInstanceAs (DecidableEq (Envelope ShieldedPoolState))

inductive GetOp where
  | token
  | data
  | user
  | stakeSnapshot (epoch : UInt64)
  | executorSet (epoch : UInt64)
  | shieldedPool
deriving DecidableEq

/-- `SaveOp`: a kind and a value to be stored. -/
structure SaveOp where
  kind : Kind
  stored : kind.Stored
deriving DecidableEq

inductive DataOp where
  | get (op : GetOp)
  | save (op : SaveOp)
deriving DecidableEq

structure DataRequest where
  key : Bytes
  op : DataOp
  partitionId : String
deriving DecidableEq

/-- The encodings, the hash and the keyed hash the data channel uses. -/
structure DataCodec where
  sha256 : Bytes → Bytes
  hmacSha256 : Bytes → Bytes → Bytes32
  canonicalStakes : Finmap (fun _ : Bytes => Nat) → Option Bytes
  canonicalPool : ShieldedPoolState → Option Bytes
  serialize : (kind : Kind) → kind.Stored → Option Bytes
  deserialize : (kind : Kind) → Bytes → Option kind.Stored
  serializeRequest : DataRequest → Option Bytes
  deserializeRequest : Bytes → Option DataRequest
  deserialize_serialize : ∀ kind stored bytes, serialize kind stored = some bytes →
    deserialize kind bytes = some stored
  deserialize_otherKind : ∀ kind stored bytes, serialize kind stored = some bytes →
    ∀ other, other ≠ kind → deserialize other bytes = none
  deserialize_nil : ∀ kind, deserialize kind [] = none
  deserialize_serializeRequest : ∀ request bytes, serializeRequest request = some bytes →
    deserializeRequest bytes = some request
  deserializeRequest_truncated : ∀ request bytes, serializeRequest request = some bytes →
    ∀ n < bytes.length, deserializeRequest (bytes.take n) = none

variable (D : DataCodec)

/-- `sha256(..).try_into().unwrap_or([0u8; 32])`. -/
def digest (bytes : Bytes) : Bytes32 :=
  if h : (D.sha256 bytes).length = 32 then ⟨D.sha256 bytes, h⟩ else Bytes32.ofNat 0

/-- `fingerprint` of a stake set; an executor set's is the same of its map. -/
def fingerprintStakes (stakers : Finmap (fun _ : Bytes => Nat)) : Bytes32 :=
  digest D ((D.canonicalStakes stakers).getD [])

def fingerprintPool (state : ShieldedPoolState) : Bytes32 :=
  digest D ((D.canonicalPool state).getD [])

/-- The key of an entity: what its kind is looked up by. -/
inductive Entity where
  | token (key : Bytes)
  | data (key : Bytes)
  | user (key : Bytes)
  | stakeSnapshot (epoch : UInt64)
  | executorSet (epoch : UInt64)
  | shieldedPool
deriving DecidableEq

namespace Entity

def kind : Entity → Kind
  | .token _ => .token
  | .data _ => .data
  | .user _ => .user
  | .stakeSnapshot _ => .stakeSnapshot
  | .executorSet _ => .executorSet
  | .shieldedPool => .shieldedPool

/-- `to_be_bytes` of an epoch. -/
def epochKey (epoch : UInt64) : Bytes := (LittleEndian.leBytes 8 epoch.toNat).reverse

def storageKey : Entity → Bytes
  | .token key => key
  | .data key => key
  | .user key => key
  | .stakeSnapshot epoch => epochKey epoch
  | .executorSet epoch => epochKey epoch
  | .shieldedPool => asBytes "shielded_pool"

/-- Two entities of one kind with one key are the same. -/
theorem eq_of_storageKey {a b : Entity} (hk : a.kind = b.kind)
    (hkey : a.storageKey = b.storageKey) : a = b := by
  have he : ∀ {e e' : UInt64}, epochKey e = epochKey e' → e = e' := by
    intro e e' h
    have hb := List.reverse_injective h
    have hw : ∀ e : UInt64, e.toNat < 256 ^ 8 := fun e => e.toNat_lt
    rw [← UInt64.toNat_inj, ← LittleEndian.leNat_leBytes (hw e), hb,
      LittleEndian.leNat_leBytes (hw e')]
  cases a <;> cases b <;> simp_all [kind, storageKey]
  · exact he hkey
  · exact he hkey

def getOp : Entity → GetOp
  | .token _ => .token
  | .data _ => .data
  | .user _ => .user
  | .stakeSnapshot epoch => .stakeSnapshot epoch
  | .executorSet epoch => .executorSet epoch
  | .shieldedPool => .shieldedPool

end Entity

/-- `DataError`, as far as the provider gives it. -/
inductive DataError where
  | fromStore
  | serialization
  | deserialization
  | storeNotFound
  | timeout
  | peerUnauthenticated
  | snapshotCorrupt (epoch : Option UInt64)
deriving DecidableEq

/-- The check all three envelopes make. -/
def Envelope.verify {Payload : Type} (fingerprint : Payload → Bytes32)
    (envelope : Envelope Payload) : Except DataError Payload :=
  if envelope.hash ≠ fingerprint envelope.payload then
    .error (.snapshotCorrupt envelope.epoch)
  else .ok envelope.payload

/-- What is stored for a value: itself, or in a new envelope. -/
def Entity.wrap : (entity : Entity) → entity.kind.Value → entity.kind.Stored
  | .token _, value => value
  | .data _, value => value
  | .user _, value => value
  | .stakeSnapshot epoch, stakers =>
    (⟨stakers, fingerprintStakes D stakers, some epoch⟩ : Envelope StakeSet)
  | .executorSet epoch, set =>
    (⟨set, fingerprintStakes D set.executors, some epoch⟩ : Envelope ExecutorSet)
  | .shieldedPool, state =>
    (⟨state, fingerprintPool D state, none⟩ : Envelope ShieldedPoolState)

/-- The value in what was stored, its fingerprint checked. -/
def Entity.unwrap : (entity : Entity) → entity.kind.Stored → Except DataError entity.kind.Value
  | .token _, value => .ok value
  | .data _, value => .ok value
  | .user _, value => .ok value
  | .stakeSnapshot _, envelope => Envelope.verify (fingerprintStakes D) envelope
  | .executorSet _, envelope =>
    Envelope.verify (fun set => fingerprintStakes D set.executors) envelope
  | .shieldedPool, envelope => Envelope.verify (fingerprintPool D) envelope

theorem Entity.unwrap_wrap (entity : Entity) (value : entity.kind.Value) :
    entity.unwrap D (entity.wrap D value) = .ok value := by
  cases entity with
  | stakeSnapshot epoch | executorSet epoch | shieldedPool => exact if_neg (not_not.mpr rfl)
  | _ => rfl

end Pneumatic
