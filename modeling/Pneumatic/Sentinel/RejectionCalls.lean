import Pneumatic.Lib.Interleaving
import Pneumatic.Sentinel.Handlers

/-!
# The guards of a rejection

`handle_rejection` as a call that other calls come between. Each access of an entry takes
the exclusive guard of its key, which is not reentrant: while a guard is held an access of
that key waits, whoever holds it. The registry's own functions drop their guard before
they return, so such an access is one step. At the transition the handler itself has the
guard in hand, and in the branch of an entry that is not in Finalizing it asks for the
release of the entry with the guard still there.
-/

namespace Pneumatic

open Handler HandlerM

variable (C : Codec) (S : SentinelCodec) (cfg : SentinelConfig)

/-- The accesses of a rejection in their order, and one of any other handler, which
changes the Sentinel as it likes. -/
inductive EntryAccess where
  | acquire
  | check
  | reassign
  | transition (newKey : Bytes)
  | release
  | other (change : SentinelState → SentinelState)

/-- The Sentinel and the keys whose guard is held between two steps. -/
structure GuardedSentinel where
  sentinel : SentinelState
  guarded : Finset String

/-- A call in front of its next access. -/
structure EntryCall where
  txId : String
  sender : Bytes
  next : EntryAccess
  /-- whether the call holds the guard of its entry -/
  guard : Bool

inductive EntryInput where
  | reject (message : Message)
  | other (txId : String) (change : SentinelState → SentinelState)

def entryStart : EntryInput → GuardedSentinel → GuardedSentinel × Option EntryCall
  | .reject message, s =>
    (s, (S.decodeTxId message.body).map fun txId => ⟨txId, message.publicKey, .acquire, false⟩)
  | .other txId change, s => (s, some ⟨txId, [], .other change, false⟩)

/-- The access of an entry whose guard is free: the Sentinel after it, the access that
comes next, and whether the guard is kept for it. -/
def accessEntry (world : SentinelWorld) (txId : String) (sender : Bytes) (s : SentinelState) :
    EntryAccess → SentinelState × Option (EntryAccess × Bool)
  | .acquire =>
    match (onRegistry (fun _ => .transactionInTerminalState txId)
        (acquireTransaction txId)).exec s with
    | (.error _, s') => (s', none)
    | (.ok _, s') => (s', some (.check, false))
  | .check =>
    (s, if s.registry.isRequestedFinalizer txId sender then some (.reassign, false) else none)
  | .reassign =>
    (((rememberReassignment world txId).exec s).2,
      match reassignedKey C cfg world s txId sender with
      | none => some (.release, false)
      | some newKey => some (.transition newKey, false))
  | .transition newKey =>
    match (s.registry.transactions.lookup txId).map PendingTransaction.state with
    | none => (s, some (.release, false))
    | some (.finalizing tx _) =>
      ({ s with registry := s.registry.setState txId (.finalizing tx newKey) },
        match reassignmentSalt C world tx s.currentEpoch with
        | .error _ => none
        | .ok _ => some (.release, false))
    | some _ => (s, some (.release, true))
  | .release => (((releaseQuietly txId).exec s).2, none)
  | .other change => (change s, none)

def entryAdvance (world : SentinelWorld) (call : EntryCall) (s : GuardedSentinel) :
    GuardedSentinel × Option EntryCall :=
  if call.txId ∈ s.guarded then (s, some call)
  else
    match accessEntry C cfg world call.txId call.sender s.sentinel call.next with
    | (sentinel, none) => (⟨sentinel, s.guarded⟩, none)
    | (sentinel, some (next, guard)) =>
      (⟨sentinel, if guard then insert call.txId s.guarded else s.guarded⟩,
        some { call with next, guard })

abbrev EntryMachine := Interleaving.State GuardedSentinel EntryCall

abbrev EntryTurn := Interleaving.Turn EntryInput SentinelWorld

def entryTurn : EntryMachine → EntryTurn → EntryMachine :=
  Interleaving.turn (entryStart S) (entryAdvance C cfg)

/-- No call is under way and no guard is held. -/
def entryBoot (s : SentinelState) : EntryMachine := ⟨⟨s, ∅⟩, fun _ => none⟩

end Pneumatic
