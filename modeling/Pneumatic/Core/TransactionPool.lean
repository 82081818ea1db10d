import Pneumatic.Core.Bytes
import Mathlib.Data.Finmap

/-!
# The queue of validated transactions

`TransactionPool` of `transactions.rs`: for each token the ids of its validated
transactions in the order a leader takes them, and for each id where and why it
stands there. Within a sender the order is by sequence number, across senders by
sequence number and then by timestamp. A leader takes a prefix of a token's
queue; the index keeps what it has taken until `remove`.
-/

namespace Pneumatic

open Finmap

/-- What the index records about a queued transaction. -/
structure PoolEntry where
  tokenId : Bytes
  sequenceNumber : Nat
  timestamp : Int
  sender : Bytes
deriving DecidableEq

structure TransactionPool where
  pools : Finmap (fun _ : Bytes => List String)
  index : Finmap (fun _ : String => PoolEntry)

namespace TransactionPool

def new : TransactionPool where
  pools := ∅
  index := ∅

/-- Whether a new entry goes in front of a queued one. -/
def precedes (entry : PoolEntry) : Option PoolEntry → Bool
  | none => true
  | some existing =>
    if existing.sender = entry.sender then
      entry.sequenceNumber < existing.sequenceNumber
    else
      entry.sequenceNumber < existing.sequenceNumber ||
        (entry.sequenceNumber == existing.sequenceNumber && entry.timestamp < existing.timestamp)

def queue (pool : TransactionPool) (tokenId : Bytes) : List String :=
  (pool.pools.lookup tokenId).getD []

/-- The pools with a token's queue replaced; an empty queue is no queue. -/
def setQueue (pools : Finmap (fun _ : Bytes => List String)) (tokenId : Bytes)
    (ids : List String) : Finmap (fun _ : Bytes => List String) :=
  if ids.isEmpty then pools.erase tokenId else pools.insert tokenId ids

def enqueue (pool : TransactionPool) (txId : String) (entry : PoolEntry) : TransactionPool :=
  -- the entry is in the index before the queue is searched
  let index := pool.index.insert txId entry
  let ids := pool.queue entry.tokenId
  let position := ids.findIdx fun id => precedes entry (index.lookup id)
  { pools := pool.pools.insert entry.tokenId (ids.insertIdx position txId)
    index := index }

def remove (pool : TransactionPool) (txId : String) : TransactionPool :=
  match pool.index.lookup txId with
  | none => pool
  | some entry =>
    { pools :=
        match pool.pools.lookup entry.tokenId with
        | none => pool.pools
        | some ids => setQueue pool.pools entry.tokenId (ids.filter (· ≠ txId))
      index := pool.index.erase txId }

def peekTop (pool : TransactionPool) (tokenId : Bytes) (n : Nat) : List String :=
  (pool.queue tokenId).take n

def dequeueForLeader (pool : TransactionPool) (tokenId : Bytes) (n : Nat) :
    List String × TransactionPool :=
  (pool.peekTop tokenId n,
    match pool.pools.lookup tokenId with
    | none => pool
    | some ids =>
      { pool with pools := setQueue pool.pools tokenId (ids.drop n) })

def totalLen (pool : TransactionPool) : Nat := pool.index.keys.card

theorem queue_enqueue (pool : TransactionPool) (txId : String) (entry : PoolEntry)
    (tokenId : Bytes) : (pool.enqueue txId entry).queue tokenId =
      if tokenId = entry.tokenId then
        (pool.queue tokenId).insertIdx ((pool.queue tokenId).findIdx fun id =>
          precedes entry ((pool.enqueue txId entry).index.lookup id)) txId
      else pool.queue tokenId := by
  split
  · next heq =>
    subst heq
    simp only [enqueue, queue, lookup_insert, Option.getD_some]
  · next hne => simp only [enqueue, queue, lookup_insert_of_ne _ hne]

theorem getD_lookup_setQueue (pools : Finmap (fun _ : Bytes => List String))
    (tokenId other : Bytes) (ids : List String) :
    ((setQueue pools tokenId ids).lookup other).getD [] =
      if other = tokenId then ids else (pools.lookup other).getD [] := by
  unfold setQueue
  split
  · next he =>
    obtain rfl := List.isEmpty_iff.mp he
    split
    · next heq => rw [heq, lookup_erase]; rfl
    · next hne => rw [lookup_erase_ne hne]
  · split
    · next heq => rw [heq, lookup_insert]; rfl
    · next hne => rw [lookup_insert_of_ne _ hne]

theorem queue_dequeueForLeader (pool : TransactionPool) (tokenId other : Bytes) (n : Nat) :
    (pool.dequeueForLeader tokenId n).2.queue other =
      if other = tokenId then (pool.queue tokenId).drop n
      else pool.queue other := by
  cases hids : pool.pools.lookup tokenId with
  | none =>
    have hq : pool.queue tokenId = [] := by rw [queue, hids]; rfl
    simp only [dequeueForLeader, hids, hq, List.drop_nil]
    split
    · next heq => rw [heq, hq]
    · rfl
  | some ids =>
    have hq : pool.queue tokenId = ids := by rw [queue, hids]; rfl
    simp only [dequeueForLeader, hids, hq]
    exact getD_lookup_setQueue pool.pools tokenId other _

theorem queue_remove_sublist (pool : TransactionPool) (txId : String) (tokenId : Bytes) :
    ((pool.remove txId).queue tokenId).Sublist (pool.queue tokenId) := by
  unfold remove
  split
  · exact .refl _
  · next entry _ =>
    split
    · exact .refl _
    · next ids hids =>
      have hq : pool.queue entry.tokenId = ids := by rw [queue, hids]; rfl
      rw [queue, getD_lookup_setQueue]
      split
      · next heq =>
        rw [heq, hq]
        exact List.filter_sublist
      · exact .refl _

end TransactionPool

end Pneumatic
