import Pneumatic.Core.Registry

/-!
# The Executor's intake

`ingest_preload` and `preload_for_transaction` of `executor.rs`: the body of a
preload is a transaction, which is registered and locked, and a task is started
for it if there is a free slot. The lock is taken before the slots are counted.

The task itself runs later and on its own, and is not part of the intake. Of the
table of results only the ids count here.
-/

namespace Pneumatic

open Handler HandlerM

inductive ExecutorError where
  | data (text : String)
  | encoding
  | registry (txId : String)
  | validation (reasons : List ValidationFailureReason)
  | atCapacity (maxInFlight current : Nat)
deriving DecidableEq

structure ExecutorState where
  registry : PendingTransactionRegistry
  preloadTasks : Finset String
  activeTasks : Finset String

abbrev ExecutorM := HandlerM ExecutorState ExecutorError

variable (C : Codec) (maxInFlight : Nat)

def preloadForTransaction (txId : String) : ExecutorM Unit := do
  zoom ExecutorState.registry (fun s registry => { s with registry := registry })
    (fun _ => .registry txId) (acquireTransaction txId)
  let s ← getState
  require (s.activeTasks.card < maxInFlight) (.atCapacity maxInFlight s.activeTasks.card)
  update fun s => { s with
    preloadTasks := insert txId s.preloadTasks
    activeTasks := insert txId s.activeTasks }

/-- The registry after a preload was registered: a transaction that is not
pending stays as it is. -/
def preloadEntry (tx : Transaction) (registry : PendingTransactionRegistry) :
    PendingTransactionRegistry :=
  match registry.transactions.lookup tx.id with
  | none =>
    { registry with
      transactions := registry.transactions.insert tx.id (.new (.preloaded tx)) }
  | some entry =>
    if entry.state = .pending then registry.setState tx.id (.preloaded tx)
    else registry

def ingestPreload (body : Bytes) : ExecutorM Unit := do
  let tx ← ofOption (C.decodeTransaction body) .encoding
  update fun s => { s with registry := preloadEntry tx s.registry }
  preloadForTransaction maxInFlight tx.id

end Pneumatic
