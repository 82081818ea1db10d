import Pneumatic.Proofs.Replacement
import Pneumatic.Proofs.RoleBuckets
import Pneumatic.Sentinel.Handlers

/-!
# The gas of what was appended

The Sentinel records the gas of a transaction under its id when it admits it, and the
Committer takes it off the sender's balance behind the append of the block. Between the
two stands the registry, where another admission under the same id writes over the
record; behind the append stand four calls of the data provider, and where one of them
fails the block is on the chain and the gas is not taken; and a balance that does not
suffice is taken down to zero.

`GasHost` is the host of both roles. Its balances together with the gas of what was
appended stay the same, for every sender and over every run of admissions and Commits in
which each Commit that gets on a chain can charge its own gas in full.
-/

namespace Pneumatic

open Handler HandlerM ShieldedPool Run List Option Records

/-! ## Sums over the log -/

def ChainEvent.appendedTransaction : ChainEvent → Option Transaction
  | .appended entry => some entry.block.signedTrans.transaction
  | .rolledBack _ _ => none

/-- The transactions whose block was appended, with or without a later rollback. -/
def appendedTransactions (log : List ChainEvent) : List Transaction :=
  log.filterMap ChainEvent.appendedTransaction

/-- The requests behind them, each once. -/
def appendedRequests (log : List ChainEvent) : Finset Transaction :=
  ((appendedTransactions log).map Transaction.request).toFinset

/-- The gas recorded for a request: none unless it was admitted. -/
def recordedGas (cfg : SentinelConfig) (admitted : List Transaction) (request : Transaction) :
    Nat :=
  if request ∈ admitted.map Transaction.request then computeGasUsed cfg request else 0

/-- The recorded gas of a sender's requests of which a block was appended. -/
def gasAppended (cfg : SentinelConfig) (admitted : List Transaction)
    (log : List ChainEvent) (sender : Bytes) : Nat :=
  ((appendedRequests log).filter fun request => request.sender = sender).sum
    (recordedGas cfg admitted)

/-- The recorded gas of a request that no block was appended for. -/
def dueGas (cfg : SentinelConfig) (admitted : List Transaction) (log : List ChainEvent)
    (request : Transaction) : Nat :=
  if request ∈ appendedRequests log then 0 else recordedGas cfg admitted request

def Records.fuel (cfg : RecordsConfig) (records : Records) (sender : Bytes) : Nat :=
  ((records.users.lookup (cfg.tokenPartitionId, sender)).map User.fuelBalance).getD 0

section Sums

variable {sentinel : SentinelConfig} {admitted : List Transaction} {log : List ChainEvent}
  {sender : Bytes}

theorem appendedTransactions_landedLog (C : Codec) (commit : TransactionCommit)
    (rollback : Option Bytes) (token : Token) (log : List ChainEvent) :
    appendedTransactions (landedLog C commit rollback token log) =
      appendedTransactions log ++ [commit.proposedBlock.signedTrans.transaction] := by
  unfold landedLog logCommit appendedTransactions
  split
  · rw [filterMap_append]
    rfl
  · rw [filterMap_append]
    rfl

/-- A block adds the gas of its request where it is the first one for it. -/
theorem gasAppended_landedLog (C : Codec) (commit : TransactionCommit)
    (rollback : Option Bytes) (token : Token) (log : List ChainEvent) :
    let tx := commit.proposedBlock.signedTrans.transaction
    gasAppended sentinel admitted (landedLog C commit rollback token log) sender =
      gasAppended sentinel admitted log sender +
        if tx.sender = sender then dueGas sentinel admitted log tx.request else 0 := by
  intro tx
  have hset : appendedRequests (landedLog C commit rollback token log) =
      insert tx.request (appendedRequests log) := by
    unfold appendedRequests
    rw [appendedTransactions_landedLog, map_append, toFinset_append, Finset.union_comm]
    rfl
  unfold gasAppended dueGas
  rw [hset, Finset.filter_insert, show tx.request.sender = tx.sender from rfl]
  by_cases hs : tx.sender = sender
  · by_cases hm : tx.request ∈ appendedRequests log
    · rw [if_pos hs, if_pos hs, if_pos hm, Nat.add_zero,
        Finset.insert_eq_of_mem (Finset.mem_filter.mpr ⟨hm, hs⟩)]
    · rw [if_pos hs, if_pos hs, if_neg hm, Finset.sum_insert (by simp [hm]), Nat.add_comm]
  · simp [hs]

/-- An admission changes no sum unless it comes behind the append of its own block. -/
theorem gasAppended_admit {tx : Transaction} (hf : tx.request ∈ admitted.map Transaction.request ∨
      tx.request ∉ appendedRequests log) :
    gasAppended sentinel (tx :: admitted) log sender =
      gasAppended sentinel admitted log sender := by
  refine Finset.sum_congr rfl fun request hr => ?_
  have hmem : request ∈ (tx :: admitted).map Transaction.request ↔
      request ∈ admitted.map Transaction.request := by
    rw [map_cons, mem_cons]
    refine or_iff_right_of_imp ?_
    rintro rfl
    exact hf.resolve_right (not_not_intro (Finset.mem_filter.mp hr).1)
  unfold recordedGas
  rw [if_congr hmem rfl rfl]

end Sums

/-! ## A Commit -/

variable {C : Codec} {K : ContractCodec} {P : ShieldedPrimitives} {cfg : RecordsConfig}
  {around : Surroundings} {faults : Faults} {n n' : CommitterNode}
  {commit : TransactionCommit} {key : Bytes}

namespace CommitterNode

/-- The debit of what follows the append; whether the rest succeeds or not, it stays. -/
theorem ends_finishCommit_users {txId : String} {tx : Transaction} {block : Block}
    (hmem : txId ∈ n.base.pending)
    (hp : GasDebited (n.world C K cfg around faults) n.base.gas txId tx.sender) :
    Keeps (finishCommit C K cfg around faults txId tx block) n fun n' =>
      n'.records.users = (n.records.charged cfg n.base.gas txId tx.sender).users ∧
        n'.base.log = n.base.log := by
  refine ends_bind.mpr (ends_debitGas (fun _ => ?_) fun hu => absurd hp hu)
  refine ends_bind.mpr (ends_applyDeltas (fun w hd => ?_) fun _ _ => ⟨rfl, rfl⟩)
  refine ends_bind.mpr (ends_onBase.mpr (ends_releaseEntry hmem ?_))
  exact ends_onRecords.mpr ⟨applyDeltas_users hd, rfl⟩

end CommitterNode

/-- A Commit that gets past the checks and on the chain can charge its gas: what follows
the append gets to the debit, and the sender's balance is read and written. -/
structure Chargeable (C : Codec) (K : ContractCodec) (P : ShieldedPrimitives)
    (cfg : RecordsConfig) (n : CommitterNode) (call : HandledCommit) (tx : Transaction) :
    Prop where
  reaches : CommitterNode.Reaches P call.faults n (n.base.rollbackTarget call.commit)
  paid : GasDebited (n.world C K cfg call.around call.faults) n.base.gas
    call.commit.txId tx.sender

/-- A Commit debits nobody, or lands its block and debits the sender once. -/
inductive GasEffect (C : Codec) (K : ContractCodec) (cfg : RecordsConfig)
    (n : CommitterNode) (call : HandledCommit) : CommitterNode → Prop
  | stopped {n' : CommitterNode} (husers : n'.records.users = n.records.users)
      (hlog : n'.base.log = n.base.log) : GasEffect C K cfg n call n'
  | appended {n' : CommitterNode} {tx : Transaction} {token : Token}
      (hfree : Uncontested C n.base call.commit call.finalizerKey)
      (happends : Appends C cfg
        (n.world C K cfg call.around call.faults) n.base call.commit token)
      (hheld : HeldFor n.base.pending call.commit.txId call.commit tx)
      (husers : n'.records.users = (n.records.charged cfg n.base.gas
        call.commit.txId tx.sender).users)
      (hlog : n'.base.log = landedLog C call.commit (n.base.rollbackTarget call.commit)
        token n.base.log) : GasEffect C K cfg n call n'

theorem gasEffect_exec {call : HandledCommit}
    (hc : ∀ tx token, Uncontested C n.base call.commit call.finalizerKey →
      Appends C cfg (n.world C K cfg call.around call.faults) n.base call.commit token →
      HeldFor n.base.pending call.commit.txId call.commit tx →
      Chargeable C K P cfg n call tx) : GasEffect C K cfg n call (call.exec C K P cfg n).2 := by
  obtain ⟨around, faults, commit, key⟩ := call
  refine keeps_iff.mp ?_
  simp only [Keeps, CommitterNode.checkAndCommitTransactionResults, ends_bind,
    CommitterNode.ends_onBase]
  refine ends_duplicateGate (fun hu => ?_) fun _ _ => .stopped rfl rfl
  refine ends_takeTransaction (fun tx hh => ?_) fun _ _ => .stopped rfl rfl
  simp only [ends_getState, ends_lift]
  refine ⟨fun _ hp => ?_, fun _ _ => .stopped rfl rfl⟩
  refine ends_handleConflictAtCommit (fun o hout hb => ?_) fun _ _ => .stopped rfl rfl
  have hf : Uncontested C n.base commit key := ⟨⟨hu, tx, hh, hp⟩, hb⟩
  rw [hout]
  refine CommitterNode.ends_applyCommit_pool (fun _ _ n' _ h => ?_) (fun token henv hl =>
    ⟨fun n₁ h => ?_, fun hnot => absurd (hc tx token hf ⟨henv, hl⟩ hh).reaches hnot⟩)
  · obtain ⟨_, _, rfl⟩ := h
    exact .stopped rfl rfl
  · obtain ⟨_, _, rfl⟩ := h
    have ha : Appends C cfg (n.world C K cfg around faults) n.base
        commit token := ⟨henv, hl⟩
    refine Keeps.mono (CommitterNode.ends_finishCommit_users (mem_taken _ _ _ _) ?_)
      fun n' h => .appended hf ha hh (h.1.trans (charged_users ?_ _ _ _)) h.2
    · exact (hc tx token hf ha hh).paid
    · rfl

theorem Records.fuel_charged {records : Records} {gas : GasMap}
    {txId : String} {payer : Bytes} (sender : Bytes)
    (hp : GasDebited (records.answers C K cfg around faults) gas txId payer)
    (hc : ∀ gu, gas.lookup txId = some gu → gu ≤ records.fuel cfg payer) :
    (records.charged cfg gas txId payer).fuel cfg sender +
        (if payer = sender then (gas.lookup txId).getD 0 else 0) =
      records.fuel cfg sender := by
  unfold charged
  cases hgas : gas.lookup txId with
  | none => simp
  | some gu =>
    obtain ⟨b, hget, -⟩ := hp gu hgas
    have hcv := hc gu hgas
    cases hu : records.users.lookup (cfg.tokenPartitionId, payer) with
    | none => simp [answers, hu] at hget
    | some user =>
      simp only [fuel, hu, map_some, getD_some] at hcv
      by_cases hs : payer = sender
      · subst hs
        simp only [fuel, debited, Finmap.lookup_insert, hu, map_some, getD_some, if_true]
        omega
      · have ho : (cfg.tokenPartitionId, sender) ≠ (cfg.tokenPartitionId, payer) :=
          fun h => hs (Prod.mk.inj h).2.symm
        simp [fuel, debited, Finmap.lookup_insert_of_ne _ ho, hs]

/-! ## Runs -/

section Runs

variable (C K P cfg) (scfg : SentinelConfig)

/-- A host with a Sentinel and a Committer, and beside them the transactions whose gas
was recorded. The roles share the registry, which the Sentinel's state has. -/
structure GasHost where
  sentinel : SentinelState
  committer : CommitterNode
  admitted : List Transaction

def GasHost.node (h : GasHost) : CommitterNode :=
  { h.committer with
    base := { h.committer.base with
      pending := h.sentinel.registry.transactions
      gas := h.sentinel.registry.gasTracker
      shielded := h.sentinel.registry.shieldedTransactions } }

inductive GasEvent where
  | admission (world : SentinelWorld) (message : Message)
  | commit (call : HandledCommit)

/-- The transaction whose gas a Process message gets recorded. -/
def recordedBy (world : SentinelWorld) (message : Message) : Option Transaction :=
  match C.decodeTransaction message.body with
  | none => none
  | some tx =>
    if authenticateSubmitter C message tx = .ok () ∧
        validateTransaction scfg world tx = .ok () then some tx
    else none

def gasStep (h : GasHost) : GasEvent → GasHost
  | .admission world message =>
    { h with
      sentinel := ((handleProcessRequest C scfg world message).exec h.sentinel).2
      admitted := (recordedBy C scfg world message).toList ++ h.admitted }
  | .commit call =>
    let after := (call.exec C K P cfg h.node).2
    { h with
      sentinel := { h.sentinel with
        registry := { h.sentinel.registry with transactions := after.base.pending } }
      committer := after }

/-- The gas of a Commit's transaction can be charged in full, and what the registry has
under the id is the gas that is due for the block's own transaction. -/
structure ChargesInFull (h : GasHost) (call : HandledCommit) (tx : Transaction) : Prop where
  chargeable : Chargeable C K P cfg h.node call tx
  sender : tx.sender = call.commit.proposedBlock.signedTrans.transaction.sender
  recorded : (h.node.base.gas.lookup call.commit.txId).getD 0 =
    dueGas scfg h.admitted h.committer.base.log
      call.commit.proposedBlock.signedTrans.transaction.request
  covers : ∀ gasUsed, h.node.base.gas.lookup call.commit.txId = some gasUsed →
      gasUsed ≤ h.committer.records.fuel cfg tx.sender

/-- A transaction is not admitted for the first time behind the append of its block, and
a Commit that gets past the checks and on the chain charges its own gas in full. -/
def Accountable (h : GasHost) : GasEvent → Prop
  | .admission world message =>
    ∀ tx, recordedBy C scfg world message = some tx →
      tx.request ∈ h.admitted.map Transaction.request ∨
      tx.request ∉ appendedRequests h.committer.base.log
  | .commit call =>
    ∀ tx token, Uncontested C h.node.base call.commit call.finalizerKey →
      Appends C cfg (h.node.world C K cfg call.around call.faults)
        h.node.base call.commit token →
      HeldFor h.node.base.pending call.commit.txId call.commit tx →
      ChargesInFull C K P cfg scfg h call tx

def GasHost.fuel (h : GasHost) (sender : Bytes) : Nat := h.committer.records.fuel cfg sender

/-- The recorded gas of a sender's transactions whose block was appended, each once. -/
def GasHost.gasAppended (h : GasHost) (sender : Bytes) : Nat :=
  Pneumatic.gasAppended scfg h.admitted h.committer.base.log sender

variable {C K P cfg scfg}

theorem gasStep_conserves {h : GasHost} {event : GasEvent} (sender : Bytes)
    (ha : Accountable C K P cfg scfg h event) :
    (gasStep C K P cfg scfg h event).fuel cfg sender +
        (gasStep C K P cfg scfg h event).gasAppended scfg sender =
      h.fuel cfg sender + h.gasAppended scfg sender := by
  cases event with
  | admission world m =>
    have hsum : (gasStep C K P cfg scfg h (.admission world m)).gasAppended scfg
        sender = h.gasAppended scfg sender := by
      unfold GasHost.gasAppended gasStep
      dsimp only
      cases htx : recordedBy C scfg world m with
      | none => rfl
      | some tx => exact gasAppended_admit (ha tx htx)
    rw [hsum]
    rfl
  | commit call =>
    have hc := fun tx token hfr hap hh =>
      (ha tx token hfr hap hh).chargeable
    unfold GasHost.fuel GasHost.gasAppended gasStep
    dsimp only
    cases gasEffect_exec hc with
    | stopped hu hlog =>
      rw [hlog]
      unfold fuel
      rw [hu]
      rfl
    | @appended tx token hfr hap hh hu hlog =>
      have hf := ha tx token hfr hap hh
      have hfl := fuel_charged sender hf.chargeable.paid hf.covers
      rw [hf.recorded, hf.sender] at hfl
      have haf : (call.exec C K P cfg h.node).2.records.fuel cfg sender =
          (h.node.records.charged cfg h.node.base.gas
            call.commit.txId tx.sender).fuel cfg sender := by
        rw [fuel, hu, fuel]
      have hlog' : (call.exec C K P cfg h.node).2.base.log =
          landedLog C call.commit (h.node.base.rollbackTarget call.commit) token
            h.committer.base.log := hlog
      rw [haf, hlog', gasAppended_landedLog, hf.sender]
      have hr : h.node.records = h.committer.records := rfl
      rw [hr] at hfl ⊢
      omega

/-- Over every run of admissions and Commits that can all be accounted for, what a
sender's balance has lost is the recorded gas of the sender's transactions whose block was
appended meanwhile, of each of them once. -/
theorem gas_debited_once_in_full {start : GasHost} {events : List GasEvent}
    (hmeets : Meets (gasStep C K P cfg scfg) (Accountable C K P cfg scfg) start events)
    (sender : Bytes) :
    let h := run (gasStep C K P cfg scfg) start events
    h.fuel cfg sender + h.gasAppended scfg sender =
      start.fuel cfg sender + start.gasAppended scfg sender := by
  have hs : ∀ (h : GasHost) (event : GasEvent), h.fuel cfg sender + h.gasAppended scfg sender =
        start.fuel cfg sender + start.gasAppended scfg sender →
      Accountable C K P cfg scfg h event →
      (gasStep C K P cfg scfg h event).fuel cfg sender +
          (gasStep C K P cfg scfg h event).gasAppended scfg sender =
        start.fuel cfg sender + start.gasAppended scfg sender :=
    fun _ _ hinv ha => (gasStep_conserves sender ha).trans hinv
  exact run_invariant hs rfl hmeets

end Runs

/-! ## One transaction, admitted and committed -/

namespace OnePayment

def payment : Transaction :=
  { routedTransaction "p" with
    sender := [1]
    action := "Pay"
    amount := some 5 }

def paymentCodec : Codec := { sampleCodec with decodeTransaction := fun _ => some payment }

def paymentCommit : TransactionCommit where
  transId := asBytes "p"
  tokenId := [7]
  envId := "env"
  proposedBlock := blockOn [] (signedCarrier payment none)

/-- A Sentinel that takes every transaction, for its amount of gas. -/
def byAmount : SentinelConfig where
  node := tenOfEach
  env := sampleEnv
  specs _ := some fun tx _ => .ok (.valid [] (calculateRisk tx))
  baseCost := 0
  amountMultiplier _ := none
  shardCount := 1
  select _ _ _ _ := none
  selectShard _ _ _ _ _ := none

def payingWorld : SentinelWorld where
  node := oneStaked
  getToken _ := some { emptyToken with isSelfVerified := false }
  getStakeSnapshot _ := none
  getExecutorSet _ := none
  signData _ := none
  poolView := ⟨∅, []⟩
  finalizerReached _ := false
  executorReached _ := false

def admitPayment : GasEvent :=
  .admission payingWorld { publicKey := [1], signature := [], body := [] }

def commitPayment (faults : Faults) : GasEvent :=
  .commit ⟨sampleSurroundings, faults, paymentCommit, [4]⟩

def fuelled (fuel : Nat) : GasHost where
  sentinel :=
    { registry := .new
      nodes := NodeBuckets.fresh
      currentEpoch := 0
      stakeSnapshots := ∅
      executorSets := ∅ }
  committer :=
    { bootNode with
      records := { bootNode.records with
        users := (∅ : Finmap fun _ : String × Bytes => User).insert ("tokens", [1])
          { publicKey := [1], fuelBalance := fuel, stake := 0, nonce := 0 } } }
  admitted := []

abbrev pay : GasHost → GasEvent → GasHost :=
  gasStep paymentCodec sampleContracts samplePrimitives sampleRecords byAmount

/-- The balance of `[1]` and the gas of its appended transactions, after the transaction
was admitted and committed. -/
def balances (fuel : Nat) (faults : Faults) : Nat × Nat :=
  let h := run pay (fuelled fuel) [admitPayment, commitPayment faults]
  (h.fuel sampleRecords [1], h.gasAppended byAmount [1])

/-- The block is appended for five, but a balance of three is taken down to zero, and a
balance that cannot be saved stays. -/
theorem gas_not_debited :
    ((fuelled 3).fuel sampleRecords [1] = 3 ∧ (fuelled 3).gasAppended byAmount [1] = 0 ∧
      balances 3 .none = (0, 5)) ∧
    ((fuelled 10).fuel sampleRecords [1] = 10 ∧ (fuelled 10).gasAppended byAmount [1] = 0 ∧
      balances 10 { Faults.none with saveUser := true } = (10, 5)) := by
  decide +kernel

theorem payment_accounted :
    Meets pay (Accountable paymentCodec sampleContracts samplePrimitives sampleRecords
      byAmount) (fuelled 10) [admitPayment, commitPayment .none] := by
  refine ⟨fun tx _ => .inr (Finset.notMem_empty _), fun tx token _ _ hh => ?_, trivial⟩
  obtain rfl : payment = tx := Eq.symm hh
  have hgas : (pay (fuelled 10) admitPayment).node.base.gas.lookup "p" = some 5 := by
    decide +kernel
  refine ⟨⟨⟨rfl, .inl rfl⟩, fun gu _ => ⟨10, rfl, rfl⟩⟩, rfl, rfl, fun gu hl => ?_⟩
  obtain rfl := mem_unique hgas hl
  decide +kernel

theorem payment_debited_in_full :
    Meets pay (Accountable paymentCodec sampleContracts samplePrimitives sampleRecords
      byAmount) (fuelled 10) [admitPayment, commitPayment .none] ∧ balances 10 .none = (5, 5) ∧
    (run pay (fuelled 10) [admitPayment, commitPayment .none]).fuel sampleRecords [1] +
        (run pay (fuelled 10) [admitPayment, commitPayment .none]).gasAppended byAmount [1] =
      (fuelled 10).fuel sampleRecords [1] + (fuelled 10).gasAppended byAmount [1] :=
  ⟨payment_accounted, rfl, gas_debited_once_in_full payment_accounted [1]⟩

end OnePayment

end Pneumatic
