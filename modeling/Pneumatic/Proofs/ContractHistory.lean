import Pneumatic.Lib.Words
import Pneumatic.Proofs.RecordsOutcome

/-!
# Contract tokens over a history of Commits

What a Commit does to the tokens. In one that succeeds the cached copy of the token, or
the one the cache is warmed with, takes the block and is saved, and the contract delta
is applied to the records after that; `ends_commit_tokens` says so of every such call. One
that fails leaves the contracts there were. What happens to contracts over a history is
argued from these two.

The contract of a token is what the roles read off it: the engine its metadata name
and the asset. A `ContractLedger` has these by token id, and its operations are the
three deltas as such: where they are due and what they change, without partitions,
bytes or caches.
-/

namespace Pneumatic

open Handler HandlerM CommitterNode Records ShieldedPool

/-- What the roles read off a token about its contract. -/
structure ContractFace where
  engine : Option String
  contract : Option SmartContract
deriving DecidableEq

/-- The faces of the tokens there are. -/
abbrev ContractLedger := Bytes → Option ContractFace

def CreateTokenDelta.contract (delta : CreateTokenDelta) : SmartContract where
  name := delta.name
  bytecode := delta.bytecode
  version := "1"
  storage := ∅
  owners := delta.owners
  threshold := delta.threshold

def SmartContract.stored (contract : SmartContract) (result : WasmResult) : SmartContract :=
  { contract with storage := applyStorage contract.storage result.storageDelta }

def SmartContract.upgraded (contract : SmartContract) (params : UpgradeParams) : SmartContract :=
  { contract with
    bytecode := params.newBytecode
    owners := params.newOwners
    threshold := params.newThreshold }

/-- A contract reads back as it was written. -/
def ContractCodec.Lawful (K : ContractCodec) : Prop :=
  ∀ contract, K.decodeSmartContract (K.rmpSmartContract contract) = some contract

section Ledger

variable (C : Codec) (K : ContractCodec)

def Token.face (token : Token) : ContractFace :=
  ⟨token.metadata.lookup "contract_engine", token.getAsset K⟩

namespace ContractLedger

section

variable (tx : Transaction) (epochNumber : Nat) (ledger : ContractLedger)

/-- A deployment creates the token it derives, unless there is one. -/
def deploy : ContractLedger :=
  match K.decodeDeployParams tx.payload with
  | none => ledger
  | some params =>
    match deployContract C K tx.sender tx.sequenceNumber params with
    | .error _ => ledger
    | .ok delta =>
      match ledger delta.tokenId with
      | some _ => ledger
      | none => Function.update ledger delta.tokenId (some ⟨some delta.engine, some delta.contract⟩)

/-- A call of a Wasm contract applies the write-set it was shipped with. -/
def call : ContractLedger :=
  match ledger tx.tokenId with
  | none => ledger
  | some face =>
    if face.engine ≠ some "Wasm" ∨ tx.resultData = [] then ledger
    else
      match face.contract, K.decodeWasmResult tx.resultData with
      | some contract, some result => Function.update ledger tx.tokenId
          (some ⟨face.engine, some (contract.stored result)⟩)
      | _, _ => ledger

/-- An upgrade of an upgradeable contract is due once its epoch is over. -/
def upgrade : ContractLedger :=
  match ledger tx.tokenId with
  | none => ledger
  | some face =>
    match face.contract, K.decodeUpgradeParams tx.payload with
    | some contract, some params =>
      if contract.threshold = 0 ∨
          timelockSatisfied params.proposalEpoch epochNumber = false then ledger
      else Function.update ledger tx.tokenId (some ⟨face.engine, some (contract.upgraded params)⟩)
    | _, _ => ledger

def after : ContractLedger :=
  if tx.action = "DeployContract" then ledger.deploy C K tx
  else if tx.action = "ContractCall" then ledger.call K tx
  else if tx.action = "UpgradeContract" then ledger.upgrade K tx epochNumber
  else ledger

end

end ContractLedger

def Records.ledger (partition : String) (records : Records) : ContractLedger :=
  fun tokenId => (records.tokens.lookup (partition, tokenId)).map (Token.face K)

end Ledger

variable {C : Codec} {K : ContractCodec} {P : ShieldedPrimitives} {cfg : RecordsConfig}
  {around : Surroundings} {faults : Faults} {n n' : CommitterNode}
  {commit : TransactionCommit} {key : Bytes}

/-- The transaction a Commit works with, with the result of the wire. -/
def TransactionCommit.transaction (commit : TransactionCommit)
    (pending : PendingRegistry) : Transaction :=
  let wire := commit.proposedBlock.signedTrans.transaction
  match (pending.lookup commit.txId).map PendingTransaction.state with
  | some (.finalizing held _) => adoptResult held wire
  | some (.validated held _) => adoptResult held wire
  | _ => wire

theorem HeldFor.adoptResult_eq {pending : PendingRegistry} {tx : Transaction}
    (h : HeldFor pending commit.txId commit tx) :
    adoptResult tx commit.proposedBlock.signedTrans.transaction = commit.transaction pending := by
  unfold HeldFor at h
  unfold TransactionCommit.transaction
  cases hs : (pending.lookup commit.txId).map PendingTransaction.state with
  | none =>
    rw [hs] at h
    subst h
    rfl
  | some state =>
    rw [hs] at h
    cases state with
    | finalizing held fk | validated held v =>
      subst h
      rfl
    | committed held bh =>
      obtain ⟨-, rfl⟩ := h
      rfl
    | pending | preloaded | executing | failed => cases h

/-- The tokens are where they were, in the cache and in the records. -/
structure TokensKept (n n' : CommitterNode) : Prop where
  cached : n'.base.tokens = n.base.tokens
  pending : n'.base.pending = n.base.pending
  recorded : n'.records.tokens = n.records.tokens

theorem TokensKept.refl (n : CommitterNode) : TokensKept n n := ⟨rfl, rfl, rfl⟩

/-- Nothing but the pool and its record is different. -/
def PoolOnly (n n' : CommitterNode) : Prop :=
  ∃ pool pools, n' = { base := { n.base with pool := pool }
                       records := { n.records with pools := pools } }

theorem PoolOnly.withPool (h : PoolOnly n n') (pool : ShieldedPool) :
    PoolOnly n { n' with base := { n'.base with pool := pool } } := by
  obtain ⟨_, pools, rfl⟩ := h
  exact ⟨pool, pools, rfl⟩

theorem PoolOnly.saved (h : PoolOnly n n') :
    PoolOnly n { n' with records := n'.records.withPool cfg n'.base.pool } := by
  obtain ⟨pool, _, rfl⟩ := h
  exact ⟨pool, _, rfl⟩

/-- The cached token with the block of a Commit on its chain. -/
def CommitterNode.extendedToken (C : Codec) (cfg : RecordsConfig) (n : CommitterNode)
    (commit : TransactionCommit) (token : Token) : Token :=
  (token.commitBlock C cfg.validators commit.proposedBlock (n.base.rollbackTarget commit)).1

namespace CommitterNode

section Pool

theorem preserves_poolRevert (hash : Bytes) :
    Preserves (PoolOnly n) (onBase (poolRevert P hash)) := by
  intro n' h
  exact ends_onBase.mpr (keeps_iff.mpr (h.withPool _))

theorem preserves_poolSave (fails : Bool) : Preserves (PoolOnly n) (poolSave cfg fails) :=
  .bind (.require _ _) fun _ => .update fun _ h => h.saved

/-- The pool's part before the append, in which a well-formed pool stays well formed. -/
theorem ends_shieldedCommitApply_pool : Ends (shieldedCommitApply C P cfg faults commit) n
      (fun _ n' => PoolOnly n n' ∧ (PoolInv P n.base.pool → PoolInv P n'.base.pool))
      (fun _ n' => PoolOnly n n') := by
  simp only [shieldedCommitApply, ends_bind, ends_onBase]
  refine ends_poolApply (fun o pool ha => ?_) fun e pool _ => ⟨_, _, rfl⟩
  have hp : PoolOnly n { n with base := { n.base with pool := pool } } := ⟨_, _, rfl⟩
  have hinv : PoolInv P n.base.pool → PoolInv P pool := fun h => (h.applyUpdate_ok ha).1
  cases o with
  | alreadyApplied | plain => exact ⟨hp, hinv⟩
  | applied =>
    simp only [ends_bind, ends_attempt]
    refine ends_poolSave (fun _ => ⟨hp.saved, hinv⟩) fun _ => ?_
    exact Ends.mono (preserves_poolRevert _ _ hp) (fun _ _ h => h) fun _ _ h => h

theorem preserves_revertLoser (hash : Bytes) :
    Preserves (PoolOnly n) (onBase (revertLoser P hash)) := by
  intro n' h
  simp only [ends_onBase, Keeps, revertLoser, ends_bind, ends_attempt]
  have hr : Keeps (poolRevert P hash) n'.base fun s =>
      PoolOnly n { n' with base := s } :=
    keeps_iff.mpr (h.withPool _)
  refine Ends.mono hr (fun _ s hs => hs) (fun e s hs => ?_)
  cases e <;> exact hs

theorem preserves_settleLoser (rollback : Option Bytes) :
    Preserves (PoolOnly n) (settleLoser P cfg faults rollback) := by
  cases rollback with
  | none => exact .pure _
  | some loser => exact .bind (preserves_revertLoser loser) fun _ => preserves_poolSave _

theorem preserves_shieldedCommitUndo (commit : TransactionCommit) (outcome : PoolApplyOutcome) :
    Preserves (PoolOnly n) (shieldedCommitUndo P cfg faults commit outcome) := by
  cases outcome with
  | alreadyApplied => exact .pure _
  | plain => exact .pure _
  | applied => exact .bind (preserves_poolRevert _) fun _ => preserves_poolSave _

theorem preserves_debitGas (txId : String) (sender : Bytes) :
    Preserves (TokensKept n) (debitGas cfg faults txId sender) := by
  refine .bind .getState fun n₁ => ?_
  cases n₁.base.gas.lookup txId with
  | none => exact .pure _
  | some gu =>
    refine .bind (.ofOption _ _) fun user => .bind (.require _ _) fun _ => ?_
    exact .update fun _ h => ⟨h.cached, h.pending, h.recorded⟩

end Pool

end CommitterNode

/-- Where a Commit that fails leaves the tokens. Before the append the cache is warmed
at most; after it the cached copy has the block, and the record may have it. -/
inductive FailedTokens (C : Codec) (K : ContractCodec) (cfg : RecordsConfig)
    (around : Surroundings) (faults : Faults) (n : CommitterNode)
    (commit : TransactionCommit) (rollback : Option Bytes) : CommitterNode → Prop
  | aside {n' : CommitterNode}
      (hcached : Warmed (n.world C K cfg around faults) n.base.tokens n'.base.tokens)
      (hrecorded : n'.records.tokens = n.records.tokens) :
      FailedTokens C K cfg around faults n commit rollback n'
  | appended {n' : CommitterNode} {token token' : Token}
      (hcached : cachedToken (n.world C K cfg around faults) n.base.tokens
        commit.tokenId = some token)
      (htoken : token' = (token.commitBlock C cfg.validators commit.proposedBlock rollback).1)
      (hkept : n'.base.tokens = n.base.tokens.insert commit.tokenId token')
      (hrecorded : n'.records.tokens = n.records.tokens ∨
        n'.records.tokens = (n.records.withToken cfg commit.tokenId token').tokens) :
      FailedTokens C K cfg around faults n commit rollback n'

namespace CommitterNode

/-- The provider's calls between the append and the debit succeed. -/
def Reaches (P : ShieldedPrimitives) (faults : Faults) (n : CommitterNode)
    (rollback : Option Bytes) : Prop :=
  faults.saveToken = false ∧
    (rollback = none ∨ faults.savePoolSettled = false ∧ PoolInv P n.base.pool)

/-- The append on whatever pool: before it the cache is warmed at most, behind it the
token has the block and the log the entry, and the rest changes the pool alone. -/
theorem ends_applyCommit_pool {rollback : Option Bytes} {Q : Unit → CommitterNode → Prop}
    {E : CommitterError → CommitterNode → Prop}
    (hw : ∀ e tokens n', Warmed (n.world C K cfg around faults) n.base.tokens tokens →
      PoolOnly { n with base := { n.base with tokens := tokens } } n' → E e n')
    (ha : ∀ token, commit.envId = cfg.environmentId →
      Lands C cfg (n.world C K cfg around faults) n.base.tokens commit rollback token →
      let token' := (token.commitBlock C cfg.validators commit.proposedBlock rollback).1
      let base := { n.base with
        tokens := n.base.tokens.insert commit.tokenId token'
        log := landedLog C commit rollback token n.base.log }
      (∀ n', PoolOnly ⟨base, n.records.withToken cfg commit.tokenId token'⟩ n' → Q () n') ∧
      (¬ Reaches P faults n rollback → ∀ e n' records,
        records = n.records ∨ records = n.records.withToken cfg commit.tokenId token' →
        PoolOnly ⟨base, records⟩ n' → E e n')) :
    Ends (applyCommit C K P cfg around faults commit rollback) n Q E := by
  simp only [applyCommit, ends_bind, ends_attempt]
  refine Ends.mono ends_shieldedCommitApply_pool (fun o n₁ h => ?_)
    fun e n₁ h => hw e _ n₁ (.refl _) h
  obtain ⟨⟨pool, pools, rfl⟩, hinv⟩ := h
  have ht : ({ n.records with pools := pools } : Records).tokens = n.records.tokens := rfl
  refine ends_commitBlock (fun token henv hl => ?_) (fun e tokens _ hwr => ?_)
  · obtain ⟨hq, he⟩ := ha token henv (hl.of_tokens_eq ht)
    refine ⟨fun hsv => ?_, fun hus e => ?_⟩
    · refine ends_iff_exec.mpr ⟨fun _ _ => ?_, fun e ho => ?_⟩
      · exact hq _ (keeps_iff.mp (preserves_settleLoser rollback _ ⟨pool, pools, rfl⟩))
      · refine he (fun hr => ?_) e _ _ (.inr rfl)
          (keeps_iff.mp (preserves_settleLoser rollback _ ⟨pool, pools, rfl⟩))
        rcases hr.2 with rfl | ⟨hs, hp⟩
        · cases ho
        · refine ((ends_iff_exec (Q := fun _ _ => True) (E := fun _ _ => False)).mp ?_).2 e ho
          exact ends_settleLoser (hinv hp) (fun _ _ _ _ => trivial)
            fun hns => absurd (.inr hs) hns
    · have hnot : ¬ Reaches P faults n rollback := fun hr => by cases hr.1.symm.trans hus
      exact Ends.mono (preserves_shieldedCommitUndo commit o _ ⟨pool, pools, rfl⟩)
        (fun _ n₁ h₁ => ends_fail.mpr (he hnot e n₁ _ (.inl rfl) h₁))
        fun e n₁ h₁ => he hnot e n₁ _ (.inl rfl) h₁
  · exact Ends.mono (preserves_shieldedCommitUndo commit o _ ⟨pool, pools, rfl⟩)
      (fun _ n₁ h₁ => ends_fail.mpr (hw e _ n₁ (hwr.of_tokens_eq ht) h₁))
      fun e n₁ h₁ => hw e _ n₁ (hwr.of_tokens_eq ht) h₁

/-- What follows the append writes no token but by the delta. -/
theorem ends_finishCommit_tokens {txId : String} {tx : Transaction} {block : Block}
    (hmem : txId ∈ n.base.pending) : Ends (finishCommit C K cfg around faults txId tx block) n
      (fun _ n' => n'.base.tokens = n.base.tokens ∧ ∃ w,
        n.records.applyDeltas C K cfg faults tx block.epochNumber = .ok w ∧
        n'.records.tokens = w.tokens) (fun _ n' => TokensKept n n') := by
  simp only [finishCommit, ends_bind]
  refine Ends.mono (preserves_debitGas txId tx.sender n (.refl n)) (fun _ n₁ h₁ => ?_)
    (fun _ n₁ h₁ => h₁)
  refine ends_applyDeltas (fun w hd => ?_) (fun _ _ => h₁)
  have hm₁ : txId ∈ n₁.base.pending := by
    rw [h₁.pending]
    exact hmem
  rw [ends_onBase]
  refine ends_releaseEntry hm₁ ?_
  exact ⟨h₁.cached, _, applyDeltas_ok h₁.recorded.symm hd, rfl⟩

end CommitterNode

/-- What a Commit that succeeds has done to the tokens. -/
structure TokenEffect (C : Codec) (K : ContractCodec) (cfg : RecordsConfig)
    (around : Surroundings) (faults : Faults) (n : CommitterNode)
    (commit : TransactionCommit) (token : Token) (n' : CommitterNode) : Prop where
  cached : cachedToken (n.world C K cfg around faults) n.base.tokens commit.tokenId = some token
  kept : n'.base.tokens = n.base.tokens.insert commit.tokenId (n.extendedToken C cfg commit token)
  deltas : ∃ written, (n.records.withToken cfg commit.tokenId
      (n.extendedToken C cfg commit token)).applyDeltas C K cfg faults
        (commit.transaction n.base.pending) commit.proposedBlock.epochNumber =
      .ok written ∧
    n'.records.tokens = written.tokens

/-- What a Commit does to the tokens, by its verdict. -/
theorem ends_commit_tokens :
    Ends (CommitterNode.checkAndCommitTransactionResults C K P cfg around faults commit key) n
      (fun _ n' => n.base.committedTxs.lookup commit.txId = none ∧
        ∃ token, TokenEffect C K cfg around faults n commit token n')
      (fun _ n' => FailedTokens C K cfg around faults n commit
        (n.base.rollbackTarget commit) n') := by
  have hu : ∀ base : CommitterState, base.tokens = n.base.tokens →
      FailedTokens C K cfg around faults n commit (n.base.rollbackTarget commit)
        { n with base := base } := by
    intro base hb
    refine .aside ?_ rfl
    rw [hb]
    exact .refl _
  simp only [CommitterNode.checkAndCommitTransactionResults, ends_bind, CommitterNode.ends_onBase]
  refine ends_duplicateGate (fun hun => ?_) (fun _ _ => hu _ rfl)
  refine ends_takeTransaction (fun tx hh => ?_) (fun _ _ => hu _ rfl)
  simp only [ends_getState, ends_lift]
  refine ⟨fun _ _ => ?_, fun _ _ => hu _ rfl⟩
  refine ends_handleConflictAtCommit (fun o hout _ => ?_) (fun _ _ => hu _ rfl)
  rw [hout]
  refine ends_applyCommit_pool (fun e tokens n₁ hw h => ?_) (fun token _ hl =>
    ⟨fun n₁ h => ?_, fun _ e n₁ records hr h => ?_⟩)
  · obtain ⟨_, _, rfl⟩ := h
    exact .aside hw rfl
  · obtain ⟨_, _, rfl⟩ := h
    refine Ends.mono (ends_finishCommit_tokens (mem_taken _ _ _ _)) (fun _ n' h => ?_)
      (fun _ n' h => .appended hl.cached rfl h.cached (.inr h.recorded))
    obtain ⟨hs, w, hd, hw⟩ := h
    rw [hh.adoptResult_eq] at hd
    refine ⟨hun, token, hl.cached, hs, _, applyDeltas_ok ?_ hd, hw⟩
    rfl
  · obtain ⟨_, _, rfl⟩ := h
    rcases hr with rfl | rfl
    · exact .appended hl.cached rfl rfl (.inl rfl)
    · exact .appended hl.cached rfl rfl (.inr rfl)

/-! ## A concrete codec

A few contracts are listed with the bytes they are written as. The others need some
bytes too, for a codec that is lawful; which they are does not matter. -/

theorem exists_contract_word : ∃ word : SmartContract → Bytes, Function.Injective word := by
  have hc : Countable SmartContract := by
    refine Function.Injective.countable (f := fun c : SmartContract =>
      (c.name, c.bytecode, c.version, c.storage, c.owners, c.threshold)) ?_
    rintro ⟨⟩ ⟨⟩ h
    simpa using h
  exact Words.exists_word SmartContract

noncomputable def contractWord : SmartContract → Bytes :=
  Classical.choose exists_contract_word

theorem contractWord_injective : Function.Injective contractWord :=
  Classical.choose_spec exists_contract_word

/-- The sample codec with a list of contracts. A payload is the new code, what a call
returns is its one write, and no owner has to sign. -/
noncomputable def listedContracts (book : List (SmartContract × Bytes)) : ContractCodec where
  rmpSmartContract contract :=
    match Codebook.encode book contract with
    | some word => word
    | none => 0 :: contractWord contract
  rmpDeployId _ _ _ _ := []
  rmpCreateTokenDelta delta := delta.bytecode
  rmpReplaceAssetDelta delta := delta.newBytecode
  decodeSmartContract bytes :=
    match Codebook.decode book bytes with
    | some contract => some contract
    | none => some (@Function.invFun _ _ ⟨⟨"", [], "", ∅, [], 0⟩⟩ contractWord bytes.tail)
  decodeDeployParams payload := some ⟨"c", "Wasm", payload, ∅, [[1], [1]], 2⟩
  decodeUpgradeParams payload := some ⟨payload, [[1]], 1, 0, [[1]]⟩
  decodeWasmResult bytes := some ⟨[], [(bytes, some bytes)]⟩

theorem listedContracts_lawful {book : List (SmartContract × Bytes)}
    (hn : (book.map Prod.snd).Nodup)
    (ho : ∀ word, 0 :: word ∉ book.map Prod.snd) : (listedContracts book).Lawful := by
  intro c
  simp only [listedContracts]
  cases hl : Codebook.encode book c with
  | some word =>
    rw [Codebook.decode_encode hn hl]
  | none =>
    rw [Codebook.decode_eq_none (ho _)]
    exact congrArg some (@Function.leftInverse_invFun _ _ ⟨⟨"", [], "", ∅, [], 0⟩⟩ _
      contractWord_injective c)

end Pneumatic
