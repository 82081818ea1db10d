import Pneumatic.Executor.Execution
import Pneumatic.Proofs.ContractHistory

/-!
# Committed contract state is what is read

The Sentinels and the Executors read tokens under the environment's token partition.
Over a history of Commits that succeed, the contracts found there should be the fold
of the committed deltas. The deltas are written under the id of the environment, and
every append writes the Committer's cached copy of its token back, asset included, so
this takes two things: the two partitions are the same, and the cached copy is in step
with the record whenever the token takes a block.
-/

namespace Pneumatic

open Handler HandlerM ShieldedPool ContractLedger Finmap Option Records Function Except

variable {C : Codec} {K : ContractCodec} {P : ShieldedPrimitives} {cfg : RecordsConfig}
  {around : Surroundings} {faults : Faults} {n n' : CommitterNode}
  {commit : TransactionCommit} {tx : Transaction} {records written : Records}

theorem Token.commitBlock_face {validators : BlockValidators} (token : Token)
    (block : Block) (rollback : Option Bytes) :
    (token.commitBlock C validators block rollback).1.face K = token.face K ∧
      (token.commitBlock C validators block rollback).1.id = token.id := by
  have hr : (token.rolled rollback).face K = token.face K ∧
      (token.rolled rollback).id = token.id := by
    unfold Token.rolled
    split <;> exact ⟨rfl, rfl⟩
  simp only [Token.commitBlock, Token.commitBlockAs]
  split
  · split <;> exact hr
  · exact hr

theorem Token.updateAsset_eq_map (token : Token) (f : SmartContract → SmartContract) :
    token.updateAsset K f = (token.getAsset K).map fun contract =>
      { token with assetData := some (K.rmpSmartContract (f contract)) } := by
  unfold Token.updateAsset Token.getAsset
  cases token.assetData with
  | none => rfl
  | some data =>
    dsimp only
    cases K.decodeSmartContract data <;> rfl

theorem Token.face_written (hK : K.Lawful) (token : Token) (contract : SmartContract) :
    ({ token with assetData := some (K.rmpSmartContract contract) } : Token).face K =
      ⟨(token.face K).engine, some contract⟩ :=
  congrArg (ContractFace.mk _) (hK contract)

theorem CreateTokenDelta.face_toToken (hK : K.Lawful) (delta : CreateTokenDelta) :
    (delta.toToken K).face K = ⟨some delta.engine, some delta.contract⟩ := by
  have he : (delta.toToken K).metadata.lookup "contract_engine" = some delta.engine := by
    show (insert _ _ (insert _ _ _)).lookup _ = _
    rw [lookup_insert_of_ne _ (by decide), lookup_insert]
  rw [Token.face, he]
  exact congrArg (ContractFace.mk _) (hK delta.contract)

namespace Records

/-- Every token is stored under its own id. -/
def Keyed (records : Records) : Prop :=
  ∀ partition tokenId token, records.tokens.lookup (partition, tokenId) = some token →
    token.id = tokenId

theorem ledger_insert (partition : String) (tokenId : Bytes) (token : Token) :
    ({ records with
        tokens := records.tokens.insert (partition, tokenId) token } : Records).ledger K
      partition =
      update (records.ledger K partition) tokenId (some (token.face K)) := by
  funext other
  by_cases ho : other = tokenId
  · subst ho
    rw [update_self, ledger, lookup_insert]
    rfl
  · rw [update_of_ne ho, ledger, lookup_insert_of_ne _ fun h => ho (Prod.mk.inj h).2]
    rfl

variable {tokenId : Bytes}

theorem Keyed.insert (h : records.Keyed) (partition : String) {token : Token}
    (hid : token.id = tokenId) :
    ({ records with
        tokens := records.tokens.insert (partition, tokenId) token } : Records).Keyed := by
  intro other tokenId' token' hl
  rcases lookup_insert_cases hl with ⟨hkey, rfl⟩ | hold
  · exact hid.trans (Prod.mk.inj hkey).2
  · exact h other tokenId' token' hold

theorem ledger_of_getContract {token : Token}
    (h : records.getContract cfg faults tokenId = some token) :
    records.ledger K cfg.environmentId tokenId = some (token.face K) ∧
      records.tokens.lookup (cfg.environmentId, tokenId) = some token := by
  unfold getContract at h
  split at h
  · cases h
  · refine ⟨?_, h⟩
    rw [ledger, h]
    rfl

theorem ledger_of_getContract_none (hr : faults.getContract = false)
    (h : records.getContract cfg faults tokenId = none) :
    records.ledger K cfg.environmentId tokenId = none := by
  unfold getContract at h
  rw [if_neg (by simp [hr])] at h
  rw [ledger, h]
  rfl

theorem saveContract_ok {token : Token}
    (h : records.saveContract cfg faults tokenId token = .ok written) :
    written = { records with
      tokens := records.tokens.insert (cfg.environmentId, tokenId) token } := by
  unfold saveContract at h
  split at h
  · cases h
  · exact (ok.inj h).symm

/-- What `apply_deploy_delta` has found when it comes to create a token. -/
structure Creates (C : Codec) (K : ContractCodec) (cfg : RecordsConfig) (faults : Faults)
    (tx : Transaction) (records : Records) (delta : CreateTokenDelta) : Prop where
  derived : ∃ params, K.decodeDeployParams tx.payload = some params ∧
    deployContract C K tx.sender tx.sequenceNumber params = .ok delta
  hashed : C.sha256 (K.rmpCreateTokenDelta delta) = tx.resultHash
  absent : records.getContract cfg faults delta.tokenId = none

/-- A deployment that goes through has created a token, or there was one. -/
theorem applyDeployDelta_ok (h : records.applyDeployDelta C K cfg faults tx = .ok written) :
    (written = records ∧ ∃ p delta token, K.decodeDeployParams tx.payload = some p ∧
      deployContract C K tx.sender tx.sequenceNumber p = .ok delta ∧
      records.getContract cfg faults delta.tokenId = some token) ∨
    ∃ delta, Creates C K cfg faults tx records delta ∧
      written = { records with
        tokens := records.tokens.insert (cfg.environmentId, delta.tokenId)
          (delta.toToken K) } := by
  unfold applyDeployDelta at h
  split at h
  · cases h
  · next p hp =>
    split at h
    · cases h
    · next delta hd =>
      split at h
      · cases h
      · next hh =>
        split at h
        · next token ht => exact .inl ⟨(ok.inj h).symm, p, delta, token, hp, hd, ht⟩
        · next ha =>
          exact .inr ⟨delta, ⟨⟨p, hp, hd⟩, not_not.mp hh, ha⟩, saveContract_ok h⟩

/-- A write-set that goes through has been applied, or was not due. -/
theorem applyStorageDelta_ok (h : records.applyStorageDelta C K cfg faults tx = .ok written) :
    (written = records ∧ ∀ token, records.getContract cfg faults tx.tokenId = some token →
      token.metadata.lookup "contract_engine" ≠ some "Wasm" ∨ tx.resultData = []) ∨
    ∃ token contract result, records.getContract cfg faults tx.tokenId = some token ∧
      token.metadata.lookup "contract_engine" = some "Wasm" ∧ tx.resultData ≠ [] ∧
      token.getAsset K = some contract ∧ K.decodeWasmResult tx.resultData = some result ∧
      written = { records with
        tokens := records.tokens.insert (cfg.environmentId, token.id)
          { token with assetData := some (K.rmpSmartContract (contract.stored result)) } } := by
  unfold applyStorageDelta at h
  split at h
  · next hn => exact .inl ⟨(ok.inj h).symm, fun _ ht => by cases hn.symm.trans ht⟩
  · next token ht =>
    split at h
    · next he =>
      exact .inl ⟨(ok.inj h).symm, fun _ ht' => .inl (mem_unique ht ht' ▸ he)⟩
    · next he =>
      split at h
      · next hem => exact .inl ⟨(ok.inj h).symm, fun _ _ => .inr (List.isEmpty_iff.mp hem)⟩
      · next hem =>
        split at h
        · cases h
        · split at h
          · cases h
          · next result hr =>
            rw [Token.updateAsset_eq_map] at h
            cases ha : token.getAsset K with
            | none =>
              rw [ha] at h
              cases h
            | some contract =>
              rw [ha] at h
              exact .inr ⟨token, contract, result, ht, not_not.mp he,
                fun hd => hem (List.isEmpty_iff.mpr hd), ha, hr, saveContract_ok h⟩

/-- What `apply_upgrade_delta` has found when it comes to replace the asset of a
token. -/
structure Replaces (C : Codec) (K : ContractCodec) (cfg : RecordsConfig) (faults : Faults)
    (tx : Transaction) (epochNumber : Nat) (records : Records) (token : Token)
    (contract : SmartContract) (params : UpgradeParams) : Prop where
  found : records.getContract cfg faults tx.tokenId = some token
  asset : token.getAsset K = some contract
  decoded : K.decodeUpgradeParams tx.payload = some params
  hashed : C.sha256 (K.rmpReplaceAssetDelta (params.delta tx.tokenId)) = tx.resultHash
  upgradeable : contract.threshold ≠ 0
  due : timelockSatisfied params.proposalEpoch epochNumber = true

/-- An upgrade that goes through has replaced the asset, or was not due. -/
theorem applyUpgradeDelta_ok {epochNumber : Nat}
    (h : records.applyUpgradeDelta C K cfg faults tx epochNumber = .ok written) :
    (written = records ∧ ∀ token contract pr,
      records.getContract cfg faults tx.tokenId = some token →
      token.getAsset K = some contract → K.decodeUpgradeParams tx.payload = some pr →
      contract.threshold = 0 ∨ timelockSatisfied pr.proposalEpoch epochNumber = false) ∨
    ∃ token contract pr, Replaces C K cfg faults tx epochNumber records token contract pr ∧
      written = { records with
        tokens := records.tokens.insert (cfg.environmentId, token.id)
          { token with assetData := some (K.rmpSmartContract (contract.upgraded pr)) } } := by
  unfold applyUpgradeDelta at h
  split at h
  · next hn => exact .inl ⟨(ok.inj h).symm, fun _ _ _ ht => by cases hn.symm.trans ht⟩
  · next token ht =>
    split at h
    · cases h
    · next pr hp =>
      dsimp only at h
      split at h
      · cases h
      · next hh =>
        split at h
        · next hf =>
          refine .inl ⟨(ok.inj h).symm, fun _ c _ ht' ha _ => .inl ?_⟩
          obtain rfl := mem_unique ht ht'
          simpa [ha] using hf
        · next hf =>
          split at h
          · next hdue =>
            refine .inl ⟨(ok.inj h).symm, fun _ _ _ _ _ hp' => .inr ?_⟩
            obtain rfl := mem_unique hp hp'
            exact hdue
          · next hdue =>
            rw [applyReplaceAsset, Token.updateAsset_eq_map] at h
            cases ha : token.getAsset K with
            | none =>
              rw [ha] at h
              refine .inl ⟨(ok.inj h).symm, fun _ _ _ ht' ha' => ?_⟩
              obtain rfl := mem_unique ht ht'
              cases ha.symm.trans ha'
            | some contract =>
              rw [ha] at h
              refine .inr ⟨token, contract, pr, ⟨ht, ha, hp,
                not_not.mp hh, ?_, Bool.eq_true_of_not_eq_false hdue⟩, saveContract_ok h⟩
              intro hz
              exact hf (by simp [ha, hz])

/-- What a delta does: it is the ledger's operation, and keys stay right. -/
structure AppliedAs (K : ContractCodec) (cfg : RecordsConfig)
    (f : ContractLedger → ContractLedger) (records written : Records) : Prop where
  ledger : written.ledger K cfg.environmentId = f (records.ledger K cfg.environmentId)
  keyed : written.Keyed

theorem deploy_appliedAs (hK : K.Lawful) (hr : faults.getContract = false)
    (hk : records.Keyed) (h : records.applyDeployDelta C K cfg faults tx = .ok written) :
    AppliedAs K cfg (fun l => l.deploy C K tx) records written := by
  rcases applyDeployDelta_ok h with ⟨rfl, p, delta, token, hp, hd, ht⟩ |
    ⟨delta, ⟨⟨p, hp, hd⟩, -, hn⟩, rfl⟩
  · refine ⟨?_, hk⟩
    simp only [deploy, hp, hd, (ledger_of_getContract ht).1]
  · refine ⟨?_, hk.insert _ rfl⟩
    rw [ledger_insert, CreateTokenDelta.face_toToken hK]
    simp only [deploy, hp, hd, ledger_of_getContract_none hr hn]

theorem call_appliedAs (hK : K.Lawful) (hrd : faults.getContract = false) (hk : records.Keyed)
    (h : records.applyStorageDelta C K cfg faults tx = .ok written) :
    AppliedAs K cfg (fun l => l.call K tx) records written := by
  rcases applyStorageDelta_ok h with ⟨rfl, hno⟩ | ⟨token, contract, r, ht, he, hd, ha, hr, rfl⟩
  · refine ⟨?_, hk⟩
    cases hg : written.getContract cfg faults tx.tokenId with
    | none => simp only [call, ledger_of_getContract_none hrd hg]
    | some token =>
      have hnot : (token.face K).engine ≠ some "Wasm" ∨ tx.resultData = [] := hno token hg
      simp only [call, (ledger_of_getContract hg).1, if_pos hnot]
  · obtain ⟨hl, hlk⟩ := ledger_of_getContract (K := K) ht
    refine ⟨?_, hk.insert _ rfl⟩
    have hcl : ¬ ((token.face K).engine ≠ some "Wasm" ∨ tx.resultData = []) := by
      rintro (h | h)
      · exact h he
      · exact hd h
    have hc : (token.face K).contract = some contract := ha
    rw [ledger_insert, Token.face_written hK, hk _ _ _ hlk]
    simp only [call, hl, if_neg hcl, hc, hr]

theorem upgrade_appliedAs (hK : K.Lawful) (hr : faults.getContract = false)
    (hk : records.Keyed) {epochNumber : Nat}
    (h : records.applyUpgradeDelta C K cfg faults tx epochNumber = .ok written) :
    AppliedAs K cfg (fun l => l.upgrade K tx epochNumber) records written := by
  rcases applyUpgradeDelta_ok h with ⟨rfl, hno⟩ | ⟨token, contract, pr, hrep, rfl⟩
  · refine ⟨?_, hk⟩
    cases hg : written.getContract cfg faults tx.tokenId with
    | none => simp only [upgrade, ledger_of_getContract_none hr hg]
    | some token =>
      simp only [upgrade, (ledger_of_getContract hg).1]
      split
      · next c pr ha hp => exact (if_pos (hno token c pr hg ha hp)).symm
      · rfl
  · obtain ⟨hl, hlk⟩ := ledger_of_getContract (K := K) hrep.found
    refine ⟨?_, hk.insert _ rfl⟩
    have hnot : ¬ (contract.threshold = 0 ∨
        timelockSatisfied pr.proposalEpoch epochNumber = false) := by
      simp [hrep.upgradeable, hrep.due]
    have hc : (token.face K).contract = some contract := hrep.asset
    rw [ledger_insert, Token.face_written hK, hk _ _ _ hlk]
    simp only [upgrade, hl, hc, hrep.decoded, if_neg hnot]

theorem deltas_appliedAs (hK : K.Lawful) (hr : faults.getContract = false)
    (hk : records.Keyed) {epochNumber : Nat}
    (h : records.applyDeltas C K cfg faults tx epochNumber = .ok written) :
    AppliedAs K cfg (fun l => l.after C K tx epochNumber) records written := by
  unfold applyDeltas at h
  unfold after
  split at h
  · next hd =>
    simp only [if_pos hd]
    exact deploy_appliedAs hK hr hk h
  · next hd =>
    simp only [if_neg hd]
    split at h
    · next hc =>
      simp only [if_pos hc]
      exact call_appliedAs hK hr hk h
    · next hc =>
      simp only [if_neg hc]
      split at h
      · next hu =>
        simp only [if_pos hu]
        exact upgrade_appliedAs hK hr hk h
      · next hu =>
        simp only [if_neg hu]
        obtain rfl := ok.inj h
        exact ⟨rfl, hk⟩

end Records

/-- One Commit, and what the provider does while it is handled. -/
structure HandledCommit where
  around : Surroundings
  faults : Faults
  commit : TransactionCommit
  finalizerKey : Bytes

section Histories

variable (C K P cfg)

def HandledCommit.exec (call : HandledCommit) (n : CommitterNode) :
    Except CommitterError Unit × CommitterNode :=
  (CommitterNode.checkAndCommitTransactionResults C K P cfg call.around call.faults
    call.commit call.finalizerKey).exec n

/-- A node, and beside it the fold of what was committed. -/
def commitStep (s : CommitterNode × ContractLedger) (call : HandledCommit) :
    CommitterNode × ContractLedger :=
  ((call.exec C K P cfg s.1).2, s.2.after C K (call.commit.transaction s.1.base.pending)
      call.commit.proposedBlock.epochNumber)

/-- The Commit returns `Ok`. -/
def Succeeds (s : CommitterNode × ContractLedger) (call : HandledCommit) : Prop :=
  (call.exec C K P cfg s.1).1 = .ok ()

/-- What the Sentinels and the Executors read of the contracts. -/
def CommitterNode.contracts (n : CommitterNode) : ContractLedger :=
  n.records.ledger K cfg.tokenPartitionId

/-- The readers' partition is the one the deltas are written to, the provider answers,
and the Committer's copy of the token has the contract of the record. -/
structure InStepWithRecord (n : CommitterNode) (call : HandledCommit) : Prop where
  partition : cfg.tokenPartitionId = cfg.environmentId
  answered : call.faults.getContract = false
  cached : ∀ token, n.base.tokens.lookup call.commit.tokenId = some token →
    n.contracts K cfg call.commit.tokenId = some (token.face K)

end Histories

/-- Tokens are recorded and cached under their own ids. -/
structure CommitterNode.Keyed (n : CommitterNode) : Prop where
  recorded : n.records.Keyed
  cached : ∀ tokenId token, n.base.tokens.lookup tokenId = some token → token.id = tokenId

/-- The token that takes the block has the contract of the record and its own id. -/
theorem InStepWithRecord.token {call : HandledCommit} {token : Token}
    (hs : InStepWithRecord K cfg n call) (hk : n.Keyed)
    (hc : cachedToken (n.world C K cfg call.around call.faults) n.base.tokens
      call.commit.tokenId = some token) :
    n.contracts K cfg call.commit.tokenId = some (token.face K) ∧
      token.id = call.commit.tokenId := by
  unfold cachedToken at hc
  split at hc
  · next held hh =>
    obtain rfl := some.inj hc
    exact ⟨hs.cached _ hh, hk.cached _ _ hh⟩
  · simp only [answers] at hc
    split at hc
    · cases hc
    · refine ⟨?_, hk.recorded _ _ _ hc⟩
      rw [CommitterNode.contracts, ledger, hc]
      rfl

/-- One Commit: the readers' contracts take the delta, and keys stay right. -/
theorem TokenEffect.contracts {call : HandledCommit} {token : Token} (hK : K.Lawful)
    (hs : InStepWithRecord K cfg n call) (hk : n.Keyed)
    (h : TokenEffect C K cfg call.around call.faults n call.commit token n') :
    n'.contracts K cfg = (n.contracts K cfg).after C K
        (call.commit.transaction n.base.pending) call.commit.proposedBlock.epochNumber ∧
      n'.Keyed := by
  obtain ⟨hf, hid⟩ := hs.token hk h.cached
  obtain ⟨written, hd, hw⟩ := h.deltas
  have he : (n.extendedToken C cfg call.commit token).face K = token.face K ∧
      (n.extendedToken C cfg call.commit token).id = token.id :=
    Token.commitBlock_face _ _ _
  -- the append saves a token with the contract the record had
  have hsv : (n.records.withToken cfg call.commit.tokenId
      (n.extendedToken C cfg call.commit token)).ledger K cfg.environmentId =
        n.contracts K cfg := by
    rw [withToken, hs.partition, ledger_insert, he.1, ← hf, CommitterNode.contracts, hs.partition]
    exact update_eq_self _ _
  have hky : (n.records.withToken cfg call.commit.tokenId
      (n.extendedToken C cfg call.commit token)).Keyed := hk.recorded.insert _ (he.2.trans hid)
  obtain ⟨hl, hk'⟩ := deltas_appliedAs hK hs.answered hky hd
  refine ⟨?_, ?_, fun tokenId held hh => ?_⟩
  · rw [← hsv, ← hl, CommitterNode.contracts, hs.partition]
    unfold ledger
    rw [hw]
  · intro p tokenId held hh
    rw [hw] at hh
    exact hk' p tokenId held hh
  · rw [h.kept] at hh
    rcases lookup_insert_cases hh with ⟨rfl, rfl⟩ | hold
    · rw [he.2, hid]
    · exact hk.cached _ _ hold

/-- Over every history of Commits that succeed, each of them made when the cached copy
of its token is in step with the record, what is read is the fold of the deltas. -/
theorem contracts_are_read (hK : K.Lawful) (hkeyed : n.Keyed) {calls : List HandledCommit}
    (hcalls : Run.Meets (commitStep C K P cfg)
      (fun s call => Succeeds C K P cfg s call ∧ InStepWithRecord K cfg s.1 call)
      (n, n.contracts K cfg) calls) :
    let s := Run.run (commitStep C K P cfg) (n, n.contracts K cfg) calls
    s.1.contracts K cfg = s.2 := by
  have hinv : ∀ s call, s.1.contracts K cfg = s.2 ∧ s.1.Keyed →
      Succeeds C K P cfg s call ∧ InStepWithRecord K cfg s.1 call →
      (commitStep C K P cfg s call).1.contracts K cfg = (commitStep C K P cfg s call).2 ∧
        (commitStep C K P cfg s call).1.Keyed := by
    rintro ⟨n, ledger⟩ call ⟨hr, hkeyed⟩ ⟨hok, hs⟩
    obtain rfl : n.contracts K cfg = ledger := hr
    obtain ⟨-, token, he⟩ := (ends_iff_exec.mp ends_commit_tokens).1 () hok
    exact he.contracts hK hs hkeyed
  exact (Run.run_invariant hinv ⟨rfl, hkeyed⟩ hcalls).1

/-- A Committer whose readers use the partition of the deltas. -/
def sharedRecords : RecordsConfig :=
  { sampleCommitter with tokenPartitionId := "env" }

/-- A contract without state, and with what calls write. -/
def statelessContract : SmartContract := ⟨"c", [9], "1", ∅, [[1], [1]], 2⟩

def statefulContract (keys : List Bytes) : SmartContract :=
  { statelessContract with
    storage := applyStorage ∅ (keys.map fun key => (key, some key)) }

def callBook : List (SmartContract × Bytes) :=
  [(statelessContract, [1]), (statefulContract [[5]], [2]), (statefulContract [[6]], [3]),
    (statefulContract [[5], [6]], [4])]

def wasmToken : Token :=
  { emptyToken with
    metadata := (∅ : Finmap fun _ : String => String).insert "contract_engine" "Wasm"
    assetData := some [1] }

def contractNode : CommitterNode where
  base := bootState
  records :=
    { tokens := (∅ : Finmap fun _ : String × Bytes => Token).insert ("env", [7]) wasmToken
      users := ∅
      pools := ∅ }

/-- A Commit of a transaction in a block on a given parent, nothing failing. -/
def commitOf (previousHash : Bytes) (tx : Transaction) : HandledCommit where
  around := sampleSurroundings
  faults := Faults.none
  commit :=
    { transId := asBytes tx.id
      tokenId := [7]
      envId := "env"
      proposedBlock := blockOn previousHash (signedCarrier tx none) }
  finalizerKey := [4]

def callWriting (id : String) (key : Bytes) : Transaction :=
  { routedTransaction id with
    action := "ContractCall", resultHash := key, resultData := key }

def deployOf (id : String) (bytecode : Bytes) : Transaction :=
  { routedTransaction id with
    action := "DeployContract", payload := bytecode, resultHash := bytecode }

noncomputable def callCodec : ContractCodec := listedContracts callBook

theorem callCodec_lawful : callCodec.Lawful :=
  listedContracts_lawful (by decide) (by simp [callBook])

noncomputable def contractStart : CommitterNode × ContractLedger :=
  (contractNode, contractNode.contracts callCodec sharedRecords)

def twoCalls : List HandledCommit :=
  [commitOf [] (callWriting "a" [5]), commitOf [7] (callWriting "b" [6])]

noncomputable def sampleRun (calls : List HandledCommit) : CommitterNode × ContractLedger :=
  Run.run (commitStep sampleCodec callCodec samplePrimitives sharedRecords) contractStart calls

/-- Two calls of one contract succeed one after the other. The append of the second
writes the token back as it was cached before the first, so the first call's write is
gone. -/
theorem second_call_drops_first :
    Run.Meets (commitStep sampleCodec callCodec samplePrimitives sharedRecords)
        (Succeeds sampleCodec callCodec samplePrimitives sharedRecords) contractStart twoCalls ∧
      ((sampleRun twoCalls).1.contracts callCodec sharedRecords [7]).map
        ContractFace.contract = some (some (statefulContract [[6]])) ∧
      ((sampleRun twoCalls).2 [7]).map ContractFace.contract =
        some (some (statefulContract [[5], [6]])) := by
  refine ⟨⟨?_, ?_, trivial⟩, rfl, rfl⟩
  · unfold Succeeds
    decide +kernel
  · unfold Succeeds
    decide +kernel

/-- A deployment and a call on a token that has no cached copy yet. -/
def deployAndCall : List HandledCommit :=
  [commitOf [] (deployOf "d" [9]), commitOf [7] (callWriting "a" [5])]

theorem contractNode_keyed : contractNode.Keyed where
  recorded := by
    intro p tokenId token h
    by_cases hkey : (p, tokenId) = ("env", [7])
    · cases hkey
      obtain rfl : wasmToken = token := some.inj h
      rfl
    · have hn : contractNode.records.tokens.lookup (p, tokenId) = none := by
        show (insert _ _ ∅).lookup _ = none
        rw [lookup_insert_of_ne _ hkey]
        rfl
      cases hn.symm.trans h
  cached _ _ h := by cases h

theorem deployAndCall_contracts_read :
    (sampleRun deployAndCall).1.contracts callCodec sharedRecords =
      (sampleRun deployAndCall).2 := by
  refine contracts_are_read callCodec_lawful contractNode_keyed
    ⟨⟨?_, rfl, rfl, fun token h => ?_⟩, ⟨?_, rfl, rfl, ?_⟩, trivial⟩
  · unfold Succeeds
    decide +kernel
  · cases h
  · unfold Succeeds
    decide +kernel
  · have hc : ∀ token ∈ (commitStep sampleCodec callCodec samplePrimitives
        sharedRecords contractStart (commitOf [] (deployOf "d" [9]))).1.base.tokens.lookup [7],
        (commitStep sampleCodec callCodec samplePrimitives sharedRecords contractStart
          (commitOf [] (deployOf "d" [9]))).1.contracts callCodec sharedRecords [7] =
            some (token.face callCodec) := by
      decide +kernel
    exact hc

end Pneumatic
