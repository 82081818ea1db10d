import Pneumatic.Proofs.ContractState

/-!
# Upgrades over a history of Commits

When a Commit replaces the asset of a contract token, told from the state it meets, and
what every Commit keeps of the contracts there are: a contract found in the cache or in
the records was found there before, was deployed, or comes of one that was by a call or
by an upgrade.
-/

namespace Pneumatic

open Handler HandlerM Option Except

variable {C : Codec} {K : ContractCodec} {P : ShieldedPrimitives} {cfg : RecordsConfig}
  {around : Surroundings} {faults : Faults} {n n' : CommitterNode} {call : HandledCommit}
  {tx : Transaction} {epochNumber : Nat} {records written : Records}
  {p : SmartContract → Prop}

variable {token : Token}

theorem Token.contract_of_written (hK : K.Lawful) {made : SmartContract}
    (hd : token.assetData = some (K.rmpSmartContract made)) (hm : p made) :
    ∀ contract, token.getAsset K = some contract → p contract := by
  intro contract ha
  rw [Token.getAsset, hd] at ha
  obtain rfl := mem_unique (hK made) ha
  exact hm

variable {contract : SmartContract}

namespace Records

/-- Every recorded contract has the property. -/
def EveryContract (K : ContractCodec) (p : SmartContract → Prop) (records : Records) : Prop :=
  ∀ key token contract, records.tokens.lookup key = some token →
    token.getAsset K = some contract → p contract

theorem EveryContract.insert (h : records.EveryContract K p) (key : String × Bytes)
    (ht : ∀ contract, token.getAsset K = some contract → p contract) :
    ({ records with tokens := records.tokens.insert key token } : Records).EveryContract K p := by
  intro other token' contract hl ha
  rcases Finmap.lookup_insert_cases hl with ⟨-, rfl⟩ | hold
  · exact ht contract ha
  · exact h other token' contract hold ha

theorem EveryContract.found (h : records.EveryContract K p) {tokenId : Bytes}
    (hf : records.getContract cfg faults tokenId = some token)
    (ha : token.getAsset K = some contract) : p contract := by
  unfold getContract at hf
  split at hf
  · cases hf
  · exact h _ _ _ hf ha

/-- What a delta may bring into the records has the property, given that what it finds
there has. -/
structure DeltaKeeps (C : Codec) (K : ContractCodec) (cfg : RecordsConfig)
    (faults : Faults) (p : SmartContract → Prop) (tx : Transaction) (epochNumber : Nat)
    (records : Records) : Prop where
  deployed : tx.action = "DeployContract" → ∀ params delta,
    K.decodeDeployParams tx.payload = some params →
    deployContract C K tx.sender tx.sequenceNumber params = .ok delta → p delta.contract
  stored : ∀ contract result, p contract → p (contract.stored result)
  upgraded : tx.action = "UpgradeContract" → ∀ token contract params,
    Replaces C K cfg faults tx epochNumber records token contract params →
    p (contract.upgraded params)

theorem EveryContract.applyDeltas (hK : K.Lawful) (h : records.EveryContract K p)
    (hk : DeltaKeeps C K cfg faults p tx epochNumber records)
    (hok : records.applyDeltas C K cfg faults tx epochNumber = .ok written) :
    written.EveryContract K p := by
  unfold Records.applyDeltas at hok
  split at hok
  · next ha =>
    rcases applyDeployDelta_ok hok with ⟨rfl, -⟩ | ⟨delta, ⟨⟨pr, hp, hd⟩, -, -⟩, rfl⟩
    · exact h
    · have hm : p delta.contract := hk.deployed ha pr delta hp hd
      exact h.insert _ (Token.contract_of_written hK rfl hm)
  · split at hok
    · rcases applyStorageDelta_ok hok with ⟨rfl, -⟩ | ⟨token, contract, r, hf, -, -, ha, -, rfl⟩
      · exact h
      · have hm : p (contract.stored r) := hk.stored contract r (h.found hf ha)
        exact h.insert _ (Token.contract_of_written hK rfl hm)
    · split at hok
      · next ha =>
        rcases applyUpgradeDelta_ok hok with ⟨rfl, -⟩ | ⟨token, contract, pr, hrep, rfl⟩
        · exact h
        · have hm : p (contract.upgraded pr) :=
            hk.upgraded ha token contract pr hrep
          exact h.insert _ (Token.contract_of_written hK rfl hm)
      · obtain rfl := ok.inj hok
        exact h

end Records

/-- Every contract the node has, in the cache or in the records, has a property. -/
structure CommitterNode.EveryContract (K : ContractCodec) (p : SmartContract → Prop)
    (n : CommitterNode) : Prop where
  cached : ∀ tokenId token contract, n.base.tokens.lookup tokenId = some token →
    token.getAsset K = some contract → p contract
  recorded : n.records.EveryContract K p

/-- What the sender has asked for: the transaction without the routing decision and
without the result. -/
def Transaction.request (tx : Transaction) : Transaction :=
  { tx with resultHash := [], resultData := [], selection := none }

namespace HandledCommit

def transaction (call : HandledCommit) (n : CommitterNode) : Transaction :=
  call.commit.transaction n.base.pending

section Replaces

variable (C K P cfg)

/-- The records its delta is applied to: the append has been saved. -/
def recordsMet (call : HandledCommit) (n : CommitterNode) : Option Records :=
  (cachedToken (n.world C K cfg call.around call.faults) n.base.tokens
    call.commit.tokenId).map fun token =>
      n.records.withToken cfg call.commit.tokenId (n.extendedToken C cfg call.commit token)

/-- The contract of the transaction's token at that moment. -/
def contractMet (call : HandledCommit) (n : CommitterNode) : Option SmartContract :=
  (call.recordsMet C K cfg n).bind fun records =>
    (records.getContract cfg call.faults (call.transaction n).tokenId).bind (Token.getAsset K)

/-- The Commit goes through and `apply_upgrade_delta` replaces the asset. -/
structure Replaces (n : CommitterNode) (call : HandledCommit) (contract : SmartContract)
    (params : UpgradeParams) : Prop where
  succeeded : (call.exec C K P cfg n).1 = .ok ()
  action : (call.transaction n).action = "UpgradeContract"
  met : call.contractMet C K cfg n = some contract
  decoded : K.decodeUpgradeParams (call.transaction n).payload = some params
  hashed : C.sha256 (K.rmpReplaceAssetDelta (params.delta (call.transaction n).tokenId)) =
    (call.transaction n).resultHash
  upgradeable : contract.threshold ≠ 0
  due : timelockSatisfied params.proposalEpoch call.commit.proposedBlock.epochNumber = true

/-- What a Commit replaces an asset by, if it does. -/
def replacement (n : CommitterNode) (call : HandledCommit) : Option UpgradeParams :=
  match (call.exec C K P cfg n).1, call.contractMet C K cfg n,
      K.decodeUpgradeParams (call.transaction n).payload with
  | .ok (), some contract, some params =>
    if (call.transaction n).action = "UpgradeContract" ∧
        C.sha256 (K.rmpReplaceAssetDelta (params.delta (call.transaction n).tokenId)) =
          (call.transaction n).resultHash ∧
        contract.threshold ≠ 0 ∧
        timelockSatisfied params.proposalEpoch call.commit.proposedBlock.epochNumber = true then
      some params
    else none
  | _, _, _ => none

end Replaces

theorem replacement_eq_some {params : UpgradeParams} : call.replacement C K P cfg n = some params ↔
      ∃ contract, call.Replaces C K P cfg n contract params := by
  unfold replacement
  constructor
  · intro h
    split at h
    · next contract params' hok hmet hd =>
      split at h
      · next hc =>
        obtain rfl := some.inj h
        obtain ⟨ha, hh, hu, hdue⟩ := hc
        exact ⟨contract, hok, ha, hmet, hd, hh, hu, hdue⟩
      · cases h
    · cases h
  · rintro ⟨contract, h⟩
    rw [h.succeeded, h.met, h.decoded]
    exact if_pos ⟨h.action, h.hashed, h.upgradeable, h.due⟩

end HandledCommit

theorem Records.Replaces.handled {held : Token}
    {params : UpgradeParams} (hok : (call.exec C K P cfg n).1 = .ok ())
    (ha : (call.transaction n).action = "UpgradeContract")
    (hc : cachedToken (n.world C K cfg call.around call.faults) n.base.tokens
      call.commit.tokenId = some held)
    (h : Records.Replaces C K cfg call.faults (call.transaction n)
      call.commit.proposedBlock.epochNumber (n.records.withToken cfg call.commit.tokenId
        (n.extendedToken C cfg call.commit held)) token contract params) :
    call.Replaces C K P cfg n contract params where
  succeeded := hok
  action := ha
  met := by
    rw [HandledCommit.contractMet, HandledCommit.recordsMet, hc]
    simp only [map_some, bind_some, h.found, h.asset]
  decoded := h.decoded
  hashed := h.hashed
  upgradeable := h.upgradeable
  due := h.due

namespace CommitterNode.EveryContract

theorem cachedToken (h : n.EveryContract K p) {tokenId : Bytes}
    (hc : Pneumatic.cachedToken (n.world C K cfg around faults) n.base.tokens
      tokenId = some token) (ha : token.getAsset K = some contract) : p contract := by
  unfold Pneumatic.cachedToken at hc
  split at hc
  · next held hh =>
    obtain rfl := some.inj hc
    exact h.cached _ _ _ hh ha
  · simp only [Records.answers] at hc
    split at hc
    · cases hc
    · exact h.recorded _ _ _ hc ha

theorem extended {rollback : Option Bytes} {block : Block}
    {validators : BlockValidators} (h : ∀ contract, token.getAsset K = some contract → p contract) :
    ∀ contract, (token.commitBlock C validators block rollback).1.getAsset K =
      some contract → p contract := by
  intro contract ha
  have hs : (token.commitBlock C validators block rollback).1.getAsset K = token.getAsset K :=
    congrArg ContractFace.contract (Token.commitBlock_face token block rollback).1
  exact h contract (hs.symm.trans ha)

theorem contractMet (h : n.EveryContract K p)
    (hmet : call.contractMet C K cfg n = some contract) : p contract := by
  obtain ⟨records, hrc, hmet⟩ := bind_eq_some_iff.mp hmet
  obtain ⟨token, ht, ha⟩ := bind_eq_some_iff.mp hmet
  obtain ⟨held, hh, rfl⟩ := map_eq_some_iff.mp hrc
  have hr : (n.records.withToken cfg call.commit.tokenId
      (n.extendedToken C cfg call.commit held)).EveryContract K p :=
    h.recorded.insert _ (extended fun contract => h.cachedToken hh)
  exact hr.found ht ha

/-- What a Commit does to the contracts there are, whatever its verdict. -/
theorem exec (hK : K.Lawful) (h : n.EveryContract K p)
    (hd : (call.transaction n).action = "DeployContract" → ∀ pr delta,
      K.decodeDeployParams (call.transaction n).payload = some pr →
      deployContract C K (call.transaction n).sender (call.transaction n).sequenceNumber
        pr = .ok delta → p delta.contract)
    (hst : ∀ contract r, p contract → p (contract.stored r))
    (hu : ∀ contract pr, call.Replaces C K P cfg n contract pr →
      p (contract.upgraded pr)) : (call.exec C K P cfg n).2.EveryContract K p := by
  have hi : ∀ {t : TokenMap} {token : Token},
      (∀ contract, token.getAsset K = some contract → p contract) →
      t = n.base.tokens.insert call.commit.tokenId token →
      ∀ ti token contract, t.lookup ti = some token →
        token.getAsset K = some contract → p contract := by
    rintro t token ht rfl ti token' contract hl ha
    rcases Finmap.lookup_insert_cases hl with ⟨-, rfl⟩ | hold
    · exact ht contract ha
    · exact h.cached _ _ _ hold ha
  have hr : ∀ {records : Records}, records.EveryContract K p →
      (call.exec C K P cfg n).2.records.tokens = records.tokens →
      (call.exec C K P cfg n).2.records.EveryContract K p := by
    intro records hrc heq key token contract hl ha
    rw [heq] at hl
    exact hrc key token contract hl ha
  cases hv : (call.exec C K P cfg n).1 with
  | error e =>
    cases (ends_iff_exec.mp ends_commit_tokens).2 e hv with
    | aside hcc hs =>
      exact ⟨fun ti token contract hl ha =>
        h.cachedToken (hcc.only _ _ hl) ha, hr h.recorded hs⟩
    | @appended token token' hcc ht hk hw =>
      have hc : ∀ contract, token'.getAsset K = some contract → p contract := by
        rw [ht]
        exact extended fun contract => h.cachedToken hcc
      refine ⟨hi hc hk, ?_⟩
      rcases hw with hs | hsv
      · exact hr h.recorded hs
      · exact hr (h.recorded.insert _ hc) hsv
  | ok _ =>
    obtain ⟨-, token, he⟩ := (ends_iff_exec.mp ends_commit_tokens).1 () hv
    obtain ⟨written, hdl, hw⟩ := he.deltas
    have hc : ∀ contract, (n.extendedToken C cfg call.commit token).getAsset K =
        some contract → p contract := extended fun contract => h.cachedToken he.cached
    have hmet : (n.records.withToken cfg call.commit.tokenId
        (n.extendedToken C cfg call.commit token)).EveryContract K p :=
      h.recorded.insert _ hc
    refine ⟨hi hc he.kept, hr (hmet.applyDeltas hK ?_ hdl) hw⟩
    exact ⟨hd, hst, fun hac token contract pr hrp =>
      hu _ _ (hrp.handled hv hac he.cached)⟩

end CommitterNode.EveryContract

/-! ## A concrete contract

The payload of an upgrade is the new code, and as many bytes more as the epoch of the
proposal says. The owners it names are two, and every signature counts for everyone. -/

noncomputable def upgradeCodec (book : List (SmartContract × Bytes)) : ContractCodec :=
  { listedContracts book with
    decodeUpgradeParams := fun payload =>
      some ⟨payload.take 1, [[1], [2]], 2, payload.length - 1, [[5]]⟩ }

def upgradeEngines : EngineCodec where
  rmpExecutionInput _ := []
  rmpTransferDelta _ := []
  rmpWasmResult _ := []
  rmpDigestInput _ code _ _ proposalEpoch := List.replicate proposalEpoch 1 ++ 0 :: code
  decodeTransferDelta _ := none
  decodeProgram _ := .error ""
  compileModule _ := .error ""

def upgradeOf (id : String) (payload : Bytes) : Transaction :=
  { routedTransaction id with
    action := "UpgradeContract", payload := payload, resultHash := payload.take 1 }

/-- A Commit of a transaction in a block of an epoch on a given parent. -/
def commitAt (tokenId previousHash : Bytes) (epochNumber : Nat) (tx : Transaction) :
    HandledCommit where
  around := sampleSurroundings
  faults := Faults.none
  commit :=
    { transId := asBytes tx.id
      tokenId := tokenId
      envId := "env"
      proposedBlock :=
        { blockOn previousHash (signedCarrier tx none) with epochNumber := epochNumber } }
  finalizerKey := [4]

end Pneumatic
