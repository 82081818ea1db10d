import Pneumatic.Proofs.Replacement

/-!
# The owners behind an upgrade

When the asset of a contract is replaced, enough of its owners should have signed the
upgrade: as many different keys of the owner list as the threshold says, of the list and
the threshold that hold at that moment. The quorum is checked by `execute_upgrade` and
not by `apply_upgrade_delta`, and `verify_quorum` counts the places of the owner list.
So this takes two things: no owner list repeats a key, and the upgrade was executed
against the owners and the threshold it is applied to.
-/

namespace Pneumatic

open Handler HandlerM ShieldedPool List Option

variable {C : Codec} {K : ContractCodec} {M : EngineCodec} {P : ShieldedPrimitives}
  {cfg : RecordsConfig} {n : CommitterNode} {call : HandledCommit} {tx : Transaction}
  {Signed : Bytes → Bytes → Prop}

section Authority

variable (C K M P cfg)

/-- As many owners as the threshold says have signed the digest of this upgrade. -/
structure QuorumSigned (Signed : Bytes → Bytes → Prop) (tokenId : Bytes)
    (contract : SmartContract) (params : UpgradeParams) : Prop where
  positive : 0 < contract.threshold
  signed : ∃ keys : Finset Bytes, contract.threshold ≤ keys.card ∧
    ∀ key ∈ keys, key ∈ contract.owners ∧ Signed key (params.digest C M tokenId)

/-- Whatever a Commit replaces, it replaces with the owners' authority. -/
def ReplacesWithQuorum (Signed : Bytes → Bytes → Prop) (n : CommitterNode)
    (call : HandledCommit) : Prop :=
  ∀ contract params, call.Replaces C K P cfg n contract params →
    QuorumSigned C M Signed (call.transaction n).tokenId contract params

/-- No payload has an owner twice, and an upgrade was executed on a token with the
owners and the threshold that it meets. -/
structure ExecutedAgainstCurrent (n : CommitterNode) (call : HandledCommit) : Prop where
  deployed : (call.transaction n).action = "DeployContract" → ∀ params,
    K.decodeDeployParams (call.transaction n).payload = some params → params.owners.Nodup
  proposed : (call.transaction n).action = "UpgradeContract" → ∀ params,
    K.decodeUpgradeParams (call.transaction n).payload = some params →
    params.newOwners.Nodup
  executed : (call.transaction n).action = "UpgradeContract" → ∀ contract,
    call.contractMet C K cfg n = some contract →
    ∃ token seen output, executeUpgrade C K M (call.transaction n) token = .ok output ∧
      token.getAsset K = some seen ∧ seen.owners = contract.owners ∧
      seen.threshold = contract.threshold

/-- The owners of a contract are pairwise different. -/
def SmartContract.OwnersDistinct (contract : SmartContract) : Prop :=
  contract.owners.Nodup

end Authority

/-- An upgrade that was executed had the quorum of the owners it was executed against. -/
theorem executeUpgrade_ok {token : Token} {output : ExecutionOutput}
    (h : executeUpgrade C K M tx token = .ok output) :
    ∃ p seen, K.decodeUpgradeParams tx.payload = some p ∧ token.getAsset K = some seen ∧
      verifyQuorum C M tx.tokenId p seen.owners seen.threshold = true := by
  unfold executeUpgrade at h
  split at h
  · cases h
  · next p hp =>
    dsimp only at h
    split at h
    · cases h
    · split at h
      · cases h
      · next seen hs =>
        split at h
        · cases h
        · split at h
          · cases h
          · next hq =>
            exact ⟨p, seen, hp, hs, Bool.eq_true_of_not_eq_false hq⟩

theorem signed_of_ownerSigned {digest owner : Bytes} {signatures : List Bytes}
    (hs : ∀ s key m,
      C.checkSignature s key m = some true → Signed key m)
    (h : ownerSigned C digest signatures owner = true) : Signed owner digest := by
  obtain ⟨s, -, hc⟩ := any_eq_true.mp h
  refine hs s owner digest ?_
  cases hv : C.checkSignature s owner digest with
  | none =>
    rw [hv] at hc
    cases hc
  | some v =>
    rw [hv] at hc
    exact congrArg some hc

/-- A quorum of a list without repetition is one of different keys. -/
theorem quorumSigned_of_verifyQuorum {tokenId : Bytes} {contract : SmartContract}
    {params : UpgradeParams} (hsn : ∀ s key m,
      C.checkSignature s key m = some true → Signed key m)
    (hd : contract.OwnersDistinct)
    (h : verifyQuorum C M tokenId params contract.owners contract.threshold = true) :
    QuorumSigned C M Signed tokenId contract params := by
  obtain ⟨hp, hc⟩ := verifyQuorum_iff.mp h
  refine ⟨hp, (contract.owners.filter (ownerSigned C (params.digest C M tokenId)
    params.ownerSignatures)).toFinset, ?_, fun key hkey => ?_⟩
  · rw [toFinset_card_of_nodup (hd.filter _)]
    exact hc
  · obtain ⟨ho, hs⟩ := mem_filter.mp (mem_toFinset.mp hkey)
    exact ⟨ho, signed_of_ownerSigned hsn hs⟩

/-- Owner lists stay free of repetition. -/
theorem ExecutedAgainstCurrent.ownersDistinct (hK : K.Lawful)
    (h : ExecutedAgainstCurrent C K M cfg n call)
    (hn : n.EveryContract K SmartContract.OwnersDistinct) :
    (call.exec C K P cfg n).2.EveryContract K SmartContract.OwnersDistinct := by
  refine hn.exec hK (fun ha p delta hp hd => ?_)
    (fun c r hc => hc) (fun c p hr => ?_)
  · have ho : delta.owners = p.owners := by
      unfold deployContract at hd
      split at hd
      · cases hd
      · split at hd
        · cases hd
        · obtain rfl := Except.ok.inj hd
          rfl
    show delta.owners.Nodup
    rw [ho]
    exact h.deployed ha p hp
  · exact h.proposed hr.action p hr.decoded

/-- One Commit: the quorum of the execution is one of the owners that are current. -/
theorem ExecutedAgainstCurrent.replacesWithQuorum (hsn : ∀ s key m,
      C.checkSignature s key m = some true → Signed key m)
    (h : ExecutedAgainstCurrent C K M cfg n call)
    (hd : ∀ c, call.contractMet C K cfg n = some c → c.OwnersDistinct) :
    ReplacesWithQuorum C K M P cfg Signed n call := by
  intro c p hr
  obtain ⟨token, seen, o, he, hs, ho, ht⟩ :=
    h.executed hr.action c hr.met
  obtain ⟨p', seen', hp, hs', hq⟩ := executeUpgrade_ok he
  obtain rfl := mem_unique hp hr.decoded
  obtain rfl := mem_unique hs hs'
  rw [ho, ht] at hq
  exact quorumSigned_of_verifyQuorum hsn (hd c hr.met) hq

/-- In every history of Commits in which no owner list repeats a key and every upgrade
was executed against the owners and the threshold it meets, each replacement has the
signatures of enough different owners of that moment. -/
theorem replaced_by_owners (hK : K.Lawful) (hsound : ∀ signature key message,
      C.checkSignature signature key message = some true → Signed key message)
    (hn : n.EveryContract K SmartContract.OwnersDistinct) {calls : List HandledCommit}
    (hcalls : Run.Meets (fun n call => (HandledCommit.exec C K P cfg call n).2)
      (ExecutedAgainstCurrent C K M cfg) n calls) :
    Run.Meets (fun n call => (HandledCommit.exec C K P cfg call n).2)
      (ReplacesWithQuorum C K M P cfg Signed) n calls := by
  have hs : ∀ n call, CommitterNode.EveryContract K SmartContract.OwnersDistinct n →
      ExecutedAgainstCurrent C K M cfg n call →
      (call.exec C K P cfg n).2.EveryContract K SmartContract.OwnersDistinct :=
    fun n call hn h => h.ownersDistinct hK hn
  refine hcalls.of_invariant hs (fun n call hn h => ?_) hn
  exact h.replacesWithQuorum hsound fun c hmet => hn.contractMet hmet

theorem QuorumSigned.threshold_le {tokenId : Bytes} {contract : SmartContract}
    {params : UpgradeParams} (h : QuorumSigned C M Signed tokenId contract params) :
    contract.threshold ≤ contract.owners.toFinset.card := by
  obtain ⟨keys, hc, hk⟩ := h.signed
  refine hc.trans (Finset.card_le_card fun key hkey => ?_)
  exact mem_toFinset.mpr (hk key hkey).1

theorem upgradeCodec_lawful {book : List (SmartContract × Bytes)} (hn : (book.map Prod.snd).Nodup)
    (ho : ∀ word, 0 :: word ∉ book.map Prod.snd) : (upgradeCodec book).Lawful :=
  listedContracts_lawful hn ho

/-- The parameters of an upgrade to the code 8, in epoch 0. -/
def upgradeToEight : UpgradeParams := ⟨[8], [[1], [2]], 2, 0, [[5]]⟩

namespace OneOwner

noncomputable def codec : ContractCodec := upgradeCodec [(statelessContract, [1])]

noncomputable def tokenId : Bytes := deriveTokenId sampleCodec codec [] 0 [9] "c"

/-- A deployment with one key twice among the owners, and two of them to sign. -/
def deployment : HandledCommit := commitAt [7] [] 0 (deployOf "d" [9])

noncomputable def upgrade : HandledCommit :=
  commitAt tokenId [] 1 { upgradeOf "u" [8] with tokenId := tokenId }

noncomputable def deployed : CommitterNode :=
  (deployment.exec sampleCodec codec samplePrimitives sharedRecords contractNode).2

/-- The contract is deployed, its upgrade is executed on the token as it is recorded,
and the Commit replaces the asset. Two owners were to sign, and there are no two. -/
theorem one_key_upgrades :
    (deployment.exec sampleCodec codec samplePrimitives sharedRecords contractNode).1 = .ok () ∧
      ((deployed.records.tokens.lookup ("env", tokenId)).map fun token =>
        (executeUpgrade sampleCodec codec upgradeEngines (upgrade.transaction deployed)
          token).toBool) = some true ∧
      upgrade.Replaces sampleCodec codec samplePrimitives sharedRecords deployed
        statelessContract upgradeToEight ∧
      ∀ Signed, ¬ QuorumSigned sampleCodec upgradeEngines Signed tokenId
        statelessContract upgradeToEight := by
  refine ⟨rfl, rfl, ?_, fun Signed hs => ?_⟩
  · exact ⟨rfl, rfl, rfl, rfl, rfl, by decide, by decide⟩
  · have htwo := hs.threshold_le
    revert htwo
    decide

end OneOwner

namespace TwoOwners

def contract : SmartContract := { statelessContract with owners := [[1], [2]] }

noncomputable def codec : ContractCodec := upgradeCodec [(contract, [1])]

def upgrade : HandledCommit := commitAt [7] [] 1 (upgradeOf "u" [8])

theorem node_distinct : contractNode.EveryContract codec SmartContract.OwnersDistinct where
  cached _ _ _ h := by cases h
  recorded := by
    have he : ({ contractNode.records with tokens := ∅ } : Records).EveryContract codec
        SmartContract.OwnersDistinct := by
      intro key token c h
      cases h
    have ht : ∀ held, wasmToken.getAsset codec = some held → held.OwnersDistinct := by
      intro held hh
      have hc : wasmToken.getAsset codec = some contract := rfl
      obtain rfl := mem_unique hc hh
      show [[1], [2]].Nodup
      decide
    exact he.insert ("env", [7]) ht

theorem upgrade_replaces :
    upgrade.Replaces sampleCodec codec samplePrimitives sharedRecords contractNode contract
      upgradeToEight :=
  ⟨rfl, rfl, rfl, rfl, rfl, by decide, by decide⟩

theorem upgrade_executed :
    ExecutedAgainstCurrent sampleCodec codec upgradeEngines sharedRecords contractNode upgrade where
  deployed h := absurd h (by decide)
  proposed _ params h := by
    obtain rfl : upgradeToEight = params := some.inj h
    decide
  executed _ held h := by
    obtain rfl : contract = held := mem_unique upgrade_replaces.met h
    exact ⟨wasmToken, contract, ⟨[8], upgradeGas 1⟩, rfl, rfl, rfl, rfl⟩

theorem two_owners_upgrade :
    upgrade.Replaces sampleCodec codec samplePrimitives sharedRecords contractNode contract
        upgradeToEight ∧ QuorumSigned sampleCodec upgradeEngines (fun key message =>
        ∃ signature, sampleCodec.checkSignature signature key message = some true) [7]
        contract upgradeToEight := by
  have hc : Run.Meets (fun n call =>
      (HandledCommit.exec sampleCodec codec samplePrimitives sharedRecords call n).2)
      (ExecutedAgainstCurrent sampleCodec codec upgradeEngines sharedRecords) contractNode
      [upgrade] := ⟨upgrade_executed, trivial⟩
  exact ⟨upgrade_replaces, (replaced_by_owners (upgradeCodec_lawful (by decide) (by simp))
    (fun signature _ _ h => ⟨signature, h⟩) node_distinct hc).1 _ _ upgrade_replaces⟩

end TwoOwners

end Pneumatic
