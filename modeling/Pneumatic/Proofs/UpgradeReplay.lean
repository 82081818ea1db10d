import Pneumatic.Proofs.UpgradeAuthority

/-!
# An upgrade is applied once

The owners sign a digest of an upgrade: the token, the new code and owners, and the
epoch of the proposal. Whoever has the signatures can put them into any number of
transactions; a Commit refuses a transaction it has booked, not an upgrade it has
applied. The epoch is the one part of the digest that could tell two proposals of the
same code apart, so a contract whose proposals never share one takes each upgrade once.
-/

namespace Pneumatic

open Handler HandlerM ShieldedPool List

variable {C : Codec} {K : ContractCodec} {M : EngineCodec} {P : ShieldedPrimitives}
  {cfg : RecordsConfig} {call : HandledCommit}

/-- A node, and beside it the upgrades it has applied, by token. -/
structure UpgradeHistory where
  node : CommitterNode
  applied : List (Bytes × UpgradeParams)

section Histories

variable (C K M P cfg)

def upgradeStep (s : UpgradeHistory) (call : HandledCommit) : UpgradeHistory where
  node := (call.exec C K P cfg s.node).2
  applied := s.applied ++ (call.replacement C K P cfg s.node).toList.map fun params =>
    ((call.transaction s.node).tokenId, params)

/-- The digests that were applied, by token. -/
def UpgradeHistory.digests (s : UpgradeHistory) : List (Bytes × Bytes) :=
  s.applied.map fun entry => (entry.1, entry.2.digest C M entry.1)

/-- A Commit that succeeds and upgrades a contract proposes in an epoch in which no upgrade
that was applied to the contract was proposed. -/
def ProposesAnew (s : UpgradeHistory) (call : HandledCommit) : Prop :=
  (call.transaction s.node).action = "UpgradeContract" →
  (call.exec C K P cfg s.node).1 = .ok () →
  ∀ params, K.decodeUpgradeParams (call.transaction s.node).payload = some params →
  ∀ entry ∈ s.applied, entry.1 = (call.transaction s.node).tokenId →
    entry.2.proposalEpoch ≠ params.proposalEpoch

end Histories

/-- The bytes under a digest tell the epoch of the proposal. -/
def EngineCodec.TellsEpoch (M : EngineCodec) : Prop :=
  ∀ tokenId codeHash owners threshold epoch tokenId' codeHash' owners' threshold' epoch',
    M.rmpDigestInput tokenId codeHash owners threshold epoch =
      M.rmpDigestInput tokenId' codeHash' owners' threshold' epoch' → epoch = epoch'

section

variable (hsha : Function.Injective C.sha256)

include hsha

/-- One Commit applies no digest anew. -/
theorem ProposesAnew.digests_nodup (hM : M.TellsEpoch)
    {s : UpgradeHistory} (h : ProposesAnew C K P cfg s call) (hs : (s.digests C M).Nodup) :
    ((upgradeStep C K P cfg s call).digests C M).Nodup := by
  unfold UpgradeHistory.digests upgradeStep
  rw [map_append]
  cases hrp : call.replacement C K P cfg s.node with
  | none =>
    simp only [Option.toList_none, map_nil, append_nil]
    exact hs
  | some p =>
    obtain ⟨c, hr⟩ := HandledCommit.replacement_eq_some.mp hrp
    have he := h hr.action hr.succeeded p hr.decoded
    refine nodup_append.mpr ⟨hs, nodup_singleton _, ?_⟩
    intro a ha fresh hf heq
    obtain ⟨entry, hen, rfl⟩ := mem_map.mp ha
    rw [mem_singleton.mp hf] at heq
    obtain ⟨ht, hsm⟩ := Prod.mk.inj heq
    rw [ht] at hsm
    exact he entry hen ht (hM _ _ _ _ _ _ _ _ _ _ (append_cancel_left (hsha hsm)))

/-- Over every history in which a contract's upgrades are proposed in different epochs,
no digest is applied twice to one contract. -/
theorem upgrade_applied_once (hM : M.TellsEpoch) {n : CommitterNode} {calls : List HandledCommit}
    (hcalls : Run.Meets (upgradeStep C K P cfg) (ProposesAnew C K P cfg) ⟨n, []⟩ calls) :
    ((Run.run (upgradeStep C K P cfg) ⟨n, []⟩ calls).digests C M).Nodup := by
  have hst : ∀ s call, (UpgradeHistory.digests C M s).Nodup → ProposesAnew C K P cfg s call →
      ((upgradeStep C K P cfg s call).digests C M).Nodup :=
    fun s call hs h => h.digests_nodup hsha hM hs
  exact Run.run_invariant hst nodup_nil hcalls

end

namespace RolledBack

def contract (code : UInt8) : SmartContract := { TwoOwners.contract with bytecode := [code] }

noncomputable def codec : ContractCodec :=
  upgradeCodec [(contract 9, [1]), (contract 8, [2]), (contract 6, [3])]

noncomputable def after (calls : List HandledCommit) : UpgradeHistory :=
  Run.run (upgradeStep sampleCodec codec samplePrimitives sharedRecords) ⟨contractNode, []⟩ calls

/-- The upgrade is executed on the token as it is recorded. -/
def Executed (s : UpgradeHistory) (call : HandledCommit) : Prop :=
  ((s.node.records.tokens.lookup ("env", [7])).map fun token =>
    (executeUpgrade sampleCodec codec upgradeEngines (call.transaction s.node)
      token).toBool) = some true

noncomputable def found (s : UpgradeHistory) : Option (Option SmartContract) :=
  (s.node.contracts codec sharedRecords [7]).map ContractFace.contract

/-- An upgrade, another one, and the payload of the first in a transaction of its own. -/
def calls : List HandledCommit :=
  [commitAt [7] [] 1 (upgradeOf "a" [8]), commitAt [7] [7] 1 (upgradeOf "b" [6]),
    commitAt [7] [7, 7] 1 (upgradeOf "c" [8])]

/-- The third transaction applies the digest of the first once more, and the second
upgrade is gone. -/
theorem earlier_upgrade_comes_back :
    Run.Meets (upgradeStep sampleCodec codec samplePrimitives sharedRecords) Executed
        ⟨contractNode, []⟩ calls ∧ ¬ ((after calls).digests sampleCodec upgradeEngines).Nodup ∧
      found (after (calls.take 2)) = some (some (contract 6)) ∧
      found (after calls) = some (some (contract 8)) := by
  refine ⟨⟨?_, ?_, ?_, trivial⟩, by decide +kernel, rfl, rfl⟩
  all_goals
    unfold Executed
    decide +kernel

theorem upgradeEngines_tellsEpoch : upgradeEngines.TellsEpoch := by
  intro _ _ _ _ epoch _ _ _ _ epoch' h
  induction epoch generalizing epoch' with
  | zero =>
    cases epoch' with
    | zero => rfl
    | succ epoch' => cases (cons.inj h).1
  | succ epoch ih =>
    cases epoch' with
    | zero => cases (cons.inj h).1
    | succ epoch' => rw [ih epoch' (cons.inj h).2]

/-- Two upgrades that were proposed one epoch after the other. -/
def twoEpochs : List HandledCommit :=
  [commitAt [7] [] 1 (upgradeOf "a" [8]), commitAt [7] [7] 2 (upgradeOf "b" [6, 0])]

theorem twoEpochs_applied_once : found (after twoEpochs) = some (some (contract 6)) ∧
      ((after twoEpochs).digests sampleCodec upgradeEngines).Nodup := by
  refine ⟨rfl, upgrade_applied_once (fun _ _ h => h) upgradeEngines_tellsEpoch
    ⟨fun _ _ params _ entry he => ?_, fun _ _ params hp entry he _ => ?_, trivial⟩⟩
  · cases he
  · have hep : ∀ entry ∈ (upgradeStep sampleCodec codec samplePrimitives sharedRecords
        ⟨contractNode, []⟩ (commitAt [7] [] 1 (upgradeOf "a" [8]))).applied,
        entry.2.proposalEpoch = 0 := by
      decide +kernel
    obtain rfl : (⟨[6], [[1], [2]], 2, 1, [[5]]⟩ : UpgradeParams) = params :=
      Option.some.inj (Eq.trans (by rfl) hp)
    rw [hep entry he]
    decide

end RolledBack

end Pneumatic
