import Pneumatic.Contracts.Engine

/-!
# Who may upgrade a contract

The quorum of `contracts/upgrade.rs`. The owners of a contract sign a digest of the
upgrade, and `verify_quorum` goes through the owners until enough of them have a
signature among those of the payload. The replacement itself is in `Deltas`.
-/

namespace Pneumatic

open List

variable (C : Codec) (M : EngineCodec)

def upgradeDomain : Bytes := asBytes "PNEUMATIC/UPGRADE/v1"

def upgradeGasBase : Nat := 50000
def upgradeGasPerByte : Nat := 10

def upgradeGas (bytecodeLen : Nat) : Nat :=
  upgradeGasBase + upgradeGasPerByte * bytecodeLen

def upgradeDigest (tokenId newBytecode : Bytes) (newOwners : List Bytes)
    (newThreshold proposalEpoch : Nat) : Bytes :=
  C.sha256 (upgradeDomain ++
    M.rmpDigestInput tokenId (C.sha256 newBytecode) newOwners newThreshold proposalEpoch)

def UpgradeParams.digest (params : UpgradeParams) (tokenId : Bytes) : Bytes :=
  upgradeDigest C M tokenId params.newBytecode params.newOwners params.newThreshold
    params.proposalEpoch

/-- One of the signatures is the owner's, over the digest; an error of the crypto
provider counts as no. -/
def ownerSigned (digest : Bytes) (signatures : List Bytes) (owner : Bytes) : Bool :=
  signatures.any fun signature => (C.checkSignature signature owner digest).getD false

/-- The loop over the owners, so many of which have been counted. -/
def countOwners (signed : Bytes → Bool) (threshold : Nat) : List Bytes → Nat → Bool
  | [], _ => false
  | owner :: rest, verified =>
    if signed owner then
      if threshold ≤ verified + 1 then true
      else countOwners signed threshold rest (verified + 1)
    else countOwners signed threshold rest verified

def verifyQuorum (tokenId : Bytes) (params : UpgradeParams) (currentOwners : List Bytes)
    (threshold : Nat) : Bool :=
  if threshold = 0 then false
  else
    countOwners (ownerSigned C (params.digest C M tokenId) params.ownerSignatures)
      threshold currentOwners 0

variable {signed : Bytes → Bool}

theorem countOwners_iff {threshold : Nat} (owners : List Bytes) {verified : Nat}
    (h : verified < threshold) : countOwners signed threshold owners verified = true ↔
      threshold ≤ verified + (owners.filter signed).length := by
  induction owners generalizing verified with
  | nil =>
    rw [countOwners, filter_nil, length_nil]
    constructor
    · intro hf
      cases hf
    · intro hle
      omega
  | cons owner rest ih =>
    rw [countOwners]
    by_cases ho : signed owner = true
    · rw [if_pos ho, filter_cons_of_pos ho, length_cons]
      by_cases hl : threshold ≤ verified + 1
      · rw [if_pos hl]
        exact iff_of_true rfl (by omega)
      · rw [if_neg hl, ih (by omega)]
        omega
    · rw [if_neg ho, filter_cons_of_neg ho, ih h]

variable {C M}

/-- The quorum counts the places of the owner list that signed. -/
theorem verifyQuorum_iff {tokenId : Bytes} {params : UpgradeParams} {owners : List Bytes}
    {threshold : Nat} : verifyQuorum C M tokenId params owners threshold = true ↔
      0 < threshold ∧ threshold ≤ (owners.filter
        (ownerSigned C (params.digest C M tokenId) params.ownerSignatures)).length := by
  unfold verifyQuorum
  by_cases hz : threshold = 0
  · simp [hz]
  · have hpos : 0 < threshold := Nat.pos_of_ne_zero hz
    rw [if_neg hz, countOwners_iff owners hpos, Nat.zero_add]
    simp [hpos]

end Pneumatic
