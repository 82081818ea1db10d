import Mathlib.Data.Rat.Defs
import Pneumatic.Core.Bytes

/-!
# Errors, validation results and the risk factor

`ValidationFailureReason`, `PneumaticError` and `TransactionRiskFactor` of
`errors.rs`. Where the source builds an error text, the constructor carries
what the text is built from, so that two refusals differ here exactly where
their texts do. A risk score is an `f32` in the source and a rational here. The
only factor a modelled function scores is the fixed one of a shielded transfer,
and for that one no step of the weighted sum rounds: halving is exact, and the
two equal halves add up to the weight itself.
-/

namespace Pneumatic

inductive ValidationFailureReason where
  | senderMissing
  | insufficientFunds
  | invalidNonce
  | insufficientGasBalance
  | insufficientGas
  | insufficientStake
  | invalidSignature
  | contractNotFound
  | invalidAmount
  | invalidTimestamp
  | invalidBidPercentage
  | gasLimitExceeded
  | riskExceedsThreshold
  | notTokenOwner
  | unsupportedAction
  | notSelfVerified
  | tokenNotFound
  | missingResultHash
  | missingExecutorSignatures
  | missingFinalizerSignature
  | staleEpochBlock
  | blockConflict
  | invalidCommitment
  | staleNullifier
  | staleMerkleRoot
  | invalidShieldedProof
  | notShieldedOptIn
  | contractDeployFailed
  | contractExecutionFailed
  | contractUpgradeFailed
  | contractScanFailed
deriving DecidableEq

/-- `tokens::BlockValidationError`, the variants `validate_block` returns. -/
inductive BlockValidationError where
  | chainLinkage
  | noValidatorRegistered
  | invalidBlock (reasons : List ValidationFailureReason)
deriving DecidableEq

inductive NodeRegistryType where
  | committer
  | sentinel
  | executor
  | finalizer
  | archiver
deriving DecidableEq

/-- What a `CryptoError` reports. `providerFailed` tells a provider that gave
no answer from one that answered no. -/
inductive CryptoFault where
  | envelope (key : Bytes) (providerFailed : Bool)
  | executorSignature (key : Bytes) (providerFailed : Bool)
  | attestation
  | blockSigning
deriving DecidableEq

/-- What a `Registry` error reports. -/
inductive RegistryFault where
  | notFound (txId : String)
  | alreadyExists (txId : String)
  | terminal (txId : String)
  | notValidated (txId : String)
  | notExecutable (txId : String)
  | duplicateSignature (executorKey : Bytes) (txId : String)
  | duplicateNonce (tokenId sender : Bytes) (sequenceNumber : Nat)
  | unregistered (key : Bytes)
  | notExecutor (key : Bytes) (roles : List NodeRegistryType)
  | notFinalizer (key : Bytes) (roles : List NodeRegistryType)
deriving DecidableEq

/-- What a `Routing` error reports. -/
inductive RoutingFault where
  | noDecision (txId : String)
  | unverified (txId : String) (sentinelKey : Bytes)
  | notSentinel (txId : String) (sentinelKey : Bytes) (roles : List NodeRegistryType)
  | assignedElsewhere (txId : String) (finalizerKey ownKey : Bytes)
  | decisionMismatch (txId : String)
      (finalizerKey sentinelKey heldFinalizerKey heldSentinelKey : Bytes)
deriving DecidableEq

/-- `PneumaticError`, the variants the modelled functions return. -/
inductive PneumaticError where
  | cryptoError (fault : CryptoFault)
  | encoding
  | network
  | validation (reasons : List ValidationFailureReason)
  | registry (fault : RegistryFault)
  | routing (fault : RoutingFault)
  | data
deriving DecidableEq

structure TransactionRiskFactor where
  affectedParties : Nat
  amount : Nat
  isContract : Bool
  isMultiParty : Bool
deriving DecidableEq

namespace TransactionRiskFactor

/-- The `f32` nearest to `0.4`. -/
def weightAmount : ℚ := 13421773 / 33554432

/-- The `f32` nearest to `0.3`. -/
def weightParty : ℚ := 10066330 / 33554432

def amountRisk (risk : TransactionRiskFactor) : ℚ :=
  if risk.amount > 1000000000 then 1
  else if risk.amount > 1000000 then 1 / 2
  else 0

def partyRisk (risk : TransactionRiskFactor) : ℚ :=
  if risk.affectedParties ≤ 1 then 0
  else if risk.affectedParties = 2 then 1 / 2
  else 1

def score (risk : TransactionRiskFactor) : ℚ :=
  let complexityRisk := if risk.isContract || risk.isMultiParty then 1 else 1 / 2
  risk.amountRisk * weightAmount + risk.partyRisk * weightParty + complexityRisk * weightParty

end TransactionRiskFactor

structure TransactionValidationResult where
  isValid : Bool
  risk : TransactionRiskFactor
  failureReasons : List ValidationFailureReason
  finalizerPublicKey : Bytes
deriving DecidableEq

def TransactionValidationResult.valid (finalizerKey : Bytes)
    (risk : TransactionRiskFactor) : TransactionValidationResult where
  isValid := true
  risk := risk
  failureReasons := []
  finalizerPublicKey := finalizerKey

end Pneumatic
