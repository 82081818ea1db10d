import Pneumatic.Committer.Epoching
import Pneumatic.Committer.Quoruming
import Pneumatic.Core.Registry
import Pneumatic.Sentinel.Registering
import Pneumatic.Shielded.RoleView

/-!
# The Sentinel's state

What a `Sentinel` holds and what it asks. The pending registry and the node
buckets are shared with the other roles of its host; the epoch and the two
snapshot caches are its own. What the surroundings answer while one message is
handled is a `SentinelWorld`.

The two selections draw from a seeded generator outside of the repository, so
the drawing itself is part of the configuration; who may be drawn is computed
here.
-/

namespace Pneumatic

open Handler HandlerM

/-- `Token` with the flag that sends it past the Executor and the Finalizer. -/
structure FlaggedToken extends Token where
  isSelfVerified : Bool

def FlaggedToken.isShieldedOptIn (token : FlaggedToken) : Bool :=
  token.metadata.lookup "shielded_opt_in" == some "true"

/-- A registered validation spec. -/
abbrev TransactionSpec :=
  Transaction → FlaggedToken → Except PneumaticError TransactionValidationResult

/-- The fixed data of a Sentinel. A multiplier of the cost model is in
ten-thousandths, as `multiplier_to_fixed` has it. `select` and `selectShard` are
`deterministic_select` in the Finalizers' domain and `deterministic_select_shard`. -/
structure SentinelConfig where
  node : NodeConfig
  env : EnvironmentMetadata
  specs : String → Option TransactionSpec
  baseCost : Nat
  amountMultiplier : String → Option Nat
  shardCount : Nat
  select : StakeSet → Bytes → Nat → Bytes → Option Bytes
  selectShard : StakeSet → Nat → String → Nat → Bytes → Option (List Bytes)

/-- What the surroundings answer while one message is handled. -/
structure SentinelWorld where
  node : NodeWorld
  getToken : Bytes → Option FlaggedToken
  getStakeSnapshot : Nat → Option StakeSet
  getExecutorSet : Nat → Option StakeSet
  signData : Bytes → Option Bytes
  poolView : ShieldedPoolView
  finalizerReached : Bytes → Bool
  executorReached : Bytes → Bool

/-- How the bodies a Sentinel receives are read. -/
structure SentinelCodec where
  decodeMessage : Bytes → Option WireMessage
  decodeTxId : Bytes → Option String
  decodeRegistryRequest : Bytes → Option NodeRegistryRequest
  decodeShielded : Bytes → Option ShieldedTransaction

structure SentinelState where
  registry : PendingTransactionRegistry
  nodes : NodeBuckets
  currentEpoch : Nat
  stakeSnapshots : Finmap (fun _ : Nat => StakeSet)
  executorSets : Finmap (fun _ : Nat => StakeSet)

/-- `Sentinel::new`, with the registry and the buckets of its host. -/
def SentinelState.new (registry : PendingTransactionRegistry) (nodes : NodeBuckets) :
    SentinelState where
  registry := registry
  nodes := nodes
  currentEpoch := 0
  stakeSnapshots := ∅
  executorSets := ∅

abbrev SentinelM := HandlerM SentinelState SentinelError

def onRegistry {α : Type} (rename : RegistryFault → SentinelError)
    (m : RegistryM α) : SentinelM α :=
  zoom SentinelState.registry (fun s registry => { s with registry := registry }) rename m

/-- The end of a stage, the answer ignored. -/
def releaseQuietly (txId : String) : SentinelM Unit := do
  let _ ← attempt (onRegistry (fun fault => .registry (.core fault)) (releaseTransaction txId))
  pure ()

variable (C : Codec) (cfg : SentinelConfig) (world : SentinelWorld)

section

variable (s : SentinelState) (txId : String) (epochNumber : Nat)

def validateTransaction (tx : Transaction) : Except PneumaticError Unit :=
  match world.getToken tx.tokenId with
  | none => .error (.validation [.tokenNotFound])
  | some token =>
    let spec :=
      if token.isSelfVerified then cfg.specs "SelfSigned"
      else if tx.action.isEmpty then none
      else (cfg.specs tx.action).or (cfg.specs "Executed")
    match spec with
    | none => .error (.validation [.unsupportedAction])
    | some validate =>
      match validate tx token with
      | .error e => .error e
      | .ok result =>
        if result.isValid then .ok () else .error (.validation result.failureReasons)

def gasScale : Nat := 10000

/-- `CostModel::compute_gas` on a multiplier in ten-thousandths. -/
def computeGas (baseCost amount multiplier : Nat) : Nat :=
  saturatingAdd baseCost (min (amount * multiplier) u64Max / gasScale)

def computeGasUsed (tx : Transaction) : Nat :=
  computeGas cfg.baseCost (tx.amount.getD 0) ((cfg.amountMultiplier tx.action).getD gasScale)

/-- The product saturates before it is divided, so the gas is the clamped sum exactly
while the quotient is one that a saturated product can have, or the base cost alone
fills the rest. -/
theorem computeGas_exact_iff (baseCost multiplier : Nat) :
    (∀ amount, computeGas baseCost amount multiplier =
        min u64Max (baseCost + amount * multiplier / gasScale) ↔
      amount * multiplier / gasScale ≤ u64Max / gasScale ∨
        u64Max ≤ baseCost + u64Max / gasScale) ∧
    Monotone fun amount => computeGas baseCost amount multiplier := by
  refine ⟨fun amount => ?_, fun a b hab => ?_⟩
  · simp only [computeGas, saturatingAdd, u64Max, gasScale]
    generalize amount * multiplier = product
    omega
  · have hp : a * multiplier ≤ b * multiplier := Nat.mul_le_mul_right _ hab
    simp only [computeGas, saturatingAdd, u64Max, gasScale]
    omega

/-- Twice 2^63 is charged as less than 2^51. -/
theorem large_amount_undercharged : computeGas 0 (2 ^ 63) 20000 = 1844674407370955 ∧
    min u64Max (0 + 2 ^ 63 * 20000 / gasScale) = u64Max := by
  decide

def calculateRisk (tx : Transaction) : TransactionRiskFactor where
  affectedParties := if tx.receiver.isEmpty then 1 else 2
  amount := tx.amount.getD 0
  isContract := decide (1 < (tx.action.splitOn "Contract").length)
  isMultiParty := false

/-- `EpochSnapshotCache::get` of the stake cache: what it answers. -/
def SentinelState.stakeSnapshot : Option StakeSet :=
  (s.stakeSnapshots.lookup epochNumber).or (world.getStakeSnapshot epochNumber)

/-- `EpochSnapshotCache::get` of the executor cache: what it answers. -/
def SentinelState.executorSet : Option StakeSet :=
  (s.executorSets.lookup epochNumber).or (world.getExecutorSet epochNumber)

/-- A cache after `EpochSnapshotCache::get`. -/
def remember (answer : Option StakeSet)
    (cache : Finmap (fun _ : Nat => StakeSet)) : Finmap (fun _ : Nat => StakeSet) :=
  match answer with
  | none => cache
  | some snapshot => cache.insert epochNumber snapshot

def stakedFinalizers (nodes : NodeBuckets) (snapshot : StakeSet) : StakeSet :=
  snapshot.filter fun key stake =>
    decide (0 < stake) && (decide (key ∈ nodes .finalizer) ||
      (world.node.selfRoles.contains .finalizer && key == cfg.node.publicKey))

/-- `Sentinel::assign_finalizer_deterministic`: the answer in a state. -/
def assignFinalizerDeterministic (chainTip : Bytes) : Except SentinelError Bytes :=
  match s.stakeSnapshot world epochNumber with
  | none => .error (.routing (.noSnapshot epochNumber))
  | some snapshot =>
    if snapshot.totalStake = 0 then .error (.routing .emptyStakeSet)
    else
      let candidates := stakedFinalizers cfg world s.nodes snapshot
      if candidates.totalStake = 0 then
        .error (.routing (.noStakedFinalizer epochNumber snapshot.keys.card
          (s.nodes .finalizer).keys.card txId))
      else
        match cfg.select candidates (asBytes txId) epochNumber chainTip with
        | none => .error (.routing .selectedNone)
        | some key =>
          if snapshot.getStake key = 0 then .error (.routing .zeroStake)
          else .ok key

def assignFinalizerDeterministicRetry (rejectedKey chainTip : Bytes) : Except SentinelError Bytes :=
  match assignFinalizerDeterministic cfg world s txId epochNumber chainTip with
  | .error e => .error e
  | .ok key =>
    if key = rejectedKey then
      assignFinalizerDeterministic cfg world s (txId ++ "_retry") epochNumber chainTip
    else .ok key

end

/-- The stake cache after a selection. -/
def rememberStakes (epochNumber : Nat) : SentinelM Unit :=
  update fun s => { s with
    stakeSnapshots := remember epochNumber (s.stakeSnapshot world epochNumber)
      s.stakeSnapshots }

def chainTipOf (token : FlaggedToken) : Bytes := lastHashIn C token.chain

def selectionTip (tokenId : Bytes) : Except SentinelError Bytes :=
  match world.getToken tokenId with
  | none => .error (.registry .unreadableSaltToken)
  | some token => .ok (chainTipOf C token)

def attestSelection (txId : String) (finalizerKey : Bytes) (epochNumber : Nat)
    (salt : Bytes) : Except SentinelError SelectionRecord :=
  let record : SelectionRecord :=
    { finalizerPublicKey := finalizerKey
      epochNumber := epochNumber
      salt := salt
      sentinelPublicKey := cfg.node.publicKey
      attestation := [] }
  match world.signData (record.attestationSurface C txId finalizerDomain) with
  | none => .error .data
  | some attestation => .ok { record with attestation := attestation }

end Pneumatic
