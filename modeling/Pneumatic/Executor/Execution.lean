import Pneumatic.Contracts.Upgrade
import Pneumatic.Executor.Executor

/-!
# The Executor's execution

`run_execution` of `executor.rs`: the token and the sender are fetched, a deployment or
an upgrade becomes a delta, anything else runs on the engine of the token, and the
result goes on the transaction. The engine sees the transaction without its routing
decision; a panic of the engine is caught.

The timeout of an execution and the messages to the Finalizer are left out. They decide
whether a result is sent, not which one.
-/

namespace Pneumatic

/-- What the Executor reads from the data service in its partition; an error is given by
its text. -/
structure DataReads where
  getToken : Bytes → Except String Token
  getUser : Bytes → Except String User

variable (C : Codec) (K : ContractCodec) (M : EngineCodec)

def validateSnapshotRef (chain : List Block) (ref : SnapshotRef) : Except String Unit :=
  match chain[ref.height]? with
  | none => .error ("snapshot ref height " ++ toString ref.height ++
      " out of range (chain has " ++ toString chain.length ++ " blocks)")
  | some block =>
    if block.currentHash ≠ ref.blockHash then
      .error ("snapshot ref hash mismatch at height " ++ toString ref.height)
    else .ok ()

/-- `ExecutorTargetProvider::resolve`. -/
def resolveTarget (reads : DataReads) : TargetStateProvider :=
  fun targetToken snapshotRef senderKey =>
    match reads.getToken targetToken with
    | .error e => .error (.invalidInput ("target token fetch failed: " ++ e))
    | .ok token =>
      match validateSnapshotRef token.chain snapshotRef with
      | .error e => .error (.invalidInput e)
      | .ok () =>
        match token.getAsset K with
        | none => .error (.invalidInput "target token has no contract asset")
        | some contract =>
          match reads.getUser senderKey with
          | .error e => .error (.invalidInput ("target sender fetch failed: " ++ e))
          | .ok senderState => .ok ⟨token, contract, senderState, snapshotRef⟩

def ExecutorError.ofContract (e : ContractError) : ExecutorError :=
  .validation [e.failureReason]

/-- The input of the engine: the transaction without its routing decision. -/
def executionInput (tx : Transaction) (contract : SmartContract) (token : Token)
    (user : User) : ExecutionInput where
  tx := { tx with selection := none }
  contract := contract
  senderState := user
  token := token
  gasLimit := tx.gasLimit
  storage := contract.storage

def executeContract (registry : ContractEngineRegistry) (reads : DataReads)
    (tx : Transaction) (token : Token) (user : User) :
    Except ExecutorError ExecutionOutput :=
  match token.getAsset K with
  | none => .error (.validation [.contractNotFound])
  | some contract =>
    match selectEngine registry token with
    | .error e => .error (.ofContract e)
    | .ok engine =>
      match engine.executeTop M ⟨resolveTarget K reads, registry⟩
          (executionInput tx contract token user) with
      | none => .error (.validation [.contractExecutionFailed])
      | some (.error e) => .error (.ofContract e)
      | some (.ok output) => .ok output

def deployGasBase : Nat := 50000
def deployGasPerByte : Nat := 10

def deployGas (bytecodeLen : Nat) : Nat := deployGasBase + deployGasPerByte * bytecodeLen

def executeDeploy (tx : Transaction) : Except ExecutorError ExecutionOutput :=
  match K.decodeDeployParams tx.payload with
  | none => .error (.validation [.contractDeployFailed])
  | some params =>
    let gas := deployGas params.bytecode.length
    if 0 < tx.gasLimit ∧ tx.gasLimit < gas then .error (.validation [.gasLimitExceeded])
    else
      match deployContract C K tx.sender tx.sequenceNumber params with
      | .error e => .error (.ofContract e)
      | .ok delta => .ok ⟨K.rmpCreateTokenDelta delta, gas⟩

/-- The delta of an upgrade, made from its payload. -/
def UpgradeParams.delta (params : UpgradeParams) (tokenId : Bytes) : ReplaceAssetDelta where
  tokenId := tokenId
  newBytecode := params.newBytecode
  newOwners := params.newOwners
  newThreshold := params.newThreshold
  proposalEpoch := params.proposalEpoch

def executeUpgrade (tx : Transaction) (token : Token) : Except ExecutorError ExecutionOutput :=
  match K.decodeUpgradeParams tx.payload with
  | none => .error (.validation [.contractUpgradeFailed])
  | some params =>
    let gas := upgradeGas params.newBytecode.length
    if 0 < tx.gasLimit ∧ tx.gasLimit < gas then .error (.validation [.gasLimitExceeded])
    else
      match token.getAsset K with
      | none => .error (.validation [.contractUpgradeFailed])
      | some current =>
        if current.threshold = 0 then .error (.validation [.contractUpgradeFailed])
        else if verifyQuorum C M tx.tokenId params current.owners current.threshold = false then
          .error (.validation [.contractUpgradeFailed])
        else .ok ⟨K.rmpReplaceAssetDelta (params.delta tx.tokenId), gas⟩

structure ExecutionResult where
  transactionId : String
  resultData : Bytes
  resultHash : Bytes
  gasUsed : Nat
deriving DecidableEq

/-- Steps 3 to 5. -/
def execute (registry : ContractEngineRegistry) (reads : DataReads) (tx : Transaction) :
    Except ExecutorError ExecutionOutput :=
  if tx.action = "DeployContract" then executeDeploy C K tx
  else
    match reads.getToken tx.tokenId with
    | .error e => .error (.data e)
    | .ok token =>
      match reads.getUser tx.sender with
      | .error e => .error (.data e)
      | .ok user =>
        if tx.action = "UpgradeContract" then executeUpgrade C K M tx token
        else executeContract K M registry reads tx token user

/-- The reasons against a result. -/
def executionFaults (tx : Transaction) (result : ExecutionResult) : List ValidationFailureReason :=
  (if result.resultData.isEmpty then [.contractExecutionFailed] else []) ++
  (if result.resultHash.isEmpty then [.missingResultHash] else []) ++
  (if 0 < tx.gasLimit ∧ tx.gasLimit < result.gasUsed then [.gasLimitExceeded] else []) ++
  match M.decodeTransferDelta result.resultData with
  | none => []
  | some delta =>
    if delta.amount ≠ tx.amount.getD 0 ∨ delta.sender ≠ tx.sender ∨
        delta.receiver ≠ tx.receiver ∨ delta.tokenId ≠ tx.tokenId then [.invalidAmount]
    else []

def validateExecutionResult (tx : Transaction) (result : ExecutionResult) :
    Except (List ValidationFailureReason) Unit :=
  if (executionFaults M tx result).isEmpty then .ok ()
  else .error (executionFaults M tx result)

/-- `run_execution`, steps 3 to 8: the transaction with its result. -/
def runExecution (registry : ContractEngineRegistry) (reads : DataReads)
    (tx : Transaction) : Except ExecutorError (Transaction × ExecutionResult) :=
  match execute C K M registry reads tx with
  | .error e => .error e
  | .ok output =>
    let result : ExecutionResult :=
      ⟨tx.id, output.resultData, C.sha256 output.resultData, output.gasUsed⟩
    match validateExecutionResult M tx result with
    | .error reasons => .error (.validation reasons)
    | .ok () => .ok ({ tx with resultData := output.resultData }, result)

end Pneumatic
