import Pneumatic.Committer.Quoruming
import Pneumatic.Contracts.Deltas
import Pneumatic.DataService.Entities

/-!
# Contract engines and the calls between contracts

`contracts.rs`, `contracts/call.rs` and `contracts/wasm.rs`. An engine runs the code of
one contract on one `ExecutionInput`: `Transfer` moves an amount, `Spec` interprets a
list of instructions and `Wasm` runs a guest that talks to the host through the `env`
imports. `Spec` and `Wasm` code may call a contract of another token, whose state is
resolved at a pinned block and which runs in a frame of its own, under what is left of
the caller's gas; the frames nest at most `MAX_CALL_DEPTH` deep.

The interpreter of Wasm code is outside of the repository. A guest is what it looks like
from the host: a tree of the fuel it burns and the imports it calls, which ends with a
result, an error or a panic of the host. An infinite loop burns fuel all the time, and
the fuel is a `u64`, so no path is longer than that.
-/

namespace Pneumatic

/-! ## Errors -/

namespace ContractError

def failureReason : ContractError → ValidationFailureReason
  | unknownEngine _ => .contractNotFound
  | gasExhausted => .gasLimitExceeded
  | badBytecode _ => .contractExecutionFailed
  | reverted _ => .contractExecutionFailed
  | engineNotImplemented _ => .contractExecutionFailed
  | invalidInput _ => .contractExecutionFailed

/-- `Display`. -/
def text : ContractError → String
  | unknownEngine name => "unknown contract engine \"" ++ name ++ "\""
  | gasExhausted => "gas exhausted"
  | badBytecode message => "bad bytecode: " ++ message
  | reverted message => "contract reverted: " ++ message
  | engineNotImplemented name => "engine \"" ++ name ++ "\" not implemented yet"
  | invalidInput message => "invalid execution input: " ++ message

end ContractError

/-! ## Input and output -/

abbrev ContractStorage := Finmap (fun _ : Bytes => Bytes)

structure ExecutionInput where
  tx : Transaction
  contract : SmartContract
  senderState : User
  token : Token
  gasLimit : Nat
  storage : ContractStorage

/-- `ExecutionInputCanon`: what the canonical bytes are written from. The token's
metadata are written in the order of their keys, that is, as a map. -/
structure ExecutionInputCanon where
  tx : Transaction
  contractName : String
  contractBytecode : Bytes
  contractVersion : String
  senderPublicKey : Bytes
  senderFuelBalance : Nat
  senderStake : Nat
  senderNonce : Nat
  tokenId : Bytes
  tokenMetadata : Finmap (fun _ : String => String)
  gasLimit : Nat
deriving DecidableEq

def ExecutionInput.canon (input : ExecutionInput) : ExecutionInputCanon where
  tx := input.tx
  contractName := input.contract.name
  contractBytecode := input.contract.bytecode
  contractVersion := input.contract.version
  senderPublicKey := input.senderState.publicKey
  senderFuelBalance := input.senderState.fuelBalance
  senderStake := input.senderState.stake
  senderNonce := input.senderState.nonce
  tokenId := input.token.id
  tokenMetadata := input.token.metadata
  gasLimit := input.gasLimit

structure ExecutionOutput where
  resultData : Bytes
  gasUsed : Nat
deriving DecidableEq

structure TransferDelta where
  tokenId : Bytes
  sender : Bytes
  receiver : Bytes
  amount : Nat
  sequenceNumber : Nat
deriving DecidableEq

/-! ## Storage deltas -/

/-- A `StorageDelta` while it is recorded. -/
abbrev StorageDelta := Finmap (fun _ : Bytes => Option Bytes)

/-- The keys of a `BTreeMap`, in their order. -/
def StorageDelta.orderedKeys (delta : StorageDelta) : List Bytes :=
  Quot.liftOn delta.keys.val (fun keys => keys.insertionSort (· ≤ ·))
    fun _ _ hperm => insertionSort_eq_of_perm hperm

def StorageDelta.entriesInOrder (delta : StorageDelta) : List (Bytes × Option Bytes) :=
  delta.orderedKeys.map fun key => (key, (delta.lookup key).getD none)

def ContractStorage.size (storage : ContractStorage) : Nat :=
  ∑ key ∈ storage.keys, (key.length + ((storage.lookup key).getD []).length)

/-- `WasmResult::post_apply_size`; `apply_delta_to` is `applyStorage`. -/
def WasmResult.postApplySize (result : WasmResult) (base : ContractStorage) : Nat :=
  ContractStorage.size (applyStorage base result.storageDelta)

/-! ## Programs -/

structure SnapshotRef where
  height : Nat
  blockHash : Bytes
deriving DecidableEq

inductive Op where
  | loadTx (field : String)
  | loadConst (n : Nat)
  | add
  | sub
  | mul
  | mod
  | cmp
  | select
  | emit
  | halt
  | call (targetToken : Bytes) (entryPoint : String) (callPayload : Bytes)
      (snapshotRef : SnapshotRef)
deriving DecidableEq

structure InstructionProgram where
  version : Nat
  ops : List Op
deriving DecidableEq

/-- The arguments of `env.call`. An entry point that is not UTF-8 is `none`; the height
is an `i32`, the room in the guest's buffer what the host casts it to. -/
structure GuestCall where
  targetToken : Bytes
  entryPoint : Option String
  callPayload : Bytes
  refHeight : Int
  refHash : Bytes
  outCap : Nat

/-- A guest. `fail` is an end with an error, a trap for one; `panicked` a memory access
of the host outside of the guest's memory. -/
inductive Guest where
  | burn (cost : Nat) (next : Guest)
  | txAmount (next : Int → Guest)
  | txSequence (next : Int → Guest)
  | senderFuel (next : Int → Guest)
  | txPayload (next : Bytes → Guest)
  | revert
  | sload (key : Bytes) (next : Bytes → Guest)
  | sstore (key value : Bytes) (next : Guest)
  | sdelete (key : Bytes) (next : Guest)
  | call (request : GuestCall) (next : Bytes → Guest)
  | finish (outLen : Int) (output : Bytes) (memoryBytes : Nat)
  | fail (error : ContractError)
  | panicked

inductive ValType where
  | i32
  | i64
  | f32
  | f64
  | reference
deriving DecidableEq

inductive ExternType where
  | func (params results : List ValType)
  | global (content : ValType)
  | memory
  | table

/-- An instance: entering its first function costs fuel. -/
structure WasmInstance where
  entryCost : Nat
  entryCost_pos : 0 < entryCost
  entryCost_le : entryCost ≤ u64Max
  program : Bytes → Guest

/-- A compiled module. `instantiate` gives an error if it fails before the module's
first instruction. -/
structure WasmModule where
  exports : List (String × ExternType)
  imports : List (String × String)
  instantiate : Except ContractError WasmInstance

/-- The encodings of the engines and of the upgrade digest, and the interpreter of
Wasm. -/
structure EngineCodec where
  rmpExecutionInput : ExecutionInputCanon → Bytes
  rmpTransferDelta : TransferDelta → Bytes
  rmpWasmResult : WasmResult → Bytes
  rmpDigestInput : Bytes → Bytes → List Bytes → Nat → Nat → Bytes
  decodeTransferDelta : Bytes → Option TransferDelta
  decodeProgram : Bytes → Except String InstructionProgram
  compileModule : Bytes → Except String WasmModule

variable (M : EngineCodec)

def ExecutionInput.canonicalBytes (input : ExecutionInput) : Bytes :=
  M.rmpExecutionInput input.canon

/-! ## Frames -/

/-- What a frame gives, `none` if the host panicked in it. -/
abbrev EngineFrame := Option (Except ContractError ExecutionOutput)

inductive CallFailure where
  | depthExceeded
  | targetUnresolvable (text : String)
  | unknownEngine (text : String)
  | bReverted (text : String)
  | bGasExhausted
  | bBadBytecode (text : String)
  | bInvalidInput (text : String)
  | bEngineNotImplemented (text : String)
deriving DecidableEq

inductive CallOutcome where
  | success (resultData : Bytes) (gasUsed : Nat)
  | failure (reason : CallFailure) (gasUsed : Nat)
deriving DecidableEq

namespace CallOutcome

def bGasUsed : CallOutcome → Nat
  | success _ gasUsed => gasUsed
  | failure _ gasUsed => gasUsed

def isSuccess : CallOutcome → Bool
  | success _ _ => true
  | failure _ _ => false

end CallOutcome

structure CallRequest where
  callerTx : Transaction
  targetToken : Bytes
  entryPoint : String
  callPayload : Bytes
  snapshotRef : SnapshotRef
  subBudget : Nat

/-- What the code of a frame calls other contracts with, `none` without a call
context. -/
abbrev Caller := Option (CallRequest → Option CallOutcome)

/-! ## The Transfer engine -/

def transferBaseCost : Nat := 21000

def transferExecute (input : ExecutionInput) : Except ContractError ExecutionOutput :=
  if 0 < input.gasLimit ∧ input.gasLimit < transferBaseCost then .error .gasExhausted
  else
    match input.tx.amount with
    | none => .error (.invalidInput "transfer requires an amount")
    | some 0 => .error (.invalidInput "transfer amount must be non-zero")
    | some amount => .ok
      { resultData := M.rmpTransferDelta
          { tokenId := input.tx.tokenId
            sender := input.tx.sender
            receiver := input.tx.receiver
            amount := amount
            sequenceNumber := input.tx.sequenceNumber }
        gasUsed := transferBaseCost }

/-! ## The Spec engine -/

def xcallCallBaseSpec : Nat := 10

/-- First eight bytes, read as a big-endian number. -/
def bytesToU64 (bytes : Bytes) : Nat := LittleEndian.leNat (bytes.take 8).reverse

def loadTxField (input : ExecutionInput) (field : String) : Except ContractError Nat :=
  match field with
  | "amount" =>
    match input.tx.amount with
    | none => .error (.reverted "load_tx: amount is not set")
    | some amount => .ok amount
  | "sequence_number" => .ok input.tx.sequenceNumber
  | "gas_limit" => .ok input.gasLimit
  | "sender" => .ok (bytesToU64 input.tx.sender)
  | "receiver" => .ok (bytesToU64 input.tx.receiver)
  | "token_id" => .ok (bytesToU64 input.tx.tokenId)
  | "payload" => .ok (bytesToU64 input.tx.payload)
  | other => .error (.reverted ("load_tx: undeclared field \"" ++ other ++ "\""))

structure SpecState where
  stack : List Nat
  resultData : Bytes
  gasUsed : Nat

namespace SpecState

variable (s : SpecState)

def popOne (op : String) : Except ContractError (Nat × List Nat) :=
  match s.stack with
  | [] => .error (.reverted ("\"" ++ op ++ "\": stack underflow"))
  | a :: stack => .ok (a, stack)

/-- The former top and the value beneath it. -/
def popTwo (op : String) : Except ContractError (Nat × Nat × List Nat) := do
  let (a, stack) ← s.popOne op
  let (b, stack) ← { s with stack := stack }.popOne op
  pure (a, b, stack)

/-- A value that has to be a `u64`. -/
def checked (n : Nat) (message : String) : Except ContractError Nat :=
  if n ≤ u64Max then .ok n else .error (.reverted message)

/-- The instructions that neither halt nor call. -/
def apply (input : ExecutionInput) (s : SpecState) : Op → Except ContractError SpecState
  | .loadTx field => do
    let value ← loadTxField input field
    pure { s with stack := value :: s.stack }
  | .loadConst n => pure { s with stack := n :: s.stack }
  | .add => do
    let (a, b, stack) ← s.popTwo "add"
    let sum ← checked (b + a) "addition overflow"
    pure { s with stack := sum :: stack }
  | .sub => do
    let (a, b, stack) ← s.popTwo "sub"
    if b < a then .error (.reverted "subtraction underflow")
    else pure { s with stack := (b - a) :: stack }
  | .mul => do
    let (a, b, stack) ← s.popTwo "mul"
    let product ← checked (b * a) "multiplication overflow"
    pure { s with stack := product :: stack }
  | .mod => do
    let (a, b, stack) ← s.popTwo "mod"
    if a = 0 then .error (.reverted "modulo by zero")
    else pure { s with stack := (b % a) :: stack }
  | .cmp => do
    let (a, b, stack) ← s.popTwo "cmp"
    pure { s with stack := (if b > a then 1 else if b = a then 2 else 3) :: stack }
  | .select => do
    let (cond, stack) ← s.popOne "select"
    let (b, stack) ← { s with stack := stack }.popOne "select"
    let (a, stack) ← { s with stack := stack }.popOne "select"
    pure { s with stack := (if cond ≠ 0 then a else b) :: stack }
  | .emit => do
    let (value, stack) ← s.popOne "emit"
    pure { s with stack := stack, resultData := LittleEndian.leBytes 8 value }
  | .halt => pure s
  | .call .. => pure s

def output : ExecutionOutput := ⟨s.resultData, s.gasUsed⟩

end SpecState

/-- The sum that a call charges; the inner addition is a plain one. -/
def chargeCall (gas base bGasUsed : Nat) : Nat :=
  saturatingAdd gas ((base + bGasUsed) % 2 ^ 64)

/-- The loop over the instructions. -/
def specRun (call : Caller) (input : ExecutionInput) : List Op → SpecState → EngineFrame
  | [], s => some (.ok s.output)
  | op :: rest, s =>
    if 0 < input.gasLimit ∧ input.gasLimit ≤ s.gasUsed then some (.error .gasExhausted)
    else
      let s := { s with gasUsed := (s.gasUsed + 1) % 2 ^ 64 }
      match op with
      | .halt => some (.ok s.output)
      | .call targetToken entryPoint callPayload snapshotRef =>
        match call with
        | none => some (.error (.reverted "call: no call context"))
        | some call =>
          let remaining :=
            if 0 < input.gasLimit then input.gasLimit - s.gasUsed else u64Max
          let request : CallRequest :=
            { callerTx := input.tx
              targetToken := targetToken
              entryPoint := entryPoint
              callPayload := callPayload
              snapshotRef := snapshotRef
              subBudget := remaining - xcallCallBaseSpec }
          match call request with
          | none => none
          | some outcome =>
            let gasUsed := chargeCall s.gasUsed xcallCallBaseSpec outcome.bGasUsed
            if 0 < input.gasLimit ∧ input.gasLimit < gasUsed then
              some (.error .gasExhausted)
            else
              specRun call input rest
                { s with
                  gasUsed := gasUsed
                  stack := outcome.isSuccess.toNat :: s.stack }
      | op =>
        match s.apply input op with
        | .error e => some (.error e)
        | .ok s => specRun call input rest s

/-- `SpecEngine::execute`. -/
def specExecute (call : Caller) (input : ExecutionInput) : EngineFrame :=
  match M.decodeProgram input.contract.bytecode with
  | .error e => some (.error (.badBytecode ("undecodable AST: " ++ e)))
  | .ok program =>
    if program.version ≠ 1 then
      some (.error (.badBytecode ("unsupported program version " ++ toString program.version)))
    else specRun call input program.ops ⟨[], [], 0⟩

/-! ## The Wasm engine -/

def wasmMaxModuleBytes : Nat := 1024 * 1024
def wasmMaxMemoryBytes : Nat := 512 * 64 * 1024
def wasmOutputCap : Nat := 16 * 1024
def wasmSloadGas : Nat := 100
def wasmSstoreNewGas : Nat := 20000
def wasmSstoreRewriteGas : Nat := 5000
def wasmSdeleteGas : Nat := 5000
def wasmStorageCap : Nat := 1024 * 1024
def xcallCallBaseWasm : Nat := 100

def allowedEnvImports : List String :=
  ["tx_amount", "tx_sequence", "sender_fuel", "tx_payload_len", "tx_payload", "revert",
    "sload", "sstore", "sdelete", "call"]

def ExternType.hasFloat : ExternType → Bool
  | func params results => (params ++ results).any fun t => t == .f32 || t == .f64
  | global content => content == .f32 || content == .f64
  | memory => false
  | table => false

/-- `WasmEngine::validate_abi`: the error, if there is one. -/
def WasmModule.validateAbi (module : WasmModule) : Option ContractError :=
  match module.exports.find? fun entry => entry.2.hasFloat with
  | some (name, _) =>
    some (.badBytecode ("export \"" ++ name ++ "\" uses f32/f64 (integer-only ABI)"))
  | none =>
    if !(module.exports.map Prod.fst).contains "__alloc" then
      some (.badBytecode "missing __alloc export")
    else if !(module.exports.map Prod.fst).contains "execute" then
      some (.badBytecode "missing execute export")
    else
      match module.imports.find? fun entry =>
        entry.1 != "env" || !allowedEnvImports.contains entry.2 with
      | none => none
      | some (namespace', name) =>
        if namespace' ≠ "env" then
          some (.badBytecode ("disallowed import namespace \"" ++ namespace' ++
            "\" (only \"env\" is permitted)"))
        else some (.badBytecode ("disallowed import \"env." ++ name ++ "\""))

def validateWasmModule (bytecode : Bytes) : Except ContractError WasmModule :=
  if wasmMaxModuleBytes < bytecode.length then
    .error (.badBytecode ("module size " ++ toString bytecode.length ++
      " bytes exceeds " ++ toString wasmMaxModuleBytes ++ " byte cap"))
  else
    match M.compileModule bytecode with
    | .error e => .error (.badBytecode ("invalid module: " ++ e))
    | .ok module =>
      match module.validateAbi with
      | some e => .error e
      | none => .ok module

/-- `as i64`. -/
def asI64 (n : Nat) : Int := (BitVec.ofNat 64 n).toInt

/-- What `env.call` leaves in the guest's buffer: nothing on any failure. -/
def CallOutcome.answer (outcome : CallOutcome) (outCap : Nat) : Bytes :=
  match outcome with
  | .failure _ _ => []
  | .success resultData _ => if outCap < resultData.length then [] else resultData

/-- `WasmEnv` and the fuel in the store, as far as a guest changes them. -/
structure WasmEnv where
  fuel : Nat
  storageDelta : StorageDelta
  storageGas : Nat
  callGas : Nat

namespace WasmEnv

variable (h : WasmEnv) (input : ExecutionInput)

def start (budget : Nat) : WasmEnv := ⟨budget, ∅, 0, 0⟩

/-- The value `env.sload` answers: what this guest wrote comes first. -/
def load (key : Bytes) : Bytes :=
  match h.storageDelta.lookup key with
  | some (some value) => value
  | some none => []
  | none => (input.storage.lookup key).getD []

def chargeStorage (gas : Nat) : WasmEnv :=
  { h with storageGas := saturatingAdd h.storageGas gas }

def record (key : Bytes) (value : Option Bytes) : WasmEnv :=
  { h with storageDelta := h.storageDelta.insert key value }

/-- The price of an `env.sstore`: a key that is neither stored nor recorded is new. -/
def sstoreGas (key : Bytes) : Nat :=
  if input.storage.lookup key = none ∧ h.storageDelta.lookup key = none then
    wasmSstoreNewGas
  else wasmSstoreRewriteGas

/-- The call that goes out, if the arguments and the context allow one. -/
def request (arguments : GuestCall) : Option CallRequest :=
  match arguments.entryPoint with
  | none => none
  | some entryPoint =>
    if arguments.refHeight < 0 then none
    else some
      { callerTx := input.tx
        targetToken := arguments.targetToken
        entryPoint := entryPoint
        callPayload := arguments.callPayload
        snapshotRef := ⟨arguments.refHeight.toNat, arguments.refHash⟩
        subBudget := h.fuel - xcallCallBaseWasm }

def charged (outcome : CallOutcome) : WasmEnv :=
  { h with callGas := chargeCall h.callGas xcallCallBaseWasm outcome.bGasUsed }

/-- `env.call`: the host after it and what the guest finds, `none` after a panic. -/
def callHost (call : Caller) (arguments : GuestCall) : WasmEnv × Option Bytes :=
  match call with
  | none => (h, some [])
  | some callee =>
    match h.request input arguments with
    | none => (h, some [])
    | some request =>
      match callee request with
      | none => (h, none)
      | some outcome => (h.charged outcome, some (outcome.answer arguments.outCap))

end WasmEnv

/-- The calls of a guest that concern its storage. -/
inductive StorageCall where
  | sload (key : Bytes)
  | sstore (key value : Bytes)
  | sdelete (key : Bytes)
deriving DecidableEq

/-- A call at the host, and the answers so far. -/
def storageStep (input : ExecutionInput) (s : WasmEnv × List Bytes) :
    StorageCall → WasmEnv × List Bytes
  | .sload key => (s.1.chargeStorage wasmSloadGas, s.2 ++ [s.1.load input key])
  | .sstore key value =>
    ((s.1.chargeStorage (s.1.sstoreGas input key)).record key (some value), s.2)
  | .sdelete key => ((s.1.chargeStorage wasmSdeleteGas).record key none, s.2)

structure GuestOutput where
  outLen : Int
  output : Bytes
  memoryBytes : Nat

/-- A guest, from its next step to its end; `none` is a panic. -/
def runGuest (call : Caller) (input : ExecutionInput) :
    Guest → WasmEnv → WasmEnv × Option (Except ContractError GuestOutput)
  | .burn cost next, h =>
    if cost ≤ h.fuel then
      runGuest call input next { h with fuel := h.fuel - cost }
    else (h, some (.error .gasExhausted))
  | .txAmount next, h => runGuest call input (next (asI64 (input.tx.amount.getD 0))) h
  | .txSequence next, h => runGuest call input (next (asI64 input.tx.sequenceNumber)) h
  | .senderFuel next, h =>
    runGuest call input (next (asI64 input.senderState.fuelBalance)) h
  | .txPayload next, h => runGuest call input (next input.tx.payload) h
  | .revert, h => (h, some (.error (.reverted "guest called env.revert()")))
  | .sload key next, h =>
    runGuest call input (next (h.load input key)) (h.chargeStorage wasmSloadGas)
  | .sstore key value next, h =>
    runGuest call input next ((h.chargeStorage (h.sstoreGas input key)).record key (some value))
  | .sdelete key next, h =>
    runGuest call input next ((h.chargeStorage wasmSdeleteGas).record key none)
  | .call arguments next, h =>
    match (h.callHost input call arguments).2 with
    | none => ((h.callHost input call arguments).1, none)
    | some answer => runGuest call input (next answer) (h.callHost input call arguments).1
  | .finish outLen output memoryBytes, h => (h, some (.ok ⟨outLen, output, memoryBytes⟩))
  | .fail e, h => (h, some (.error e))
  | .panicked, h => (h, none)

theorem runGuest_call (call : Caller) (input : ExecutionInput) (arguments : GuestCall)
    (next : Bytes → Guest) (h : WasmEnv) :
    runGuest call input (.call arguments next) h =
      match (h.callHost input call arguments).2 with
      | none => ((h.callHost input call arguments).1, none)
      | some a =>
        runGuest call input (next a) (h.callHost input call arguments).1 := by
  conv_lhs => unfold runGuest

/-- `WasmEngine::execute` from the end of the guest on. -/
def wasmSettle (input : ExecutionInput) (budget : Nat) (h : WasmEnv)
    (output : GuestOutput) : Except ContractError ExecutionOutput :=
  let result : WasmResult := ⟨output.output, h.storageDelta.entriesInOrder⟩
  let gasUsed := saturatingAdd (saturatingAdd (budget - h.fuel) h.storageGas) h.callGas
  if output.outLen < 0 ∨ (wasmOutputCap : Int) < output.outLen then
    .error (.reverted ("output length " ++ toString output.outLen ++ " exceeds " ++
      toString wasmOutputCap ++ " byte cap"))
  else if wasmStorageCap < result.postApplySize input.storage then
    .error (.reverted ("storage size " ++ toString (result.postApplySize input.storage) ++
      " bytes exceeds " ++ toString wasmStorageCap ++ " byte cap"))
  else if 0 < input.gasLimit ∧ input.gasLimit < gasUsed then .error .gasExhausted
  else if wasmMaxMemoryBytes < output.memoryBytes then
    .error (.badBytecode ("linear memory " ++ toString output.memoryBytes ++
      " bytes exceeds " ++ toString wasmMaxMemoryBytes ++ " byte cap"))
  else .ok ⟨M.rmpWasmResult result, gasUsed⟩

def fuelBudget (gasLimit : Nat) : Nat := if gasLimit = 0 then u64Max else gasLimit

def WasmInstance.guest (wasm : WasmInstance) (bytes : Bytes) : Guest :=
  .burn wasm.entryCost (wasm.program bytes)

def wasmRun (call : Caller) (input : ExecutionInput) (wasm : WasmInstance) : EngineFrame :=
  let budget := fuelBudget input.gasLimit
  let ended := runGuest call input (wasm.guest (input.canonicalBytes M)) (WasmEnv.start budget)
  ended.2.map fun result => result.bind (wasmSettle M input budget ended.1)

/-- `WasmEngine::execute`. -/
def wasmExecute (call : Caller) (input : ExecutionInput) : EngineFrame :=
  match validateWasmModule M input.contract.bytecode with
  | .error e => some (.error e)
  | .ok module =>
    match module.instantiate with
    | .error e => some (.error e)
    | .ok wasm => wasmRun M call input wasm

/-! ## Engines by name -/

inductive Engine where
  | transfer
  | spec
  | wasm
deriving DecidableEq

namespace Engine

def name : Engine → String
  | transfer => "Transfer"
  | spec => "Spec"
  | wasm => "Wasm"

def execute (call : Caller) (input : ExecutionInput) : Engine → EngineFrame
  | transfer => some (transferExecute M input)
  | spec => specExecute M call input
  | wasm => wasmExecute M call input

end Engine

/-- `ContractEngineRegistry`: the engines registered under their names. -/
structure ContractEngineRegistry where
  engines : List Engine

def ContractEngineRegistry.get (registry : ContractEngineRegistry) (name : String) :
    Option Engine :=
  registry.engines.find? fun engine => engine.name == name

/-- `Debug` of a byte vector. -/
def debugBytes (bytes : Bytes) : String :=
  "[" ++ ", ".intercalate (bytes.map fun byte => toString byte.toNat) ++ "]"

def selectEngine (registry : ContractEngineRegistry) (token : Token) :
    Except ContractError Engine :=
  let named (name : String) : Except ContractError Engine :=
    match registry.get name with
    | none => .error (.unknownEngine name)
    | some engine => .ok engine
  match token.metadata.lookup "contract_engine" with
  | some name => named name
  | none =>
    if token.metadata.lookup "token_type" = some "contract" then
      .error (.unknownEngine ("contract token " ++ debugBytes token.id ++
        " must declare a 'contract_engine' metadata key"))
    else named "Transfer"

/-! ## Calls -/

def maxCallDepth : Nat := 8

structure PinnedTarget where
  token : Token
  contract : SmartContract
  senderState : User
  snapshotRef : SnapshotRef
deriving DecidableEq

/-- `TargetStateProvider`: the target's token, the pinned block and the caller's key. -/
abbrev TargetStateProvider :=
  Bytes → SnapshotRef → Bytes → Except ContractError PinnedTarget

/-- `CallContext`; the depth is the argument of `executeCall`. -/
structure CallContext where
  provider : TargetStateProvider
  registry : ContractEngineRegistry

def hexDigits : List Char := "0123456789abcdef".toList

def toHex (bytes : Bytes) : String :=
  String.ofList (bytes.flatMap fun byte =>
    [hexDigits.getD (byte.toNat / 16) '0', hexDigits.getD (byte.toNat % 16) '0'])

def synthesizeCallTx (request : CallRequest) : Transaction where
  id := "xcall/" ++ request.callerTx.id ++ "/" ++ toHex request.targetToken
  action := request.entryPoint
  tokenId := request.targetToken
  bid := none
  sequenceNumber := request.callerTx.sequenceNumber
  sender := request.callerTx.sender
  receiver := request.callerTx.receiver
  amount := none
  timestamp := request.callerTx.timestamp
  resultHash := []
  senderSignature := []
  payload := request.callPayload
  gasLimit := request.subBudget
  resultData := []
  selection := none

def CallRequest.input (request : CallRequest) (pinned : PinnedTarget) : ExecutionInput where
  tx := synthesizeCallTx request
  contract := pinned.contract
  senderState := pinned.senderState
  token := pinned.token
  gasLimit := request.subBudget
  storage := pinned.contract.storage

/-- How a caller sees the end of the called contract. -/
def CallOutcome.fold : Except ContractError ExecutionOutput → CallOutcome
  | .ok output => .success output.resultData output.gasUsed
  | .error (.reverted message) => .failure (.bReverted message) 0
  | .error .gasExhausted => .failure .bGasExhausted 0
  | .error (.badBytecode message) => .failure (.bBadBytecode message) 0
  | .error (.invalidInput message) => .failure (.bInvalidInput message) 0
  | .error (.unknownEngine name) => .failure (.unknownEngine name) 0
  | .error (.engineNotImplemented name) => .failure (.bEngineNotImplemented name) 0

/-- `execute_call`, from a frame above which there is room for so many more. -/
def executeCall (ctx : CallContext) : Nat → CallRequest → Option CallOutcome
  | 0, _ => some (.failure .depthExceeded 0)
  | left + 1, request =>
    match ctx.provider request.targetToken request.snapshotRef request.callerTx.sender with
    | .error e => some (.failure (.targetUnresolvable e.text) 0)
    | .ok pinned =>
      match selectEngine ctx.registry pinned.token with
      | .error e => some (.failure (.unknownEngine e.text) 0)
      | .ok engine =>
        (engine.execute M (some (executeCall ctx left)) (request.input pinned)).map
          CallOutcome.fold

/-- An execution at the top level: it calls from depth zero. -/
def Engine.executeTop (ctx : CallContext) (engine : Engine) (input : ExecutionInput) :
    EngineFrame :=
  engine.execute M (some (executeCall M ctx maxCallDepth)) input

end Pneumatic
