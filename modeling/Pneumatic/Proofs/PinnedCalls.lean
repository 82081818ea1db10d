import Pneumatic.Proofs.GuestFootprint
import Pneumatic.Proofs.Replacement

/-!
# Pinned calls

A call names a block of its target, so that every Executor sees the target as it was at
that block. What the provider does with the block is look whether the chain has it, at
that index and under that hash. What it returns is the token, the contract and the
caller's record as they are now.

So a call is answered alike before and after a history of the target exactly when that
history happens to leave alone what is looked at: the index of the pinned block, which
trimming shifts, and, unless there is no contract at all, the code, the storage and the
caller's record.
-/

namespace Pneumatic

open Run List Option WasmEnv Except

variable {C : Codec} {K : ContractCodec} {M : EngineCodec} {input input' : ExecutionInput}

/-! ## What an engine sees of a target -/

theorem specRun_congr {call : Caller} (htx : input.tx = input'.tx)
    (hl : input.gasLimit = input'.gasLimit) (ops : List Op) (s : SpecState) :
    specRun call input ops s = specRun call input' ops s := by
  have ha : ∀ (s : SpecState) op, s.apply input op = s.apply input' op := by
    intro s op
    cases op with
    | loadTx field =>
      unfold SpecState.apply loadTxField
      rw [htx, hl]
    | _ => rfl
  induction ops generalizing s with
  | nil => rfl
  | cons op rest ih =>
    cases call with
    | none => simp only [specRun, hl, ha, ih]
    | some c => simp only [specRun, htx, hl, ha, ih]

theorem runGuest_view {call : Caller} (htx : input.tx = input'.tx)
    (hf : input.senderState.fuelBalance = input'.senderState.fuelBalance)
    (hs : input.storage = input'.storage) (guest : Guest) (h : WasmEnv) :
    runGuest call input guest h = runGuest call input' guest h := by
  have hl : ∀ (h : WasmEnv) key, h.load input key = h.load input' key :=
    fun h key => load_congr (by rw [hs]) h
  have hst : ∀ (h : WasmEnv) key, h.sstoreGas input key = h.sstoreGas input' key :=
    fun h key => sstoreGas_congr (by rw [hs]) h
  have hc : ∀ (h : WasmEnv) arguments,
      h.callHost input call arguments = h.callHost input' call arguments := by
    intro h arguments
    unfold callHost request
    rw [htx]
  induction guest generalizing h with
  | burn cost next ih =>
    rw [runGuest, runGuest]
    split
    · exact ih _
    · rfl
  | txAmount next ih | txSequence next ih =>
    rw [runGuest, runGuest, ← htx]
    exact ih _ h
  | senderFuel next ih =>
    rw [runGuest, runGuest, ← hf]
    exact ih _ h
  | txPayload next ih =>
    rw [runGuest, runGuest, ← htx]
    exact ih _ h
  | revert => rfl
  | sload key next ih =>
    rw [runGuest, runGuest, ← hl]
    exact ih _ _
  | sstore key value next ih =>
    rw [runGuest, runGuest, ← hst]
    exact ih _
  | sdelete key next ih =>
    exact ih _
  | call arguments next ih =>
    rw [runGuest_call, runGuest_call, ← hc]
    split
    · rfl
    · exact ih _ _
  | finish ol o mb => rfl
  | fail e => rfl
  | panicked => rfl

theorem Engine.execute_congr (hc : input.canon = input'.canon)
    (hs : input.storage = input'.storage) (call : Caller) (engine : Engine) :
    engine.execute M call input = engine.execute M call input' := by
  have htx : input.tx = input'.tx := congrArg ExecutionInputCanon.tx hc
  have hcd : input.contract.bytecode = input'.contract.bytecode :=
    congrArg ExecutionInputCanon.contractBytecode hc
  have hl : input.gasLimit = input'.gasLimit :=
    congrArg ExecutionInputCanon.gasLimit hc
  have hf : input.senderState.fuelBalance = input'.senderState.fuelBalance :=
    congrArg ExecutionInputCanon.senderFuelBalance hc
  have hb : input.canonicalBytes M = input'.canonicalBytes M :=
    congrArg M.rmpExecutionInput hc
  cases engine with
  | transfer =>
    show some (transferExecute M input) = some (transferExecute M input')
    unfold transferExecute
    rw [htx, hl]
  | spec =>
    show specExecute M call input = specExecute M call input'
    unfold specExecute
    simp only [hcd, specRun_congr htx hl]
  | wasm =>
    show wasmExecute M call input = wasmExecute M call input'
    unfold wasmExecute wasmRun wasmSettle
    simp only [hcd, hb, hl, hs, runGuest_view htx hf hs]

/-- The same contract, metadata and caller's record, as far as an engine can tell. -/
structure PinnedTarget.Alike (pinned pinned' : PinnedTarget) : Prop where
  bytecode : pinned.contract.bytecode = pinned'.contract.bytecode
  storage : pinned.contract.storage = pinned'.contract.storage
  name : pinned.contract.name = pinned'.contract.name
  version : pinned.contract.version = pinned'.contract.version
  tokenId : pinned.token.id = pinned'.token.id
  metadata : pinned.token.metadata = pinned'.token.metadata
  senderState : pinned.senderState = pinned'.senderState

/-- Both resolve, to targets that are alike, or both fail. -/
def ResolvesAlike : Except ContractError PinnedTarget → Except ContractError PinnedTarget → Prop
  | .ok pinned, .ok pinned' => pinned.Alike pinned'
  | .error _, .error _ => True
  | _, _ => False

theorem selectEngine_congr {token token' : Token} (hid : token.id = token'.id)
    (hm : token.metadata = token'.metadata) (registry : ContractEngineRegistry) :
    selectEngine registry token = selectEngine registry token' := by
  unfold selectEngine
  rw [hid, hm]

variable {pinned pinned' : PinnedTarget}

theorem CallRequest.canon_input {request : CallRequest}
    (h : pinned.Alike pinned') : (request.input pinned).canon = (request.input pinned').canon := by
  unfold CallRequest.input ExecutionInput.canon
  simp only [h.bytecode, h.name, h.version, h.tokenId, h.metadata, h.senderState]

/-! ## Calls -/

variable {targetToken senderKey : Bytes}

section Calls

variable {reads reads' : DataReads} {request : CallRequest}
  {registry : ContractEngineRegistry} {left : Nat}

variable (K M)

/-- What an Executor calls other contracts with, from a frame above which there is room
for so many more. -/
def DataReads.calls (registry : ContractEngineRegistry) (reads : DataReads) (left : Nat) :
    CallRequest → Option CallOutcome :=
  executeCall M ⟨resolveTarget K reads, registry⟩ left

/-- Two Executors agree on the calls of a target at a ref by a caller: they resolve the
ref alike, and they compute the same outcome of every such call whose own calls are
answered the same. -/
structure AgreeOnPin (reads reads' : DataReads) (targetToken : Bytes) (ref : SnapshotRef)
    (senderKey : Bytes) : Prop where
  resolved : ResolvesAlike (resolveTarget K reads targetToken ref senderKey)
    (resolveTarget K reads' targetToken ref senderKey)
  outcome : ∀ (registry : ContractEngineRegistry) (left : Nat) (request : CallRequest),
    request.targetToken = targetToken → request.snapshotRef = ref →
    request.callerTx.sender = senderKey →
    reads.calls K M registry left = reads'.calls K M registry left →
    reads.calls K M registry (left + 1) request = reads'.calls K M registry (left + 1) request

variable {K M}

variable {e : ContractError}

theorem DataReads.calls_unresolved
    (h : resolveTarget K reads request.targetToken request.snapshotRef
      request.callerTx.sender = .error e) : reads.calls K M registry (left + 1) request =
      some (.failure (.targetUnresolvable e.text) 0) := by
  unfold DataReads.calls
  rw [executeCall]
  simp only [h]

theorem agreeOnPin_of_alike {ref : SnapshotRef}
    (h : resolveTarget K reads targetToken ref senderKey = .ok pinned)
    (h' : resolveTarget K reads' targetToken ref senderKey = .ok pinned')
    (ha : pinned.Alike pinned') :
    AgreeOnPin K M reads reads' targetToken ref senderKey where
  resolved := by
    rw [h, h']
    exact ha
  outcome := by
    rintro registry left request rfl rfl rfl hc
    unfold DataReads.calls at hc ⊢
    rw [executeCall, executeCall]
    simp only [h, h', selectEngine_congr ha.tokenId ha.metadata, hc]
    split
    · rfl
    · rw [Engine.execute_congr (CallRequest.canon_input ha) ha.storage]

theorem agreeOnPin_of_error {ref : SnapshotRef}
    (h : resolveTarget K reads targetToken ref senderKey = .error e)
    (h' : resolveTarget K reads' targetToken ref senderKey = .error e) :
    AgreeOnPin K M reads reads' targetToken ref senderKey where
  resolved := by
    rw [h, h']
    trivial
  outcome := by
    rintro registry left request rfl rfl rfl -
    rw [DataReads.calls_unresolved h, DataReads.calls_unresolved h']

/-- A failure is shown to the caller with its text. -/
theorem AgreeOnPin.text_eq {ref : SnapshotRef}
    {e' : ContractError} (ha : AgreeOnPin K M reads reads' targetToken ref senderKey)
    (h : resolveTarget K reads targetToken ref senderKey = .error e)
    (h' : resolveTarget K reads' targetToken ref senderKey = .error e') : e.text = e'.text := by
  let request : CallRequest :=
    { callerTx := { (default : Transaction) with sender := senderKey }
      targetToken := targetToken
      entryPoint := ""
      callPayload := []
      snapshotRef := ref
      subBudget := 0 }
  -- a call with no room for calls of its own
  have ho := ha.outcome ⟨[]⟩ 0 request rfl rfl rfl rfl
  rw [DataReads.calls_unresolved h, DataReads.calls_unresolved h'] at ho
  injection ho with ho
  injection ho with ho
  injection ho

end Calls

/-! ## Refs -/

theorem validateSnapshotRef_ok_iff {chain : List Block} {ref : SnapshotRef} :
    validateSnapshotRef chain ref = .ok () ↔
      (chain[ref.height]?).map Block.currentHash = some ref.blockHash := by
  unfold validateSnapshotRef
  cases chain[ref.height]? with
  | none => simp
  | some block => simp

theorem validateSnapshotRef_error {chain : List Block} {ref : SnapshotRef} {e : String}
    (h : validateSnapshotRef chain ref = .error e) : ∃ rest, e = "snapshot ref " ++ rest := by
  have hh : ("snapshot ref height " : String) = "snapshot ref " ++ "height " := rfl
  have hhs : ("snapshot ref hash mismatch at height " : String) =
      "snapshot ref " ++ "hash mismatch at height " := rfl
  unfold validateSnapshotRef at h
  split at h
  · rw [← error.inj h, hh]
    simp only [String.append_assoc]
    exact ⟨_, rfl⟩
  · split at h
    · rw [← error.inj h, hhs, String.append_assoc]
      exact ⟨_, rfl⟩
    · cases h

theorem resolveTarget_unpinned {reads : DataReads}
    {token : Token} {ref : SnapshotRef} (htoken : reads.getToken targetToken = .ok token)
    (hpin : (token.chain[ref.height]?).map Block.currentHash ≠ some ref.blockHash) :
    ∃ rest, resolveTarget K reads targetToken ref senderKey =
      .error (.invalidInput ("snapshot ref " ++ rest)) := by
  unfold resolveTarget
  rw [htoken]
  cases hv : validateSnapshotRef token.chain ref with
  | ok _ => exact absurd (validateSnapshotRef_ok_iff.mp hv) hpin
  | error e =>
    obtain ⟨rest, rfl⟩ := validateSnapshotRef_error hv
    exact ⟨rest, by simp only [hv]⟩

section Pinned

variable {reads : DataReads} {targetToken senderKey : Bytes} {token : Token}
  {ref : SnapshotRef} (htoken : reads.getToken targetToken = .ok token)
  (hpin : (token.chain[ref.height]?).map Block.currentHash = some ref.blockHash)

include htoken hpin

theorem resolveTarget_no_asset (ha : token.getAsset K = none) :
    resolveTarget K reads targetToken ref senderKey =
      .error (.invalidInput "target token has no contract asset") := by
  unfold resolveTarget
  simp only [htoken, validateSnapshotRef_ok_iff.mpr hpin, ha]

theorem resolveTarget_no_sender {contract : SmartContract} {e : String}
    (ha : token.getAsset K = some contract) (hu : reads.getUser senderKey = .error e) :
    resolveTarget K reads targetToken ref senderKey =
      .error (.invalidInput ("target sender fetch failed: " ++ e)) := by
  unfold resolveTarget
  simp only [htoken, validateSnapshotRef_ok_iff.mpr hpin, ha, hu]

theorem resolveTarget_ok {contract : SmartContract} {user : User}
    (ha : token.getAsset K = some contract) (hu : reads.getUser senderKey = .ok user) :
    resolveTarget K reads targetToken ref senderKey = .ok ⟨token, contract, user, ref⟩ := by
  unfold resolveTarget
  simp only [htoken, validateSnapshotRef_ok_iff.mpr hpin, ha, hu]

end Pinned

/-! ## Histories of a token -/

/-- What happens to a token: a block is committed or gossiped, a delta of a call is
applied to its storage, an upgrade replaces its code. -/
inductive TokenUpdate where
  | committed (validators : BlockValidators) (block : Block)
  | gossiped (block : Block)
  | stored (result : WasmResult)
  | upgraded (delta : ReplaceAssetDelta)

/-- A contract with its code and owners replaced by a delta. -/
def SmartContract.replaced (contract : SmartContract) (delta : ReplaceAssetDelta) : SmartContract :=
  { contract with
    bytecode := delta.newBytecode
    owners := delta.newOwners
    threshold := delta.newThreshold }

namespace Token

section Updates

variable (C K)

/-- The token after it; what is refused leaves the token. -/
def updated (token : Token) : TokenUpdate → Token
  | .committed validators block => (token.commitBlock C validators block none).1
  | .gossiped block => { token with chain := (appendValidatedBlock C token.chain block).1 }
  | .stored result => (token.updateAsset K fun contract => contract.stored result).getD token
  | .upgraded delta =>
    match applyReplaceAsset K token delta with
    | .error _ => token
    | .ok token => token

def appendedBy (token : Token) : TokenUpdate → List Block
  | .committed validators block =>
    match token.validateBlock C validators (hashed C block) with
    | .error _ => []
    | .ok () => [hashed C block]
  | .gossiped block =>
    match (appendValidatedBlock C token.chain block).2 with
    | .appended => [block]
    | _ => []
  | _ => []

/-- How many it takes off at the other end: one, when a block is committed to a chain
that has reached its length. -/
def trimmedBy (token : Token) : TokenUpdate → Nat
  | .committed validators block =>
    match token.validateBlock C validators (hashed C block) with
    | .error _ => 0
    | .ok () => if token.securityLevel = token.chain.length then 1 else 0
  | _ => 0

def appended : Token → List TokenUpdate → List Block
  | _, [] => []
  | token, update :: rest =>
    token.appendedBy C update ++ (token.updated C K update).appended rest

def trimmed : Token → List TokenUpdate → Nat
  | _, [] => 0
  | token, update :: rest =>
    token.trimmedBy C update + (token.updated C K update).trimmed rest

/-- Counting on from the pinned block by as many blocks as are trimmed, one comes to a
block with the pinned hash. Where nothing is trimmed that is the pinned block itself. -/
def PinStays (token : Token) (ref : SnapshotRef) (updates : List TokenUpdate) : Prop :=
  ((token.chain ++ token.appended C K updates)[
    ref.height + token.trimmed C K updates]?).map Block.currentHash = some ref.blockHash

end Updates

end Token

def SmartContract.updated (contract : SmartContract) : TokenUpdate → SmartContract
  | .stored result => contract.stored result
  | .upgraded delta => contract.replaced delta
  | _ => contract

namespace Token

variable {token : Token}

theorem updated_stored (result : WasmResult) : token.updated C K (.stored result) =
      { token with
        assetData := ((token.getAsset K).map fun c =>
          K.rmpSmartContract (c.stored result)).or token.assetData } := by
  rw [updated, updateAsset_eq_map]
  cases token.getAsset K <;> rfl

theorem updated_upgraded (delta : ReplaceAssetDelta) : token.updated C K (.upgraded delta) =
      { token with
        assetData := ((token.getAsset K).map fun c =>
          K.rmpSmartContract (c.replaced delta)).or token.assetData } := by
  rw [updated, applyReplaceAsset, updateAsset_eq_map]
  cases token.getAsset K <;> rfl

theorem updated_committed (validators : BlockValidators) (block : Block) :
    token.updated C K (.committed validators block) =
      { token with
        chain := token.chain.drop (token.trimmedBy C (.committed validators block)) ++
          token.appendedBy C (.committed validators block)
        sequenceNumber := token.sequenceNumber +
          (token.appendedBy C (.committed validators block)).length } := by
  simp only [updated, commitBlock, commitBlockAs, keptChain, true_and, rolled_none, trimmedBy,
    appendedBy]
  cases token.validateBlock C validators (hashed C block) with
  | error e => simp [defeatedTip]
  | ok _ =>
    dsimp only
    by_cases hf : token.securityLevel = token.chain.length
    · simp only [hf, if_true]
      rfl
    · simp only [hf, if_false]
      rfl

theorem updated_gossiped (block : Block) : token.updated C K (.gossiped block) =
      { token with chain := token.chain ++ token.appendedBy C (.gossiped block) } := by
  simp only [updated, appendedBy, appendValidatedBlock]
  split
  · simp
  · split
    · simp
    · rfl

theorem updated_chain (update : TokenUpdate) : (token.updated C K update).chain =
      token.chain.drop (token.trimmedBy C update) ++ token.appendedBy C update := by
  cases update with
  | committed v block => rw [updated_committed]
  | gossiped block =>
    rw [updated_gossiped]
    rfl
  | stored r =>
    rw [updated_stored]
    exact (append_nil _).symm
  | upgraded delta =>
    rw [updated_upgraded]
    exact (append_nil _).symm

theorem updated_id (update : TokenUpdate) : (token.updated C K update).id = token.id := by
  cases update with
  | committed v block => rw [updated_committed]
  | gossiped block => rfl
  | stored r => rw [updated_stored]
  | upgraded delta => rw [updated_upgraded]

theorem updated_metadata (update : TokenUpdate) :
    (token.updated C K update).metadata = token.metadata := by
  cases update with
  | committed v block => rw [updated_committed]
  | gossiped block => rfl
  | stored r => rw [updated_stored]
  | upgraded delta => rw [updated_upgraded]

theorem updated_getAsset (hK : K.Lawful) (update : TokenUpdate) :
    (token.updated C K update).getAsset K =
      (token.getAsset K).map fun c => c.updated update := by
  have hw : ∀ f : SmartContract → SmartContract,
      ({ token with
        assetData := ((token.getAsset K).map fun c =>
          K.rmpSmartContract (f c)).or token.assetData } : Token).getAsset K =
        (token.getAsset K).map f := by
    intro f
    cases ha : token.getAsset K with
    | none => exact ha
    | some c => exact hK (f c)
  cases update with
  | committed v block =>
    rw [updated_committed]
    exact map_id'.symm
  | gossiped block => exact map_id'.symm
  | stored r =>
    rw [updated_stored]
    exact hw _
  | upgraded delta =>
    rw [updated_upgraded]
    exact hw _

/-- What is trimmed was there, and something is left. -/
theorem trimmedBy_le (hc : token.chain ≠ []) (update : TokenUpdate) :
    token.trimmedBy C update ≤ token.chain.length ∧ (token.updated C K update).chain ≠ [] := by
  have hpos : 0 < token.chain.length := length_pos_iff.mpr hc
  rw [updated_chain]
  cases update with
  | committed v block =>
    simp only [trimmedBy, appendedBy]
    cases token.validateBlock C v (hashed C block) with
    | error e => simp [hc]
    | ok _ =>
      dsimp only
      refine ⟨?_, by simp⟩
      split <;> omega
  | gossiped block | stored r | upgraded delta =>
    exact ⟨Nat.zero_le _, by simp [trimmedBy, hc]⟩

/-! ### Whole histories -/

theorem run_chain (hc : token.chain ≠ []) (updates : List TokenUpdate) :
    (run (updated C K) token updates).chain =
      (token.chain ++ token.appended C K updates).drop (token.trimmed C K updates) := by
  induction updates generalizing token with
  | nil => exact (append_nil _).symm
  | cons u rest ih =>
    obtain ⟨hle, hl⟩ := trimmedBy_le (K := K) hc u
    show (run (updated C K) (token.updated C K u) rest).chain = _
    rw [ih hl, updated_chain, appended, trimmed, ← drop_drop, append_assoc,
      drop_append_of_le_length hle]

theorem run_id (token : Token) (updates : List TokenUpdate) :
    (run (updated C K) token updates).id = token.id := by
  induction updates generalizing token with
  | nil => rfl
  | cons u rest ih => exact (ih _).trans (updated_id u)

theorem run_metadata (token : Token) (updates : List TokenUpdate) :
    (run (updated C K) token updates).metadata = token.metadata := by
  induction updates generalizing token with
  | nil => rfl
  | cons u rest ih => exact (ih _).trans (updated_metadata u)

theorem run_getAsset (hK : K.Lawful) (token : Token) (updates : List TokenUpdate) :
    (run (updated C K) token updates).getAsset K = (token.getAsset K).map fun c =>
        run SmartContract.updated c updates := by
  induction updates generalizing token with
  | nil => exact map_id'.symm
  | cons u rest ih =>
    show (run (updated C K) (token.updated C K u) rest).getAsset K = _
    rw [ih, updated_getAsset hK, Option.map_map]
    rfl

end Token

namespace SmartContract

theorem run_name (contract : SmartContract) (updates : List TokenUpdate) :
    (run updated contract updates).name = contract.name := by
  induction updates generalizing contract with
  | nil => rfl
  | cons u rest ih =>
    refine (ih _).trans ?_
    cases u <;> rfl

theorem run_version (contract : SmartContract) (updates : List TokenUpdate) :
    (run updated contract updates).version = contract.version := by
  induction updates generalizing contract with
  | nil => rfl
  | cons u rest ih =>
    refine (ih _).trans ?_
    cases u <;> rfl

end SmartContract

/-! ## Determinism -/

/-- What a history and the two reads of the caller's record leave alone: the pinned
block keeps its index, and if there is a contract, the caller is read the same, and if
there is a caller, the code and the storage are what they were. -/
structure PinUndisturbed (C : Codec) (K : ContractCodec) (token : Token)
    (ref : SnapshotRef) (updates : List TokenUpdate) (sender sender' : Except String User) :
    Prop where
  pin : token.PinStays C K ref updates
  caller : ∀ contract, token.getAsset K = some contract → sender = sender'
  contract : ∀ contract user, token.getAsset K = some contract → sender = .ok user →
    (run SmartContract.updated contract updates).bytecode = contract.bytecode ∧
      (run SmartContract.updated contract updates).storage = contract.storage

section Determinism

variable {reads reads' : DataReads} {token : Token} {targetToken senderKey : Bytes}
  {ref : SnapshotRef} {updates : List TokenUpdate}

theorem Token.pinStays_iff
    (hpin : (token.chain[ref.height]?).map Block.currentHash = some ref.blockHash) :
    token.PinStays C K ref updates ↔
      ((run (Token.updated C K) token updates).chain[ref.height]?).map
        Block.currentHash = some ref.blockHash := by
  have hc : token.chain ≠ [] := by
    intro hnil
    rw [hnil] at hpin
    cases hpin
  rw [Token.run_chain hc, getElem?_drop, Nat.add_comm]
  rfl

theorem ContractError.invalidInput_text_inj {message message' : String}
    (h : (ContractError.invalidInput message).text =
      (ContractError.invalidInput message').text) : message = message' :=
  String.append_right_inj _ |>.mp h

theorem snapshot_ne_target (rest rest' : String) :
    "target " ++ rest ≠ "snapshot ref " ++ rest' := by
  intro h
  have hl := congrArg String.toList h
  simp at hl

section Refs

variable (hbefore : reads.getToken targetToken = .ok token)
  (hpin : (token.chain[ref.height]?).map Block.currentHash = some ref.blockHash)
  (hafter : reads'.getToken targetToken = .ok (run (Token.updated C K) token updates))

include hbefore hpin hafter

/-- A ref that is lost is noticed: by its failure, or by the text of it. -/
theorem AgreeOnPin.pinStays (ha : AgreeOnPin K M reads reads' targetToken ref senderKey) :
    token.PinStays C K ref updates := by
  by_contra hg
  rw [Token.pinStays_iff hpin] at hg
  obtain ⟨rest, hl⟩ := resolveTarget_unpinned hafter hg
  cases has : token.getAsset K with
  | none =>
    have ht := ha.text_eq (resolveTarget_no_asset hbefore hpin has) hl
    exact snapshot_ne_target "token has no contract asset" rest
      (ContractError.invalidInput_text_inj ht)
  | some contract =>
    cases hu : reads.getUser senderKey with
    | error e =>
      have ht :=
        ha.text_eq (resolveTarget_no_sender hbefore hpin has hu) hl
      have htr : ("target sender fetch failed: " : String) =
        "target " ++ "sender fetch failed: " := rfl
      rw [htr, String.append_assoc] at ht
      exact snapshot_ne_target _ rest (ContractError.invalidInput_text_inj ht)
    | ok user =>
      have hr := ha.resolved
      rw [resolveTarget_ok hbefore hpin has hu, hl] at hr
      exact hr

theorem AgreeOnPin.undisturbed (hK : K.Lawful)
    (hag : AgreeOnPin K M reads reads' targetToken ref senderKey) :
    PinUndisturbed C K token ref updates (reads.getUser senderKey) (reads'.getUser senderKey) := by
  have hs := hag.pinStays hbefore hpin hafter
  have hpin' := (Token.pinStays_iff hpin).mp hs
  have ha' : ∀ c, token.getAsset K = some c →
      (run (Token.updated C K) token updates).getAsset K =
        some (run SmartContract.updated c updates) := by
    intro c ha
    rw [Token.run_getAsset hK, ha]
    rfl
  have hb : ∀ c, token.getAsset K = some c →
      reads.getUser senderKey = reads'.getUser senderKey ∧
        ∀ user, reads.getUser senderKey = .ok user →
          (run SmartContract.updated c updates).bytecode = c.bytecode ∧
            (run SmartContract.updated c updates).storage = c.storage := by
    intro c ha
    have hr := hag.resolved
    cases hu : reads.getUser senderKey with
    | error e =>
      have hf := resolveTarget_no_sender hbefore hpin ha hu
      refine ⟨?_, fun user hok => by cases hok⟩
      cases hu' : reads'.getUser senderKey with
      | error e' =>
        have ht := hag.text_eq hf (resolveTarget_no_sender hafter hpin' (ha' c ha) hu')
        rw [(String.append_right_inj _).mp (ContractError.invalidInput_text_inj ht)]
      | ok user' =>
        rw [hf, resolveTarget_ok hafter hpin' (ha' c ha) hu'] at hr
        exact hr.elim
    | ok user =>
      rw [resolveTarget_ok hbefore hpin ha hu] at hr
      cases hu' : reads'.getUser senderKey with
      | error e' =>
        rw [resolveTarget_no_sender hafter hpin' (ha' c ha) hu'] at hr
        exact hr.elim
      | ok user' =>
        rw [resolveTarget_ok hafter hpin' (ha' c ha) hu'] at hr
        exact ⟨congrArg ok hr.senderState, fun _ _ => ⟨hr.bytecode.symm, hr.storage.symm⟩⟩
  exact ⟨hs, fun c ha => (hb c ha).1,
    fun c user ha hu => (hb c ha).2 user hu⟩

theorem PinUndisturbed.agreeOnPin (hK : K.Lawful)
    (h : PinUndisturbed C K token ref updates (reads.getUser senderKey)
      (reads'.getUser senderKey)) : AgreeOnPin K M reads reads' targetToken ref senderKey := by
  have hpin' := (Token.pinStays_iff hpin).mp h.pin
  have ha' := Token.run_getAsset (C := C) hK token updates
  cases ha : token.getAsset K with
  | none =>
    rw [ha] at ha'
    exact agreeOnPin_of_error (resolveTarget_no_asset hbefore hpin ha)
      (resolveTarget_no_asset hafter hpin' ha')
  | some c =>
    rw [ha] at ha'
    cases hu : reads.getUser senderKey with
    | error e =>
      have hu' : reads'.getUser senderKey = .error e :=
        (h.caller c ha).symm.trans hu
      exact agreeOnPin_of_error (resolveTarget_no_sender hbefore hpin ha hu)
        (resolveTarget_no_sender hafter hpin' ha' hu')
    | ok user =>
      have hu' : reads'.getUser senderKey = .ok user :=
        (h.caller c ha).symm.trans hu
      obtain ⟨hc, hs⟩ := h.contract c user ha hu
      refine agreeOnPin_of_alike (resolveTarget_ok hbefore hpin ha hu)
        (resolveTarget_ok hafter hpin' ha' hu') ?_
      exact ⟨hc.symm, hs.symm, (c.run_name updates).symm,
        (c.run_version updates).symm, (token.run_id updates).symm,
        (token.run_metadata updates).symm, rfl⟩

end Refs

/-- For a ref that is valid in the chain of a token, and any history of the token: the
calls at this ref are answered alike before and after exactly when the history leaves
the pin undisturbed. -/
theorem pinned_call_deterministic_iff (hK : K.Lawful)
    (hbefore : reads.getToken targetToken = .ok token)
    (hvalid : validateSnapshotRef token.chain ref = .ok ()) (hafter : reads'.getToken targetToken =
      .ok (run (Token.updated C K) token updates)) :
    AgreeOnPin K M reads reads' targetToken ref senderKey ↔
      PinUndisturbed C K token ref updates (reads.getUser senderKey) (reads'.getUser senderKey) :=
  have hpin := validateSnapshotRef_ok_iff.mp hvalid
  ⟨fun ha => ha.undisturbed hbefore hpin hafter hK, fun h => h.agreeOnPin hbefore hpin hafter hK⟩

end Determinism

/-! ## A target that moved on -/

namespace MovedTarget

open ShieldedPool

def contract (storage : ContractStorage) : SmartContract := ⟨"c", [9], "1", storage, [], 0⟩

def result : WasmResult := ⟨[], [([1], some [2])]⟩

noncomputable def contracts : ContractCodec :=
  listedContracts [(contract ∅, [1]), ((contract ∅).stored result, [2])]

theorem contracts_lawful : contracts.Lawful :=
  listedContracts_lawful (by decide +kernel) (by intro word h; simp at h)

def genesis : Block := blockOn [] (signedCarrier (routedTransaction "t") none)

def next : TokenUpdate :=
  .committed (fun _ => some fun _ _ => none)
    (blockOn genesis.currentHash (signedCarrier (routedTransaction "u") none))

/-- A contract token whose chain may have so many blocks. -/
def token (securityLevel : Nat) : Token where
  id := [7]
  metadata := ∅
  chain := [genesis]
  securityLevel := securityLevel
  blockValidationSpecName := "Executed"
  sequenceNumber := 1
  assetData := some [1]

def ref : SnapshotRef := ⟨0, genesis.currentHash⟩

/-- What an Executor reads when the target is this token. -/
def reads (token : Token) : DataReads where
  getToken _ := .ok token
  getUser _ := .ok ⟨[8], 0, 0, 0⟩

noncomputable def later (securityLevel : Nat) (update : TokenUpdate) : Token :=
  run (Token.updated sampleCodec contracts) (token securityLevel) [update]

/-- One write of another call, or one block on a full chain, and an Executor that reads
the target later answers otherwise, at a ref that is valid before. -/
theorem pinned_call_changes : validateSnapshotRef [genesis] ref = .ok () ∧
      ¬ AgreeOnPin contracts upgradeEngines (reads (token 2))
        (reads (later 2 (.stored result))) [7] ref [8] ∧
      ¬ AgreeOnPin contracts upgradeEngines (reads (token 1)) (reads (later 1 next)) [7] ref
        [8] := by
  have hf : ∀ n, resolveTarget contracts (reads (token n)) [7] ref [8] =
      .ok ⟨token n, contract ∅, ⟨[8], 0, 0, 0⟩, ref⟩ := by
    intro n
    have has : (token n).getAsset contracts = some (contract ∅) := by
      show contracts.decodeSmartContract [1] = some (contract ∅)
      decide +kernel
    exact resolveTarget_ok rfl rfl has rfl
  refine ⟨rfl, fun ha => ?_, fun ha => ?_⟩
  · have hs : resolveTarget contracts (reads (later 2 (.stored result))) [7] ref [8] =
        .ok ⟨later 2 (.stored result), (contract ∅).stored result, ⟨[8], 0, 0, 0⟩, ref⟩ :=
      resolveTarget_ok rfl rfl rfl rfl
    have hr := ha.resolved
    exact absurd hr.storage (by decide +kernel)
  · have hg : ∃ rest, resolveTarget contracts (reads (later 1 next)) [7] ref [8] =
        .error (.invalidInput ("snapshot ref " ++ rest)) :=
      resolveTarget_unpinned rfl (by decide +kernel)
    obtain ⟨rest, hl⟩ := hg
    have hr := ha.resolved
    exact hr

/-- A block on a chain with room disturbs nothing. -/
theorem pinned_call_same :
    AgreeOnPin contracts upgradeEngines (reads (token 2)) (reads (later 2 next)) [7] ref [8] :=
  (pinned_call_deterministic_iff contracts_lawful rfl rfl rfl).mpr
    ⟨by unfold Token.PinStays; decide +kernel, fun _ _ => rfl, fun _ _ _ _ => ⟨rfl, rfl⟩⟩

end MovedTarget

end Pneumatic
