import Pneumatic.Proofs.SignedExecution
import Pneumatic.Proofs.StorageDeltas

/-!
# What a guest can tell apart

Two executions of one contract on two storages do the same when the guest cannot tell
them apart: it only touches keys on which the storages agree, and its calls are answered
alike. Then it burns the same fuel, records the same delta and ends the same way. What
can still differ is the engine's own check, that the storage is not too large after
the delta.
-/

namespace Pneumatic

open WasmEnv

abbrev CallTargets := Set (Bytes × SnapshotRef)

/-- A call goes to one of the targets. -/
def Op.CallsWithin (targets : CallTargets) : Op → Prop
  | .call targetToken _ _ snapshotRef => (targetToken, snapshotRef) ∈ targets
  | _ => True

/-- On this input, and whatever its loads and calls are answered, the guest calls only
these. -/
def Guest.CallsWithin (input : ExecutionInput) (targets : CallTargets) : Guest → Prop
  | .burn _ next => next.CallsWithin input targets
  | .txAmount next => (next (asI64 (input.tx.amount.getD 0))).CallsWithin input targets
  | .txSequence next => (next (asI64 input.tx.sequenceNumber)).CallsWithin input targets
  | .senderFuel next =>
    (next (asI64 input.senderState.fuelBalance)).CallsWithin input targets
  | .txPayload next => (next input.tx.payload).CallsWithin input targets
  | .revert => True
  | .sload _ next => ∀ answer, (next answer).CallsWithin input targets
  | .sstore _ _ next => next.CallsWithin input targets
  | .sdelete _ next => next.CallsWithin input targets
  | .call arguments next =>
    (arguments.targetToken, ⟨arguments.refHeight.toNat, arguments.refHash⟩) ∈ targets ∧
      ∀ answer, (next answer).CallsWithin input targets
  | .finish _ _ _ => True
  | .fail _ => True
  | .panicked => True

/-- The code of an input, on the engine that runs it. -/
def ExecutionInput.CallsWithin (M : EngineCodec) (targets : CallTargets)
    (input : ExecutionInput) : Engine → Prop
  | .transfer => True
  | .spec => ∀ program, M.decodeProgram input.contract.bytecode = .ok program →
      ∀ op ∈ program.ops, op.CallsWithin targets
  | .wasm => ∀ module wasm, validateWasmModule M input.contract.bytecode = .ok module →
      module.instantiate = .ok wasm →
        (wasm.program (input.canonicalBytes M)).CallsWithin input targets

variable {M : EngineCodec} {input input' : ExecutionInput} {keys : Set Bytes}
  {targets : CallTargets} {callee callee' : CallRequest → Option CallOutcome}

/-- On this input, and whatever its loads and calls are answered, the guest reads, sets
and removes only these keys. -/
def Guest.TouchesWithin (input : ExecutionInput) (keys : Set Bytes) : Guest → Prop
  | .burn _ next => next.TouchesWithin input keys
  | .txAmount next => (next (asI64 (input.tx.amount.getD 0))).TouchesWithin input keys
  | .txSequence next => (next (asI64 input.tx.sequenceNumber)).TouchesWithin input keys
  | .senderFuel next =>
    (next (asI64 input.senderState.fuelBalance)).TouchesWithin input keys
  | .txPayload next => (next input.tx.payload).TouchesWithin input keys
  | .revert => True
  | .sload key next => key ∈ keys ∧ ∀ answer, (next answer).TouchesWithin input keys
  | .sstore key _ next => key ∈ keys ∧ next.TouchesWithin input keys
  | .sdelete key next => key ∈ keys ∧ next.TouchesWithin input keys
  | .call _ next => ∀ answer, (next answer).TouchesWithin input keys
  | .finish _ _ _ => True
  | .fail _ => True
  | .panicked => True

/-- The code of an input touches only these keys. -/
def ExecutionInput.TouchesWithin (M : EngineCodec) (keys : Set Bytes)
    (input : ExecutionInput) : Prop :=
  ∀ module wasm, validateWasmModule M input.contract.bytecode = .ok module →
    module.instantiate = .ok wasm → (wasm.program (input.canonicalBytes M)).TouchesWithin input keys

/-- The calls of these targets are answered alike. -/
def SameAnswers (targets : CallTargets)
    (callee callee' : CallRequest → Option CallOutcome) : Prop :=
  ∀ request, (request.targetToken, request.snapshotRef) ∈ targets → callee request = callee' request

theorem WasmEnv.request_target {h : WasmEnv} {arguments : GuestCall}
    {request : CallRequest} (hr : h.request input arguments = some request) :
    (request.targetToken, request.snapshotRef) =
      (arguments.targetToken, ⟨arguments.refHeight.toNat, arguments.refHash⟩) := by
  unfold WasmEnv.request at hr
  split at hr
  · cases hr
  · split at hr
    · cases hr
    · obtain rfl := Option.some.inj hr
      rfl

theorem WasmEnv.callHost_congr (htx : input.tx = input'.tx)
    (han : SameAnswers targets callee callee') {arguments : GuestCall}
    (ha : (arguments.targetToken,
      (⟨arguments.refHeight.toNat, arguments.refHash⟩ : SnapshotRef)) ∈ targets) (h : WasmEnv) :
    h.callHost input (some callee) arguments = h.callHost input' (some callee') arguments := by
  have hr : h.request input arguments = h.request input' arguments := by
    unfold request
    rw [htx]
  unfold callHost
  simp only [← hr]
  cases hsn : h.request input arguments with
  | none => rfl
  | some request =>
    have hs : callee request = callee' request := by
      refine han request ?_
      rw [request_target hsn]
      exact ha
    simp only [hs]

variable {key : Bytes}

theorem WasmEnv.load_congr
    (hkey : input.storage.lookup key = input'.storage.lookup key) (h : WasmEnv) :
    h.load input key = h.load input' key := by
  unfold load
  rw [hkey]

theorem WasmEnv.sstoreGas_congr
    (hkey : input.storage.lookup key = input'.storage.lookup key) (h : WasmEnv) :
    h.sstoreGas input key = h.sstoreGas input' key := by
  unfold sstoreGas
  rw [hkey]

/-- A guest that cannot tell the inputs apart runs alike on both. -/
theorem runGuest_congr (hcn : input.canon = input'.canon)
    (hk : ∀ key ∈ keys, input.storage.lookup key = input'.storage.lookup key)
    (ha : SameAnswers targets callee callee') {guest : Guest}
    (ht : guest.TouchesWithin input keys) (hc : guest.CallsWithin input targets)
    (h : WasmEnv) :
    runGuest (some callee) input guest h = runGuest (some callee') input' guest h := by
  have htx : input.tx = input'.tx := congrArg ExecutionInputCanon.tx hcn
  have hf : input.senderState.fuelBalance = input'.senderState.fuelBalance :=
    congrArg ExecutionInputCanon.senderFuelBalance hcn
  induction guest generalizing h with
  | burn cost next ih =>
    rw [runGuest, runGuest]
    split
    · exact ih ht hc _
    · rfl
  | txAmount next ih | txSequence next ih =>
    rw [runGuest, runGuest, ← htx]
    exact ih _ ht hc h
  | senderFuel next ih =>
    rw [runGuest, runGuest, ← hf]
    exact ih _ ht hc h
  | txPayload next ih =>
    rw [runGuest, runGuest, ← htx]
    exact ih _ ht hc h
  | revert => rfl
  | sload key next ih =>
    rw [runGuest, runGuest, load_congr (hk key ht.1)]
    exact ih _ (ht.2 _) (hc _) _
  | sstore key value next ih =>
    rw [runGuest, runGuest, sstoreGas_congr (hk key ht.1)]
    exact ih ht.2 hc _
  | sdelete key next ih =>
    exact ih ht.2 hc _
  | call a next ih =>
    rw [runGuest_call, runGuest_call, callHost_congr htx ha hc.1 h]
    split
    · rfl
    · exact ih _ (ht _) (hc.2 _) _
  | finish ol output mb => rfl
  | fail e => rfl
  | panicked => rfl

theorem WasmEnv.storageDelta_callHost (h : WasmEnv) (call : Caller) (arguments : GuestCall) :
    (h.callHost input call arguments).1.storageDelta = h.storageDelta := by
  unfold callHost
  split
  · rfl
  · split
    · rfl
    · split <;> rfl

/-- Only these keys were written. -/
def WasmEnv.RecordsWithin (keys : Set Bytes) (h : WasmEnv) : Prop :=
  ∀ key, h.storageDelta.lookup key ≠ none → key ∈ keys

variable {h : WasmEnv}

theorem WasmEnv.RecordsWithin.chargeStorage (hk : h.RecordsWithin keys) (gas : Nat) :
    (h.chargeStorage gas).RecordsWithin keys := hk

theorem WasmEnv.RecordsWithin.record (hk : h.RecordsWithin keys) (hkey : key ∈ keys)
    (value : Option Bytes) : (h.record key value).RecordsWithin keys := by
  intro other ho
  by_cases hs : other = key
  · rw [hs]
    exact hkey
  · refine hk other ?_
    rwa [WasmEnv.record, Finmap.lookup_insert_of_ne _ hs] at ho

theorem recordsWithin_runGuest {call : Caller} {guest : Guest}
    (ht : guest.TouchesWithin input keys) (hk : h.RecordsWithin keys) :
    (runGuest call input guest h).1.RecordsWithin keys := by
  induction guest generalizing h with
  | burn cost next ih =>
    rw [runGuest]
    split
    · exact ih ht hk
    · exact hk
  | txAmount next ih | txSequence next ih | senderFuel next ih | txPayload next ih =>
    exact ih _ ht hk
  | revert => exact hk
  | sload key next ih =>
    exact ih _ (ht.2 _) (hk.chargeStorage _)
  | sstore key value next ih | sdelete key next ih =>
    exact ih ht.2 ((hk.chargeStorage _).record ht.1 _)
  | call a next ih =>
    have ha : (h.callHost input call a).1.RecordsWithin keys := by
      unfold WasmEnv.RecordsWithin
      rw [storageDelta_callHost]
      exact hk
    rw [runGuest_call]
    split
    · exact ha
    · exact ih _ (ht _) ha
  | finish ol output mb | fail e | panicked => exact hk

/-- An execution that ends well: the delta it gives, the room it left, and that it ends
the same on another storage, if the guest cannot tell and there is room. -/
structure SameOn (M : EngineCodec) (keys : Set Bytes) (output : ExecutionOutput)
    (input input' : ExecutionInput) (callee' : CallRequest → Option CallOutcome)
    (moduleOutput : Bytes) (delta : StorageDelta) : Prop where
  data : output.resultData = M.rmpWasmResult ⟨moduleOutput, delta.entriesInOrder⟩
  touches : ∀ entry ∈ delta.entriesInOrder, entry.1 ∈ keys
  fits : ContractStorage.size (applyStorage input.storage delta.entriesInOrder) ≤ wasmStorageCap
  same : ContractStorage.size (applyStorage input'.storage delta.entriesInOrder) ≤ wasmStorageCap →
    wasmExecute M (some callee') input' = some (.ok output)

variable {output : ExecutionOutput}

theorem wasmSettle_ok {budget : Nat} {guestOutput : GuestOutput}
    (hok : wasmSettle M input budget h guestOutput = .ok output) :
    output.resultData = M.rmpWasmResult ⟨guestOutput.output, h.storageDelta.entriesInOrder⟩ ∧
      ContractStorage.size (applyStorage input.storage h.storageDelta.entriesInOrder) ≤
        wasmStorageCap := by
  unfold wasmSettle at hok
  dsimp only at hok
  split at hok
  · cases hok
  · split at hok
    · cases hok
    · next hr =>
      split at hok
      · cases hok
      · split at hok
        · cases hok
        · obtain rfl := Except.ok.inj hok
          exact ⟨rfl, not_lt.mp hr⟩

/-- What an instance leaves when its guest has run. -/
def WasmInstance.ended (M : EngineCodec) (call : Caller) (input : ExecutionInput)
    (wasm : WasmInstance) : WasmEnv × Option (Except ContractError GuestOutput) :=
  runGuest call input (wasm.guest (input.canonicalBytes M)) (start (fuelBudget input.gasLimit))

theorem wasmExecute_ok_iff {call : Caller} :
    wasmExecute M call input = some (.ok output) ↔
      ∃ m wasm guestOutput, validateWasmModule M input.contract.bytecode = .ok m ∧
        m.instantiate = .ok wasm ∧ (wasm.ended M call input).2 = some (.ok guestOutput) ∧
        wasmSettle M input (fuelBudget input.gasLimit) (wasm.ended M call input).1 guestOutput =
          .ok output := by
  unfold wasmExecute
  constructor
  · intro hok
    cases hm : validateWasmModule M input.contract.bytecode with
    | error e => simp only [hm] at hok; cases hok
    | ok m =>
      cases hw : m.instantiate with
      | error e => simp only [hm, hw] at hok; cases hok
      | ok wasm =>
        simp only [hm, hw] at hok
        obtain ⟨r, hr, hs⟩ := Option.map_eq_some_iff.mp hok
        cases r with
        | error e => cases hs
        | ok guestOutput => exact ⟨m, wasm, guestOutput, rfl, hw, hr, hs⟩
  · rintro ⟨m, wasm, guestOutput, hm, hw, hr, hs⟩
    simp only [hm, hw]
    exact Option.map_eq_some_iff.mpr ⟨_, hr, hs⟩

theorem wasmExecute_same (hc : input.canon = input'.canon)
    (hk : ∀ key ∈ keys, input.storage.lookup key = input'.storage.lookup key)
    (ha : SameAnswers targets callee callee') (htc : input.TouchesWithin M keys)
    (hcl : input.CallsWithin M targets .wasm)
    (hok : wasmExecute M (some callee) input = some (.ok output)) :
    ∃ mo delta, SameOn M keys output input input' callee' mo delta := by
  have hcd : input.contract.bytecode = input'.contract.bytecode :=
    congrArg ExecutionInputCanon.contractBytecode hc
  have hl : input.gasLimit = input'.gasLimit :=
    congrArg ExecutionInputCanon.gasLimit hc
  have hb : input.canonicalBytes M = input'.canonicalBytes M :=
    congrArg M.rmpExecutionInput hc
  obtain ⟨m, wasm, gs, hm, hw, hg, hst⟩ := wasmExecute_ok_iff.mp hok
  have ht : (wasm.guest (input.canonicalBytes M)).TouchesWithin input keys := htc m wasm hm hw
  have hca : (wasm.guest (input.canonicalBytes M)).CallsWithin input targets := hcl m wasm hm hw
  -- the guest runs alike, and ends with an output
  have hrun : wasm.ended M (some callee) input = wasm.ended M (some callee') input' := by
    unfold WasmInstance.ended
    rw [← hb, ← hl, runGuest_congr hc hk ha ht hca]
  have hr : (wasm.ended M (some callee) input).1.RecordsWithin keys :=
    recordsWithin_runGuest ht fun key hkey => absurd rfl hkey
  obtain ⟨hd, hf⟩ := wasmSettle_ok hst
  refine ⟨_, _, ⟨hd, ?_, hf, fun hrm => ?_⟩⟩
  · intro entry he
    exact hr _ (StorageDelta.lookup_of_mem_entries he)
  · refine wasmExecute_ok_iff.mpr ⟨m, wasm, gs, hcd ▸ hm, hw, ?_, ?_⟩
    · rw [← hrun, hg]
    · rw [← hrun, ← hl]
      -- the check of the size is all that the end of an execution reads of the storage
      unfold wasmSettle at hst ⊢
      simp only [WasmResult.postApplySize, not_lt.mpr hf, not_lt.mpr hrm, if_false, ← hl] at hst ⊢
      exact hst

end Pneumatic
