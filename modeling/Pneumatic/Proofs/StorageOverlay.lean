import Pneumatic.Lib.Run
import Pneumatic.Proofs.GuestFootprint

/-!
# The storage a guest sees

A guest reads the storage of its contract through what it has recorded itself, with a
tombstone for a key it deleted. `committed` is the storage that the record makes of the
base, and every call of the guest does to it what it would do to a map that is changed
in place.

The price of a call looks at the record as well: a key is new as long as neither the
base nor the record has it. A tombstone is a record, so a key that is deleted first is
not new any more when it is stored.
-/

namespace Pneumatic

open Finmap List Run

section Calls

variable (input : ExecutionInput)

/-- The same call on a map that is changed in place. -/
def mapStep (s : ContractStorage × List Bytes) : StorageCall → ContractStorage × List Bytes
  | .sload key => (s.1, s.2 ++ [(s.1.lookup key).getD []])
  | .sstore key value => (s.1.insert key value, s.2)
  | .sdelete key => (s.1.erase key, s.2)

def storageAfter (h : WasmEnv) (calls : List StorageCall) : WasmEnv × List Bytes :=
  run (storageStep input) (h, []) calls

def mapAfter (calls : List StorageCall) : ContractStorage × List Bytes :=
  run mapStep (input.storage, []) calls

/-- The storage that is committed: the record of the guest, applied to the base. -/
def WasmEnv.committed (h : WasmEnv) : ContractStorage :=
  applyStorage input.storage h.storageDelta.entriesInOrder

variable {input}

/-- Entries that agree on the value of their key can stand in any order. -/
theorem lookup_applyStorage_map (value : Bytes → Option Bytes) (key : Bytes) (keys : List Bytes)
    (storage : ContractStorage) :
    (applyStorage storage (keys.map fun key => (key, value key))).lookup key =
      if key ∈ keys then value key else storage.lookup key := by
  induction keys generalizing storage with
  | nil => rfl
  | cons first keys ih =>
    rw [map_cons, applyStorage_cons, ih]
    by_cases hk : key = first
    · have hw := lookup_writeEntry_self storage (first, value first)
      rw [if_pos (mem_cons.mpr (.inl hk)), hk, hw, ite_self]
    · have hm : key ∈ first :: keys ↔ key ∈ keys := by rw [mem_cons, or_iff_right hk]
      rw [lookup_writeEntry_of_ne _ hk, if_congr hm rfl rfl]

theorem lookup_committed (h : WasmEnv) (key : Bytes) :
    (h.committed input).lookup key =
      (h.storageDelta.lookup key).getD (input.storage.lookup key) := by
  rw [WasmEnv.committed, StorageDelta.entriesInOrder, lookup_applyStorage_map]
  cases hd : h.storageDelta.lookup key with
  | none =>
    rw [if_neg fun hk => lookup_eq_none.mp hd (mem_keys.mp (StorageDelta.mem_orderedKeys.mp hk))]
    rfl
  | some value =>
    rw [if_pos (StorageDelta.mem_orderedKeys.mpr (mem_keys.mpr (mem_of_lookup_eq_some hd)))]
    rfl

theorem load_eq (h : WasmEnv) (key : Bytes) :
    h.load input key = ((h.committed input).lookup key).getD [] := by
  rw [lookup_committed, WasmEnv.load]
  rcases h.storageDelta.lookup key with - | - | value
  · rfl
  · rfl
  · rfl

theorem committed_chargeStorage (h : WasmEnv) (gas : Nat) :
    (h.chargeStorage gas).committed input = h.committed input := by
  unfold WasmEnv.committed WasmEnv.chargeStorage
  rfl

theorem committed_record (h : WasmEnv) (key : Bytes) (value : Option Bytes) :
    (h.record key value).committed input = writeEntry (h.committed input) (key, value) := by
  refine ext_lookup fun other => ?_
  by_cases ho : other = key
  · rw [ho, lookup_committed, WasmEnv.record, lookup_insert]
    exact (lookup_writeEntry_self _ (key, value)).symm
  · rw [lookup_writeEntry_of_ne (key, value) ho, lookup_committed, lookup_committed,
      WasmEnv.record, lookup_insert_of_ne _ ho]

/-- One call does the same on both sides. -/
theorem storageStep_refines {s : WasmEnv × List Bytes} {m : ContractStorage × List Bytes}
    (h : (s.1.committed input, s.2) = m) (c : StorageCall) :
    ((storageStep input s c).1.committed input, (storageStep input s c).2) = mapStep m c := by
  subst h
  cases c with
  | sload key =>
    rw [storageStep, committed_chargeStorage, load_eq]
    rfl
  | sstore key value =>
    rw [storageStep, committed_record, committed_chargeStorage]
    rfl
  | sdelete key =>
    rw [storageStep, committed_record, committed_chargeStorage]
    rfl

/-- Every answer is that of the map, and so is what is committed. -/
theorem storageAfter_refines (calls : List StorageCall) {h : WasmEnv}
    (hd : h.storageDelta = ∅) :
    ((storageAfter input h calls).1.committed input, (storageAfter input h calls).2) =
      mapAfter input calls := by
  have h₀ : h.committed input = input.storage := by
    refine ext_lookup fun key => ?_
    rw [lookup_committed, hd]
    rfl
  unfold storageAfter mapAfter
  induction calls using List.reverseRecOn with
  | nil => exact congrArg (·, []) h₀
  | append_singleton calls c ih =>
    rw [run_append, run_append]
    exact storageStep_refines ih c

variable (input) in
/-- The storage calls of a guest as it runs, and the answers its loads get. -/
def guestTrace (call : Caller) : Guest → WasmEnv → List StorageCall × List Bytes
  | .burn cost next, h =>
    if cost ≤ h.fuel then
      guestTrace call next { h with fuel := h.fuel - cost }
    else ([], [])
  | .txAmount next, h => guestTrace call (next (asI64 (input.tx.amount.getD 0))) h
  | .txSequence next, h => guestTrace call (next (asI64 input.tx.sequenceNumber)) h
  | .senderFuel next, h => guestTrace call (next (asI64 input.senderState.fuelBalance)) h
  | .txPayload next, h => guestTrace call (next input.tx.payload) h
  | .sload key next, h =>
    let rest := guestTrace call (next (h.load input key)) (h.chargeStorage wasmSloadGas)
    (.sload key :: rest.1, h.load input key :: rest.2)
  | .sstore key value next, h =>
    let rest := guestTrace call next
      ((h.chargeStorage (h.sstoreGas input key)).record key (some value))
    (.sstore key value :: rest.1, rest.2)
  | .sdelete key next, h =>
    let rest := guestTrace call next ((h.chargeStorage wasmSdeleteGas).record key none)
    (.sdelete key :: rest.1, rest.2)
  | .call arguments next, h =>
    match (h.callHost input call arguments).2 with
    | none => ([], [])
    | some answer => guestTrace call (next answer) (h.callHost input call arguments).1
  | .revert, _ | .finish _ _ _, _ | .fail _, _ | .panicked, _ => ([], [])

/-- What a guest records and what its loads answer is what its calls do one by one. -/
theorem guestTrace_refines (call : Caller) (guest : Guest) {h : WasmEnv}
    {s : WasmEnv × List Bytes} (hs : h.storageDelta = s.1.storageDelta) :
    (runGuest call input guest h).1.storageDelta =
        (run (storageStep input) s (guestTrace input call guest h).1).1.storageDelta ∧
      (run (storageStep input) s (guestTrace input call guest h).1).2 =
        s.2 ++ (guestTrace input call guest h).2 := by
  induction guest generalizing h s with
  | burn cost next ih =>
    rw [runGuest, guestTrace]
    split
    · exact ih hs
    · exact ⟨hs, (append_nil _).symm⟩
  | txAmount next ih | txSequence next ih | senderFuel next ih | txPayload next ih =>
    exact ih _ hs
  | sload key next ih =>
    have hl : h.load input key = s.1.load input key := by
      rw [WasmEnv.load, WasmEnv.load, hs]
    obtain ⟨hd, ha⟩ := ih (h.load input key) (h := h.chargeStorage wasmSloadGas)
      (s := storageStep input s (.sload key)) hs
    refine ⟨hd, ha.trans ?_⟩
    simp [storageStep, guestTrace, hl]
  | sstore key value next ih =>
    exact ih (s := storageStep input s (.sstore key value))
      (by simp only [WasmEnv.record, WasmEnv.chargeStorage, storageStep, hs])
  | sdelete key next ih =>
    have hr := ih (h := (h.chargeStorage wasmSdeleteGas).record key none)
      (s := storageStep input s (.sdelete key))
      (by simp only [WasmEnv.record, WasmEnv.chargeStorage, storageStep, hs])
    have ha : (storageStep input s (.sdelete key)).2 = s.2 := by rw [storageStep]
    rw [ha, run] at hr
    rw [runGuest, guestTrace, run, foldl_cons]
    exact hr
  | call a next ih =>
    have ha : (h.callHost input call a).1.storageDelta = s.1.storageDelta :=
      (WasmEnv.storageDelta_callHost h call a).trans hs
    rw [runGuest_call, guestTrace]
    cases (h.callHost input call a).2 with
    | none => exact ⟨ha, (append_nil _).symm⟩
    | some answer => exact ih answer ha
  | revert | finish ol output mb | fail e | panicked => exact ⟨hs, (append_nil _).symm⟩

variable (input) in
/-- The calls of the guest that an instance runs, and their answers. -/
def WasmInstance.trace (wasm : WasmInstance) (M : EngineCodec) (call : Caller) :
    List StorageCall × List Bytes :=
  guestTrace input call (wasm.guest (input.canonicalBytes M))
    (.start (fuelBudget input.gasLimit))

/-- Loads read what a map would hold that is changed in place, the delta makes of the base
what that map ends as. In an execution that ends well these are the guest's own calls and
answers, and what it commits is within the cap. -/
theorem storage_refines_map (M : EngineCodec) (call : Caller) (input : ExecutionInput) :
    (∀ calls budget, ((storageAfter input (.start budget) calls).1.committed input,
        (storageAfter input (.start budget) calls).2) = mapAfter input calls) ∧
      ∀ output, wasmExecute M call input = some (.ok output) →
        ∃ m wasm result, validateWasmModule M input.contract.bytecode = .ok m ∧
          m.instantiate = .ok wasm ∧ output.resultData = M.rmpWasmResult result ∧
          (applyStorage input.storage result.storageDelta, (wasm.trace input M call).2) =
            mapAfter input (wasm.trace input M call).1 ∧
          ContractStorage.size (applyStorage input.storage result.storageDelta) ≤
            wasmStorageCap := by
  refine ⟨fun calls budget => storageAfter_refines calls rfl, fun output hok => ?_⟩
  obtain ⟨m, wasm, guestOutput, hm, hw, -, hs⟩ := wasmExecute_ok_iff.mp hok
  obtain ⟨hd, hf⟩ := wasmSettle_ok hs
  obtain ⟨hc, ha⟩ := guestTrace_refines call (wasm.guest (input.canonicalBytes M))
    (h := .start (fuelBudget input.gasLimit)) (s := (.start 0, [])) rfl
  refine ⟨m, wasm, _, hm, hw, hd, ?_, hf⟩
  rw [← storageAfter_refines _ (h := .start 0) rfl, WasmEnv.committed]
  refine Prod.ext ?_ ha.symm
  exact congrArg (fun delta => applyStorage input.storage (StorageDelta.entriesInOrder delta)) hc

/-! ## The price of the calls -/

/-- What a storage costs at least that came from another one: the keys it has gained, and
those that have another value now, or none. -/
def storageDue (base final : ContractStorage) : Nat :=
  wasmSstoreNewGas * (final.keys \ base.keys).card +
    wasmSstoreRewriteGas * {key ∈ base.keys | final.lookup key ≠ base.lookup key}.card

variable (input)

/-- A key that is deleted is stored, or has been recorded before. -/
def DeletesSeen (s : WasmEnv × List Bytes) : StorageCall → Prop
  | .sdelete key => key ∈ input.storage ∨ key ∈ s.1.storageDelta
  | _ => True

/-- The lowest price of the first write to a key. -/
def writePrice (key : Bytes) : Nat :=
  if key ∈ input.storage then wasmSstoreRewriteGas else wasmSstoreNewGas

def recordedDue (h : WasmEnv) : Nat := ∑ key ∈ h.storageDelta.keys, writePrice input key

/-- The gas covers the first write to every key of the record, as far as it can count. -/
def PaidFor (h : WasmEnv) : Prop :=
  min (recordedDue input h) u64Max ≤ h.storageGas ∧ h.storageGas ≤ u64Max

variable {input}

theorem PaidFor.charge {h h' : WasmEnv} {gas : Nat} (hc : PaidFor input h)
    (hg : h'.storageGas = saturatingAdd h.storageGas gas)
    (hd : recordedDue input h' ≤ recordedDue input h + gas) : PaidFor input h' := by
  unfold PaidFor at hc ⊢
  rw [hg, saturatingAdd]
  omega

theorem PaidFor.record {h : WasmEnv} {key : Bytes} {gas : Nat} (hc : PaidFor input h)
    (value : Option Bytes) (hp : key ∉ h.storageDelta → writePrice input key ≤ gas) :
    PaidFor input ((h.chargeStorage gas).record key value) := by
  have hk : (h.storageDelta.insert key value).keys = insert key h.storageDelta.keys := by
    ext other
    rw [Finmap.mem_keys, mem_insert, Finset.mem_insert, Finmap.mem_keys]
  refine hc.charge rfl ?_
  unfold recordedDue WasmEnv.record WasmEnv.chargeStorage
  dsimp only
  rw [hk]
  by_cases hm : key ∈ h.storageDelta
  · rw [Finset.insert_eq_of_mem (Finmap.mem_keys.mpr hm)]
    exact Nat.le_add_right _ _
  · rw [Finset.sum_insert fun hi => hm (Finmap.mem_keys.mp hi), Nat.add_comm]
    exact Nat.add_le_add_left (hp hm) _

theorem paidFor_storageStep (s : WasmEnv × List Bytes) (c : StorageCall) (hc : PaidFor input s.1)
    (hd : DeletesSeen input s c) : PaidFor input (storageStep input s c).1 := by
  cases c with
  | sload key => exact hc.charge rfl (Nat.le_add_right _ _)
  | sstore key value =>
    refine hc.record _ fun hm => ?_
    by_cases hs : key ∈ input.storage
    · rw [writePrice, if_pos hs, WasmEnv.sstoreGas, if_neg fun hn => lookup_eq_none.mp hn.1 hs]
    · rw [writePrice, if_neg hs, WasmEnv.sstoreGas,
        if_pos ⟨lookup_eq_none.mpr hs, lookup_eq_none.mpr hm⟩]
  | sdelete key =>
    refine hc.record _ fun hm => ?_
    rw [writePrice, if_pos (hd.resolve_right hm)]
    exact le_rfl

theorem mem_record_of_ne (input : ExecutionInput) {h : WasmEnv} {key : Bytes}
    (hk : (h.committed input).lookup key ≠ input.storage.lookup key) :
    key ∈ h.storageDelta.keys := by
  by_contra hm
  rw [lookup_committed, lookup_eq_none.mpr fun hi => hm (Finmap.mem_keys.mpr hi)] at hk
  exact hk rfl

theorem storageDue_le (input : ExecutionInput) (h : WasmEnv) :
    storageDue input.storage (h.committed input) ≤ recordedDue input h := by
  have hs : recordedDue input h =
      wasmSstoreNewGas * {key ∈ h.storageDelta.keys | key ∉ input.storage}.card +
        wasmSstoreRewriteGas * {key ∈ h.storageDelta.keys | key ∈ input.storage}.card := by
    simp only [recordedDue, writePrice, Finset.sum_ite, Finset.sum_const, smul_eq_mul]
    ring
  rw [hs]
  refine Nat.add_le_add (Nat.mul_le_mul_left _ (Finset.card_le_card fun key hk => ?_))
    (Nat.mul_le_mul_left _ (Finset.card_le_card fun key hk => ?_))
  · obtain ⟨hc, hn⟩ := Finset.mem_sdiff.mp hk
    rw [Finmap.mem_keys] at hc hn
    refine Finset.mem_filter.mpr ⟨mem_record_of_ne input fun he => lookup_eq_none.mp ?_ hc, hn⟩
    rw [he, lookup_eq_none.mpr hn]
  · obtain ⟨hb, hn⟩ := Finset.mem_filter.mp hk
    exact Finset.mem_filter.mpr ⟨mem_record_of_ne input hn, Finmap.mem_keys.mp hb⟩

/-- A guest that deletes no key before it is there pays for what it creates and changes,
up to the highest amount of gas that can be counted. -/
theorem storage_paid_iff (input : ExecutionInput) (budget : Nat) (calls : List StorageCall)
    (hm : Meets (storageStep input) (DeletesSeen input) (.start budget, []) calls) :
    storageDue input.storage (mapAfter input calls).1 ≤
        (storageAfter input (.start budget) calls).1.storageGas ↔
      storageDue input.storage (mapAfter input calls).1 ≤ u64Max := by
  have hc := run_invariant paidFor_storageStep ⟨Nat.min_le_left _ _, Nat.zero_le _⟩ hm
  rw [← storageAfter] at hc
  have hd := storageDue_le input (storageAfter input (.start budget) calls).1
  rw [show (storageAfter input (.start budget) calls).1.committed input = (mapAfter input calls).1
    from congrArg Prod.fst (storageAfter_refines calls rfl)] at hd
  unfold PaidFor at hc
  omega

/-- A contract with this code, called by this sender under a limit of one unit. -/
def oneUnit (code sender : Bytes) : ExecutionInput where
  tx := { (default : Transaction) with sender := sender }
  contract := ⟨"", code, "", ∅, [], 0⟩
  senderState := ⟨sender, 0, 0, 0⟩
  token := ⟨[], ∅, [], 0, "", 0, none⟩
  gasLimit := 1
  storage := ∅

theorem rewrite_paid :
    storageDue ∅ (mapAfter (oneUnit [] []) [.sstore [1] [2], .sdelete [1], .sstore [1] [3]]).1 ≤
      (storageAfter (oneUnit [] []) (.start 0)
        [.sstore [1] [2], .sdelete [1], .sstore [1] [3]]).1.storageGas :=
  (storage_paid_iff (oneUnit [] []) 0 [.sstore [1] [2], .sdelete [1], .sstore [1] [3]]
    ⟨trivial, .inr (by decide), trivial, trivial⟩).mpr (by decide)

/-- A key that is deleted before it is stored is paid for as if it had been there. -/
theorem deleted_first_underpaid :
    (storageAfter (oneUnit [] []) (.start 0) [.sdelete [1], .sstore [1] [2]]).1.storageGas <
      storageDue ∅ (mapAfter (oneUnit [] []) [.sdelete [1], .sstore [1] [2]]).1 := by
  decide

end Calls

end Pneumatic
