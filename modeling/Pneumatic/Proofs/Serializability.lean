import Pneumatic.Proofs.ContractState
import Pneumatic.Proofs.GuestFootprint

/-!
# Overlapping calls of one contract

A call is executed against the contract as some Executor read it, and what is committed
later is the set of its writes. Between the two, other calls may have been committed.
The writes are applied as they are: nothing is executed again, and the size of the
storage was checked on the state that was read.

A run commits calls one by one, each executed against any state of the run so far, and
beside it the same calls are executed one after the other. The two agree, and the
storage stays within its cap, as long as no call was disturbed between its execution
and its commit.
-/

namespace Pneumatic

open List Option Records Except

variable {C : Codec} {K : ContractCodec} {M : EngineCodec} {cfg : RecordsConfig}
  {registry : ContractEngineRegistry}

/-- What the data service answers from these records. -/
def Records.reads (records : Records) (partition : String) : DataReads where
  getToken key :=
    match records.tokens.lookup (partition, key) with
    | some token => .ok token
    | none => .error "DataNotFound"
  getUser key :=
    match records.users.lookup (partition, key) with
    | some user => .ok user
    | none => .error "DataNotFound"

/-- The result of a `Wasm` contract reads back. -/
def EngineCodec.ResultsReadBack (K : ContractCodec) (M : EngineCodec) : Prop :=
  ∀ moduleOutput (delta : StorageDelta),
    K.decodeWasmResult (M.rmpWasmResult ⟨moduleOutput, delta.entriesInOrder⟩) =
      some ⟨moduleOutput, delta.entriesInOrder⟩

/-! ## Runs -/

section Runs

variable (C : Codec) (K : ContractCodec) (M : EngineCodec) (cfg : RecordsConfig)
  (registry : ContractEngineRegistry)

section

variable (tokenId : Bytes) (s : SerialState) (call : OverlappingCall)

/-- A signed call and the records that its Executor met. -/
structure OverlappingCall where
  signed : Transaction
  against : Records

/-- The transaction as the Finalizer puts it in a block, with the hash of the result. -/
def stamped (tx : Transaction) (execution : ExecutionResult) : Transaction :=
  { tx with resultHash := execution.resultHash }

/-- The records with the call committed, if it executes and its delta is applied. -/
def commitExecuted (signed : Transaction) (against records : Records) : Option Records :=
  match runExecution C K M registry (against.reads cfg.environmentId) signed with
  | .error _ => none
  | .ok (tx, execution) =>
    match records.applyStorageDelta C K cfg Faults.none (stamped tx execution) with
    | .error _ => none
    | .ok written => some written

/-- The records, those of all earlier states and the present one, and those of the
calls executed one after the other. -/
structure SerialState where
  records : Records
  past : List Records
  serial : Records

def SerialState.start (records : Records) : SerialState := ⟨records, [records], records⟩

/-- One more call. A call that does not commit changes nothing. -/
def serialStep : SerialState :=
  let records := (commitExecuted C K M cfg registry call.signed call.against s.records).getD
    s.records
  { records := records
    past := records :: s.past
    serial := (commitExecuted C K M cfg registry call.signed s.serial s.serial).getD s.serial }

def Records.storage (records : Records) : ContractStorage :=
  match records.tokens.lookup (cfg.environmentId, tokenId) with
  | none => ∅
  | some token =>
    match token.getAsset K with
    | none => ∅
    | some contract => contract.storage

/-- What the engine is given for a call, with these records. -/
def Records.inputOf (signed : Transaction) (records : Records) : Option ExecutionInput :=
  match records.tokens.lookup (cfg.environmentId, signed.tokenId) with
  | none => none
  | some token =>
    match token.getAsset K with
    | none => none
    | some contract =>
      (records.users.lookup (cfg.environmentId, signed.sender)).map
        fun user => executionInput signed contract token user

/-- What a frame at the top calls with, with these records. -/
def Records.callee (records : Records) : CallRequest → Option CallOutcome :=
  executeCall M ⟨resolveTarget K (records.reads cfg.environmentId), registry⟩ maxCallDepth

/-- The call is one of the contract, executed against a state of the run, and is
committed. -/
structure IsCommitted :
    Prop where
  action : call.signed.action = "ContractCall"
  token : call.signed.tokenId = tokenId
  against : call.against ∈ s.past
  commits : (commitExecuted C K M cfg registry call.signed call.against s.records).isSome

/-- Nothing that the call can notice has changed since it was executed, and its writes
still fit: no more is stored than there was then, or there is room for all of them. -/
structure Unnoticed (keys : Set Bytes) (targets : CallTargets) : Prop where
  touches : ∀ input ∈ call.against.inputOf K cfg call.signed, input.TouchesWithin M keys
  calls : ∀ input ∈ call.against.inputOf K cfg call.signed, input.CallsWithin M targets .wasm
  storage : ∀ key ∈ keys, (call.against.storage K cfg tokenId).lookup key =
    (s.records.storage K cfg tokenId).lookup key
  answers : SameAnswers targets (call.against.callee K M cfg registry)
    (s.records.callee K M cfg registry)
  room : (s.records.storage K cfg tokenId).size ≤ (call.against.storage K cfg tokenId).size ∨
    ∀ tx execution result,
      runExecution C K M registry (call.against.reads cfg.environmentId) call.signed =
        .ok (tx, execution) →
      K.decodeWasmResult tx.resultData = some result →
      (s.records.storage K cfg tokenId).size + deltaBytes result.storageDelta ≤ wasmStorageCap

end

end Runs

/-! ## Executions that end well -/

theorem wasm_of_get {engine : Engine} (h : registry.get "Wasm" = some engine) : engine = .wasm := by
  have hn : (engine.name == "Wasm") = true :=
    find?_some (p := fun engine : Engine => engine.name == "Wasm") h
  cases engine with
  | transfer => cases hn
  | spec => cases hn
  | wasm => rfl

variable {output : ExecutionOutput} {reads : DataReads} {tx : Transaction}

theorem executeContract_ok_iff {token : Token} {user : User} {contract : SmartContract}
    (ha : token.getAsset K = some contract)
    (he : token.metadata.lookup "contract_engine" = some "Wasm") :
    executeContract K M registry reads tx token user = .ok output ↔
      registry.get "Wasm" = some .wasm ∧
        wasmExecute M (some (executeCall M ⟨resolveTarget K reads, registry⟩
          maxCallDepth)) (executionInput tx contract token user) = some (.ok output) := by
  unfold executeContract selectEngine
  rw [ha, he]
  dsimp only
  cases hget : registry.get "Wasm" with
  | none => simp
  | some en =>
    obtain rfl := wasm_of_get hget
    simp only [Engine.executeTop, Engine.execute]
    cases wasmExecute M (some (executeCall M ⟨resolveTarget K reads, registry⟩
        maxCallDepth)) (executionInput tx contract token user) with
    | none => simp
    | some rs =>
      cases rs with
      | error e => simp
      | ok output => simp

theorem execute_call_ok_iff (ha : tx.action = "ContractCall") :
    execute C K M registry reads tx = .ok output ↔
      ∃ token user, reads.getToken tx.tokenId = .ok token ∧ reads.getUser tx.sender = .ok user ∧
        executeContract K M registry reads tx token user = .ok output := by
  unfold execute
  rw [if_neg (by rw [ha]; decide)]
  cases reads.getToken tx.tokenId with
  | error e => simp
  | ok token =>
    cases reads.getUser tx.sender with
    | error e => simp
    | ok user =>
      dsimp only
      rw [if_neg (by rw [ha]; decide)]
      simp

theorem runExecution_ok {tx' : Transaction} {execution : ExecutionResult}
    (h : runExecution C K M registry reads tx = .ok (tx', execution)) :
    ∃ output, execute C K M registry reads tx = .ok output ∧
      tx' = { tx with resultData := output.resultData } ∧ output.resultData ≠ [] := by
  unfold runExecution at h
  cases he : execute C K M registry reads tx with
  | error e => rw [he] at h; cases h
  | ok output =>
    rw [he] at h
    dsimp only at h
    split at h
    · cases h
    · next hv =>
      refine ⟨output, rfl, (Prod.mk.inj (ok.inj h)).1.symm, ?_⟩
      intro hnil
      unfold validateExecutionResult executionFaults at hv
      simp [hnil] at hv

/-! ## One contract, many storages -/

/-- A `Wasm` contract in its records, under its own id. -/
structure RecordedContract where
  records : Records
  token : Token
  contract : SmartContract
  engine : token.metadata.lookup "contract_engine" = some "Wasm"

namespace RecordedContract

variable (K cfg) (r : RecordedContract)

def tokenWith (storage : ContractStorage) : Token :=
  { r.token with
    assetData := some (K.rmpSmartContract { r.contract with storage := storage }) }

def holding (storage : ContractStorage) : Records :=
  { r.records with
    tokens := r.records.tokens.insert (cfg.environmentId, r.token.id)
      (r.tokenWith K storage) }

variable {K cfg} {r} {storage : ContractStorage} {signed : Transaction}

theorem lookup_holding : (r.holding K cfg storage).tokens.lookup (cfg.environmentId, r.token.id) =
      some (r.tokenWith K storage) :=
  Finmap.lookup_insert _

theorem getAsset_tokenWith (hK : K.Lawful) :
    (r.tokenWith K storage).getAsset K = some { r.contract with storage := storage } :=
  hK _

theorem storage_holding (hK : K.Lawful) :
    (r.holding K cfg storage).storage K cfg r.token.id = storage := by
  unfold Records.storage
  simp only [lookup_holding, getAsset_tokenWith hK]

/-- What the engine is given for a call by this user. -/
def input (K : ContractCodec) (r : RecordedContract) (signed : Transaction) (user : User)
    (storage : ContractStorage) : ExecutionInput :=
  executionInput signed { r.contract with storage := storage } (r.tokenWith K storage) user

theorem inputOf_holding (hK : K.Lawful) (ht : signed.tokenId = r.token.id) :
    (r.holding K cfg storage).inputOf K cfg signed =
      (r.records.users.lookup (cfg.environmentId, signed.sender)).map
        fun user => r.input K signed user storage := by
  unfold inputOf
  rw [ht, lookup_holding]
  dsimp only
  rw [getAsset_tokenWith hK]
  rfl

theorem canon_input (user : User) (storage storage' : ContractStorage) :
    (r.input K signed user storage).canon = (r.input K signed user storage').canon := rfl

theorem getUser_holding (key : Bytes) (user : User) :
    ((r.holding K cfg storage).reads cfg.environmentId).getUser key = .ok user ↔
      r.records.users.lookup (cfg.environmentId, key) = some user := by
  show (match r.records.users.lookup (cfg.environmentId, key) with
    | some user => ok user
    | none => .error "DataNotFound") = _ ↔ _
  cases r.records.users.lookup (cfg.environmentId, key) with
  | none => simp
  | some user => simp

theorem getToken_holding : ((r.holding K cfg storage).reads cfg.environmentId).getToken r.token.id =
      .ok (r.tokenWith K storage) := by
  unfold reads
  dsimp only
  rw [lookup_holding]

/-- An execution of a call that ends well: who called, and what the engine gave. -/
theorem execute_holding (hK : K.Lawful) (ha : signed.action = "ContractCall")
    (ht : signed.tokenId = r.token.id) (output : ExecutionOutput) :
    execute C K M registry ((r.holding K cfg storage).reads cfg.environmentId) signed = .ok output ↔
      ∃ user, r.records.users.lookup (cfg.environmentId, signed.sender) = some user ∧
        registry.get "Wasm" = some .wasm ∧
        wasmExecute M (some ((r.holding K cfg storage).callee K M cfg registry))
          (r.input K signed user storage) = some (.ok output) := by
  have hc : ∀ user, executeContract K M registry
      ((r.holding K cfg storage).reads cfg.environmentId) signed (r.tokenWith K storage)
      user = .ok output ↔ _ :=
    fun user => executeContract_ok_iff (getAsset_tokenWith hK) r.engine
  rw [execute_call_ok_iff ha, ht, getToken_holding]
  constructor
  · rintro ⟨token, user, ht, hu, hok⟩
    obtain rfl := ok.inj ht
    exact ⟨user, (getUser_holding _ _).mp hu, (hc user).mp hok⟩
  · rintro ⟨user, hu, hok⟩
    exact ⟨_, user, rfl, (getUser_holding _ _).mpr hu, (hc user).mpr hok⟩

theorem applyStorageDelta_holding (hK : K.Lawful) (tx : Transaction) {written : Records}
    {result : WasmResult} (ht : tx.tokenId = r.token.id) (hd : tx.resultData ≠ [])
    (hr : K.decodeWasmResult tx.resultData = some result)
    (h : (r.holding K cfg storage).applyStorageDelta C K cfg Faults.none tx = .ok written) :
    written = r.holding K cfg (applyStorage storage result.storageDelta) := by
  have hget : (r.holding K cfg storage).getContract cfg Faults.none tx.tokenId =
      some (r.tokenWith K storage) := by
    rw [ht]
    exact lookup_holding
  rcases applyStorageDelta_ok h with ⟨-, hno⟩ | ⟨token, contract, result', hf, -, -, ha, hr', rfl⟩
  · rcases hno _ hget with he | hem
    · exact absurd r.engine he
    · exact absurd hem hd
  · obtain rfl := mem_unique hget hf
    obtain rfl := mem_unique hr hr'
    obtain rfl := mem_unique (getAsset_tokenWith hK) ha
    have hs : ((r.holding K cfg storage).tokens.insert (cfg.environmentId, r.token.id)
        (r.tokenWith K (applyStorage storage result.storageDelta))) =
          r.records.tokens.insert (cfg.environmentId, r.token.id)
            (r.tokenWith K (applyStorage storage result.storageDelta)) :=
      Finmap.insert_insert _
    exact congrArg (Records.mk · r.records.users r.records.pools) hs

end RecordedContract

/-! ## The invariant of a run -/

open RecordedContract

/-- Every state so far is the contract with some storage, the present one within the
cap and the one of the calls executed one by one. -/
structure SerialInv (K : ContractCodec) (cfg : RecordsConfig) (r : RecordedContract)
    (s : SerialState) : Prop where
  present : ∃ storage, s.records = r.holding K cfg storage ∧ storage.size ≤ wasmStorageCap
  past : ∀ earlier ∈ s.past, ∃ storage, earlier = r.holding K cfg storage
  serial : s.serial = s.records

variable {r : RecordedContract} {s : SerialState} {call : OverlappingCall}

/-- The calls of such a step end the same on the present storage. -/
theorem Unnoticed.executes {keys : Set Bytes} {targets : CallTargets}
    {storage storage' : ContractStorage} (hK : K.Lawful) (hM : EngineCodec.ResultsReadBack K M)
    (hc : IsCommitted C K M cfg registry r.token.id s call)
    (h : Unnoticed C K M cfg registry r.token.id s call keys targets)
    (ha : call.against = r.holding K cfg storage)
    (hp : s.records = r.holding K cfg storage') {execution : ExecutionResult}
    (hrun : runExecution C K M registry (call.against.reads cfg.environmentId)
      call.signed = .ok (tx, execution)) :
    ∃ rs, K.decodeWasmResult tx.resultData = some rs ∧ tx.resultData ≠ [] ∧
      tx.tokenId = r.token.id ∧
      ContractStorage.size (applyStorage storage' rs.storageDelta) ≤ wasmStorageCap ∧
      runExecution C K M registry (s.records.reads cfg.environmentId) call.signed =
        .ok (tx, execution) := by
  obtain ⟨output, he, htx, hdt⟩ := runExecution_ok hrun
  rw [ha] at he
  obtain ⟨user, hu, hget, hok⟩ :=
    (execute_holding hK hc.action hc.token output).mp he
  have hi : r.input K call.signed user storage ∈ call.against.inputOf K cfg call.signed := by
    rw [ha, inputOf_holding hK hc.token, hu]
    rfl
  have hag : ∀ key ∈ keys, storage.lookup key = storage'.lookup key := by
    intro key hkey
    have hk := h.storage key hkey
    rwa [ha, hp, storage_holding hK, storage_holding hK] at hk
  have han := h.answers
  rw [ha] at han
  obtain ⟨moduleOutput, delta, hs⟩ := wasmExecute_same
    (canon_input user storage storage') hag han (h.touches _ hi)
    (h.calls _ hi) hok
  have hd : K.decodeWasmResult tx.resultData = some ⟨moduleOutput, delta.entriesInOrder⟩ := by
    rw [htx]
    rw [hs.data, hM]
  have hr : ContractStorage.size (applyStorage storage' delta.entriesInOrder) ≤ wasmStorageCap := by
    have hsh := size_applyStorage_shift delta.entriesInOrder
      fun entry hen => hag entry.1 (hs.touches entry hen)
    have hf : ContractStorage.size (applyStorage storage delta.entriesInOrder) ≤
        wasmStorageCap := hs.fits
    rcases h.room with hsm | hb
    · rw [ha, hp, storage_holding hK, storage_holding hK] at hsm
      omega
    · have had := hb tx execution _ hrun hd
      rw [hp, storage_holding hK] at had
      exact (size_applyStorage_le _ _).trans had
  refine ⟨_, hd, ?_, ?_, hr, ?_⟩
  · rw [htx]
    exact hdt
  · rw [htx]
    exact hc.token
  · have haga : execute C K M registry (s.records.reads cfg.environmentId)
        call.signed = .ok output := by
      have ho := hs.same hr
      rw [hp] at ho ⊢
      exact (execute_holding hK hc.action hc.token output).mpr ⟨user, hu, hget, ho⟩
    rw [ha] at hrun
    unfold runExecution at hrun ⊢
    rwa [haga, ← he]

theorem SerialInv.step (hK : K.Lawful) (hM : EngineCodec.ResultsReadBack K M)
    (hs : SerialInv K cfg r s) (hc : IsCommitted C K M cfg registry r.token.id s call)
    (h : ∃ keys t, Unnoticed C K M cfg registry r.token.id s call keys t) :
    SerialInv K cfg r (serialStep C K M cfg registry s call) := by
  obtain ⟨keys, t, hu⟩ := h
  obtain ⟨storage', hp, -⟩ := hs.present
  obtain ⟨storage, hag⟩ := hs.past _ hc.against
  obtain ⟨written, hw⟩ := isSome_iff_exists.mp hc.commits
  obtain ⟨⟨tx, e⟩, hrun, ha⟩ :
      ∃ ended, runExecution C K M registry (call.against.reads cfg.environmentId)
          call.signed = .ok ended ∧
        s.records.applyStorageDelta C K cfg Faults.none (stamped ended.1 ended.2) =
          .ok written := by
    unfold commitExecuted at hw
    split at hw
    · cases hw
    · next tx e hrun =>
      split at hw
      · cases hw
      · next a ha =>
        obtain rfl := some.inj hw
        exact ⟨_, hrun, ha⟩
  obtain ⟨rs, hr, hd, ht, hrm, han⟩ :=
    hu.executes hK hM hc hag hp hrun
  have hh : written = r.holding K cfg (applyStorage storage' rs.storageDelta) := by
    rw [hp] at ha
    exact applyStorageDelta_holding hK (stamped tx e) ht hd hr ha
  have hsr : commitExecuted C K M cfg registry call.signed s.records s.records = some written := by
    unfold commitExecuted
    rw [han]
    dsimp only
    rw [ha]
  have hst : serialStep C K M cfg registry s call = ⟨written, written :: s.past, written⟩ := by
    unfold serialStep
    rw [hs.serial, hsr, hw]
    rfl
  rw [hst]
  refine ⟨⟨_, hh, hrm⟩, ?_, rfl⟩
  intro er he
  rcases mem_cons.mp he with rfl | hps
  · exact ⟨_, hh⟩
  · exact hs.past er hps

/-- In every run of committed calls, none of which has something to notice, the storage is the one
that the calls leave one after the other, and within the cap. -/
theorem calls_serialize (hK : K.Lawful) (hM : EngineCodec.ResultsReadBack K M)
    {storage : ContractStorage} (hsize : storage.size ≤ wasmStorageCap)
    {calls : List OverlappingCall} (hcalls : Run.Meets (serialStep C K M cfg registry)
      (fun s call => IsCommitted C K M cfg registry r.token.id s call ∧
        ∃ keys targets, Unnoticed C K M cfg registry r.token.id s call keys targets)
      (.start (r.holding K cfg storage)) calls) :
    ∃ s, s = Run.run (serialStep C K M cfg registry) (.start (r.holding K cfg storage)) calls ∧
      s.records.storage K cfg r.token.id = s.serial.storage K cfg r.token.id ∧
      (s.records.storage K cfg r.token.id).size ≤ wasmStorageCap := by
  have hst : SerialInv K cfg r (.start (r.holding K cfg storage)) := by
    refine ⟨⟨storage, rfl, hsize⟩, ?_, rfl⟩
    intro e he
    exact ⟨storage, mem_singleton.mp he⟩
  have hend := Run.run_invariant (fun s call hs hc => hs.step hK hM hc.1 hc.2) hst hcalls
  refine ⟨_, rfl, ?_, ?_⟩
  · rw [hend.serial]
  · obtain ⟨storage', hp, hf⟩ := hend.present
    rw [hp, storage_holding hK]
    exact hf

/-! ## A counter -/

deriving instance Countable for SmartContract
deriving instance DecidableEq, Countable for WasmResult

namespace Counter

open Words ShieldedPool

instance : Nonempty SmartContract := ⟨⟨"", [], "", ∅, [], 0⟩⟩
instance : Nonempty WasmResult := ⟨⟨[], []⟩⟩

/-- A storage with one byte for every call that counted, and the marks. -/
def storageOf (count : Nat) (marks : List Bytes) : ContractStorage :=
  applyStorage ∅ ((if count = 0 then [] else [([1], some (List.replicate count 0))]) ++
    marks.map fun mark => (mark, some [0]))

def contract (storage : ContractStorage) : SmartContract := ⟨"", [], "", storage, [], 0⟩

def contractBook : List (SmartContract × Bytes) :=
  [(contract (storageOf 0 []), [1]), (contract (storageOf 1 []), [2]),
    (contract (storageOf 2 []), [3]), (contract (storageOf 0 [[2]]), [4]),
    (contract (storageOf 0 [[2], [3]]), [5])]

def resultBook : List (WasmResult × Bytes) :=
  [(⟨[], [([1], some [0])]⟩, [1]), (⟨[], [([1], some [0, 0])]⟩, [2]),
    (⟨[], [([2], some [0])]⟩, [3]), (⟨[], [([3], some [0])]⟩, [4])]

/-- An empty payload counts, another is a mark. -/
def guest : Guest :=
  .txPayload fun payload =>
    if payload = [] then
      .sload [1] fun value => .sstore [1] (value ++ [0]) (.finish 0 [] 65536)
    else .sstore payload [0] (.finish 0 [] 65536)

theorem one_le_u64Max : 1 ≤ u64Max := by decide

def module : WasmModule :=
  { Echo.module with
    instantiate := .ok ⟨1, Nat.one_pos, one_le_u64Max, fun _ => guest⟩ }

noncomputable def engines : EngineCodec where
  rmpExecutionInput _ := []
  rmpTransferDelta _ := []
  rmpWasmResult := listed resultBook
  rmpDigestInput _ _ _ _ _ := []
  decodeTransferDelta _ := none
  decodeProgram _ := .error ""
  compileModule _ := .ok module

noncomputable def contracts : ContractCodec where
  rmpSmartContract := listed contractBook
  rmpDeployId _ _ _ _ := []
  rmpCreateTokenDelta _ := []
  rmpReplaceAssetDelta _ := []
  decodeSmartContract bytes := some (read contractBook bytes)
  decodeDeployParams _ := none
  decodeUpgradeParams _ := none
  decodeWasmResult bytes := some (read resultBook bytes)

theorem contracts_lawful : contracts.Lawful := by
  intro c
  refine congrArg some (read_listed (by decide) ?_ c)
  intro tail hmem
  simp [contractBook] at hmem

theorem results_read_back : EngineCodec.ResultsReadBack contracts engines := by
  intro mo delta
  refine congrArg some (read_listed (by decide) ?_ _)
  intro tail hmem
  simp [resultBook] at hmem

def recorded : RecordedContract where
  records := ⟨∅, (∅ : Finmap fun _ : String × Bytes => User).insert ("env", [5]) ⟨[5], 0, 0, 0⟩, ∅⟩
  token := Echo.token
  contract := contract ∅
  engine := Finmap.lookup_insert _

noncomputable def start : Records := recorded.holding contracts sharedRecords ∅

/-- Two calls, both executed before either was committed. -/
noncomputable def overlapping (first second : Bytes) : List OverlappingCall :=
  [⟨{ Echo.call [] none with payload := first }, start⟩,
    ⟨{ Echo.call [] none with payload := second }, start⟩]

noncomputable abbrev step : SerialState → OverlappingCall → SerialState :=
  serialStep sampleCodec contracts engines sharedRecords Echo.registry

noncomputable def ended (calls : List OverlappingCall) : SerialState :=
  Run.run step (.start start) calls

/-- Two calls count at once, and one of them is not counted. -/
theorem overlapping_count_lost :
    Run.Meets step (IsCommitted sampleCodec contracts engines sharedRecords
        Echo.registry [9]) (.start start) (overlapping [] []) ∧
      ((ended (overlapping [] [])).records.storage contracts sharedRecords [9]).lookup [1] =
        some [0] ∧
      ((ended (overlapping [] [])).serial.storage contracts sharedRecords [9]).lookup [1] =
        some [0, 0] := by
  refine ⟨⟨⟨rfl, rfl, ?_, rfl⟩, ⟨rfl, rfl, ?_, rfl⟩, trivial⟩, rfl, rfl⟩
  · exact mem_singleton_self _
  · exact mem_cons_of_mem _ (mem_singleton_self _)

def markCall (mark : Bytes) : Transaction := { Echo.call [] none with payload := mark }

/-- A mark touches its own key and calls nothing. -/
theorem mark_footprint (mark : Bytes) (hmr : mark ≠ []) :
    ∀ input ∈ start.inputOf contracts sharedRecords (markCall mark),
      input.TouchesWithin engines {mark} ∧ input.CallsWithin engines ∅ .wasm := by
  intro input hi
  have hio : start.inputOf contracts sharedRecords (markCall mark) =
      some (recorded.input contracts (markCall mark) ⟨[5], 0, 0, 0⟩ ∅) := by
    have hu : recorded.records.users.lookup ("env", [5]) = some ⟨[5], 0, 0, 0⟩ :=
      Finmap.lookup_insert _
    unfold start
    exact congrArg (Option.map _) hu
  obtain rfl := some.inj hi
  have hg : ∀ module wasm, validateWasmModule engines [] = .ok module →
      module.instantiate = .ok wasm → ∀ bytes, wasm.program bytes = guest := by
    intro module wasm hm hw bytes
    have hk : validateWasmModule engines [] = .ok Counter.module := rfl
    obtain rfl := ok.inj (hk.symm.trans hm)
    obtain rfl := ok.inj hw
    rfl
  constructor
  · intro module wasm hm hw
    rw [hg module wasm hm hw]
    show (if mark = [] then _ else _ : Guest).TouchesWithin _ _
    rw [if_neg hmr]
    exact ⟨rfl, trivial⟩
  · intro module wasm hm hw
    rw [hg module wasm hm hw]
    show (if mark = [] then _ else _ : Guest).CallsWithin _ _
    rw [if_neg hmr]
    exact trivial

theorem mark_runs : runExecution sampleCodec contracts engines Echo.registry
        (start.reads sharedRecords.environmentId) (markCall [3]) =
      .ok ({ markCall [3] with resultData := [4] }, ⟨"call", [4], [4], 20001⟩) := by
  decide +kernel

/-- Two marks set at once are both there. -/
theorem marks_serialize : ∃ s, s = Run.run step (.start start) (overlapping [2] [3]) ∧
      s.records.storage contracts sharedRecords [9] = s.serial.storage contracts sharedRecords [9] ∧
      (s.records.storage contracts sharedRecords [9]).size ≤ wasmStorageCap := by
  have hf := mark_footprint [2] (by decide)
  have hs := mark_footprint [3] (by decide)
  refine calls_serialize contracts_lawful results_read_back (by decide +kernel)
    ⟨⟨⟨rfl, rfl, ?_, rfl⟩, {[2]}, ∅, ?_⟩, ⟨⟨rfl, rfl, ?_, rfl⟩, {[3]}, ∅, ?_⟩, trivial⟩
  · exact mem_singleton_self _
  · exact
      { touches := fun input hi => (hf input hi).1
        calls := fun input hi => (hf input hi).2
        storage := fun _ _ => rfl
        answers := fun _ ht => absurd ht (Set.notMem_empty _)
        room := .inl le_rfl }
  · exact mem_cons_of_mem _ (mem_singleton_self _)
  · refine
      { touches := fun input hi => (hs input hi).1
        calls := fun input hi => (hs input hi).2
        storage := ?_
        answers := fun _ ht => absurd ht (Set.notMem_empty _)
        room := .inr ?_ }
    · rintro key rfl
      decide +kernel
    · intro tx execution result hrun hr
      obtain ⟨rfl, -⟩ := Prod.mk.inj (ok.inj (mark_runs.symm.trans hrun))
      have hrd : contracts.decodeWasmResult [4] = some ⟨[], [([3], some [0])]⟩ := by
        decide +kernel
      obtain rfl := mem_unique hrd hr
      decide +kernel

end Counter

end Pneumatic
