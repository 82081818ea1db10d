import Pneumatic.Lib.Run
import Pneumatic.Proofs.DataAcknowledged

/-!
# The data service against independent maps

A caller of the provider thinks of six maps: one for each kind of entity, each
by its own keys and by partition. The service has one map, by the bytes of the
key, and the six kinds share it. A value is not read as one of another kind, so
the two agree on a get until a save of another kind has taken the slot.

`Ledger` runs both side by side, with the last save into every slot. What a get
gives is decided by that save: `Ledger.Consistent` carries it along a run.
-/

namespace Pneumatic

open Handler HandlerM Run Finmap Option Function

variable (D : DataCodec) (F : StateFormat)

/-- A call of the provider, each over a channel of its own. -/
inductive DataCall where
  | save (channel : Channel) (save : Save)
  | get (channel : Channel) (entity : Entity) (partitionId : String)

def Entity.getRequest (entity : Entity) (partitionId : String) : DataRequest :=
  ⟨entity.storageKey, .get entity.getOp, partitionId⟩

def callStep (store : DataStore) : DataCall → DataStore
  | .save channel save => (save.exec D F channel store).2
  | .get channel entity partitionId =>
    ((getEntity D F channel entity partitionId).exec store).2

/-- Nothing goes wrong between the two ends: the request arrives, and the reply
does. -/
def Delivered (channel : Channel) (request : DataRequest) (response : Bytes) : Prop :=
  (∃ payload, served D channel request = some payload ∧
    D.deserializeRequest payload = some request) ∧
  authTagLen + response.length ≤ maxFrameSize ∧ AnsweredWith D channel response

/-- A call that does not fail on its way, nor, when it is a save, at the store. -/
def Undisturbed (store : DataStore) : DataCall → Prop
  | .save channel save =>
    Delivered D channel (save.request D) [] ∧
      ∃ value, save.bytes D = some value ∧ WritesOut F channel.fault store save.key value
  | .get channel entity partitionId =>
    Delivered D channel (entity.getRequest partitionId)
      ((store.get partitionId entity.storageKey).getD [])

def snapshotSaves (channel : Channel) (epoch : UInt64) (stakes : StakeSet)
    (partitionId : String) : List DataCall :=
  [.save channel ⟨.stakeSnapshot epoch, stakes, partitionId⟩,
    .save channel ⟨.executorSet epoch, stakes.toExecutorSet, partitionId⟩]

def SavedMaps : Type := (entity : Entity) → String → Option entity.kind.Value

def SavedMaps.record (saved : SavedMaps) (save : Save) : SavedMaps :=
  fun entity partitionId =>
    if h : save.entity = entity ∧ save.partitionId = partitionId then
      some (h.1 ▸ save.value)
    else saved entity partitionId

variable {entity : Entity} {partitionId : String} {save : Save} {store : DataStore} {value : Bytes}

theorem SavedMaps.record_of_ne (saved : SavedMaps)
    (h : save.key ≠ (partitionId, entity.storageKey)) :
    saved.record save entity partitionId = saved entity partitionId := by
  refine dif_neg ?_
  rintro ⟨rfl, rfl⟩
  exact h rfl

/-- The service, the six maps, and the last save into every slot. -/
structure Ledger where
  store : DataStore
  saved : SavedMaps
  writers : StoreKey → Option Save

namespace Ledger

def fresh (store : DataStore) : Ledger := ⟨store, fun _ _ => none, fun _ => none⟩

def step (ledger : Ledger) (call : DataCall) : Ledger :=
  match call with
  | .save _ save =>
    { store := callStep D F ledger.store call
      saved := ledger.saved.record save
      writers := Function.update ledger.writers save.key (some save) }
  | .get .. => { ledger with store := callStep D F ledger.store call }

def after (store : DataStore) (calls : List DataCall) : Ledger :=
  run (step D F) (fresh store) calls

/-- None of the calls is disturbed in the store it meets. -/
def Smooth (store : DataStore) (calls : List DataCall) : Prop :=
  Meets (step D F) (fun ledger call => Undisturbed D F ledger.store call) (fresh store) calls

/-- A slot has what its last writer has put there, and that is the latest value of
the entity the writer has saved. -/
structure Consistent (ledger : Ledger) : Prop where
  stored : ∀ key save, ledger.writers key = some save →
    ∃ value, save.bytes D = some value ∧ ledger.store.entries.lookup key = some value
  absent : ∀ key, ledger.writers key = none → ledger.store.entries.lookup key = none
  latest : ∀ key save, ledger.writers key = some save →
    save.key = key ∧ ledger.saved save.entity save.partitionId = some save.value
  written : ∀ entity partitionId, ledger.saved entity partitionId ≠ none →
    ledger.writers (partitionId, entity.storageKey) ≠ none

end Ledger

variable {D F}

theorem put_entries {fault : Option PersistFault} {key : Bytes} :
    Keeps (put F fault partitionId key value) store fun after =>
      after.entries = store.entries.insert (partitionId, key) value := by
  simp only [put, persist, Keeps, ends_bind, ends_update, ends_getState]
  cases store.disk with
  | none => rfl
  | some disk =>
    simp only [ends_bind, ends_require, ends_ofOption]
    refine ⟨fun _ => ⟨fun body _ => ?_, fun _ => trivial⟩, fun _ => trivial⟩
    cases fault with
    | none => exact ends_bind.mpr (ends_ofOption.mpr ⟨fun _ _ => rfl, fun _ => rfl⟩)
    | some fault =>
      cases fault with
      | directory => exact ends_bind.mpr (ends_ofOption.mpr ⟨fun _ _ => rfl, fun _ => rfl⟩)
      | write left => rfl
      | rename => rfl

variable {channel : Channel}

theorem Save.entries_exec {response : Bytes} (hb : save.bytes D = some value)
    (hd : Delivered D channel (save.request D) response) :
    (save.exec D F channel store).2.entries = store.entries.insert save.key value := by
  obtain ⟨⟨p, hs, hdc⟩, -⟩ := hd
  rw [(exec_served hs (dispatchRequest_put hdc hb)).1]
  exact keeps_iff.mp put_entries

def Entity.read (D : DataCodec) (entity : Entity) (response : Bytes) :
    Except DataError entity.kind.Value :=
  match D.deserialize entity.kind response with
  | none => .error .deserialization
  | some stored => entity.unwrap D stored

theorem exec_getEntity (h : Undisturbed D F store (.get channel entity partitionId)) :
    (getEntity D F channel entity partitionId).exec store =
      (entity.read D ((store.get partitionId entity.storageKey).getD []), store) := by
  obtain ⟨⟨p, hs, hdc⟩, hf, ha⟩ := h
  have hd : dispatchRequest D F channel.fault p store =
      ((store.get partitionId entity.storageKey).getD [], store) := by
    unfold dispatchRequest
    rw [hdc]
    rfl
  have he : (exchange D F channel ⟨entity.storageKey, .get entity.getOp, partitionId⟩).exec store =
      (.ok ((store.get partitionId entity.storageKey).getD []), store) :=
    exec_of_ends ((exchange_served hs hd hf).mono (fun _ _ h => ⟨h.1, h.2.1⟩) fun _ _ h => h.2 ha)
  unfold getEntity getDataInternal Entity.read
  rw [exec_bind, exec_bind, he]
  dsimp only
  cases D.deserialize entity.kind ((store.get partitionId entity.storageKey).getD []) with
  | none => rfl
  | some s => rfl

theorem Save.read_bytes (h : save.bytes D = some value) :
    save.entity.read D value = .ok save.value := by
  unfold Entity.read
  rw [D.deserialize_serialize _ _ _ h]
  exact save.entity.unwrap_wrap D save.value

namespace Ledger

variable {ledger : Ledger} {store : DataStore} {calls : List DataCall}

theorem consistent_fresh (he : store.entries = ∅) : (fresh store).Consistent D where
  stored _ _ h := by cases h
  absent key _ := by
    rw [fresh, he]
    exact lookup_empty key
  latest _ _ h := by cases h
  written _ _ h := absurd rfl h

variable {save : Save} {entity : Entity} {partitionId : String}

theorem Consistent.step_save
    (h : ledger.Consistent D) (hc : Undisturbed D F ledger.store (.save channel save)) :
    (ledger.step D F (.save channel save)).Consistent D := by
  obtain ⟨hd, value, hb, -⟩ := hc
  have he : (ledger.step D F (.save channel save)).store.entries =
      ledger.store.entries.insert save.key value := save.entries_exec hb hd
  have hwr : (ledger.step D F (.save channel save)).writers =
      update ledger.writers save.key (some save) := rfl
  have hs : (ledger.step D F (.save channel save)).saved = ledger.saved.record save := rfl
  refine ⟨fun key w hw => ?_, fun key hn => ?_, fun key w hw => ?_,
    fun entity partitionId hsm => ?_⟩
  · rw [hwr] at hw
    rw [he]
    by_cases hkey : key = save.key
    · subst hkey
      rw [update_self, some.injEq] at hw
      subst hw
      exact ⟨value, hb, lookup_insert _⟩
    · rw [update_of_ne hkey] at hw
      rw [lookup_insert_of_ne _ hkey]
      exact h.stored key w hw
  · rw [hwr] at hn
    have hkey : key ≠ save.key := by
      rintro rfl
      rw [update_self] at hn
      cases hn
    rw [update_of_ne hkey] at hn
    rw [he, lookup_insert_of_ne _ hkey]
    exact h.absent key hn
  · rw [hwr] at hw
    rw [hs]
    by_cases hkey : key = save.key
    · subst hkey
      rw [update_self, some.injEq] at hw
      subst hw
      exact ⟨rfl, dif_pos ⟨rfl, rfl⟩⟩
    · rw [update_of_ne hkey] at hw
      obtain ⟨hwt, hv⟩ := h.latest key w hw
      refine ⟨hwt, ?_⟩
      rw [SavedMaps.record_of_ne _ (fun hsa => hkey (hwt.symm.trans hsa.symm))]
      exact hv
  · rw [hwr]
    by_cases hkey : (partitionId, entity.storageKey) = save.key
    · rw [hkey, update_self]
      exact some_ne_none _
    · rw [update_of_ne hkey]
      rw [hs, SavedMaps.record_of_ne _ (Ne.symm hkey)] at hsm
      exact h.written entity partitionId hsm

theorem Consistent.step {call : DataCall} (h : ledger.Consistent D)
    (hc : Undisturbed D F ledger.store call) : (ledger.step D F call).Consistent D := by
  cases call with
  | save channel save => exact h.step_save hc
  | get channel entity partitionId =>
    have hs : callStep D F ledger.store (.get channel entity partitionId) = ledger.store := by
      rw [callStep, exec_getEntity hc]
    unfold Ledger.step
    rw [hs]
    exact h

theorem consistent_after (he : store.entries = ∅) (hc : Smooth D F store calls) :
    (after D F store calls).Consistent D :=
  run_invariant (fun _ _ h hcl => h.step hcl) (consistent_fresh he) hc

/-- The last writer of a slot decides what is read there. -/
theorem Consistent.read_slot (h : ledger.Consistent D)
    (hw : ledger.writers (partitionId, entity.storageKey) = some save) :
    ∃ value, save.bytes D = some value ∧
      (ledger.store.get partitionId entity.storageKey).getD [] = value := by
  obtain ⟨value, hb, hl⟩ := h.stored _ _ hw
  refine ⟨value, hb, ?_⟩
  rw [DataStore.get, hl, getD_some]

/-- A slot whose last writer was of the same kind has the entity's latest value. -/
theorem Consistent.read_sameKind (h : ledger.Consistent D)
    (hw : ledger.writers (partitionId, entity.storageKey) = some save)
    (hk : save.entity.kind = entity.kind) (value : entity.kind.Value) :
    entity.read D ((ledger.store.get partitionId entity.storageKey).getD []) = .ok value ↔
      ledger.saved entity partitionId = some value := by
  obtain ⟨bytes, hb, hsl⟩ := h.read_slot hw
  obtain ⟨hkey, hsv⟩ := h.latest _ _ hw
  obtain ⟨hp, hs⟩ := Prod.mk.inj hkey
  obtain rfl := Entity.eq_of_storageKey hk hs
  subst hp
  rw [hsl, save.read_bytes hb, hsv, Except.ok.injEq, some.injEq]

/-- Any other slot has nothing to read. -/
theorem Consistent.read_otherKind (h : ledger.Consistent D)
    (ho : ∀ save, ledger.writers (partitionId, entity.storageKey) = some save →
      save.entity.kind ≠ entity.kind) :
    entity.read D ((ledger.store.get partitionId entity.storageKey).getD []) =
      .error .deserialization := by
  cases hw : ledger.writers (partitionId, entity.storageKey) with
  | none =>
    rw [DataStore.get, h.absent _ hw, getD_none, Entity.read, D.deserialize_nil]
  | some save =>
    obtain ⟨bytes, hb, hs⟩ := h.read_slot hw
    rw [hs, Entity.read, D.deserialize_otherKind _ _ _ hb _ (ho save hw).symm]

/-- A get gives exactly the latest value of its entity when there is none or the
last save into its slot was of its kind, and in no other case. -/
theorem get_latest_iff {channel : Channel} {entity : Entity} {partitionId : String}
    (hempty : store.entries = ∅) (hcalls : Smooth D F store calls)
    (hget : Undisturbed D F (after D F store calls).store (.get channel entity partitionId)) :
    (∀ value, ((getEntity D F channel entity partitionId).exec
        (after D F store calls).store).1 = .ok value ↔
      (after D F store calls).saved entity partitionId = some value) ↔
    ((after D F store calls).saved entity partitionId = none ∨
      ∃ save, (after D F store calls).writers (partitionId, entity.storageKey) = some save ∧
        save.entity.kind = entity.kind) := by
  have h := consistent_after hempty hcalls
  rw [exec_getEntity hget]
  by_cases hs : ∃ save, (after D F store calls).writers (partitionId, entity.storageKey) =
      some save ∧ save.entity.kind = entity.kind
  · obtain ⟨save, hw, hk⟩ := hs
    exact iff_of_true (h.read_sameKind hw hk) (.inr ⟨save, hw, hk⟩)
  · have ho : ∀ save, (after D F store calls).writers (partitionId, entity.storageKey) =
        some save → save.entity.kind ≠ entity.kind :=
      fun save hw hk => hs ⟨save, hw, hk⟩
    rw [h.read_otherKind ho, or_iff_left hs, eq_none_iff_forall_ne_some]
    refine forall_congr' fun value => ?_
    simp

end Ledger

def memoryStore : DataStore := ⟨∅, none⟩

def epochSaves : List DataCall := snapshotSaves soundChannel 0 heldStakes "p"

theorem smooth_epochSaves : Ledger.Smooth sampleData sampleFormat memoryStore epochSaves :=
  ⟨⟨⟨⟨[11], rfl, rfl⟩, by decide, rfl, rfl⟩, [2], rfl, .inl rfl⟩,
    ⟨⟨⟨[12], rfl, rfl⟩, by decide, rfl, rfl⟩, [3], rfl, .inl rfl⟩, trivial⟩

/-- The stakes are read back when they are saved once more, after the executors. -/
theorem saved_stakes_read :
    ((getEntity sampleData sampleFormat soundChannel (.stakeSnapshot 0) "p").exec
      (Ledger.after sampleData sampleFormat memoryStore
        (epochSaves ++ epochSaves.take 1)).store).1 = .ok heldStakes := by
  have hsm : Ledger.Smooth sampleData sampleFormat memoryStore
      (epochSaves ++ epochSaves.take 1) :=
    ⟨smooth_epochSaves.1, smooth_epochSaves.2.1,
      ⟨⟨⟨[11], rfl, rfl⟩, by decide +kernel, rfl, rfl⟩, [2], rfl, .inl rfl⟩, trivial⟩
  have hl := (@Ledger.get_latest_iff sampleData sampleFormat memoryStore
    (epochSaves ++ epochSaves.take 1) soundChannel (.stakeSnapshot 0) "p" rfl hsm
    ⟨⟨[13], rfl, rfl⟩, by decide +kernel, rfl, rfl⟩).mpr (.inr ⟨_, rfl, rfl⟩)
  exact (hl heldStakes).mpr rfl

/-- The two saves of an epoch succeed one after the other, and the stakes are lost
while the executors can be read. -/
theorem epoch_snapshot_overwritten :
    ((persistSnapshots sampleData sampleFormat soundChannel 0 heldStakes "p").exec
      memoryStore).1 = .ok () ∧
    Ledger.Smooth sampleData sampleFormat memoryStore epochSaves ∧
    Undisturbed sampleData sampleFormat
      (Ledger.after sampleData sampleFormat memoryStore epochSaves).store
      (.get soundChannel (.stakeSnapshot 0) "p") ∧
    (Ledger.after sampleData sampleFormat memoryStore epochSaves).saved
      (.stakeSnapshot 0) "p" = some heldStakes ∧
    ((DefaultDataProvider.getStakeSnapshot sampleData sampleFormat soundChannel 0 "p").exec
      (Ledger.after sampleData sampleFormat memoryStore epochSaves).store).1 =
      .error .deserialization ∧
    ((DefaultDataProvider.getExecutorSet sampleData sampleFormat soundChannel 0 "p").exec
      (Ledger.after sampleData sampleFormat memoryStore epochSaves).store).1 = .ok ⟨heldStakes⟩ :=
  ⟨by rfl, smooth_epochSaves,
    ⟨⟨[13], rfl, rfl⟩, by decide +kernel, rfl, rfl⟩,
    rfl, by rfl, by rfl⟩

end Pneumatic
