import Pneumatic.Proofs.DataChannel

/-!
# What a save that returns `Ok` says about the store

Every request the service accepts gets the same empty reply, whether it was
stored, could not be decoded or could not be written out; and a value that could
not be written out stays in memory. So a save tells the truth only when nothing
went wrong behind the authentication, or when what went wrong makes no
difference.
-/

namespace Pneumatic

open Handler HandlerM Finmap Option

variable (D : DataCodec) (F : StateFormat) (channel : Channel)

/-- The store has a value for a key, in memory and in its state file. -/
def DataStore.Has (store : DataStore) (key : StoreKey) (value : Bytes) : Prop :=
  store.entries.lookup key = some value ∧ ∀ disk, store.disk = some disk →
      ∃ loaded, disk.load F = some loaded ∧ loaded.lookup key = some value

/-- There is no state file, or the write-out succeeds. -/
def WritesOut (fault : Option PersistFault) (store : DataStore) (key : StoreKey)
    (value : Bytes) : Prop :=
  store.disk = none ∨ (fault = none ∧
      F.toJson (snapshotEntries (store.entries.insert key value)) ≠ none)

section Put

variable {F} {fault : Option PersistFault} {store : DataStore} {partitionId : String}
  {key value : Bytes}

theorem put_writesOut (h : WritesOut F fault store (partitionId, key) value) :
    Ends (put F fault partitionId key value) store
      (fun _ after => after.Has F (partitionId, key) value) (fun _ _ => False) := by
  simp only [put, persist, ends_bind, ends_update, ends_getState]
  cases hd : store.disk with
  | none =>
    refine ⟨lookup_insert _, fun disk h => ?_⟩
    cases h
  | some disk =>
    rcases h with h | ⟨rfl, hj⟩
    · cases hd.symm.trans h
    · obtain ⟨body, hb⟩ := ne_none_iff_exists'.mp hj
      obtain ⟨r, hr, hf⟩ := disk.exists_rename_write body
      refine ends_bind.mpr (ends_require.mpr ⟨fun _ => ?_, fun h => h (by simp)⟩)
      refine ends_bind.mpr (ends_ofOption.mpr ⟨fun body' h => ?_, fun h => ?_⟩)
      · cases hb.symm.trans h
        refine ends_bind.mpr (ends_ofOption.mpr ⟨fun disk' h => ?_, fun h => ?_⟩)
        · cases hr.symm.trans h
          refine ⟨lookup_insert _, fun disk' h => ?_⟩
          cases h
          exact ⟨_, Disk.load_of_snapshot hb hf, lookup_insert _⟩
        · cases hr.symm.trans h
      · cases hb.symm.trans h

theorem put_fails (h : ¬ WritesOut F fault store (partitionId, key) value) :
    Ends (put F fault partitionId key value) store (fun _ _ => False)
      (fun _ after => after.entries.lookup (partitionId, key) = some value) := by
  simp only [put, persist, ends_bind, ends_update, ends_getState]
  have hin : (store.entries.insert (partitionId, key) value).lookup (partitionId, key) =
      some value := lookup_insert _
  cases hds : store.disk with
  | none => exact absurd (.inl hds) h
  | some disk =>
    simp only [ends_bind, ends_require, ends_ofOption]
    refine ⟨fun hd => ⟨fun body hb => ?_, fun _ => hin⟩, fun _ => hin⟩
    cases fault with
    | none => exact absurd (.inr ⟨rfl, by rw [hb]; exact some_ne_none _⟩) h
    | some fault =>
      cases fault with
      | directory => exact absurd rfl hd
      | write left => exact hin
      | rename => exact hin

end Put

/-- A `save_*` call: what is saved, under which key and where. -/
structure Save where
  entity : Entity
  value : entity.kind.Value
  partitionId : String

namespace Save

variable (save : Save)

def key : StoreKey := (save.partitionId, save.entity.storageKey)

def bytes : Option Bytes := D.serialize save.entity.kind (save.entity.wrap D save.value)

def request : DataRequest where
  key := save.entity.storageKey
  op := .save ⟨save.entity.kind, save.entity.wrap D save.value⟩
  partitionId := save.partitionId

/-- The result of the call, and the store after it. -/
def exec (store : DataStore) : Except DataError Unit × DataStore :=
  (saveEntity D F channel save.entity save.value save.partitionId).exec store

/-- The store has the value of the save. -/
def StoredIn (store : DataStore) : Prop :=
  ∃ value, save.bytes D = some value ∧ store.Has F save.key value

/-- The request arrives as it was sent, and the put fails. -/
def PutFails (store : DataStore) : Prop :=
  ∃ payload value e, served D channel (save.request D) = some payload ∧
    D.deserializeRequest payload = some (save.request D) ∧ save.bytes D = some value ∧
    ((put F channel.fault save.partitionId save.entity.storageKey value).exec store).1 = .error e

/-- An acknowledged save is stored, and a failed put is reported and undone. -/
def Truthful (store : DataStore) : Prop :=
  ((save.exec D F channel store).1 = .ok () → save.StoredIn D F (save.exec D F channel store).2) ∧
  (save.PutFails D F channel store → (save.exec D F channel store).1 ≠ .ok () ∧
      (save.exec D F channel store).2.entries.lookup save.key = store.entries.lookup save.key)

/-- The condition: a request that is served is decoded, encoded and written out, or
it makes no difference that it is not. -/
def Safe (store : DataStore) : Prop :=
  ∀ payload, served D channel (save.request D) = some payload →
    (∀ value, D.deserializeRequest payload = some (save.request D) → save.bytes D = some value →
      WritesOut F channel.fault store save.key value ∨
        (¬ AnsweredWith D channel [] ∧ store.entries.lookup save.key = some value)) ∧
    (D.deserializeRequest payload = none ∨ save.bytes D = none →
      AnsweredWith D channel [] → save.StoredIn D F store)

end Save

namespace Save

variable {D F channel} {save : Save} {store : DataStore}

variable {payload value : Bytes} {fault : Option PersistFault}

theorem decoded_of_served (h : served D channel (save.request D) = some payload) :
    D.deserializeRequest payload = some (save.request D) ∨ D.deserializeRequest payload = none := by
  unfold served at h
  split at h
  · obtain ⟨data, hd, hr⟩ := bind_eq_some_iff.mp h
    obtain ⟨n, rfl⟩ := exists_take_of_receive hr
    by_cases hn : n < data.length
    · exact .inr (D.deserializeRequest_truncated _ _ hd n hn)
    · rw [List.take_of_length_le (not_lt.mp hn)]
      exact .inl (D.deserialize_serializeRequest _ _ hd)
  · cases h

theorem exec_unserved (h : served D channel (save.request D) = none) :
    (save.exec D F channel store).1 ≠ .ok () := by
  have he : Ends (saveEntity D F channel save.entity save.value save.partitionId) store
      (fun _ _ => False) (fun _ after => after = store) :=
    ends_bind.mpr ((exchange_unserved h).mono (fun _ _ h => h.elim) fun _ _ h => h)
  exact fun hok => (ends_iff_exec.mp he).1 () hok

/-- A call that is served: the store is as the dispatch leaves it, and the call
succeeds exactly when the reply is authenticated. -/
theorem exec_served {after : DataStore} (h : served D channel (save.request D) = some payload)
    (hd : dispatchRequest D F channel.fault payload store = ([], after)) :
    (save.exec D F channel store).2 = after ∧
      ((save.exec D F channel store).1 = .ok () ↔ AnsweredWith D channel []) := by
  have hen : Ends (saveEntity D F channel save.entity save.value save.partitionId) store
      (fun _ s => s = after ∧ AnsweredWith D channel [])
      (fun _ s => s = after ∧ ¬ AnsweredWith D channel []) :=
    ends_bind.mpr ((exchange_served h hd (by decide)).mono (fun _ _ h => h.2) fun _ _ h => h)
  obtain ⟨hok, he⟩ := ends_iff_exec.mp hen
  cases hr : (save.exec D F channel store).1 with
  | ok _ => exact ⟨(hok _ hr).1, iff_of_true rfl (hok _ hr).2⟩
  | error e => exact ⟨(he _ hr).1, iff_of_false (by simp) (he _ hr).2⟩

theorem dispatchRequest_save (hd : D.deserializeRequest payload = some (save.request D)) :
    dispatchRequest D F fault payload store =
      ([], ((handleSave D F fault (save.request D)).exec store).2) := by
  have hr : Ends (handleSave D F fault (save.request D)) store
      (fun body _ => body = []) (fun _ _ => True) := by
    refine ends_bind.mpr (ends_ofOption.mpr ⟨fun value _ => ?_, fun _ => trivial⟩)
    exact ends_bind.mpr (ends_iff_exec.mpr ⟨fun _ _ => rfl, fun _ _ => trivial⟩)
  unfold dispatchRequest
  rw [hd]
  obtain ⟨hok, -⟩ := ends_iff_exec.mp hr
  have hop : (save.request D).op = .save ⟨save.entity.kind, save.entity.wrap D save.value⟩ :=
    rfl
  simp only [hop]
  split
  · next heq =>
    rw [heq] at hok
    rw [heq, hok _ rfl]
  · next heq => rw [heq]

/-- The dispatch of a save that is decoded and encoded is the put. -/
theorem dispatchRequest_put (hd : D.deserializeRequest payload = some (save.request D))
    (hb : save.bytes D = some value) : dispatchRequest D F fault payload store = ([],
      ((put F fault save.partitionId save.entity.storageKey value).exec store).2) := by
  rw [dispatchRequest_save hd]
  have hk : Keeps (handleSave D F fault (save.request D)) store fun after => after =
      ((put F fault save.partitionId save.entity.storageKey value).exec store).2 := by
    refine ends_bind.mpr (ends_ofOption.mpr ⟨fun value' h => ?_, fun h => ?_⟩)
    · cases hb.symm.trans h
      exact ends_bind.mpr (ends_iff_exec.mpr ⟨fun _ _ => rfl, fun _ _ => rfl⟩)
    · cases hb.symm.trans h
  rw [keeps_iff.mp hk]

theorem dispatchRequest_dropped (hd : D.deserializeRequest payload = some (save.request D) ∨
      D.deserializeRequest payload = none)
    (hdr : D.deserializeRequest payload = none ∨ save.bytes D = none) :
    dispatchRequest D F fault payload store = ([], store) := by
  rcases hd with hd | hn
  · rcases hdr with hn | hb
    · cases hd.symm.trans hn
    · rw [dispatchRequest_save hd]
      have hk : Keeps (handleSave D F fault (save.request D)) store fun after =>
          after = store := by
        refine ends_bind.mpr (ends_ofOption.mpr ⟨fun value' h => ?_, fun _ => rfl⟩)
        cases hb.symm.trans h
      rw [keeps_iff.mp hk]
  · unfold dispatchRequest
    rw [hn]

section

variable (hserved : served D channel (save.request D) = some payload)

include hserved

/-- A put fails exactly when the write-out does. -/
theorem putFails_iff (hd : D.deserializeRequest payload = some (save.request D))
    (hb : save.bytes D = some value) : save.PutFails D F channel store ↔
      ¬ WritesOut F channel.fault store save.key value := by
  constructor
  · rintro ⟨payload', value', e, -, -, hb', hf⟩ hw
    cases hb.symm.trans hb'
    exact (ends_iff_exec.mp (put_writesOut hw)).2 e hf
  · intro hnot
    cases hr : ((put F channel.fault save.partitionId save.entity.storageKey
        value).exec store).1 with
    | ok a => exact ((ends_iff_exec.mp (put_fails hnot)).1 a hr).elim
    | error e => exact ⟨payload, value, e, hserved, hd, hb, hr⟩

theorem truthful_iff_of_put (hd : D.deserializeRequest payload = some (save.request D))
    (hb : save.bytes D = some value) : save.Truthful D F channel store ↔
      WritesOut F channel.fault store save.key value ∨
        (¬ AnsweredWith D channel [] ∧ store.entries.lookup save.key = some value) := by
  have hf : save.PutFails D F channel store ↔
      ¬ WritesOut F channel.fault store save.key value := putFails_iff hserved hd hb
  have hds : dispatchRequest D F channel.fault payload store = ([],
      ((put F channel.fault save.partitionId save.entity.storageKey value).exec store).2) :=
    dispatchRequest_put hd hb
  obtain ⟨ha, hok⟩ := exec_served hserved hds
  unfold Truthful
  rw [ne_eq, hok, hf, ha]
  by_cases hw : WritesOut F channel.fault store save.key value
  · have hhas : Keeps (put F channel.fault save.partitionId save.entity.storageKey value)
        store fun after => after.Has F save.key value :=
      (put_writesOut hw).mono (fun _ _ h => h) fun _ _ h => h.elim
    exact iff_of_true ⟨fun _ => ⟨value, hb, keeps_iff.mp hhas⟩, fun h => absurd hw h⟩ (.inl hw)
  · have hl : Keeps (put F channel.fault save.partitionId save.entity.storageKey value)
        store fun after => after.entries.lookup save.key = some value :=
      (put_fails hw).mono (fun _ _ h => h.elim) fun _ _ h => h
    rw [keeps_iff.mp hl]
    constructor
    · rintro ⟨-, h⟩
      exact .inr ⟨(h hw).1, (h hw).2.symm⟩
    · rintro (h | ⟨hs, hh⟩)
      · exact absurd h hw
      · exact ⟨fun h => absurd h hs, fun _ => ⟨hs, hh.symm⟩⟩

theorem truthful_iff_of_dropped (hd : D.deserializeRequest payload = none ∨ save.bytes D = none) :
    save.Truthful D F channel store ↔ (AnsweredWith D channel [] → save.StoredIn D F store) := by
  have hds : dispatchRequest D F channel.fault payload store = ([], store) :=
    dispatchRequest_dropped (decoded_of_served hserved) hd
  obtain ⟨ha, hok⟩ := exec_served hserved hds
  unfold Truthful
  rw [hok, ha]
  refine and_iff_left ?_
  rintro ⟨payload', value, e, hserved', hdc, hb, -⟩
  cases hserved.symm.trans hserved'
  rcases hd with h | h
  · cases hdc.symm.trans h
  · cases hb.symm.trans h

end

/-- A save tells the truth exactly under the condition. -/
theorem truthful_iff : save.Truthful D F channel store ↔ save.Safe D F channel store := by
  cases hserved : served D channel (save.request D) with
  | none =>
    refine iff_of_true ⟨fun hok => absurd hok (exec_unserved hserved), ?_⟩ ?_
    · rintro ⟨payload, value, e, h, -⟩
      cases hserved.symm.trans h
    · intro payload h
      cases hserved.symm.trans h
  | some payload =>
    have hs : save.Safe D F channel store ↔
        (∀ value, D.deserializeRequest payload = some (save.request D) → save.bytes D = some value →
          WritesOut F channel.fault store save.key value ∨
            (¬ AnsweredWith D channel [] ∧ store.entries.lookup save.key = some value)) ∧
        (D.deserializeRequest payload = none ∨ save.bytes D = none →
          AnsweredWith D channel [] → save.StoredIn D F store) := by
      simp [Safe, hserved]
    rw [hs]
    by_cases hd : D.deserializeRequest payload = none ∨ save.bytes D = none
    · rw [truthful_iff_of_dropped hserved hd]
      constructor
      · refine fun h => ⟨fun value hdc hb => ?_, fun _ => h⟩
        rcases hd with hn | hn
        · cases hdc.symm.trans hn
        · cases hb.symm.trans hn
      · exact fun h => h.2 hd
    · obtain ⟨hdd, he⟩ := not_or.mp hd
      have hdc := (decoded_of_served hserved).resolve_right hdd
      obtain ⟨value, hb⟩ := ne_none_iff_exists'.mp he
      rw [truthful_iff_of_put hserved hdc hb]
      constructor
      · refine fun h => ⟨fun value' _ hb' => ?_, fun h' => absurd h' hd⟩
        cases hb.symm.trans hb'
        exact h
      · exact fun h => h.1 value hdc hb

end Save

/-- A sound channel to a service that cannot make the directory of its file. -/
def unwritable : Channel := { soundChannel with fault := some .directory }

def freshStore : DataStore where
  entries := ∅
  disk := some ⟨"state.json", "state.tmp", fun _ => none⟩

def sampleSave : Save where
  entity := .data [1]
  value := ([7] : Bytes)
  partitionId := "p"

def acknowledged : Except DataError Unit × DataStore :=
  sampleSave.exec sampleData sampleFormat unwritable freshStore

/-- The put fails, the call returns `Ok`, the value is in memory and not on disk. -/
theorem failed_save_acknowledged :
    sampleSave.PutFails sampleData sampleFormat unwritable freshStore ∧ acknowledged.1 = .ok () ∧
    acknowledged.2.entries.lookup ("p", [1]) = some [1] ∧
    acknowledged.2.disk.map (Disk.load sampleFormat) = some (some ∅) ∧
    ¬ sampleSave.Truthful sampleData sampleFormat unwritable freshStore := by
  have hok : acknowledged.1 = .ok () := by rfl
  have hf : sampleSave.PutFails sampleData sampleFormat unwritable freshStore :=
    ⟨[10], [1], .io, by decide +kernel, by decide +kernel, by decide +kernel, by rfl⟩
  refine ⟨hf, hok, by decide +kernel, by decide +kernel, fun h => ?_⟩
  exact (h.2 hf).1 hok

end Pneumatic
