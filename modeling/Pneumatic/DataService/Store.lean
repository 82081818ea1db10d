import Pneumatic.Core.Bytes
import Pneumatic.Lib.Handler
import Mathlib.Data.Finmap
import Mathlib.Data.List.Sort
import Mathlib.Data.String.Basic

/-!
# The store of the data service

`store.rs`: a map from partitions and keys to bytes, and a file it is written
out to as a whole. A `put` changes the map first and writes the map out
afterwards, to a temporary file that is then renamed; a write-out that fails
leaves the map changed.

The file is JSON with the keys and the values in hex. JSON is outside of the
repository and comes as a format that reads back what it has written.
-/

namespace Pneumatic

open Handler HandlerM Finmap List Option Function

def hexDigit (n : Nat) : Char := if n < 10 then Char.ofNat (48 + n) else Char.ofNat (87 + n)

def hexEncode (bytes : Bytes) : String :=
  String.ofList (bytes.flatMap fun b => [hexDigit (b.toNat / 16), hexDigit (b.toNat % 16)])

def hexValue (c : Char) : Option Nat :=
  if 48 ≤ c.toNat ∧ c.toNat ≤ 57 then some (c.toNat - 48)
  else if 97 ≤ c.toNat ∧ c.toNat ≤ 102 then some (c.toNat - 87)
  else if 65 ≤ c.toNat ∧ c.toNat ≤ 70 then some (c.toNat - 55)
  else none

def hexDecodeChars : List Char → Option Bytes
  | [] => some []
  | [_] => none
  | a :: b :: rest => do
    let high ← hexValue a
    let low ← hexValue b
    let bytes ← hexDecodeChars rest
    some (UInt8.ofNat (16 * high + low) :: bytes)

def hexDecode (text : String) : Option Bytes := hexDecodeChars text.toList

theorem hexValue_hexDigit {n : Nat} (h : n < 16) : hexValue (hexDigit n) = some n := by
  have hall : ∀ n : Fin 16, hexValue (hexDigit n.val) = some n.val := by decide
  exact hall ⟨n, h⟩

theorem hexDecode_hexEncode (bytes : Bytes) : hexDecode (hexEncode bytes) = some bytes := by
  unfold hexDecode hexEncode
  rw [String.toList_ofList]
  induction bytes with
  | nil => rfl
  | cons b bytes ih =>
    have hb : b.toNat < 256 := b.toNat_lt
    have hh := hexValue_hexDigit (show b.toNat / 16 < 16 by omega)
    have hlow := hexValue_hexDigit (show b.toNat % 16 < 16 by omega)
    have hby : UInt8.ofNat (16 * (b.toNat / 16) + b.toNat % 16) = b := by
      rw [Nat.div_add_mod, UInt8.ofNat_toNat]
    simp only [flatMap_cons, cons_append, nil_append, hexDecodeChars, hh,
      hlow, ih, bind_eq_bind, bind_some, hby]

abbrev StoreKey := String × Bytes

abbrev Entries := Finmap (fun _ : StoreKey => Bytes)

structure PersistedEntry where
  partitionId : String
  key : String
  value : String
deriving DecidableEq

/-- The JSON form of a `PersistedStore`. -/
structure StateFormat where
  toJson : List PersistedEntry → Option Bytes
  fromJson : Bytes → Option (List PersistedEntry)
  fromJson_toJson : ∀ entries raw, toJson entries = some raw → fromJson raw = some entries

/-- The order of the file: by partition, then by key, which hex respects. -/
def StoreKey.le (a b : StoreKey) : Prop := a.1 < b.1 ∨ (a.1 = b.1 ∧ a.2 ≤ b.2)

instance : DecidableRel StoreKey.le := fun a b =>
  inferInstanceAs (Decidable (a.1 < b.1 ∨ (a.1 = b.1 ∧ a.2 ≤ b.2)))

instance : Std.Total StoreKey.le where
  total a b := by
    unfold StoreKey.le
    rcases lt_trichotomy a.1 b.1 with h | h | h
    · exact .inl (.inl h)
    · rcases List.le_total a.2 b.2 with hle | hle
      · exact .inl (.inr ⟨h, hle⟩)
      · exact .inr (.inr ⟨h.symm, hle⟩)
    · exact .inr (.inl h)

instance : IsTrans StoreKey StoreKey.le where
  trans a b c := by
    rintro (hab | ⟨hab, hle⟩) (hbc | ⟨hbc, hle'⟩)
    · exact .inl (hab.trans hbc)
    · exact .inl (hbc ▸ hab)
    · exact .inl (hab ▸ hbc)
    · exact .inr ⟨hab.trans hbc, List.le_trans hle hle'⟩

theorem StoreKey.le_antisymm {a b : StoreKey} (hab : a.le b) (hba : b.le a) : a = b := by
  rcases hab with hab | ⟨hab, hle⟩
  · rcases hba with hba | ⟨hba, -⟩
    · exact absurd hba hab.asymm
    · exact absurd hab (hba ▸ lt_irrefl _)
  · rcases hba with hba | ⟨-, hle'⟩
    · exact absurd hba (hab ▸ lt_irrefl _)
    · exact Prod.ext hab (List.le_antisymm hle hle')

/-- Keys in the order of the file. -/
def sortStoreKeys (keys : Multiset StoreKey) : List StoreKey :=
  Quot.liftOn keys (fun keys => keys.insertionSort StoreKey.le) fun keys keys' hperm =>
      List.Perm.eq_of_pairwise (fun _ _ _ _ h h' => StoreKey.le_antisymm h h')
        (List.pairwise_insertionSort _ keys) (List.pairwise_insertionSort _ keys')
        ((List.perm_insertionSort _ keys).trans
          (List.Perm.trans hperm (List.perm_insertionSort _ keys').symm))

theorem mem_sortStoreKeys {keys : Multiset StoreKey} {key : StoreKey} :
    key ∈ sortStoreKeys keys ↔ key ∈ keys :=
  Quot.inductionOn keys fun _ => mem_insertionSort StoreKey.le

/-- The snapshot `persist` takes under the lock. -/
def snapshotEntries (entries : Entries) : List PersistedEntry :=
  (sortStoreKeys entries.keys.val).map fun key =>
    { partitionId := key.1
      key := hexEncode key.2
      value := hexEncode ((entries.lookup key).getD []) }

def loadEntry (entries : Entries) (entry : PersistedEntry) : Option Entries := do
  let key ← hexDecode entry.key
  let value ← hexDecode entry.value
  some (entries.insert (entry.partitionId, key) value)

/-- The map `with_state_file` makes of a file. -/
def loadEntries (persisted : List PersistedEntry) : Option Entries :=
  persisted.foldlM loadEntry ∅

theorem foldlM_loadEntry (entries loaded : Entries) (keys : List StoreKey) :
    ∃ after, (keys.map fun key =>
      ({ partitionId := key.1
         key := hexEncode key.2
         value := hexEncode ((entries.lookup key).getD []) } : PersistedEntry)).foldlM
        loadEntry loaded = some after ∧
      ∀ key, after.lookup key =
        if key ∈ keys then some ((entries.lookup key).getD []) else loaded.lookup key := by
  induction keys generalizing loaded with
  | nil => exact ⟨loaded, rfl, fun key => by simp⟩
  | cons first rest ih =>
    obtain ⟨after, ha, hl⟩ :=
      ih (loaded.insert first ((entries.lookup first).getD []))
    refine ⟨after, ?_, fun key => ?_⟩
    · simpa [loadEntry, hexDecode_hexEncode] using ha
    · rw [hl key]
      by_cases hf : key = first
      · subst hf
        simp
      · simp [hf, lookup_insert_of_ne]

theorem loadEntries_snapshotEntries (entries : Entries) :
    loadEntries (snapshotEntries entries) = some entries := by
  obtain ⟨after, ha, hl⟩ :=
    foldlM_loadEntry entries ∅ (sortStoreKeys entries.keys.val)
  have hs : after = entries := by
    refine ext_lookup fun key => ?_
    have hk : key ∈ sortStoreKeys entries.keys.val ↔ key ∈ entries :=
      mem_sortStoreKeys.trans mem_keys
    rw [hl key]
    split
    · next hmem =>
      obtain ⟨value, hv⟩ := mem_iff.mp (hk.mp hmem)
      rw [hv, getD_some]
    · next hmem =>
      rw [lookup_empty, lookup_eq_none.mpr fun h => hmem (hk.mpr h)]
  exact hs ▸ ha

/-- The files around a state file, by name. The temporary name is the state
file's with another extension, which may be the one it has. -/
structure Disk where
  path : String
  tmp : String
  files : String → Option Bytes

namespace Disk

def write (disk : Disk) (body : Option Bytes) : Disk :=
  { disk with files := Function.update disk.files disk.tmp body }

/-- `fs::rename` of the temporary file; `none` when it is not there. -/
def rename (disk : Disk) : Option Disk :=
  match disk.files disk.tmp with
  | none => none
  | some body =>
    if disk.tmp = disk.path then some disk
    else some { disk with
      files := Function.update (Function.update disk.files disk.tmp none) disk.path
        (some body) }

/-- What `with_state_file` reads; a file that is not there is an empty store. -/
def load (F : StateFormat) (disk : Disk) : Option Entries :=
  match disk.files disk.path with
  | none => some ∅
  | some raw => (F.fromJson raw).bind loadEntries

/-- A file that was just written can be renamed, and its content is the state
file's then. -/
theorem exists_rename_write (disk : Disk) (body : Bytes) :
    ∃ r, (disk.write (some body)).rename = some r ∧
      r.files r.path = some body := by
  unfold rename write
  simp only [update_self]
  split
  · next hs => exact ⟨_, rfl, hs ▸ update_self ..⟩
  · exact ⟨_, rfl, update_self ..⟩

theorem load_of_snapshot {F : StateFormat} {disk : Disk} {entries : Entries} {body : Bytes}
    (hb : F.toJson (snapshotEntries entries) = some body)
    (hf : disk.files disk.path = some body) : disk.load F = some entries := by
  unfold load
  rw [hf]
  simp only [F.fromJson_toJson _ _ hb, bind_some, loadEntries_snapshotEntries]

theorem load_write {F : StateFormat} {disk : Disk} {body : Option Bytes}
    (h : disk.tmp ≠ disk.path) : (disk.write body).load F = disk.load F := by
  have hf : (disk.write body).files disk.path = disk.files disk.path :=
    update_of_ne (Ne.symm h) ..
  unfold load
  rw [← hf]
  rfl

/-- A rename moves the temporary file, unless it is the state file. -/
theorem rename_cases {disk renamed : Disk} (h : disk.rename = some renamed) :
    ∃ body, disk.files disk.tmp = some body ∧ renamed.files renamed.path = some body ∧
      ((disk.tmp = disk.path ∧ renamed = disk) ∨
        (disk.tmp ≠ disk.path ∧ renamed.files renamed.tmp = none)) := by
  unfold rename at h
  split at h
  · cases h
  · next body hb =>
    split at h
    · next hs =>
      cases h
      exact ⟨body, hb, hs ▸ hb, .inl ⟨hs, rfl⟩⟩
    · next ho =>
      cases h
      refine ⟨body, hb, update_self .., .inr ⟨ho, ?_⟩⟩
      exact (update_of_ne ho ..).trans (update_self ..)

end Disk

/-- `DataStore`, with the disk in place of the name of the state file. -/
structure DataStore where
  entries : Entries
  disk : Option Disk

/-- Where a write-out can fail, and what a failed write leaves in the temporary
file. -/
inductive PersistFault where
  | directory
  | write (left : Option Bytes)
  | rename
deriving DecidableEq

inductive StoreError where
  | io
  | invalidData
deriving DecidableEq

abbrev StoreM := HandlerM DataStore StoreError

variable (F : StateFormat) (fault : Option PersistFault)

def DataStore.get (store : DataStore) (partitionId : String) (key : Bytes) : Option Bytes :=
  store.entries.lookup (partitionId, key)

def persist : StoreM Unit := do
  let store ← getState
  match store.disk with
  | none => pure ()
  | some disk => do
    require (fault ≠ some .directory) .io
    let body ← ofOption (F.toJson (snapshotEntries store.entries)) .invalidData
    match fault with
    | some (.write left) => do
      update fun store => { store with disk := some (disk.write left) }
      fail .io
    | some .rename => do
      update fun store => { store with disk := some (disk.write (some body)) }
      fail .io
    | _ => do
      let renamed ← ofOption (disk.write (some body)).rename .io
      update fun store => { store with disk := some renamed }

def put (partitionId : String) (key value : Bytes) : StoreM Unit := do
  update fun store =>
    { store with entries := store.entries.insert (partitionId, key) value }
  persist F fault

end Pneumatic
