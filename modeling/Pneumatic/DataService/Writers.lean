import Pneumatic.DataService.Store
import Pneumatic.Lib.Run

/-!
# Concurrent puts

The service answers every connection on a thread of its own, so puts overlap. A
`put` takes the lock of the map twice, once for its insert and once for its
snapshot, and holds nothing while it writes the temporary file and renames it;
all puts write the same temporary file.

A put is known by its place among the inserts. Two numbers are kept that the code
does not have: how many inserts the snapshot in the temporary file had seen, and
how many that of the state file had.
-/

namespace Pneumatic

open Handler HandlerM Run

structure PutCall where
  key : StoreKey
  value : Bytes
deriving DecidableEq

/-- What a put has done. A snapshot comes with the number of inserts before it. -/
inductive Stage where
  | idle
  | inserted
  | snapped (taken : Nat) (snapshot : List PersistedEntry)
  | written
  | returned (ok : Bool)
deriving DecidableEq

/-- A store with a state file and the puts on it. -/
structure Writers where
  entries : Entries
  disk : Disk
  /-- In the order of their inserts. -/
  puts : List PutCall
  stage : Nat → Stage
  tmpTaken : Option Nat
  fileTaken : Nat

inductive WriterAction where
  | insert (call : PutCall)
  | snapshot (i : Nat)
  | write (i : Nat)
  | rename (i : Nat)

namespace Writers

def start (base : Entries) (disk : Disk) : Writers where
  entries := base
  disk := disk
  puts := []
  stage _ := .idle
  tmpTaken := none
  fileTaken := 0

def setStage (s : Writers) (i : Nat) (stage : Stage) : Writers :=
  { s with stage := Function.update s.stage i stage }

variable (F : StateFormat)

/-- One step of one put; a step whose turn it is not does nothing. A put that
fails on the way is one that takes no further step. -/
def step (s : Writers) : WriterAction → Writers
  | .insert call =>
    { s.setStage s.puts.length .inserted with
      entries := s.entries.insert call.key call.value
      puts := s.puts ++ [call] }
  | .snapshot i =>
    if s.stage i = .inserted then
      s.setStage i (.snapped s.puts.length (snapshotEntries s.entries))
    else s
  | .write i =>
    match s.stage i with
    | .snapped taken snapshot =>
      match F.toJson snapshot with
      | none => s.setStage i (.returned false)
      | some body =>
        { s.setStage i .written with
          disk := s.disk.write (some body)
          tmpTaken := some taken
          fileTaken := if s.disk.tmp = s.disk.path then taken else s.fileTaken }
    | _ => s
  | .rename i =>
    match s.stage i with
    | .written =>
      match s.disk.rename with
      | none => s.setStage i (.returned false)
      | some renamed =>
        { s.setStage i (.returned true) with
          disk := renamed
          tmpTaken := if s.disk.tmp = s.disk.path then s.tmpTaken else none
          fileTaken := s.tmpTaken.getD s.fileTaken }
    | _ => s

/-- What one action can do. -/
inductive Move (s : Writers) : WriterAction → Writers → Prop
  | skip (action : WriterAction) : Move s action s
  | insert (call : PutCall) :
      Move s (.insert call) { s.setStage s.puts.length .inserted with
        entries := s.entries.insert call.key call.value
        puts := s.puts ++ [call] }
  | snapshot {i : Nat} (h : s.stage i = .inserted) :
      Move s (.snapshot i) (s.setStage i (.snapped s.puts.length (snapshotEntries s.entries)))
  | unencoded {i taken : Nat} {snapshot : List PersistedEntry}
      (h : s.stage i = .snapped taken snapshot) :
      Move s (.write i) (s.setStage i (.returned false))
  | write {i taken : Nat} {snapshot : List PersistedEntry} {body : Bytes}
      (h : s.stage i = .snapped taken snapshot) (hbody : F.toJson snapshot = some body) :
      Move s (.write i) { s.setStage i .written with
        disk := s.disk.write (some body)
        tmpTaken := some taken
        fileTaken := if s.disk.tmp = s.disk.path then taken else s.fileTaken }
  | gone {i : Nat} (h : s.stage i = .written) : Move s (.rename i) (s.setStage i (.returned false))
  | rename {i : Nat} {renamed : Disk} (h : s.stage i = .written)
      (hrenamed : s.disk.rename = some renamed) :
      Move s (.rename i) { s.setStage i (.returned true) with
        disk := renamed
        tmpTaken := if s.disk.tmp = s.disk.path then s.tmpTaken else none
        fileTaken := s.tmpTaken.getD s.fileTaken }

theorem move_step (s : Writers) (action : WriterAction) : Move F s action (step F s action) := by
  cases action with
  | insert call => exact .insert call
  | snapshot i =>
    unfold step
    dsimp only
    split
    · next h => exact .snapshot h
    · exact .skip _
  | write i =>
    unfold step
    dsimp only
    split
    · next h =>
      split
      · exact .unencoded h
      · next hb => exact .write h hb
    · exact .skip _
  | rename i =>
    unfold step
    dsimp only
    split
    · next h =>
      split
      · exact .gone h
      · next hr => exact .rename h hr
    · exact .skip _

/-- The four steps of the put that is inserted next. -/
def putActions (s : Writers) (call : PutCall) : List WriterAction :=
  [.insert call, .snapshot s.puts.length, .write s.puts.length, .rename s.puts.length]

/-- The store without its history. -/
def store (s : Writers) : DataStore := ⟨s.entries, some s.disk⟩

variable {F}

/-- With no other put between them the four steps are the put. -/
theorem ends_put (s : Writers) (call : PutCall) :
    Ends (put F none call.key.1 call.key.2 call.value) s.store
      (fun _ after => after = (run (step F) s (s.putActions call)).store ∧
        (run (step F) s (s.putActions call)).stage s.puts.length = .returned true)
      (fun _ after => after = (run (step F) s (s.putActions call)).store ∧
        (run (step F) s (s.putActions call)).stage s.puts.length = .returned false) := by
  simp only [put, persist, store, ends_bind, ends_update, ends_getState, ends_require,
    ends_ofOption]
  refine ⟨fun _ => ⟨fun body hb => ?_, fun hn => ?_⟩, fun h => absurd (by simp) h⟩
  · refine ⟨fun r hr => ?_, fun hn => ?_⟩
    · simp [putActions, run, step, setStage, hb, hr]
    · obtain ⟨r, hr, -⟩ := s.disk.exists_rename_write body
      cases hr.symm.trans hn
  · simp [putActions, run, step, setStage, hn]

end Writers

end Pneumatic
