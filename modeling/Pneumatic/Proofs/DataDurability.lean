import Pneumatic.DataService.Writers
import Pneumatic.Lib.Codebook

/-!
# What a restart finds after concurrent puts

Whatever puts overlap and wherever they are cut off, the state file is the map as
it was after some number of inserts, so it can always be loaded. What it need not
have is every put that has returned `Ok`: an older snapshot may be written out
after a newer one, and a put may rename what another has written.

`Traced` says what the two files have, on every run. `Covered`, that the state
file has seen the puts that have returned `Ok`, is kept by a rename only when the
temporary file has seen them too, and the put that renames it.
-/

namespace Pneumatic

open Run Finmap Option Function

def replay (base : Entries) (puts : List PutCall) : Entries :=
  puts.foldl (fun entries call => entries.insert call.key call.value) base

theorem replay_append (base : Entries) (puts : List PutCall) (call : PutCall) :
    replay base (puts ++ [call]) = (replay base puts).insert call.key call.value :=
  List.foldl_append

/-- A key has the value of the last put on it, or the one it had before. -/
theorem lookup_replay (base : Entries) (puts : List PutCall) (key : StoreKey) :
    ((replay base puts).lookup key = base.lookup key ∧
      ∀ (i : Nat) (call : PutCall), puts[i]? = some call → call.key ≠ key) ∨
    ∃ (j : Nat) (call : PutCall), puts[j]? = some call ∧ call.key = key ∧
      (replay base puts).lookup key = some call.value ∧
      ∀ (i : Nat) (other : PutCall), puts[i]? = some other → other.key = key → i ≤ j := by
  induction puts using List.reverseRecOn with
  | nil => exact .inl ⟨rfl, fun i call h => by cases h⟩
  | append_singleton puts last ih =>
    rw [replay_append]
    by_cases hkey : last.key = key
    · subst hkey
      refine .inr ⟨puts.length, last, by simp, rfl, lookup_insert _, ?_⟩
      intro i other ho _
      have hlt := (List.getElem?_eq_some_iff.mp ho).1
      rw [List.length_append, List.length_singleton] at hlt
      omega
    · rw [lookup_insert_of_ne _ (Ne.symm hkey)]
      -- The last put is on another key, so a put on this one is among the others.
      have hot : ∀ (i : Nat) (other : PutCall), (puts ++ [last])[i]? = some other →
          other.key = key → puts[i]? = some other := by
        intro i other ho hs
        by_cases hi : i < puts.length
        · rwa [List.getElem?_append_left hi] at ho
        · rw [List.getElem?_append_right (not_lt.mp hi), List.getElem?_singleton] at ho
          split at ho
          · cases ho
            exact absurd hs hkey
          · cases ho
      rcases ih with ⟨hb, hn⟩ | ⟨j, call, hc, hs, hl, hls⟩
      · exact .inl ⟨hb, fun i other ho hs =>
          hn i other (hot i other ho hs) hs⟩
      · have hj := (List.getElem?_eq_some_iff.mp hc).1
        refine .inr ⟨j, call, ?_, hs, hl, fun i other ho h =>
          hls i other (hot i other ho h) h⟩
        rwa [List.getElem?_append_left hj]

namespace Writers

variable (F : StateFormat) (base : Entries)

/-! ## The property and the condition -/

/-- A put on the key has returned `Ok`. -/
def Acknowledged (s : Writers) (i : Nat) (key : StoreKey) : Prop :=
  s.stage i = .returned true ∧ ∃ call, s.puts[i]? = some call ∧ call.key = key

/-- A restart here finds for every key the value of a put that is no older than any
that has returned `Ok`; or, if none has, the value from before. -/
def Survives (s : Writers) : Prop :=
  ∃ loaded, s.disk.load F = some loaded ∧ ∀ key,
    (loaded.lookup key = base.lookup key ∧ ∀ i, ¬ s.Acknowledged i key) ∨
    ∃ (j : Nat) (call : PutCall), s.puts[j]? = some call ∧ call.key = key ∧
      loaded.lookup key = some call.value ∧ ∀ i, s.Acknowledged i key → i ≤ j

/-- A put renames the temporary file only when the snapshot there has seen it and
all puts that have returned `Ok`; where the temporary file is the state file,
writing it is bound in the same way. -/
def Ordered (s : Writers) : WriterAction → Prop
  | .write i => ∀ taken snapshot, s.stage i = .snapped taken snapshot →
    s.disk.tmp = s.disk.path → ∀ j, s.stage j = .returned true → j < taken
  | .rename i => s.stage i = .written → ∀ taken, s.tmpTaken = some taken →
    i < taken ∧ ∀ j, s.stage j = .returned true → j < taken
  | _ => True

/-! ## What the files have -/

def mapAt (s : Writers) (taken : Nat) : Entries := replay base (s.puts.take taken)

/-- Files and snapshots are the map as it was after some number of inserts. -/
structure Traced (s : Writers) : Prop where
  entries : s.entries = replay base s.puts
  snapped : ∀ i taken snapshot, s.stage i = .snapped taken snapshot →
    taken ≤ s.puts.length ∧ snapshot = snapshotEntries (s.mapAt base taken)
  tmp : ∀ taken, s.tmpTaken = some taken → taken ≤ s.puts.length ∧
    ∃ body, F.toJson (snapshotEntries (s.mapAt base taken)) = some body ∧
      s.disk.files s.disk.tmp = some body
  untracked : s.tmpTaken = none → ∀ i, s.stage i = .written → s.disk.files s.disk.tmp = none
  file : s.fileTaken ≤ s.puts.length ∧ s.disk.load F = some (s.mapAt base s.fileTaken)

/-- The state file has seen every put that has returned `Ok`. -/
def Covered (s : Writers) : Prop := ∀ i, s.stage i = .returned true → i < s.fileTaken

variable {F base} {s s' : Writers}

variable {i j : Nat} {stage : Stage} {disk : Disk} {action : WriterAction}

theorem stage_setStage : (s.setStage i stage).stage j = if j = i then stage else s.stage j :=
  update_apply ..

theorem stage_of_setStage {stage' : Stage}
    (h : (s.setStage i stage).stage j = stage') (hne : stage ≠ stage') :
    j ≠ i ∧ s.stage j = stage' := by
  rw [stage_setStage] at h
  split at h
  · exact absurd h hne
  · next hj => exact ⟨hj, h⟩

theorem mapAt_append {call : PutCall} {taken : Nat} (hp : s'.puts = s.puts ++ [call])
    (h : taken ≤ s.puts.length) : s'.mapAt base taken = s.mapAt base taken := by
  unfold mapAt
  rw [hp, List.take_append_of_le_length h]

theorem traced_start (hl : disk.load F = some base) : (start base disk).Traced F base where
  entries := rfl
  snapped _ _ _ h := by cases h
  tmp _ h := by cases h
  untracked _ _ h := by cases h
  file := ⟨Nat.le_refl 0, hl⟩

section

variable (h : s.Traced F base)

include h

theorem Traced.insert (call : PutCall) : (step F s (.insert call)).Traced F base := by
  have hp : (step F s (.insert call)).puts = s.puts ++ [call] := rfl
  have hln : (step F s (.insert call)).puts.length = s.puts.length + 1 := by
    rw [hp, List.length_append, List.length_singleton]
  refine ⟨?_, fun i taken sn hs => ?_, fun taken htmp => ?_, fun htmp i hs => ?_, ?_⟩
  · rw [hp, replay_append, ← h.entries]
    rfl
  · obtain ⟨-, hold⟩ := stage_of_setStage hs (by simp)
    obtain ⟨hle, hsn⟩ := h.snapped i taken sn hold
    exact ⟨by omega, by rw [mapAt_append hp hle, hsn]⟩
  · obtain ⟨hle, body, hb, hf⟩ := h.tmp taken htmp
    exact ⟨by omega, body, by rw [mapAt_append hp hle, hb], hf⟩
  · obtain ⟨-, hold⟩ := stage_of_setStage hs (by simp)
    exact h.untracked htmp i hold
  · obtain ⟨hle, hl⟩ := h.file
    have hf : (step F s (.insert call)).fileTaken = s.fileTaken := rfl
    refine ⟨by omega, ?_⟩
    rw [hf, mapAt_append hp hle]
    exact hl

/-- A step that only moves a put on, to a stage that is no write. -/
theorem Traced.setStage (hs : ∀ taken sn, stage = .snapped taken sn →
      taken ≤ s.puts.length ∧ sn = snapshotEntries (s.mapAt base taken))
    (hw : stage ≠ .written) : (s.setStage i stage).Traced F base where
  entries := h.entries
  snapped j taken sn hstage := by
    rw [stage_setStage] at hstage
    split at hstage
    · exact hs taken sn hstage
    · exact h.snapped j taken sn hstage
  tmp := h.tmp
  untracked htmp j hstage := h.untracked htmp j (stage_of_setStage hstage hw).2
  file := h.file

theorem Traced.write {taken : Nat} {snapshot : List PersistedEntry}
    {body : Bytes} (hs : s.stage i = .snapped taken snapshot)
    (hb : F.toJson snapshot = some body) :
    ({ s.setStage i .written with
        disk := s.disk.write (some body)
        tmpTaken := some taken
        fileTaken := if s.disk.tmp = s.disk.path then taken else s.fileTaken } :
      Writers).Traced F base := by
  obtain ⟨hle, rfl⟩ := h.snapped i taken snapshot hs
  have hw : (s.disk.write (some body)).files s.disk.tmp = some body :=
    update_self ..
  refine ⟨h.entries, fun j taken' snapshot' hj => ?_, fun taken' htmp => ?_, fun htmp => ?_, ?_⟩
  · exact h.snapped j taken' snapshot' (stage_of_setStage hj (by simp)).2
  · cases htmp
    exact ⟨hle, body, hb, hw⟩
  · cases htmp
  · dsimp only
    split
    · next hsm =>
      exact ⟨hle, Disk.load_of_snapshot hb (hsm ▸ hw)⟩
    · next ho => exact ⟨h.file.1, (Disk.load_write ho).trans h.file.2⟩

theorem Traced.rename {renamed : Disk}
    (hst : s.stage i = .written) (hr : s.disk.rename = some renamed) :
    ∃ taken, s.tmpTaken = some taken ∧ ({ s.setStage i (.returned true) with
        disk := renamed
        tmpTaken := if s.disk.tmp = s.disk.path then s.tmpTaken else none
        fileTaken := s.tmpTaken.getD s.fileTaken } : Writers).Traced F base := by
  obtain ⟨body, hb, hf, hp⟩ := Disk.rename_cases hr
  cases ht : s.tmpTaken with
  | none => cases (h.untracked ht i hst).symm.trans hb
  | some taken =>
    obtain ⟨hle, body', hjs, htmp⟩ := h.tmp taken ht
    cases hb.symm.trans htmp
    refine ⟨taken, rfl, h.entries, fun j taken' sn hj => ?_, fun taken' htmp' => ?_,
      fun htmp' j hj => ?_, hle, Disk.load_of_snapshot hjs hf⟩
    · exact h.snapped j taken' sn (stage_of_setStage hj (by simp)).2
    · rcases hp with ⟨hs, rfl⟩ | ⟨ho, -⟩
      · rw [if_pos hs] at htmp'
        cases htmp'
        exact ⟨hle, body, hjs, hb⟩
      · rw [if_neg ho] at htmp'
        cases htmp'
    · rcases hp with ⟨hs, -⟩ | ⟨-, hg⟩
      · rw [if_pos hs] at htmp'
        cases htmp'
      · exact hg

theorem Traced.step (hm : Move F s action s') : s'.Traced F base := by
  cases hm with
  | skip => exact h
  | insert call => exact h.insert call
  | snapshot _ =>
    refine h.setStage (fun taken snapshot heq => ?_) (by simp)
    cases heq
    refine ⟨Nat.le_refl _, ?_⟩
    rw [mapAt, List.take_length, h.entries]
  | unencoded _ => exact h.setStage (fun _ _ heq => by cases heq) (by simp)
  | write hs hb => exact h.write hs hb
  | gone _ => exact h.setStage (fun _ _ heq => by cases heq) (by simp)
  | rename hs hr => exact (h.rename hs hr).choose_spec.2

end

/-! ## What has been acknowledged -/

/-- Puts that had returned `Ok` before a step, and the one that has just now. -/
theorem Covered.step (h : s.Covered) (htr : s.Traced F base)
    (hm : Move F s action s') (ho : s.Ordered action) : s'.Covered := by
  cases hm with
  | skip => exact h
  | insert call | snapshot _ | unencoded _ =>
    exact fun j hj => h j (stage_of_setStage hj (by simp)).2
  | @write i taken snapshot body hs _ =>
    intro j hj
    have hold : s.stage j = .returned true := (stage_of_setStage hj (by simp)).2
    split
    · next hsm => exact ho taken snapshot hs hsm j hold
    · exact h j hold
  | gone _ => exact fun j hj => h j (stage_of_setStage hj (by simp)).2
  | @rename i r hs hr =>
    intro j hj
    obtain ⟨taken, ht, -⟩ := htr.rename hs hr
    obtain ⟨hown, hot⟩ := ho hs taken ht
    rw [ht, getD_some]
    by_cases hji : j = i
    · rw [hji]
      exact hown
    · exact hot j ((update_of_ne hji ..).symm.trans hj)

/-- A file that has seen the puts has their values or later ones. -/
theorem Covered.survives (h : s.Covered) (ht : s.Traced F base) : s.Survives F base := by
  obtain ⟨hle, hld⟩ := ht.file
  refine ⟨_, hld, fun key => ?_⟩
  -- A put that is acknowledged is among those the file has seen.
  have hs : ∀ i, s.Acknowledged i key → ∃ call,
      (s.puts.take s.fileTaken)[i]? = some call ∧ call.key = key := by
    rintro i ⟨hst, call, hc, hkey⟩
    refine ⟨call, ?_, hkey⟩
    rwa [List.getElem?_take_of_lt (h i hst)]
  rcases lookup_replay base (s.puts.take s.fileTaken) key with
    ⟨hb, hn⟩ | ⟨j, call, hc, hkey, hl, hls⟩
  · refine .inl ⟨hb, fun i hi => ?_⟩
    obtain ⟨call, hc, hkey⟩ := hs i hi
    exact hn i call hc hkey
  · have hj := (List.getElem?_eq_some_iff.mp hc).1
    rw [List.length_take] at hj
    refine .inr ⟨j, call, ?_, hkey, hl, fun i hi => ?_⟩
    · rwa [List.getElem?_take_of_lt (by omega)] at hc
    · obtain ⟨other, ho, hkey'⟩ := hs i hi
      exact hls i other ho hkey'

/-- At every point of every run the state file can be loaded; and if every write-out
up to there was in order, acknowledged puts survive. -/
theorem survives_of_ordered {disk : Disk} {actions : List WriterAction}
    (hload : disk.load F = some base) :
    (∃ loaded, (run (Writers.step F) (start base disk) actions).disk.load F = some loaded) ∧
    (Meets (Writers.step F) Ordered (start base disk) actions →
      (run (Writers.step F) (start base disk) actions).Survives F base) := by
  refine ⟨⟨_, (run_invariant_of_step (fun s action h => h.step (move_step F s action)) actions
    (traced_start hload)).file.2⟩, fun hmt => ?_⟩
  have hinv := run_invariant (fun s action (h : s.Traced F base ∧ s.Covered) ho =>
      have hm := move_step F s action
      ⟨h.1.step hm, h.2.step h.1 hm ho⟩)
    ⟨traced_start hload, fun _ h => by cases h⟩ hmt
  exact hinv.2.survives hinv.1

end Writers

/-! ## Two puts that overlap -/

/-- The files of the maps with `[1]`, and with `[1]` and `[2]`. -/
def twoPuts : StateFormat where
  toJson := Codebook.encode [([⟨"p", "01", "01"⟩], [5]),
    ([⟨"p", "01", "01"⟩, ⟨"p", "02", "02"⟩], [6])]
  fromJson := Codebook.decode [([⟨"p", "01", "01"⟩], [5]),
    ([⟨"p", "01", "01"⟩, ⟨"p", "02", "02"⟩], [6])]
  fromJson_toJson _ _ h := Codebook.decode_encode (by decide) h

def emptyDisk : Disk := ⟨"state.json", "state.tmp", fun _ => none⟩

def putFirst : PutCall := ⟨("p", [1]), [1]⟩

def putSecond : PutCall := ⟨("p", [2]), [2]⟩

/-- Both keys are in the map before the first snapshot is taken. -/
def unhurried : List WriterAction :=
  [.insert putFirst, .insert putSecond, .snapshot 0, .write 0, .rename 0,
    .snapshot 1, .write 1, .rename 1]

/-- Two puts that overlap and whose write-outs do not. -/
theorem ordered_puts_survive :
    Meets (Writers.step twoPuts) Writers.Ordered (.start ∅ emptyDisk) unhurried ∧
    (run (Writers.step twoPuts) (.start ∅ emptyDisk) unhurried).Acknowledged 0 ("p", [1]) ∧
    (run (Writers.step twoPuts) (.start ∅ emptyDisk) unhurried).Acknowledged 1 ("p", [2]) ∧
    (run (Writers.step twoPuts) (.start ∅ emptyDisk) unhurried).Survives twoPuts ∅ := by
  have hm : Meets (Writers.step twoPuts) Writers.Ordered (.start ∅ emptyDisk) unhurried := by
    refine ⟨trivial, trivial, trivial, fun _ _ _ hs => absurd hs (by decide), fun _ taken ht => ?_,
      trivial, fun _ _ _ hs => absurd hs (by decide), fun _ taken ht => ?_, trivial⟩
    all_goals
      cases ht
      refine ⟨by decide, fun j hj => ?_⟩
      rcases j with _ | _ | j
      · decide
      · decide
      · cases hj
  exact ⟨hm, ⟨by decide, putFirst, rfl, rfl⟩, ⟨by decide, putSecond, rfl, rfl⟩,
    (Writers.survives_of_ordered rfl).2 hm⟩

/-- The first put is held up between its snapshot and its write, and the second goes
through in the meantime. -/
def overtaken : List WriterAction :=
  [.insert putFirst, .snapshot 0, .insert putSecond, .snapshot 1, .write 1, .rename 1,
    .write 0, .rename 0]

/-- Both puts have returned `Ok`, and the second is not in the file. -/
theorem acknowledged_put_lost : emptyDisk.load twoPuts = some ∅ ∧
    (run (Writers.step twoPuts) (.start ∅ emptyDisk) overtaken).Acknowledged 1 ("p", [2]) ∧
    ((run (Writers.step twoPuts) (.start ∅ emptyDisk) overtaken).disk.load twoPuts).map
      (Finmap.lookup ("p", [2])) = some none ∧
    ¬ (run (Writers.step twoPuts) (.start ∅ emptyDisk) overtaken).Survives twoPuts ∅ := by
  have ha : (run (Writers.step twoPuts) (.start ∅ emptyDisk)
      overtaken).Acknowledged 1 ("p", [2]) := ⟨rfl, putSecond, rfl, rfl⟩
  have hl : ((run (Writers.step twoPuts) (.start ∅ emptyDisk) overtaken).disk.load
      twoPuts).map (lookup ("p", [2])) = some none := rfl
  refine ⟨rfl, ha, hl, ?_⟩
  rintro ⟨l, hld, hk⟩
  rw [hld, map_some, some.injEq] at hl
  rcases hk ("p", [2]) with ⟨-, hn⟩ | ⟨j, call, -, -, hv, -⟩
  · exact hn 1 ha
  · cases hl.symm.trans hv

end Pneumatic
