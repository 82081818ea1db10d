import Pneumatic.Committer.VoteRace
import Pneumatic.Proofs.Votes

/-!
# Whether a vote is lost

`cast_confirmation_vote` buffers a vote that finds no stake set "so it is never
lost". But what it found can be out of date when it buffers: the handler may have
cached the stake set and drained the buffer since. Nobody drains it again.

That is the only way. A vote that was cast is counted, or waits in the buffer, or
is among those the handler has drained, as long as no vote is buffered after the
drain.
-/

namespace Pneumatic

open Run VotingState Finmap Option Function

def VotingState.counted (st : VotingState) (blockHash : Bytes) : Finset Bytes :=
  ((st.confirmationVotes.lookup blockHash).getD (∅, 0)).1

def VotingState.buffered (st : VotingState) (blockHash : Bytes) : List Bytes :=
  (st.pendingConfirmationVotes.lookup blockHash).getD []

namespace ReplayStage

def drained : ReplayStage → Bool
  | idle | cached => false
  | replaying _ | counting _ _ _ => true

/-- The votes the handler has drained and not counted. -/
def waiting : ReplayStage → List Bytes
  | idle | cached => []
  | replaying voters => voters
  | counting voterKey _ rest => voterKey :: rest

end ReplayStage

namespace VoteRace

variable {blockHash : Bytes} {stakes : StakeSet} {maps : VotingState}
  {s s' : VoteRace} {action : RaceAction}

section

variable (blockHash : Bytes) (maps : VotingState) (s : VoteRace)

/-- Every call is over, and the handler has counted what it drained. -/
structure Finished : Prop where
  calls : ∀ i < s.calls.length, s.stage i = .done
  replay : s.replay = .replaying []

/-- Every vote for the block is counted and none is in the buffer. -/
structure AllCounted :
    Prop where
  cast : ∀ call ∈ s.calls, call.blockHash = blockHash → call.voterKey ∈ s.maps.counted blockHash
  early : ∀ voterKey ∈ maps.buffered blockHash, voterKey ∈ s.maps.counted blockHash
  noneLeft : s.maps.pendingConfirmationVotes.lookup blockHash = none

/-- No vote for the block is buffered after the drain. -/
def BuffersInTime : RaceAction → Prop
  | .finish i => ∀ call, s.calls[i]? = some call → call.blockHash = blockHash →
    s.stage i = .looked none → s.replay.drained = false
  | _ => True

/-- The vote is counted, buffered or about to be replayed. -/
def Placed (voterKey : Bytes) : Prop :=
  voterKey ∈ s.maps.counted blockHash ∨ voterKey ∈ s.maps.buffered blockHash ∨
    voterKey ∈ s.replay.waiting

/-- No vote for the block is lost between the maps. -/
structure VotesPlaced : Prop where
  cast : ∀ i call, s.calls[i]? = some call → call.blockHash = blockHash →
    s.stage i = .done → s.Placed blockHash call.voterKey
  early : ∀ voterKey ∈ maps.buffered blockHash, s.Placed blockHash voterKey
  emptied : s.replay.drained = true → s.maps.pendingConfirmationVotes.lookup blockHash = none
  cached : s.replay ≠ .idle → s.maps.stakeSetCache.lookup blockHash ≠ none

end

section Maps

variable {st : VotingState} {other voterKey : Bytes} {stake : Nat}

theorem self_mem_counted_count :
    voterKey ∈ (st.count blockHash voterKey stake).counted blockHash := by
  unfold count counted
  rw [lookup_insert, getD_some]
  split
  · next hmem => exact hmem
  · exact Finset.mem_insert_self _ _

theorem mem_counted_count {voter : Bytes} (h : voter ∈ st.counted blockHash) :
    voter ∈ (st.count other voterKey stake).counted blockHash := by
  by_cases ho : blockHash = other
  · subst ho
    unfold count counted
    rw [lookup_insert, getD_some]
    split
    · exact h
    · exact Finset.mem_insert_of_mem h
  · unfold count counted
    rw [lookup_insert_of_ne _ ho]
    exact h

theorem self_mem_buffered_buffer :
    voterKey ∈ (st.buffer blockHash voterKey).buffered blockHash := by
  unfold buffer buffered
  rw [lookup_insert, getD_some]
  exact List.mem_append_right _ List.mem_cons_self

theorem mem_buffered_buffer {voter : Bytes} (h : voter ∈ st.buffered blockHash) :
    voter ∈ (st.buffer other voterKey).buffered blockHash := by
  by_cases ho : blockHash = other
  · subst ho
    unfold buffer buffered
    rw [lookup_insert, getD_some]
    exact List.mem_append_left _ h
  · unfold buffer buffered
    rw [lookup_insert_of_ne _ ho]
    exact h

end Maps

/-- A step leaves a vote in one of the three places. -/
theorem Placed.move {voterKey : Bytes} (h : s.Placed blockHash voterKey)
    (hc : s.replay ≠ .idle → s.maps.stakeSetCache.lookup blockHash ≠ none)
    (hm : Move blockHash stakes s action s') : s'.Placed blockHash voterKey := by
  cases hm with
  | skip | look => exact h
  | cache hi =>
    unfold Placed at h
    rw [hi] at h
    exact h
  | @finish i call found _ _ =>
    cases found with
    | some stake => exact h.imp_left mem_counted_count
    | none => exact h.imp_right (Or.imp_left mem_buffered_buffer)
  | drain hs =>
    rcases h with h | h | h
    · exact .inl h
    · exact .inr (.inr h)
    · rw [hs] at h
      cases h
  | @missed voter rest hr hn =>
    have hf := hc (by rw [hr]; exact fun heq => by cases heq)
    exact absurd (map_eq_none_iff.mp hn) hf
  | replayLook hr _ =>
    unfold Placed at h ⊢
    rw [hr] at h
    exact h
  | replayCount hr =>
    unfold Placed at h
    rw [hr] at h
    rcases h with h | h | h
    · exact .inl (mem_counted_count h)
    · exact .inr (.inl h)
    · rcases List.mem_cons.mp h with rfl | h
      · exact .inl self_mem_counted_count
      · exact .inr (.inr h)

section

variable (h : VotesPlaced blockHash maps s)

include h

/-- A call that is over after a step was over before, or has just placed its
vote. -/
theorem placed_of_done {i : Nat} {call : VoteCall} (hm : Move blockHash stakes s action s')
    (hc : s'.calls[i]? = some call) (hb : call.blockHash = blockHash)
    (hd : s'.stage i = .done) : s'.Placed blockHash call.voterKey := by
  have hp : ∀ {voterKey}, s.Placed blockHash voterKey →
      s'.Placed blockHash voterKey := fun hv => hv.move h.cached hm
  cases hm with
  | skip | cache | drain | missed | replayLook | replayCount =>
    exact hp (h.cast i call hc hb hd)
  | look new =>
    have hi : i ≠ s.calls.length := by
      intro hi
      rw [hi] at hd
      cases (update_self (f := s.stage) _ _).symm.trans hd
    have hold : s.calls[i]? = some call := by
      have hlt := (List.getElem?_eq_some_iff.mp hc).1
      rw [List.length_append, List.length_singleton] at hlt
      rwa [List.getElem?_append_left (by omega)] at hc
    exact h.cast i call hold hb ((update_of_ne hi _ s.stage).symm.trans hd)
  | @finish j own found hown hl =>
    by_cases hi : i = j
    · subst hi
      obtain rfl := mem_unique hown hc
      subst hb
      cases found with
      | some stake => exact .inl self_mem_counted_count
      | none => exact .inr (.inl self_mem_buffered_buffer)
    · exact hp (h.cast i call hc hb ((update_of_ne hi _ s.stage).symm.trans hd))

/-- The buffer stays empty after the drain where votes are buffered in time. -/
theorem emptied_move (hm : Move blockHash stakes s action s')
    (hi : BuffersInTime blockHash s action) (hd : s'.replay.drained = true) :
    s'.maps.pendingConfirmationVotes.lookup blockHash = none := by
  cases hm with
  | skip | look => exact h.emptied hd
  | cache => cases hd
  | drain => exact lookup_erase _ _
  | missed hr | replayLook hr | replayCount hr =>
    exact h.emptied (by rw [hr]; rfl)
  | @finish i call found hc hs =>
    cases found with
    | some stake => exact h.emptied hd
    | none =>
      have ho : blockHash ≠ call.blockHash := by
        intro hb
        cases (hi call hc hb.symm hs).symm.trans hd
      exact (lookup_insert_of_ne _ ho).trans (h.emptied hd)

theorem VotesPlaced.step (hi : BuffersInTime blockHash s action) :
    VotesPlaced blockHash maps (VoteRace.step blockHash stakes s action) := by
  have hm := move_step blockHash stakes s action
  generalize VoteRace.step blockHash stakes s action = s' at hm ⊢
  refine ⟨fun i call hc hb hd => placed_of_done h hm hc hb hd,
    fun voterKey hv => (h.early voterKey hv).move h.cached hm, emptied_move h hm hi, fun hs => ?_⟩
  cases hm with
  | skip | look => exact h.cached hs
  | @finish i call found _ _ =>
    cases found with
    | some stake | none => exact h.cached hs
  | cache =>
    rw [lookup_insert]
    exact some_ne_none _
  | drain hr | missed hr | replayLook hr | replayCount hr =>
    exact h.cached (by rw [hr]; exact fun heq => by cases heq)

end

theorem VotesPlaced.start (maps : VotingState) :
    VotesPlaced blockHash maps (VoteRace.start maps) where
  cast _ _ hcall := by cases hcall
  early _ hvoter := .inr (.inl hvoter)
  emptied hdrained := by cases hdrained
  cached hstarted := absurd rfl hstarted

/-- When all is over, a vote that has a place is counted. -/
theorem VotesPlaced.allCounted (h : VotesPlaced blockHash maps s) (hd : s.Finished) :
    AllCounted blockHash maps s := by
  have hn : s.maps.pendingConfirmationVotes.lookup blockHash = none :=
    h.emptied (by rw [hd.replay]; rfl)
  have hc : ∀ {voterKey}, s.Placed blockHash voterKey → voterKey ∈ s.maps.counted blockHash := by
    intro voterKey hp
    rcases hp with hc | hb | hw
    · exact hc
    · rw [buffered, hn] at hb
      cases hb
    · rw [hd.replay] at hw
      cases hw
  refine ⟨fun call hcl hbl => ?_, fun voterKey hv => ?_, hn⟩
  · obtain ⟨i, hi, hget⟩ := List.mem_iff_getElem.mp hcl
    exact hc (h.cast i call (List.getElem?_eq_some_iff.mpr ⟨hi, hget⟩) hbl (hd.calls i hi))
  · exact hc (h.early voterKey hv)

/-- A vote in the buffer after the drain. -/
def Late (blockHash : Bytes) (s : VoteRace) : Prop :=
  s.replay.drained = true ∧ s.maps.pendingConfirmationVotes.lookup blockHash ≠ none

theorem lookup_buffer_ne_none {st : VotingState} {other voterKey : Bytes}
    (h : other = blockHash ∨ st.pendingConfirmationVotes.lookup blockHash ≠ none) :
    (st.buffer other voterKey).pendingConfirmationVotes.lookup blockHash ≠ none := by
  unfold buffer
  by_cases ho : blockHash = other
  · rw [ho, lookup_insert]
    exact some_ne_none _
  · rw [lookup_insert_of_ne _ ho]
    exact h.resolve_left (Ne.symm ho)

/-- It stays there: the handler drains once. -/
theorem Late.step (h : Late blockHash s) : Late blockHash (step blockHash stakes s action) := by
  obtain ⟨hd, hl⟩ := h
  have hm := move_step blockHash stakes s action
  generalize VoteRace.step blockHash stakes s action = s' at hm ⊢
  cases hm with
  | skip | look => exact ⟨hd, hl⟩
  | @finish i call found _ _ =>
    cases found with
    | some stake => exact ⟨hd, hl⟩
    | none => exact ⟨hd, lookup_buffer_ne_none (.inr hl)⟩
  | cache hs | drain hs =>
    rw [hs] at hd
    cases hd
  | missed | replayLook | replayCount => exact ⟨rfl, hl⟩

theorem late_of_not_inTime (h : ¬ BuffersInTime blockHash s action) :
    Late blockHash (step blockHash stakes s action) := by
  cases action with
  | finish i =>
    simp only [BuffersInTime, not_forall, Bool.not_eq_false] at h
    obtain ⟨call, hc, hb, hs, hd⟩ := h
    rw [show step blockHash stakes s (.finish i) =
      { s.setStage i .done with maps := s.settle call none } by
        simp only [step, hc, hs]]
    exact ⟨hd, lookup_buffer_ne_none (.inl hb)⟩
  | look | cache | drain | replayLook | replayCount => exact absurd trivial h

/-- When all calls and the handler are over, every vote for the block is counted if
and only if none was buffered after the drain. -/
theorem allCounted_iff {actions : List RaceAction}
    (hdone : (run (step blockHash stakes) (start maps) actions).Finished) :
    AllCounted blockHash maps (run (step blockHash stakes) (start maps) actions) ↔
      Meets (step blockHash stakes) (BuffersInTime blockHash) (start maps) actions := by
  constructor
  · intro hc
    rw [meets_iff_forall]
    intro pre action post ha
    by_contra hl
    have hend : Late blockHash (run (step blockHash stakes) (start maps) actions) := by
      rw [ha, run_append]
      exact run_invariant_of_step (fun _ _ h => h.step) post (late_of_not_inTime hl)
    exact hend.2 hc.noneLeft
  · intro hm
    have hp := run_invariant (fun _ _ h hi => h.step hi) (VotesPlaced.start maps) hm
    exact hp.allCounted hdone

def raceStakes : StakeSet := (∅ : StakeSet).insert [5] 10

/-- The vote of `[5]` looks before the stake set comes and is buffered after the
drain: all is over, the vote is in the buffer, and nobody is counted. -/
theorem late_vote_lost : (run (step [1] raceStakes) (start unvoted)
        [.look ⟨[1], [5]⟩, .cache, .drain, .finish 0]).Finished ∧
      (run (step [1] raceStakes) (start unvoted)
        [.look ⟨[1], [5]⟩, .cache, .drain, .finish 0]).maps.buffered [1] = [[5]] ∧
      (run (step [1] raceStakes) (start unvoted)
        [.look ⟨[1], [5]⟩, .cache, .drain, .finish 0]).maps.counted [1] = ∅ ∧
      ¬ AllCounted [1] unvoted (run (step [1] raceStakes) (start unvoted)
        [.look ⟨[1], [5]⟩, .cache, .drain, .finish 0]) := by
  have hn : (run (step [1] raceStakes) (start unvoted)
      [.look ⟨[1], [5]⟩, .cache, .drain, .finish 0]).maps.counted [1] = ∅ := by
    decide +kernel
  refine ⟨⟨by decide +kernel, rfl⟩, rfl, hn, fun h => ?_⟩
  have hc := h.cast ⟨[1], [5]⟩ List.mem_cons_self rfl
  cases hc

/-- Buffered before the drain it is counted. -/
theorem early_vote_counted : AllCounted [1] unvoted (run (step [1] raceStakes) (start unvoted)
      [.look ⟨[1], [5]⟩, .cache, .finish 0, .drain, .replayLook, .replayCount]) := by
  refine (allCounted_iff ⟨by decide +kernel, rfl⟩).mpr
    ⟨trivial, trivial, ?_, trivial, trivial, trivial, trivial⟩
  exact fun _ _ _ _ => rfl

end VoteRace

end Pneumatic
