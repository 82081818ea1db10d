import Pneumatic.Committer.Quoruming
import Pneumatic.Lib.Run

/-!
# Votes that race a stake set

The steps of `quoruming.rs` that a lock protects, for calls of
`cast_confirmation_vote` that overlap with one `handle_block_finalized`. A call
looks the stake set up under the lock of the cache. It then counts the vote under
the lock of the votes, or buffers it under the lock of the buffer, by what it
found; nothing is held in between. The handler caches the stake set, drains the
buffer of the block, and counts what it drained vote by vote, each with a look-up
and a count of its own.

The handler's own vote is one more call.
-/

namespace Pneumatic

open Handler HandlerM Run Option

structure VoteCall where
  blockHash : Bytes
  voterKey : Bytes
deriving DecidableEq

/-- What a call has done: it has looked, and found a stake set with this stake of
the voter or none, or it is over. -/
inductive VoteStage where
  | looked (stake : Option Nat)
  | done
deriving DecidableEq

/-- What the handler has done. After the drain it has the votes it still counts. -/
inductive ReplayStage where
  | idle
  | cached
  | replaying (voters : List Bytes)
  | counting (voterKey : Bytes) (stake : Nat) (rest : List Bytes)
deriving DecidableEq

/-- The maps of the vote, the calls in the order in which they looked, and the
handler. -/
structure VoteRace where
  maps : VotingState
  calls : List VoteCall
  stage : Nat → VoteStage
  replay : ReplayStage

inductive RaceAction where
  | look (call : VoteCall)
  | finish (i : Nat)
  | cache
  | drain
  | replayLook
  | replayCount
deriving DecidableEq

/-- The second half of `accumulate_vote`, with the stake found in the first. -/
def VotingState.count (st : VotingState) (blockHash voterKey : Bytes) (stake : Nat) : VotingState :=
  let entry := (st.confirmationVotes.lookup blockHash).getD (∅, 0)
  { st with
    confirmationVotes := st.confirmationVotes.insert blockHash
      (if voterKey ∈ entry.1 then entry
       else (insert voterKey entry.1, saturatingAdd entry.2 stake)) }

/-- The second half of `cast_confirmation_vote` when the first found nothing. -/
def VotingState.buffer (st : VotingState) (blockHash voterKey : Bytes) : VotingState :=
  { st with
    pendingConfirmationVotes := st.pendingConfirmationVotes.insert blockHash
      ((st.pendingConfirmationVotes.lookup blockHash).getD [] ++ [voterKey]) }

def VotingState.stakeIn (st : VotingState) (blockHash voterKey : Bytes) : Option Nat :=
  (st.stakeSetCache.lookup blockHash).map fun stakes => stakes.getStake voterKey

namespace VoteRace

def start (maps : VotingState) : VoteRace where
  maps := maps
  calls := []
  stage _ := .done
  replay := .idle

def setStage (s : VoteRace) (i : Nat) (stage : VoteStage) : VoteRace :=
  { s with stage := Function.update s.stage i stage }

def settle (s : VoteRace) (call : VoteCall) : Option Nat → VotingState
  | some stake => s.maps.count call.blockHash call.voterKey stake
  | none => s.maps.buffer call.blockHash call.voterKey

/-- One step of a call or of the handler; a step whose turn it is not does
nothing. -/
def step (blockHash : Bytes) (stakes : StakeSet) (s : VoteRace) : RaceAction → VoteRace
  | .look call =>
    { s.setStage s.calls.length
        (.looked (s.maps.stakeIn call.blockHash call.voterKey)) with
      calls := s.calls ++ [call] }
  | .finish i =>
    match s.calls[i]?, s.stage i with
    | some call, .looked found =>
      { s.setStage i .done with maps := s.settle call found }
    | _, _ => s
  | .cache =>
    if s.replay = .idle then
      { s with
        maps := { s.maps with
          stakeSetCache := s.maps.stakeSetCache.insert blockHash stakes }
        replay := .cached }
    else s
  | .drain =>
    if s.replay = .cached then
      { s with
        maps := { s.maps with
          pendingConfirmationVotes := s.maps.pendingConfirmationVotes.erase blockHash }
        replay := .replaying
          ((s.maps.pendingConfirmationVotes.lookup blockHash).getD []) }
    else s
  | .replayLook =>
    match s.replay with
    | .replaying (voterKey :: rest) =>
      match s.maps.stakeIn blockHash voterKey with
      -- without a stake set the vote would be gone
      | none => { s with replay := .replaying rest }
      | some stake => { s with replay := .counting voterKey stake rest }
    | _ => s
  | .replayCount =>
    match s.replay with
    | .counting voterKey stake rest =>
      { s with
        maps := s.maps.count blockHash voterKey stake
        replay := .replaying rest }
    | _ => s

/-- What one turn can do. -/
inductive Move (blockHash : Bytes) (stakes : StakeSet) (s : VoteRace) :
    RaceAction → VoteRace → Prop
  | skip (action : RaceAction) : Move blockHash stakes s action s
  | look (call : VoteCall) : Move blockHash stakes s (.look call)
        { s.setStage s.calls.length
            (.looked (s.maps.stakeIn call.blockHash call.voterKey)) with
          calls := s.calls ++ [call] }
  | finish {i : Nat} {call : VoteCall} {found : Option Nat}
      (hcall : s.calls[i]? = some call) (hstage : s.stage i = .looked found) :
      Move blockHash stakes s (.finish i)
        { s.setStage i .done with maps := s.settle call found }
  | cache (hidle : s.replay = .idle) : Move blockHash stakes s .cache
        { s with
          maps := { s.maps with
            stakeSetCache := s.maps.stakeSetCache.insert blockHash stakes }
          replay := .cached }
  | drain (hcached : s.replay = .cached) : Move blockHash stakes s .drain
        { s with
          maps := { s.maps with
            pendingConfirmationVotes :=
              s.maps.pendingConfirmationVotes.erase blockHash }
          replay := .replaying
            ((s.maps.pendingConfirmationVotes.lookup blockHash).getD []) }
  | missed {voterKey : Bytes} {rest : List Bytes}
      (hreplay : s.replay = .replaying (voterKey :: rest))
      (hnone : s.maps.stakeIn blockHash voterKey = none) :
      Move blockHash stakes s .replayLook { s with replay := .replaying rest }
  | replayLook {voterKey : Bytes} {rest : List Bytes} {stake : Nat}
      (hreplay : s.replay = .replaying (voterKey :: rest))
      (hfound : s.maps.stakeIn blockHash voterKey = some stake) :
      Move blockHash stakes s .replayLook
        { s with replay := .counting voterKey stake rest }
  | replayCount {voterKey : Bytes} {rest : List Bytes} {stake : Nat}
      (hreplay : s.replay = .counting voterKey stake rest) :
      Move blockHash stakes s .replayCount
        { s with
          maps := s.maps.count blockHash voterKey stake
          replay := .replaying rest }

theorem move_step (blockHash : Bytes) (stakes : StakeSet) (s : VoteRace) (action : RaceAction) :
    Move blockHash stakes s action (step blockHash stakes s action) := by
  cases action with
  | look call => exact .look call
  | finish i =>
    unfold step
    dsimp only
    split
    · next hcl hs => exact .finish hcl hs
    · exact .skip _
  | cache =>
    unfold step
    dsimp only
    split
    · next hi => exact .cache hi
    · exact .skip _
  | drain =>
    unfold step
    dsimp only
    split
    · next hc => exact .drain hc
    · exact .skip _
  | replayLook =>
    unfold step
    dsimp only
    split
    · next hr =>
      split
      · next hn => exact .missed hr hn
      · next hf => exact .replayLook hr hf
    · exact .skip _
  | replayCount =>
    unfold step
    dsimp only
    split
    · next hr => exact .replayCount hr
    · exact .skip _

end VoteRace

end Pneumatic
