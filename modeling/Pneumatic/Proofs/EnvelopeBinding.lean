import Pneumatic.Proofs.Votes

/-!
# What the envelope's signature binds

The signed payload is the raw body. The chain id, the action and the stake set
stand beside it, so a relay can put other ones beside a body it has seen. Of the
three the authentication only looks at the action, and only to ask whether the
sender's roles allow it; the stake set of a `BlockFinalized` goes from the
message into the cache that the quorum is measured against.
-/

namespace Pneumatic

open Handler HandlerM Run

variable {C : Codec} {P : ShieldedPrimitives} {cfg : CommitterConfig}
  {setup : VotingSetup} {votes : VoteCodec} {world : VotingWorld}
  {roles : Bytes → List NodeRegistryType} {st : VotingState}

/-- The gate of the action passes the key. -/
def MaySend (setup : VotingSetup) (roles : Bytes → List NodeRegistryType)
    (key : Bytes) (action : String) : Prop :=
  match allowedSendersFor action with
  | .exact expected => expected ∈ roles key
  | .selfOnly => key = setup.publicKey
  | .anyRegistered => True

/-- A message is accepted for its signature over the body, its registered key
and the roles its action asks for, and nothing else. -/
theorem authenticateMessage_ok_iff {message : WireMessage} :
    authenticateMessage C setup roles message = .ok () ↔
      C.checkSignature message.signature message.publicKey message.body = some true ∧
        roles message.publicKey ≠ [] ∧ MaySend setup roles message.publicKey message.action := by
  unfold authenticateMessage authenticateEnvelope MaySend
  cases C.checkSignature message.signature message.publicKey message.body with
  | none => simp
  | some v =>
    cases v with
    | false => simp
    | true =>
      by_cases hr : roles message.publicKey = []
      · simp [hr]
      · have he : (roles message.publicKey).isEmpty = false := by
          simpa using hr
        simp only [he, Bool.false_eq_true, if_false, hr, not_false_eq_true, ne_eq, true_and]
        cases allowedSendersFor message.action with
        | exact e => by_cases h : e ∈ roles message.publicKey <;> simp [h]
        | selfOnly => by_cases h : message.publicKey = setup.publicKey <;> simp [h]
        | anyRegistered => simp

/-- The stake set cached for a block is this one. -/
def Caches (blockHash : Bytes) (stakes : StakeSet) (st : VotingState) : Prop :=
  st.stakeSetCache.lookup blockHash = some stakes

section Caches

variable {blockHash : Bytes} {stakes : StakeSet}

theorem preserves_caches_accumulateVote (hash voterKey : Bytes) :
    Preserves (Caches blockHash stakes) (accumulateVote hash voterKey) := by
  refine .bind .getState fun st => ?_
  split
  · exact .pure none
  · exact .bind (.update fun _ h => h) fun _ => .pure _

theorem preserves_caches_castConfirmationVote (hash voterKey : Bytes) :
    Preserves (Caches blockHash stakes) (castConfirmationVote hash voterKey) := by
  refine .bind (preserves_caches_accumulateVote _ _) fun c => ?_
  split
  · exact .pure ()
  · exact .update fun _ h => h

theorem preserves_caches_replayVotes (hash : Bytes) (voters : List Bytes) :
    Preserves (Caches blockHash stakes) (replayVotes hash voters) := by
  induction voters with
  | nil => exact .pure ()
  | cons vk rest ih =>
    exact .bind (preserves_caches_accumulateVote _ _) fun _ => ih

/-- The stake set a finalized block's message brings is cached, whatever becomes
of the block. -/
theorem caches_finalizeBlock {message : WireMessage} {block : Block}
    (hd : C.decodeBlock message.body = some block)
    (hs : message.stakeSet = some stakes) :
    Keeps (finalizeBlock C P cfg setup world message) st (Caches block.currentHash stakes) := by
  refine keeps_finalizeBlock (fun _ _ _ h => keeps_iff.mpr h)
    (fun hash => preserves_caches_castConfirmationVote hash _)
    (fun hn => ?_) (fun block' hb => ?_)
  · cases hd.symm.trans hn
  · obtain rfl := Option.mem_unique hd hb
    rw [hs]
    refine ends_bind.mpr (ends_bind.mpr (ends_bind.mpr ?_))
    exact preserves_caches_replayVotes _ _ _ (Finmap.lookup_insert _)

end Caches

/-- What an accepted envelope binds. The body was signed by the key's owner. Any
message with the same key, signature and body is accepted as well, whatever its
chain id and stake set, exactly if the key's roles allow its action; and the
stake set it brings for a finalized block is the one that is cached. -/
theorem envelope_binds_body (Signed : Bytes → Bytes → Prop) (hideal : ∀ signature key body,
      C.checkSignature signature key body = some true → Signed key body)
    {message relabelled : WireMessage}
    (haccepted : authenticateMessage C setup world.answers.roles message = .ok ())
    (hsame : relabelled.toMessage = message.toMessage) : Signed message.publicKey message.body ∧
      (authenticateMessage C setup world.answers.roles relabelled = .ok () ↔
        MaySend setup world.answers.roles message.publicKey relabelled.action) ∧
      (authenticateMessage C setup world.answers.roles relabelled = .ok () →
        relabelled.action = "BlockFinalized" → ∀ block stakes,
        C.decodeBlock message.body = some block → relabelled.stakeSet = some stakes →
        (votingStep C P cfg setup votes st
          ⟨world, relabelled⟩).stakeSetCache.lookup block.currentHash = some stakes) := by
  obtain ⟨hs, hr, -⟩ := authenticateMessage_ok_iff.mp haccepted
  refine ⟨hideal _ _ _ hs, ?_, fun hrl ha block stakes hd hst => ?_⟩
  · rw [authenticateMessage_ok_iff, hsame]
    exact ⟨fun h => h.2.2, fun h => ⟨hs, hr, h⟩⟩
  · rw [← hsame] at hd
    refine keeps_iff (P := Caches block.currentHash stakes).mp ?_
    refine ends_bind.mpr (ends_lift.mpr ⟨fun _ _ => ?_, fun e he => ?_⟩)
    · rw [if_pos ha]
      exact caches_finalizeBlock hd hst
    · cases hrl.symm.trans he

/-- A codec in which one signature verifies, that of `[4]` over the body `[1]`. -/
def oneSignature : Codec :=
  { votingCodec with
    checkSignature := fun signature key body =>
      some (signature = [40] ∧ key = [4] ∧ body = [1]) }

/-- The signed body with what a relay chooses beside it. -/
def beside (chainId action : String) (stakeSet : Option StakeSet) : WireMessage where
  publicKey := [4]
  signature := [40]
  body := [1]
  chainId := chainId
  action := action
  stakeSet := stakeSet

def relayWorld : VotingWorld := ⟨obligingWorld, fun _ => []⟩

/-- The same signed body is accepted for another chain under another action, and
with a stake set of the relay's choice, which is then the block's. -/
theorem relabelled_accepted : authenticateMessage oneSignature votingSetup obligingWorld.roles
        (beside "env" "BlockFinalized" (staked [5])) = .ok () ∧
      authenticateMessage oneSignature votingSetup obligingWorld.roles
        (beside "other" "BlockConfirmed" none) = .ok () ∧
      authenticateMessage oneSignature votingSetup obligingWorld.roles
        (beside "env" "BlockFinalized" (staked [8])) = .ok () ∧ staked [5] ≠ staked [8] ∧
      (votingStep oneSignature ShieldedPool.samplePrimitives sampleCommitter votingSetup
        namedVoter unvoted ⟨relayWorld, beside "env" "BlockFinalized" (staked [8])⟩
        ).stakeSetCache.lookup votedBlock.currentHash = staked [8] := by
  refine ⟨rfl, rfl, rfl, by decide +kernel,
    rfl⟩

/-- What the owner of `[4]` signed. -/
def SignedByFour (key body : Bytes) : Prop := key = [4] ∧ body = [1]

/-- The body was signed, and the stake set that was swapped in is cached. -/
theorem swapped_stakes_cached : SignedByFour [4] [1] ∧
      (votingStep oneSignature ShieldedPool.samplePrimitives sampleCommitter votingSetup
        namedVoter unvoted ⟨relayWorld, beside "env" "BlockFinalized" (staked [8])⟩
        ).stakeSetCache.lookup votedBlock.currentHash = some ((∅ : StakeSet).insert [8] 10) := by
  have hi : ∀ s key body, oneSignature.checkSignature s key body = some true →
        SignedByFour key body :=
    fun s key body h => (of_decide_eq_true (Option.some.inj h)).2
  have ha : authenticateMessage oneSignature votingSetup
      relayWorld.answers.roles (beside "env" "BlockFinalized" (staked [5])) = .ok () := by
    decide +kernel
  have hs : authenticateMessage oneSignature votingSetup
      relayWorld.answers.roles (beside "env" "BlockFinalized" (staked [8])) = .ok () := by
    decide +kernel
  obtain ⟨hsg, -, hc⟩ := @envelope_binds_body oneSignature
    ShieldedPool.samplePrimitives sampleCommitter votingSetup namedVoter relayWorld
    unvoted SignedByFour hi _ (beside "env" "BlockFinalized" (staked [8]))
    ha rfl
  exact ⟨hsg, hc hs rfl votedBlock _ rfl rfl⟩

end Pneumatic
