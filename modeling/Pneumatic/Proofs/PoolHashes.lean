import Pneumatic.Proofs.PoolRepresentation

/-!
# The pool as a set of block hashes

What the Committer's paths rely on is little: `apply_update` puts a block's
hash in or leaves the pool as it was, `revert_update` takes a hash out or finds
none, and neither ever records a block twice. This is the pool's history seen
through its hashes, for the two operations and for the undo of one by the
other.
-/

namespace Pneumatic

open ShieldedPool List

variable {C : Codec} {P : ShieldedPrimitives}

def ShieldedPool.appliedHashes (pool : ShieldedPool) : List Bytes :=
  pool.state.applied.map AppliedPoolDelta.blockHash

abbrev Block.isShielded (block : Block) : Bool :=
  block.signedTrans.shielded.isSome

/-- The pool's invariant, and no block is applied twice. -/
structure UniqueInv (P : ShieldedPrimitives) (pool : ShieldedPool) : Prop where
  inv : PoolInv P pool
  hashes : pool.appliedHashes.Nodup

/-- The same blocks are applied, each once. -/
structure SameHashes (P : ShieldedPrimitives) (before after : ShieldedPool) :
    Prop where
  unique : UniqueInv P after
  mem_iff : ∀ hash, hash ∈ after.appliedHashes ↔ hash ∈ before.appliedHashes

/-- The pool after `apply_update` has let a block pass: the block's hash is in,
and it was not before if the outcome is `Applied`. -/
structure Taken (P : ShieldedPrimitives) (block : Block)
    (outcome : PoolApplyOutcome) (before after : ShieldedPool) : Prop where
  unique : UniqueInv P after
  mem_iff : ∀ hash, hash ∈ after.appliedHashes ↔ hash ∈ before.appliedHashes ∨
      (block.isShielded = true ∧ block.currentHash = hash)
  fresh : outcome = .applied → block.isShielded = true ∧ block.currentHash ∉ before.appliedHashes
  same : outcome ≠ .applied → after = before

variable {pool after before : ShieldedPool} {block : Block} {outcome : PoolApplyOutcome}

section

variable (h : UniqueInv P pool)

include h

theorem UniqueInv.mem_index (hash : Bytes) :
    hash ∈ pool.state.appliedIndex ↔ hash ∈ pool.appliedHashes :=
  h.inv.replayed.mem_appliedIndex_iff

theorem UniqueInv.refl : SameHashes P pool pool :=
  ⟨h, fun _ => Iff.rfl⟩

/-- What `apply_update` does to the hashes, for a block that claims its key. -/
theorem UniqueInv.applyUpdate (env : EnvironmentMetadata)
    (hkey : blockKey C block = block.currentHash) :
    (∃ pool' outcome, pool.applyUpdate C P env block = (pool', .ok outcome) ∧
      Taken P block outcome pool pool') ∨
    ∃ e, pool.applyUpdate C P env block = (pool, .error e) := by
  cases hstx : block.signedTrans.shielded with
  | none =>
    refine .inl ⟨pool, .plain, by simp only [ShieldedPool.applyUpdate, hstx], ?_⟩
    refine ⟨h, fun hash => ?_, fun hout => ?_, fun _ => rfl⟩
    · simp [Block.isShielded, hstx]
    · cases hout
  | some stx =>
    by_cases hin : blockKey C block ∈ pool.state.appliedIndex
    · refine .inl ⟨pool, .alreadyApplied,
        by simp only [ShieldedPool.applyUpdate, hstx, if_pos hin], ?_⟩
      rw [hkey, h.mem_index] at hin
      refine ⟨h, fun hash => ⟨.inl, ?_⟩, fun hout => ?_, fun _ => rfl⟩
      · rintro (hold | ⟨-, rfl⟩)
        · exact hold
        · exact hin
      · cases hout
    -- a new hash: the re-check decides, and what it lets pass goes through
    · cases hr : validateShielded P env pool.ownDeps stx with
      | error e =>
        refine .inr ⟨.shieldedProofInvalid stx.id (.recheck e), ?_⟩
        simp only [ShieldedPool.applyUpdate, hstx, if_neg hin, hr]
      | ok r =>
        obtain ⟨fs, hrn, heq⟩ := exists_round (C := C) hstx hin hr
        refine .inl ⟨_, _, heq, ?_⟩
        have hh : (afterRound P pool (blockKey C block) stx
            fs).appliedHashes = pool.appliedHashes ++ [block.currentHash] := by
          simp only [appliedHashes, afterRound, PoolState.recordDelta,
            PoolState.appendLeaves_applied, map_append, map_singleton, hkey]
        refine ⟨⟨h.inv.round hrn, hashes_round h.inv hrn h.hashes⟩,
          fun hash => ?_, fun _ => ⟨by simp [Block.isShielded, hstx], ?_⟩,
          fun hne => absurd rfl hne⟩
        · rw [hh, mem_append, mem_singleton, eq_comm]
          simp [Block.isShielded, hstx]
        · rw [hkey, h.mem_index] at hin
          exact hin

theorem UniqueInv.revertUpdate (blockHash : Bytes) :
    (∃ pool', pool.revertUpdate P blockHash = (pool', .ok ()) ∧
      UniqueInv P pool' ∧ ∀ hash, hash ∈ pool'.appliedHashes ↔
        hash ∈ pool.appliedHashes ∧ hash ≠ blockHash) ∨
    (pool.revertUpdate P blockHash = (pool, .error (.poolRollback blockHash)) ∧
      blockHash ∉ pool.appliedHashes) := by
  rcases revertUpdate_cases h.inv blockHash with
    ⟨i, d, rebuilt, hrem, heq⟩ | ⟨hnot, heq⟩
  · refine .inl ⟨_, heq, ⟨h.inv.removal hrem, hashes_removal hrem h.hashes⟩, fun hash => ?_⟩
    obtain ⟨hi, hd⟩ := List.getElem?_eq_some_iff.mp hrem.getElem
    have hlen : i < pool.appliedHashes.length := by
      rw [appliedHashes, length_map]
      exact hi
    have hget : pool.appliedHashes[i] = blockHash := by
      simp only [appliedHashes, getElem_map, hd, hrem.hash_eq]
    have ha : (afterRemoval pool d rebuilt).appliedHashes = pool.appliedHashes.erase blockHash := by
      rw [← hget, h.hashes.erase_getElem i hlen]
      show rebuilt.applied.map AppliedPoolDelta.blockHash = _
      rw [hashes_of_content hrem.content, appliedHashes, eraseIdx_map]
    rw [ha, h.hashes.mem_erase_iff, and_comm]
  · rw [h.mem_index] at hnot
    exact .inr ⟨heq, hnot⟩

end

/-- A delta that was just applied is taken out again without a trace. -/
theorem Taken.revert (h : Taken P block .applied before after) :
    ∃ pool, after.revertUpdate P block.currentHash = (pool, .ok ()) ∧ SameHashes P before pool := by
  obtain ⟨hs, hf⟩ := h.fresh rfl
  have hin : block.currentHash ∈ after.appliedHashes :=
    (h.mem_iff _).mpr (.inr ⟨hs, rfl⟩)
  rcases h.unique.revertUpdate block.currentHash with
    ⟨pool, heq, hu, hmem⟩ | ⟨-, hnot⟩
  · refine ⟨pool, heq, hu, fun hash => ?_⟩
    rw [hmem, h.mem_iff]
    constructor
    · rintro ⟨hold | ⟨-, hh⟩, hne⟩
      · exact hold
      · exact absurd hh.symm hne
    · intro hold
      exact ⟨.inl hold, fun hh => hf (hh ▸ hold)⟩
  · exact absurd hin hnot

theorem blockKey_of_ne_nil (h : block.currentHash ≠ []) : blockKey C block = block.currentHash :=
  if_neg (fun he => h (isEmpty_iff.mp he))

theorem blockKey_of_createHash (h : createHash C block = block.currentHash) :
    blockKey C block = block.currentHash := by
  unfold blockKey
  split
  · exact h
  · rfl

/-- What a Commit leaves in the pool: the block's hash is in with those from
before, and the rolled-back one is out. -/
structure Settled (P : ShieldedPrimitives) (block : Block)
    (rollback : Option Bytes) (before after : ShieldedPool) : Prop where
  unique : UniqueInv P after
  mem_iff : ∀ hash, hash ∈ after.appliedHashes ↔ (hash ∈ before.appliedHashes ∨
      (block.isShielded = true ∧ block.currentHash = hash)) ∧
    rollback ≠ some hash

theorem Taken.settled (h : Taken P block outcome before after) :
    Settled P block none before after := by
  refine ⟨h.unique, fun hash => ?_⟩
  rw [h.mem_iff]
  exact ⟨fun hin => ⟨hin, fun hn => by cases hn⟩, And.left⟩

theorem Taken.settled_some {loser : Bytes}
    (h : Taken P block outcome before after) (hu : UniqueInv P pool)
    (hmem : ∀ hash, hash ∈ pool.appliedHashes ↔ hash ∈ after.appliedHashes ∧ hash ≠ loser) :
    Settled P block (some loser) before pool := by
  refine ⟨hu, fun hash => ?_⟩
  rw [hmem, h.mem_iff, ne_comm, ne_eq, ne_eq, Option.some.injEq]

/-- The pool after `apply_update` has let all of some blocks pass. -/
structure TakenAll (P : ShieldedPrimitives) (blocks : List Block)
    (before after : ShieldedPool) : Prop where
  unique : UniqueInv P after
  mem_iff : ∀ hash, hash ∈ after.appliedHashes ↔ hash ∈ before.appliedHashes ∨
      ∃ block ∈ blocks, block.isShielded = true ∧ block.currentHash = hash

/-- Blocks that are not shielded change nothing. -/
theorem UniqueInv.takenAll (h : UniqueInv P pool)
    {blocks : List Block} (hp : ¬ blocks.any Block.isShielded = true) :
    TakenAll P blocks pool pool := by
  refine ⟨h, fun hash => ⟨.inl, ?_⟩⟩
  rintro (hold | ⟨block, hb, hs, -⟩)
  · exact hold
  · exact absurd (any_eq_true.mpr ⟨block, hb, hs⟩) hp

theorem Taken.cons {blocks : List Block} {between : ShieldedPool}
    (h : Taken P block outcome before between) (hr : TakenAll P blocks between after) :
    TakenAll P (block :: blocks) before after := by
  refine ⟨hr.unique, fun hash => ?_⟩
  rw [hr.mem_iff, h.mem_iff]
  simp only [mem_cons, exists_eq_or_imp, or_assoc]

end Pneumatic
