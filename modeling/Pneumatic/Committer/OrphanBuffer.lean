import Pneumatic.Core.Transactions

/-!
# The orphan buffer

`orphan_buffer.rs`: blocks gossiped before their parent, kept per token in the
order they came. The buffer has a global cap, at which it rejects, a cap per
token, at which it evicts the token's oldest block, and a time to live. Time is
a number of milliseconds, and all clock readings within one message agree.

The source keeps a queue per token and a count of all blocks. Here there is one
list in the order of arrival: a token's queue is the part of it that carries
the token, and the count is its length.
-/

namespace Pneumatic

open List

/-- `BufferedBlock` and the token it is queued under; its `parent_hash` is the
block's `previous_hash`. -/
structure BufferedBlock where
  tokenId : Bytes
  block : Block
  insertedAt : Nat
  ttl : Nat
deriving DecidableEq

def BufferedBlock.isExpired (buffered : BufferedBlock) (now : Nat) : Bool :=
  buffered.ttl ≤ now - buffered.insertedAt

inductive BufferDecision where
  | buffered
  | rejectedFull
deriving DecidableEq

structure OrphanBuffer where
  entries : List BufferedBlock
  maxEntries : Nat
  maxPerToken : Nat
  ttl : Nat
deriving DecidableEq

namespace OrphanBuffer

def new (maxEntries maxPerToken ttl : Nat) : OrphanBuffer where
  entries := []
  maxEntries := maxEntries
  maxPerToken := maxPerToken
  ttl := ttl

def len (buffer : OrphanBuffer) : Nat := buffer.entries.length

def dropExpired (buffer : OrphanBuffer) (now : Nat) : OrphanBuffer :=
  { buffer with entries := buffer.entries.filter fun b => !b.isExpired now }

/-- The queue's `push_back` of `insert` and `requeue_back`. -/
def pushBack (buffer : OrphanBuffer) (tokenId : Bytes) (block : Block) (now : Nat) : OrphanBuffer :=
  { buffer with
    entries := buffer.entries ++
      [{ tokenId := tokenId, block := block, insertedAt := now
         ttl := buffer.ttl }] }

/-- `count` evictions of a token's oldest block. -/
def evictOldest (tokenId : Bytes) : Nat → List BufferedBlock → List BufferedBlock
  | 0, entries => entries
  | count + 1, entries =>
    evictOldest tokenId count (entries.eraseP fun b => b.tokenId == tokenId)

section

variable (buffer : OrphanBuffer) (tokenId : Bytes) (block : Block)

/-- `OrphanBuffer::insert`. The eviction loop runs while the token's queue is at
its cap, so as often as the queue is longer than one below the cap. -/
def insert (now : Nat) : OrphanBuffer × BufferDecision :=
  let buffer := buffer.dropExpired now
  if buffer.maxEntries ≤ buffer.len then (buffer, .rejectedFull)
  else
    let held := buffer.entries.countP fun b => b.tokenId == tokenId
    let kept := evictOldest tokenId (held + 1 - buffer.maxPerToken) buffer.entries
    (pushBack { buffer with entries := kept } tokenId block now, .buffered)

/-- The test of `take_matching`. -/
def matching (parentHash : Bytes) (now : Nat) (b : BufferedBlock) : Bool :=
  b.tokenId == tokenId && !b.isExpired now && b.block.previousHash == parentHash

def takeMatching (parentHash : Bytes) (now : Nat) : OrphanBuffer × Option Block :=
  match buffer.entries.find? (matching tokenId parentHash now) with
  | none => (buffer, none)
  | some found =>
    ({ buffer with
        entries := buffer.entries.eraseP (matching tokenId parentHash now) }, some found.block)

def requeueBack (now : Nat) : OrphanBuffer :=
  buffer.pushBack tokenId block now

/-- The blocks that wait for a token and are not expired, oldest first. -/
def live (now : Nat) : List Block :=
  (buffer.entries.filter fun b => b.tokenId == tokenId && !b.isExpired now).map BufferedBlock.block

end

theorem live_dropExpired (buffer : OrphanBuffer) (tokenId : Bytes) (now : Nat) :
    (buffer.dropExpired now).live tokenId now = buffer.live tokenId now := by
  simp only [live, dropExpired, filter_filter, Bool.and_assoc, Bool.and_self]

/-- A block that is taken has the parent it was asked for, waited for the
token, and leaves the buffer. -/
theorem takeMatching_some {buffer buffer' : OrphanBuffer}
    {tokenId parentHash : Bytes} {now : Nat} {block : Block}
    (h : buffer.takeMatching tokenId parentHash now = (buffer', some block)) :
    block.previousHash = parentHash ∧
      (block :: buffer'.live tokenId now).Perm (buffer.live tokenId now) ∧
      buffer'.len + 1 = buffer.len := by
  unfold takeMatching at h
  cases hf : buffer.entries.find? (matching tokenId parentHash now) with
  | none =>
    rw [hf] at h
    cases h
  | some found =>
    rw [hf] at h
    obtain ⟨rfl, hb⟩ := Prod.mk.inj h
    obtain rfl := Option.some.inj hb
    have hm := find?_some hf
    obtain ⟨front, back, he, hfr⟩ :=
      (find?_eq_some_iff_append.mp hf).2
    have her : buffer.entries.eraseP (matching tokenId parentHash now) = front ++ back := by
      rw [he, eraseP_append_right _ (by simpa using hfr), eraseP_cons_of_pos hm]
    have hl : (found :: back).filter (fun b => b.tokenId == tokenId && !b.isExpired now) =
        found :: back.filter (fun b => b.tokenId == tokenId && !b.isExpired now) := by
      refine filter_cons_of_pos ?_
      simp only [matching, Bool.and_eq_true] at hm ⊢
      exact hm.1
    refine ⟨?_, ?_, ?_⟩
    · simp only [matching, Bool.and_eq_true, beq_iff_eq] at hm
      exact hm.2
    · unfold live
      rw [her, he, filter_append, filter_append, hl, map_append, map_append, map_cons]
      exact perm_middle.symm
    · unfold len
      rw [her, he, length_append, length_append, length_cons]
      omega

theorem len_dropExpired_le (buffer : OrphanBuffer) (now : Nat) :
    (buffer.dropExpired now).len ≤ buffer.len :=
  length_filter_le _ _

theorem evictOldest_sublist (tokenId : Bytes) (count : Nat) (entries : List BufferedBlock) :
    (evictOldest tokenId count entries).Sublist entries := by
  induction count generalizing entries with
  | zero => exact .refl _
  | succ count ih => exact (ih _).trans eraseP_sublist

/-- What calls make of a buffer and of the blocks they hold, at most `calls` at once. A
replay lets go of the lock with a block in hand and then puts it back or is done with it;
a call that inserts holds none. -/
inductive Shared (calls : Nat) : OrphanBuffer → List (Bytes × Block) → Prop where
  | new (maxEntries maxPerToken ttl) : Shared calls (new maxEntries maxPerToken ttl) []
  | insert {buffer held} (tokenId block now) (h : Shared calls buffer held)
    (hc : held.length < calls) : Shared calls (buffer.insert tokenId block now).1 held
  | dropExpired {buffer held} (now) (h : Shared calls buffer held) :
    Shared calls (buffer.dropExpired now) held
  | take {buffer buffer' held block} (tokenId tip now) (h : Shared calls buffer held)
    (ht : buffer.takeMatching tokenId tip now = (buffer', some block)) :
    Shared calls buffer' ((tokenId, block) :: held)
  | requeue {buffer held b} (now) (h : Shared calls buffer held) (hb : b ∈ held) :
    Shared calls (buffer.requeueBack b.1 b.2 now) (held.erase b)
  | settle {buffer held} (b) (h : Shared calls buffer held) : Shared calls buffer (held.erase b)

/-- The buffer is over its global cap by no more blocks than the other calls can hold, and
calls one at a time keep the cap. -/
theorem len_le_of_shared {calls : Nat} {buffer : OrphanBuffer} {held : List (Bytes × Block)}
    (h : Shared calls buffer held) :
    buffer.len + held.length ≤ buffer.maxEntries + (calls - 1) := by
  induction h with
  | new => exact Nat.zero_le _
  | @insert buffer _ tokenId block now _ hc ih =>
    unfold insert
    dsimp only
    split
    · exact (Nat.add_le_add_right (buffer.len_dropExpired_le now) _).trans ih
    · next hroom =>
      rw [len, pushBack, length_append]
      refine Nat.add_le_add ?_ (Nat.le_pred_of_lt hc)
      exact (evictOldest_sublist _ _ _).length_le.trans_lt (not_le.mp hroom)
  | @dropExpired buffer _ now _ ih =>
    exact (Nat.add_le_add_right (buffer.len_dropExpired_le now) _).trans ih
  | take _ _ _ _ ht ih =>
    have hl := (takeMatching_some ht).2.2
    unfold takeMatching at ht
    split at ht <;> cases ht
    rw [length_cons]
    dsimp only at hl ⊢
    omega
  | requeue now _ hb ih =>
    have hl := length_erase_add_one hb
    simp only [requeueBack, pushBack, len, length_append, length_singleton] at ih ⊢
    omega
  | settle _ _ ih => exact (Nat.add_le_add_left length_erase_le _).trans ih

/-- Two calls at once bring a buffer for one block to two. -/
theorem two_calls_over_cap : ∃ buffer, Shared 2 buffer [] ∧ buffer.maxEntries = 1 ∧
    buffer.len = 2 ∧ buffer.len ≤ 1 + 1 := by
  have ht := ((.new 1 1 9 : Shared 2 _ _).insert [] default 0 (by decide)).take [] [] 0 rfl
  have hr := (ht.insert [] default 0 (by decide)).requeue 0 mem_cons_self
  exact ⟨_, hr, rfl, rfl, len_le_of_shared hr⟩

end OrphanBuffer

end Pneumatic
