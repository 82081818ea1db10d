import Mathlib.Data.List.InsertIdx
import Pneumatic.Core.TransactionPool
import Pneumatic.Lib.Run

/-!
# The queues and their index

The index of a `TransactionPool` is to say of each id where it is queued. A leader that
takes ids from a queue leaves them in the index, and an id that comes a second time is
queued a second time. The type documents one order and `enqueue` goes by another: across
senders the documented order looks at the timestamps, the code at the sequence numbers
first.

Where leaders take nothing, ids are new and sequence numbers and timestamps grow
together, the queues are as documented.
-/

namespace Pneumatic

open Run Finmap List Option

/-- The order that the type documents for the queue of one token. -/
def PoolEntry.InOrder (a b : PoolEntry) : Prop :=
  if a.sender = b.sender then
    a.sequenceNumber < b.sequenceNumber ∨
      a.sequenceNumber = b.sequenceNumber ∧ a.timestamp ≤ b.timestamp
  else a.timestamp ≤ b.timestamp

/-- Not later by the sequence number, nor by the timestamp. -/
def PoolEntry.Before (a b : PoolEntry) : Prop :=
  a.sequenceNumber ≤ b.sequenceNumber ∧ a.timestamp ≤ b.timestamp

theorem PoolEntry.Before.trans {a b c : PoolEntry} (h : a.Before b) (h' : b.Before c) :
    a.Before c :=
  ⟨h.1.trans h'.1, h.2.trans h'.2⟩

/-- A new entry is later or earlier than a queued one by both; one that repeats a number
of its sender is not earlier. -/
def PoolEntry.Agrees (queued entry : PoolEntry) : Prop :=
  queued.Before entry ∨ entry.Before queued ∧
    (queued.sender = entry.sender → queued.sequenceNumber ≠ entry.sequenceNumber)

namespace TransactionPool

inductive QueueCall where
  | enqueue (txId : String) (entry : PoolEntry)
  | remove (txId : String)
  | peekTop (tokenId : Bytes) (n : Nat)
  | dequeueForLeader (tokenId : Bytes) (n : Nat)

/-- A pool, and the ids that were enqueued and neither removed nor taken since. -/
structure QueueState where
  pool : TransactionPool
  live : Finset String

def queueStep (s : QueueState) : QueueCall → QueueState
  | .enqueue txId entry => ⟨s.pool.enqueue txId entry, insert txId s.live⟩
  | .remove txId => ⟨s.pool.remove txId, s.live.erase txId⟩
  | .peekTop _ _ => s
  | .dequeueForLeader tokenId n =>
    ⟨(s.pool.dequeueForLeader tokenId n).2, s.live \ (s.pool.dequeueForLeader tokenId n).1.toFinset⟩

/-- Two ids whose entries are so related. -/
def Related (R : PoolEntry → PoolEntry → Prop) (index : Finmap (fun _ : String => PoolEntry))
    (id id' : String) : Prop :=
  ∀ a ∈ index.lookup id, ∀ b ∈ index.lookup id', R a b

/-- The index says of each id in which queue it is, the queues have no id twice and are in
order, and the count is that of the ids that are due. -/
structure Represents (R : PoolEntry → PoolEntry → Prop) (s : QueueState) : Prop where
  held : ∀ tokenId id, id ∈ s.pool.queue tokenId ↔
    (s.pool.index.lookup id).map PoolEntry.tokenId = some tokenId
  once : ∀ tokenId, (s.pool.queue tokenId).Nodup
  sorted : ∀ tokenId, (s.pool.queue tokenId).Pairwise (Related R s.pool.index)
  live : s.pool.index.keys = s.live

/-- The id is new and its numbers agree with what is queued; a leader takes nothing. -/
def InKeeping (s : QueueState) : QueueCall → Prop
  | .enqueue txId entry => txId ∉ s.pool.index ∧
      ∀ id ∈ s.pool.queue entry.tokenId, ∀ queued ∈ s.pool.index.lookup id, queued.Agrees entry
  | .dequeueForLeader tokenId n => s.pool.queue tokenId = [] ∨ n = 0
  | _ => True

variable {s : QueueState} {pool : TransactionPool} {txId : String} {entry : PoolEntry}

/-- What goes in front of the first that it precedes keeps a list sorted. -/
theorem pairwise_insertIdx {R : String → String → Prop} {p : String → Bool} {ids : List String}
    (hs : ids.Pairwise R) (hb : ∀ id ∈ ids, p id = false → R id txId)
    (ha : ∀ id ∈ ids, p id = true → R txId id)
    (ht : ∀ id ∈ ids, ∀ id', R txId id → R id id' → R txId id') :
    (ids.insertIdx (ids.findIdx p) txId).Pairwise R := by
  induction ids with
  | nil => exact pairwise_singleton R txId
  | cons head ids ih =>
    obtain ⟨hh, hr⟩ := pairwise_cons.mp hs
    rw [findIdx_cons]
    cases hp : p head with
    | true =>
      have hf := ha head mem_cons_self hp
      refine pairwise_cons.mpr ⟨fun id hid => ?_, hs⟩
      rcases mem_cons.mp hid with rfl | hid
      · exact hf
      · exact ht head mem_cons_self id hf (hh id hid)
    | false =>
      refine pairwise_cons.mpr ⟨fun id hid => ?_, ih hr ?_ ?_ ?_⟩
      · rcases eq_or_mem_of_mem_insertIdx hid with rfl | hid
        · exact hb head mem_cons_self hp
        · exact hh id hid
      · exact fun id hid => hb id (mem_cons_of_mem head hid)
      · exact fun id hid => ha id (mem_cons_of_mem head hid)
      · exact fun id hid => ht id (mem_cons_of_mem head hid)

theorem before_of_agrees {queued : PoolEntry} (h : queued.Agrees entry) :
    if precedes entry (some queued) then entry.Before queued else queued.Before entry := by
  unfold PoolEntry.Agrees PoolEntry.Before at h
  unfold PoolEntry.Before precedes
  by_cases hs : queued.sender = entry.sender
  · simp only [hs, if_true, decide_eq_true_eq]
    split <;> simp only [hs, true_imp_iff] at h <;> omega
  · simp only [hs, if_false, Bool.or_eq_true, Bool.and_eq_true, decide_eq_true_eq, beq_iff_eq]
    split <;> omega

theorem Represents.enqueue {R : PoolEntry → PoolEntry → Prop} (h : Represents R s)
    (ht : ∀ {a b c}, R a b → R b c → R a c) (hnew : txId ∉ s.pool.index)
    (hss : ∀ id ∈ s.pool.queue entry.tokenId, ∀ q ∈ s.pool.index.lookup id,
      if precedes entry (some q) then R entry q else R q entry) :
    Represents R ⟨s.pool.enqueue txId entry, insert txId s.live⟩ := by
  have hn : ∀ tokenId, txId ∉ s.pool.queue tokenId := by
    intro tokenId hmem
    rw [h.held, lookup_eq_none.mpr hnew] at hmem
    cases hmem
  have hs : (s.pool.enqueue txId entry).index.lookup txId = some entry := lookup_insert _
  have hl : ∀ {id}, id ≠ txId →
      (s.pool.enqueue txId entry).index.lookup id = s.pool.index.lookup id :=
    lookup_insert_of_ne _
  have hq : ∀ {tokenId id}, id ∈ s.pool.queue tokenId →
      (s.pool.enqueue txId entry).index.lookup id = s.pool.index.lookup id :=
    fun hid => hl fun heq => hn _ (heq ▸ hid)
  have hqu : ∀ tokenId, ((s.pool.enqueue txId entry).queue tokenId).Perm
      (if tokenId = entry.tokenId then txId :: s.pool.queue tokenId else s.pool.queue tokenId) := by
    intro tokenId
    rw [queue_enqueue]
    split
    · exact perm_insertIdx _ _ findIdx_le_length
    · exact .refl _
  have hk : ∀ tokenId, (s.pool.queue tokenId).Pairwise
      (Related R (s.pool.enqueue txId entry).index) := by
    refine fun tokenId => (h.sorted tokenId).imp_of_mem fun hid hid' hr => ?_
    unfold Related
    rwa [hq hid, hq hid']
  constructor
  case held =>
    intro tokenId id
    rw [(hqu tokenId).mem_iff]
    by_cases hid : id = txId
    · subst hid
      simp only [hs, map_some, some.injEq]
      split
      · next heq => simp [heq]
      · next hne => simp [hn tokenId, Ne.symm hne]
    · simp only [hl hid, ← h.held]
      split <;> simp [hid]
  case once =>
    intro tokenId
    rw [(hqu tokenId).nodup_iff]
    split
    · exact nodup_cons.mpr ⟨hn tokenId, h.once tokenId⟩
    · exact h.once tokenId
  case sorted =>
    intro tokenId
    rw [queue_enqueue]
    split
    · next heq =>
      have hsd : ∀ id ∈ s.pool.queue tokenId, ∀ a ∈ s.pool.index.lookup id,
          if precedes entry ((s.pool.enqueue txId entry).index.lookup id) then R entry a
          else R a entry := by
        intro id hid a ha
        rw [hq hid, ha]
        exact hss id (heq ▸ hid) a ha
      refine pairwise_insertIdx (hk tokenId) (fun id hid hp a ha b hb => ?_)
        (fun id hid hp a ha b hb => ?_) fun id hid id' hf hsc a ha b hb => ?_
      · obtain rfl := mem_unique hs hb
        have hbh := hsd id hid a (hq hid ▸ ha)
        rwa [if_neg (by simp [hp])] at hbh
      · obtain rfl := mem_unique hs ha
        have hah := hsd id hid b (hq hid ▸ hb)
        rwa [if_pos hp] at hah
      · obtain ⟨c, hc, -⟩ := map_eq_some_iff.mp ((h.held tokenId id).mp hid)
        rw [← hq hid] at hc
        exact ht (hf a ha c hc) (hsc c hc b hb)
    · exact hk tokenId
  case live =>
    ext id
    rw [Finmap.mem_keys, Finset.mem_insert, ← h.live, Finmap.mem_keys]
    exact mem_insert

theorem represents_new {R : PoolEntry → PoolEntry → Prop} : Represents R ⟨.new, ∅⟩ :=
  ⟨fun _ _ => by simp [new, queue], fun _ => nodup_nil, fun _ => .nil, rfl⟩

section Remove

variable {R : PoolEntry → PoolEntry → Prop} (h : Represents R s)

include h

theorem Represents.queue_remove (tokenId : Bytes) : (s.pool.remove txId).queue tokenId =
      (s.pool.queue tokenId).filter (· ≠ txId) := by
  have ho : (s.pool.index.lookup txId).map PoolEntry.tokenId ≠ some tokenId →
      s.pool.queue tokenId = (s.pool.queue tokenId).filter (· ≠ txId) := by
    refine fun hne => (filter_eq_self.mpr fun id hid => decide_eq_true ?_).symm
    rintro rfl
    exact hne ((h.held tokenId id).mp hid)
  cases he : s.pool.index.lookup txId with
  | none =>
    rw [remove, he]
    exact ho (by simp [he])
  | some entry =>
    have hin : txId ∈ s.pool.queue entry.tokenId := (h.held _ _).mpr (by rw [he]; rfl)
    cases hids : s.pool.pools.lookup entry.tokenId with
    | none => simp [queue, hids] at hin
    | some ids =>
      simp only [remove, he, hids, queue, getD_lookup_setQueue]
      split
      · next heq => rw [heq, hids, getD_some]
      · next hne => exact ho (by simpa [he] using Ne.symm hne)

theorem Represents.remove (txId : String) :
    Represents R ⟨s.pool.remove txId, s.live.erase txId⟩ := by
  have hi : (s.pool.remove txId).index = s.pool.index.erase txId := by
    unfold TransactionPool.remove
    split
    · next hn =>
      refine ext_lookup fun id => ?_
      by_cases hid : id = txId
      · rw [hid, hn, lookup_erase]
      · rw [lookup_erase_ne hid]
    · rfl
  have hl : ∀ {id}, id ≠ txId → (s.pool.remove txId).index.lookup id = s.pool.index.lookup id := by
    intro id hid
    rw [hi, lookup_erase_ne hid]
  constructor
  case held =>
    intro ti id
    rw [h.queue_remove, mem_filter, h.held]
    by_cases hid : id = txId
    · rw [hid, hi, lookup_erase]
      simp
    · simp [hid, hl hid]
  case once =>
    intro ti
    rw [h.queue_remove]
    exact (h.once ti).filter _
  case sorted =>
    intro ti
    rw [h.queue_remove]
    refine ((h.sorted ti).filter _).imp_of_mem fun hid hid' hr => ?_
    unfold Related
    rwa [hl (of_decide_eq_true (mem_filter.mp hid).2),
      hl (of_decide_eq_true (mem_filter.mp hid').2)]
  case live =>
    show (s.pool.remove txId).index.keys = _
    rw [hi, keys_erase, h.live]

theorem Represents.dequeueForLeader {tokenId : Bytes} {n : Nat}
    (hn : s.pool.queue tokenId = [] ∨ n = 0) :
    Represents R (queueStep s (.dequeueForLeader tokenId n)) := by
  have hi : (s.pool.dequeueForLeader tokenId n).2.index = s.pool.index := by
    unfold TransactionPool.dequeueForLeader
    dsimp only
    split <;> rfl
  have hq : ∀ other, (s.pool.dequeueForLeader tokenId n).2.queue other = s.pool.queue other := by
    intro other
    rw [queue_dequeueForLeader]
    split
    · next heq => rcases hn with he | rfl <;> simp [*]
    · rfl
  have ht : (s.pool.dequeueForLeader tokenId n).1 = [] := by
    rcases hn with he | rfl <;> simp [TransactionPool.dequeueForLeader, peekTop, *]
  simp only [queueStep, ht, toFinset_nil, Finset.sdiff_empty]
  refine ⟨?_, ?_, ?_, hi ▸ h.live⟩
  · simpa only [hq, hi] using h.held
  · simpa only [hq] using h.once
  · simpa only [hq, Related, hi] using h.sorted

end Remove

theorem Represents.step (h : Represents PoolEntry.Before s) {call : QueueCall}
    (hc : InKeeping s call) : Represents PoolEntry.Before (queueStep s call) := by
  cases call with
  | enqueue txId entry =>
    exact h.enqueue PoolEntry.Before.trans hc.1 fun id hid q hq =>
      before_of_agrees (hc.2 id hid q hq)
  | remove txId => exact h.remove txId
  | peekTop ti n => exact h
  | dequeueForLeader ti n => exact h.dequeueForLeader hc

/-- In every run of calls that are in keeping, the pool is as documented. -/
theorem queues_represented {calls : List QueueCall}
    (hcalls : Meets queueStep InKeeping ⟨.new, ∅⟩ calls) :
    let s := run queueStep ⟨.new, ∅⟩ calls
    Represents PoolEntry.InOrder s ∧ s.pool.totalLen = s.live.card := by
  have h : Represents PoolEntry.Before (run queueStep ⟨.new, ∅⟩ calls) :=
    run_invariant (fun _ _ hs hc => hs.step hc) represents_new hcalls
  refine ⟨⟨h.held, h.once, fun ti => (h.sorted ti).imp fun hab a ha b hb => ?_, h.live⟩,
    congrArg Finset.card h.live⟩
  obtain ⟨hseq, ht⟩ := hab a ha b hb
  unfold PoolEntry.InOrder
  split <;> omega

def sampleEntry : PoolEntry := ⟨[7], 2, 1, [1]⟩

/-- Two transactions of one sender and one that goes again. -/
def keptCalls : List QueueCall :=
  [.enqueue "b" ⟨[7], 3, 4, [1]⟩, .enqueue "a" sampleEntry, .dequeueForLeader [8] 1,
    .enqueue "c" ⟨[8], 1, 5, [2]⟩, .remove "c", .peekTop [7] 2]

theorem calls_represented : Meets queueStep InKeeping ⟨.new, ∅⟩ keptCalls ∧
      Represents PoolEntry.InOrder (run queueStep ⟨.new, ∅⟩ keptCalls) ∧
      (run queueStep ⟨.new, ∅⟩ keptCalls).pool.queue [7] = ["a", "b"] ∧
      (run queueStep ⟨.new, ∅⟩ keptCalls).pool.totalLen = 2 := by
  have hc : Meets queueStep InKeeping ⟨.new, ∅⟩ keptCalls := by
    refine ⟨⟨by decide +kernel, ?_⟩, ⟨by decide +kernel, ?_⟩, .inl (by decide +kernel),
      ⟨by decide +kernel, ?_⟩, trivial, trivial, trivial⟩
    all_goals
      unfold PoolEntry.Agrees PoolEntry.Before
      decide +kernel
  exact ⟨hc, (queues_represented hc).1, by decide +kernel, (queues_represented hc).2⟩

/-- A leader takes the id, the id comes twice, and another sender's transaction has the
smaller number and the later time. -/
theorem queues_misrepresented :
    let after := run queueStep ⟨.new, ∅⟩
    ¬ Represents PoolEntry.InOrder (after [.enqueue "a" sampleEntry, .dequeueForLeader [7] 1]) ∧
    ¬ Represents PoolEntry.InOrder (after [.enqueue "a" sampleEntry, .enqueue "a" sampleEntry]) ∧
    ¬ Represents PoolEntry.InOrder
      (after [.enqueue "a" sampleEntry, .enqueue "b" ⟨[7], 1, 5, [2]⟩]) := by
  refine ⟨fun h => absurd h.live (by decide +kernel),
    fun h => absurd (h.once [7]) (by decide +kernel), fun h => ?_⟩
  have hs := h.sorted [7]
  rw [show queue _ _ = ["b", "a"] by decide +kernel] at hs
  have hp := (pairwise_cons.mp hs).1 "a" mem_cons_self ⟨[7], 1, 5, [2]⟩
    (by decide +kernel) sampleEntry (by decide +kernel)
  unfold PoolEntry.InOrder at hp
  revert hp
  decide

/-- The pool after transactions have come in an order. -/
def enqueueAll (txs : List (String × PoolEntry)) : TransactionPool :=
  txs.foldl (fun pool tx => pool.enqueue tx.1 tx.2) .new

/-- Transactions with ids of their own. -/
structure Content where
  txs : List (String × PoolEntry)
  ids : (txs.map Prod.fst).Nodup

/-- Of two transactions of one token one precedes the other. -/
def Untied (txs : List (String × PoolEntry)) : Prop :=
  ∀ a ∈ txs, ∀ b ∈ txs, a ≠ b → a.2.tokenId = b.2.tokenId →
    precedes a.2 (some b.2) = true ∨ precedes b.2 (some a.2) = true

/-- The order by sequence number, then timestamp, whoever the senders are. -/
def Ahead (a b : PoolEntry) : Prop :=
  a.sequenceNumber < b.sequenceNumber ∨
    a.sequenceNumber = b.sequenceNumber ∧ a.timestamp < b.timestamp

theorem ahead_of_precedes {a b : PoolEntry}
    (h : precedes a (some b) = true ∨ precedes b (some a) = true) :
    if precedes a (some b) then Ahead a b else Ahead b a := by
  unfold precedes at *
  unfold Ahead
  by_cases hs : a.sender = b.sender
  · simp only [hs, if_true, decide_eq_true_eq] at h ⊢
    split <;> omega
  · simp only [hs, Ne.symm hs, if_false, Bool.or_eq_true, Bool.and_eq_true,
      decide_eq_true_eq, beq_iff_eq] at h ⊢
    split <;> omega

theorem enqueueAll_append (txs : List (String × PoolEntry)) (tx : String × PoolEntry) :
    enqueueAll (txs ++ [tx]) = (enqueueAll txs).enqueue tx.1 tx.2 := by
  rw [enqueueAll, foldl_append]
  rfl

theorem lookup_enqueueAll {txs : List (String × PoolEntry)} (hids : (txs.map Prod.fst).Nodup)
    {id : String} : (enqueueAll txs).index.lookup id = some entry ↔ (id, entry) ∈ txs := by
  induction txs using List.reverseRecOn with
  | nil => simp [enqueueAll, new]
  | append_singleton txs tx ih =>
    obtain ⟨hids, -, hnew⟩ := nodup_append.mp (map_append ▸ hids)
    rw [enqueueAll_append, enqueue, mem_append, List.mem_singleton]
    by_cases hid : id = tx.1
    · subst hid
      have hn : (tx.1, entry) ∉ txs :=
        fun h => hnew _ (mem_map_of_mem h) _ (mem_map_of_mem mem_cons_self) rfl
      simp [hn, Prod.ext_iff, eq_comm]
    · rw [lookup_insert_of_ne _ hid, ih hids]
      exact (or_iff_left fun h => hid (congrArg Prod.fst h)).symm

/-- The queues hold what has come, sorted by any order that the insertions follow. -/
theorem represents_enqueueAll {R : PoolEntry → PoolEntry → Prop}
    {txs : List (String × PoolEntry)} (hids : (txs.map Prod.fst).Nodup)
    (htr : ∀ {a b c}, R a b → R b c → R a c)
    (hs : ∀ a ∈ txs, ∀ b ∈ txs, a ≠ b → a.2.tokenId = b.2.tokenId →
      if precedes a.2 (some b.2) then R a.2 b.2 else R b.2 a.2) :
    Represents R ⟨enqueueAll txs, (txs.map Prod.fst).toFinset⟩ := by
  induction txs using List.reverseRecOn with
  | nil => exact represents_new
  | append_singleton txs tx ih =>
    obtain ⟨hids', -, hnew⟩ := nodup_append.mp (map_append ▸ hids)
    have hk := ih hids' fun a ha b hb => hs a (mem_append_left _ ha) b (mem_append_left _ hb)
    have ho : ∀ {id e}, (id, e) ∈ txs → id ≠ tx.1 :=
      fun h => hnew _ (mem_map_of_mem h) _ (mem_map_of_mem mem_cons_self)
    rw [enqueueAll_append, show ((txs ++ [tx]).map Prod.fst).toFinset =
      insert tx.1 (txs.map Prod.fst).toFinset by simp]
    refine hk.enqueue htr (lookup_eq_none.mp ?_) fun id hid q hq => ?_
    · exact eq_none_iff_forall_ne_some.mpr fun e he => ho ((lookup_enqueueAll hids').mp he) rfl
    · have hmem := (lookup_enqueueAll hids').mp hq
      have ht := (hk.held _ _).mp hid
      rw [hq, map_some, some.injEq] at ht
      exact hs tx mem_concat_self (id, q) (mem_append_left _ hmem)
        (fun h => ho hmem (congrArg Prod.fst h).symm) ht.symm

/-- What is queued first stays before what is queued behind it. -/
theorem sublist_enqueueAll {tokenId : Bytes} {ids : List String}
    {txs txs' : List (String × PoolEntry)} (h : ids <+ (enqueueAll txs).queue tokenId) :
    ids <+ (enqueueAll (txs ++ txs')).queue tokenId := by
  induction txs' using List.reverseRecOn with
  | nil => simpa using h
  | append_singleton txs' tx ih =>
    rw [← append_assoc, enqueueAll_append, queue_enqueue]
    split
    · exact ih.trans (sublist_insertIdx _ _ _)
    · exact ih

/-- Two that are tied stand in the order in which they came, whatever comes behind them. -/
theorem pair_sublist {a b : String × PoolEntry} (hne : a.1 ≠ b.1)
    (ht : a.2.tokenId = b.2.tokenId) (htd : precedes b.2 (some a.2) = false)
    (rest : List (String × PoolEntry)) :
    [a.1, b.1] <+ (enqueueAll ([a, b] ++ rest)).queue a.2.tokenId := by
  have hl : ((enqueueAll [a]).enqueue b.1 b.2).index.lookup a.1 = some a.2 :=
    (lookup_insert_of_ne _ hne).trans (lookup_insert _)
  have hf : (enqueueAll [a]).queue a.2.tokenId = [a.1] := by
    rw [show enqueueAll [a] = new.enqueue a.1 a.2 from rfl, queue_enqueue, if_pos rfl]
    rfl
  have hp : (enqueueAll [a, b]).queue a.2.tokenId = [a.1, b.1] := by
    show ((enqueueAll [a]).enqueue b.1 b.2).queue a.2.tokenId = [a.1, b.1]
    rw [queue_enqueue, if_pos ht, hf, findIdx_cons, hl, htd]
    rfl
  exact sublist_enqueueAll (hp ▸ .refl _)

/-- The leader's list does not depend on the order in which the transactions came exactly if
no two of them are tied. -/
theorem leader_order_iff (content : Content) :
    (∀ order order', order.Perm content.txs → order'.Perm content.txs → ∀ tokenId n,
      ((enqueueAll order).dequeueForLeader tokenId n).1 =
        ((enqueueAll order').dequeueForLeader tokenId n).1) ↔ Untied content.txs := by
  constructor
  · intro h a ha b hb hne ht
    by_contra htd
    rw [not_or, Bool.not_eq_true, Bool.not_eq_true] at htd
    have hid : a.1 ≠ b.1 := fun heq => hne (inj_on_of_nodup_map content.ids ha hb heq)
    have hp : content.txs.Perm ([a, b] ++ (content.txs.erase a).erase b) :=
      (perm_cons_erase ha).trans ((perm_cons_erase ((mem_erase_of_ne hne.symm).mpr hb)).cons a)
    have hall : ∀ {l l' : List String}, (∀ n, l.take n = l'.take n) → l = l' := by
      intro l l' hpr
      have hln := hpr (l.length + l'.length)
      rwa [take_of_length_le (Nat.le_add_right _ _), take_of_length_le (Nat.le_add_left _ _)] at hln
    have hq := hall (h _ _ hp.symm (hp.trans (.swap b a _)).symm a.2.tokenId)
    have hn := (represents_enqueueAll (R := fun _ _ => True)
      ((hp.map Prod.fst).nodup_iff.mp content.ids) (fun _ _ => trivial)
      (fun _ _ _ _ _ _ => by split <;> trivial)).once a.2.tokenId
    have hba := pair_sublist hid.symm ht.symm htd.1 ((content.txs.erase a).erase b)
    rw [← ht] at hba
    have hsm := (hn.perm_iff_eq_of_sublist (pair_sublist hid ht htd.2 _)
      (hq ▸ hba)).mp (.swap b.1 a.1 [])
    exact hid (cons.inj hsm).1
  · intro hu order order' hp hp' tokenId n
    have hof : ∀ {order : List (String × PoolEntry)}, order.Perm content.txs →
        Represents Ahead ⟨enqueueAll order, (order.map Prod.fst).toFinset⟩ ∧
        ∀ {id e}, (enqueueAll order).index.lookup id = some e ↔ (id, e) ∈ content.txs := by
      intro order hp
      have hids := (hp.map Prod.fst).nodup_iff.mpr content.ids
      refine ⟨represents_enqueueAll hids (fun hab hbc => ?_) fun a ha b hb hne ht => ?_,
        fun {id e} => ?_⟩
      · unfold Ahead at *
        omega
      · exact ahead_of_precedes (hu a (hp.subset ha) b (hp.subset hb) hne ht)
      · rw [lookup_enqueueAll hids, hp.mem_iff]
    obtain ⟨hs, hl⟩ := hof hp
    obtain ⟨hs', hl'⟩ := hof hp'
    have hi : (enqueueAll order).index = (enqueueAll order').index :=
      Finmap.ext_lookup fun id => Option.ext fun e => hl.trans hl'.symm
    have hsm : (enqueueAll order).queue tokenId = (enqueueAll order').queue tokenId := by
      refine List.Perm.eq_of_pairwise (fun id id' hid hid' hah hbk => ?_)
        (hs.sorted tokenId) (hi ▸ hs'.sorted tokenId) ?_
      · obtain ⟨a, ha, -⟩ := map_eq_some_iff.mp ((hs.held _ _).mp hid)
        obtain ⟨b, hb, -⟩ := map_eq_some_iff.mp ((hs'.held _ _).mp hid')
        have hb := hi ▸ hb
        have hls := hah a ha b hb
        have hm := hbk b hb a ha
        unfold Ahead at hls hm
        omega
      · refine (perm_ext_iff_of_nodup (hs.once _) (hs'.once _)).mpr fun id => ?_
        rw [hs.held, hs'.held, hi]
    unfold dequeueForLeader peekTop
    rw [hsm]

/-- Two senders with one number and one timestamp. -/
theorem tied_order_differs :
    ((enqueueAll [("a", sampleEntry), ("b", { sampleEntry with sender := [2] })]).dequeueForLeader
      [7] 1).1 = ["a"] ∧
    ((enqueueAll [("b", { sampleEntry with sender := [2] }), ("a", sampleEntry)]).dequeueForLeader
      [7] 1).1 = ["b"] :=
  ⟨rfl, rfl⟩

end TransactionPool

end Pneumatic
