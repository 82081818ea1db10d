import Mathlib.Data.List.GetD
import Pneumatic.Proofs.LeaderAgreement

/-!
# Seeds and weights of a selection

The bytes that a selection is seeded with are put together without lengths: the tip is
empty at genesis, and a retry appends to the id that the client chose. So two selections
can have one seed, and the conditions say which.

The walk stops at the first key whose stakes add up to the target, the target itself
included. That gives the first key one target too many, taken from the last.

The shuffle behind a shard assignment has neither fault: its last place is settled by the
first draw and never touched again, so the draws can be read off the arrangement.
-/

namespace Pneumatic

open List

/-- What a selection is for: domain, epoch and tip, and the transaction, tried for the first
time or again. -/
@[ext]
structure SelectionInput where
  domain : UInt8
  epochNumber : Nat
  prevBlockHash : Bytes
  txId : Bytes
  retried : Bool
  epoch_lt : epochNumber < 256 ^ 8
  tip : prevBlockHash = [] ∨ prevBlockHash.length = 32

namespace SelectionInput

def retrySuffix : Bytes := "_retry".toUTF8.data.toList

def extra (input : SelectionInput) : Bytes :=
  if input.retried then input.txId ++ retrySuffix else input.txId

def seed (sha256 : Bytes → Bytes) (input : SelectionInput) : Bytes :=
  deriveSelectionSeed sha256 input.domain input.epochNumber input.prevBlockHash input.extra

/-- At genesis the transaction's bytes are the other's tip and bytes. -/
def Absorbs (input other : SelectionInput) : Prop :=
  input.prevBlockHash = [] ∧ other.prevBlockHash ≠ [] ∧
    input.extra = other.prevBlockHash ++ other.extra

/-- For one purpose and epoch: a retry of one transaction and the first try of another whose id
has the suffix, or a transaction at genesis whose id starts with a later tip. -/
def Confusable (input other : SelectionInput) : Prop :=
  input.domain = other.domain ∧ input.epochNumber = other.epochNumber ∧
    (input.prevBlockHash = other.prevBlockHash ∧ input.retried ≠ other.retried ∧
      input.extra = other.extra ∨ input.Absorbs other ∨ other.Absorbs input)

variable {sha256 : Bytes → Bytes} {input other : SelectionInput}

theorem seed_eq_iff (hs256 : sha256.Injective) : input.seed sha256 = other.seed sha256 ↔
    input.domain = other.domain ∧ input.epochNumber = other.epochNumber ∧
      input.prevBlockHash ++ input.extra = other.prevBlockHash ++ other.extra := by
  unfold seed deriveSelectionSeed
  simp only [hs256.eq_iff, cons_append, append_assoc, cons.injEq]
  refine and_congr_right fun _ => ⟨fun h => ?_, fun ⟨he, hr⟩ => by rw [he, hr]⟩
  obtain ⟨he, hr⟩ := append_inj h (by simp [LittleEndian.leBytes_length])
  refine ⟨?_, hr⟩
  rw [← LittleEndian.leNat_leBytes input.epoch_lt, reverse_injective he,
    LittleEndian.leNat_leBytes other.epoch_lt]

/-- With a collision-free hash two selections have two seeds exactly if they cannot be
confused. -/
theorem seeds_separate_iff (hsha256 : sha256.Injective) (input other : SelectionInput) :
    (input.seed sha256 = other.seed sha256 → input = other) ↔ ¬ input.Confusable other := by
  rw [seed_eq_iff hsha256]
  constructor
  · rintro h ⟨hd, hep, ⟨htip, hr, he⟩ | ⟨htip, ho, he⟩ | ⟨htip, ho, he⟩⟩
    · exact hr (congrArg retried (h ⟨hd, hep, by rw [htip, he]⟩))
    · have heq := h ⟨hd, hep, by rw [htip, he, nil_append]⟩
      exact ho (heq ▸ htip)
    · have heq := h ⟨hd, hep, by rw [htip, he, nil_append]⟩
      exact ho (heq ▸ htip)
  · rintro hnot ⟨hd, hep, hb⟩
    have hs : input.prevBlockHash = other.prevBlockHash ∧ input.extra = other.extra := by
      rcases input.tip with hem | hf <;> rcases other.tip with hem' | hf'
      · rw [hem, hem', nil_append, nil_append] at hb
        exact ⟨hem.trans hem'.symm, hb⟩
      · rw [hem, nil_append] at hb
        refine absurd ⟨hd, hep, .inr (.inl ⟨hem, ?_, hb⟩)⟩ hnot
        exact ne_nil_of_length_pos (by omega)
      · rw [hem', nil_append] at hb
        refine absurd ⟨hd, hep, .inr (.inr ⟨hem', ?_, hb.symm⟩)⟩ hnot
        exact ne_nil_of_length_pos (by omega)
      · exact append_inj hb (hf.trans hf'.symm)
    obtain ⟨htip, he⟩ := hs
    have hr : input.retried = other.retried :=
      by_contra fun hne => hnot ⟨hd, hep, .inl ⟨htip, hne, he⟩⟩
    have htx : input.txId = other.txId := by
      unfold extra at he
      rw [hr] at he
      split at he
      · exact append_cancel_right he
      · exact he
    ext1 <;> assumption

def first (domain : UInt8) (tip txId : Bytes) (retried : Bool)
    (htip : tip = [] ∨ tip.length = 32) : SelectionInput :=
  ⟨domain, 0, tip, txId, retried, by decide, htip⟩

/-- At one tip, the retry of a transaction and the first try of another one. -/
theorem tries_separate :
    (first 3 (replicate 32 0) [97] true (.inr rfl)).seed id ≠
      (first 3 (replicate 32 0) [98] false (.inr rfl)).seed id := by
  have hn : ¬ Confusable (first 3 (replicate 32 0) [97] true (.inr rfl))
      (first 3 (replicate 32 0) [98] false (.inr rfl)) := by
    rintro ⟨-, -, ⟨-, -, he⟩ | ha | ha⟩
    · exact absurd he (by decide)
    · exact absurd ha.1 (by decide)
    · exact absurd ha.1 (by decide)
  intro h
  cases (seeds_separate_iff Function.injective_id _ _).mpr hn h

/-- The retry of `a` has the seed of `a_retry`, and at genesis a transaction whose id starts
with a tip that of the rest of the id at that tip. -/
theorem seeds_shared :
    (∀ sha256, ¬ ((first 3 [] [97] true (.inl rfl)).seed sha256 =
        (first 3 [] ([97] ++ retrySuffix) false (.inl rfl)).seed sha256 →
      first 3 [] [97] true (.inl rfl) = first 3 [] ([97] ++ retrySuffix) false (.inl rfl))) ∧
    ∀ sha256, ¬ ((first 3 [] (replicate 32 0 ++ [97]) false (.inl rfl)).seed sha256 =
        (first 3 (replicate 32 0) [97] false (.inr rfl)).seed sha256 →
      first 3 [] (replicate 32 0 ++ [97]) false (.inl rfl) =
        first 3 (replicate 32 0) [97] false (.inr rfl)) := by
  constructor
  · intro sha256 h
    cases h rfl
  · intro sha256 h
    cases h rfl

end SelectionInput

namespace StakeMap

def trueTotal (stakes : StakeMap) : Nat := (stakes.stakers.map Prod.snd).sum

def stakeOf (stakes : StakeMap) (key : Bytes) : Nat := (stakes.get key).getD 0

/-- Over all targets each key is chosen as often as it has stake, and no target leads to
nobody or to a key without a stake. -/
structure Proportional (stakes : StakeMap) (choice : Nat → Option Bytes) : Prop where
  weight : ∀ key, ((Finset.range stakes.trueTotal).filter fun target =>
    choice target = some key).card = stakes.stakeOf key
  staked : ∀ target < stakes.trueTotal, ∀ key ∈ choice target, 0 < stakes.stakeOf key
  chosen : ∀ target < stakes.trueTotal, choice target ≠ none

variable {stakes : StakeMap} {target : Nat} {key : Bytes}

theorem mem_positiveKeys_iff : key ∈ stakes.positiveKeys ↔ 0 < stakes.stakeOf key := by
  rw [mem_positiveKeys, stakeOf]
  cases stakes.get key <;> simp

theorem sum_positiveKeys (stakes : StakeMap) :
    (stakes.positiveKeys.map stakes.stakeOf).sum = stakes.trueTotal := by
  have hs : ∀ entry ∈ stakes.stakers, stakes.stakeOf entry.1 = entry.2 :=
    fun entry he => by rw [stakeOf, get_eq_some_iff.mpr he, Option.getD_some]
  unfold positiveKeys trueTotal
  rw [((perm_insertionSort _ _).map _).sum_eq, map_map]
  generalize stakes.stakers = entries at hs
  induction entries with
  | nil => rfl
  | cons entry rest ih =>
    have hr := ih fun other ho => hs other (mem_cons_of_mem entry ho)
    have hh := hs entry mem_cons_self
    rw [filter_cons]
    split
    · simp [hr, hh]
    · next hz => simp_all

theorem selectKey_eq_none (h : u64Max < target) (cumulative : Nat) (keys : List Bytes) :
    selectKey stakes target cumulative keys = none := by
  induction keys generalizing cumulative with
  | nil => rfl
  | cons key rest ih =>
    have hle : (checkedAdd cumulative ((stakes.get key).getD 0)).getD u64Max ≤ u64Max := by
      unfold checkedAdd
      split <;> simp_all
    rw [selectKey, if_neg (by omega)]
    exact ih _

/-- The first key is chosen for every target up to its stake. -/
theorem selectKey_first (h : target ≤ stakes.stakeOf key) (rest : List Bytes) :
    (selectKey stakes target 0 (key :: rest)).or (some key) = some key := by
  by_cases hl : u64Max < target
  · rw [selectKey_eq_none hl, Option.none_or]
  · have hr : target ≤ (checkedAdd 0 ((stakes.get key).getD 0)).getD u64Max := by
      unfold checkedAdd
      split
      · rw [Nat.zero_add]
        exact h
      · exact Nat.not_lt.mp hl
    rw [selectKey, if_pos hr, Option.some_or]

/-- The choice is proportional to the stakes exactly if at most one key has a stake. -/
theorem selection_proportional_iff (sha256 : Bytes → Bytes) (stakes : StakeMap) (domain : UInt8)
    (seedBytes : Bytes) (epochNumber : Nat) (prevBlockHash : Bytes) :
    stakes.Proportional (fun target => deterministicSelect sha256 (fun _ _ => target) stakes domain
      seedBytes epochNumber prevBlockHash) ↔ stakes.positiveKeys.length ≤ 1 := by
  set c := fun target => deterministicSelect sha256 (fun _ _ => target) stakes domain
    seedBytes epochNumber prevBlockHash with hch
  have hsum := stakes.sum_positiveKeys
  have htt : ∀ {target}, target < stakes.trueTotal → stakes.totalStake ≠ 0 := by
    intro target ht hz
    rw [← hsum, positiveKeys_eq_nil_iff.mpr hz] at ht
    cases ht
  have hs : ∀ target < stakes.trueTotal, ∀ key ∈ c target, 0 < stakes.stakeOf key :=
    fun _ _ _ hkey =>
      mem_positiveKeys_iff.mp (mem_positiveKeys.mpr (stake_of_deterministicSelect hkey))
  have hc : ∀ target < stakes.trueTotal, c target ≠ none :=
    fun _ ht hn => htt ht (deterministicSelect_eq_none_iff.mp hn)
  -- the first key is chosen up to its stake, wherever the targets end
  have hf : ∀ {first rest target}, stakes.positiveKeys = first :: rest →
      target < stakes.trueTotal → target ≤ stakes.stakeOf first → c target = some first := by
    intro first rest target hk ht hle
    simp only [hch]
    rw [deterministicSelect_eq, if_neg (htt ht), hk]
    exact selectKey_first hle rest
  have hz : ∀ {key}, key ∉ stakes.positiveKeys → stakes.stakeOf key = 0 :=
    fun h => Nat.le_zero.mp (Nat.not_lt.mp (mt mem_positiveKeys_iff.mpr h))
  rcases hk : stakes.positiveKeys with _ | ⟨first, _ | ⟨s, rest⟩⟩ <;>
    rw [hk] at hsum hz
  · refine iff_of_true ⟨fun key => ?_, hs, hc⟩ (Nat.zero_le 1)
    rw [← hsum, hz not_mem_nil]
    rfl
  · refine iff_of_true ⟨fun key => ?_, hs, hc⟩ (Nat.le_refl 1)
    rw [map_singleton, sum_singleton] at hsum
    rw [Finset.filter_congr fun target ht => by
      rw [hf hk (Finset.mem_range.mp ht)
        (hsum ▸ (Finset.mem_range.mp ht).le), Option.some.injEq]]
    by_cases hkey : first = key
    · simp [← hkey, hsum]
    · simp [hkey, hz (mt mem_singleton.mp (Ne.symm hkey))]
  · refine iff_of_false (fun h => ?_) (by simp)
    have hsc := mem_positiveKeys_iff.mp (hk ▸ mem_cons_of_mem first mem_cons_self)
    simp only [map_cons, sum_cons] at hsum
    have hm : Finset.range (stakes.stakeOf first + 1) ⊆
        (Finset.range stakes.trueTotal).filter fun target => c target = some first := by
      intro target ht
      have hlt := Finset.mem_range.mp ht
      exact Finset.mem_filter.mpr ⟨Finset.mem_range.mpr (by omega), hf hk (by omega) (by omega)⟩
    have hcr := Finset.card_le_card hm
    rw [Finset.card_range, h.weight first] at hcr
    omega

/-- Of two keys with ten each the first is chosen for eleven targets. -/
theorem threeStakers_not_proportional : ¬ threeStakers.Proportional fun target =>
    deterministicSelect id (fun _ _ => target) threeStakers leaderDomain [] 0 [] :=
  fun h => absurd (h.weight [1]) (by decide +kernel)

end StakeMap

/-! ## The shuffle -/

section Shuffle

/-- Draws for the indices from `i` down to 1, each at most its index. -/
def InRange : Nat → List Nat → Prop
  | 0, draws => draws = []
  | i + 1, draws => ∃ j rest, draws = j :: rest ∧ j ≤ i + 1 ∧ InRange i rest

variable {i j x : Nat} {xs draws : List Nat}

theorem swapAt_perm (hi : i < xs.length) (hj : j < xs.length) : (swapAt xs i j).Perm xs := by
  unfold swapAt
  rw [getD_eq_getElem _ _ hi, getD_eq_getElem _ _ hj]
  exact set_set_perm hi hj

theorem swapAt_concat (hi : i < xs.length) (hj : j < xs.length) :
    swapAt (xs ++ [x]) i j = swapAt xs i j ++ [x] := by
  unfold swapAt
  rw [getD_append _ _ _ _ hi, getD_append _ _ _ _ hj, set_append_left _ _ hi, set_append_left]
  rwa [length_set]

/-- A swap with the last place puts there what stood at the other. -/
theorem swapAt_last (x : Nat) (hj : j ≤ xs.length) : ∃ ys, ys.length = xs.length ∧
    swapAt (xs ++ [x]) xs.length j = ys ++ [(xs ++ [x]).getD j 0] := by
  unfold swapAt
  rw [getD_append_right _ _ _ _ le_rfl, Nat.sub_self, set_append_right _ _ le_rfl, Nat.sub_self]
  rcases Nat.lt_or_eq_of_le hj with hlt | rfl
  · exact ⟨xs.set j x, length_set, set_append_left _ _ hlt⟩
  · refine ⟨xs, rfl, ?_⟩
    rw [set_append_right _ _ le_rfl, Nat.sub_self, getD_append_right _ _ _ _ le_rfl, Nat.sub_self]
    rfl

/-- The loop leaves alone what is behind its first index. -/
theorem shuffleLoop_concat (h : InRange i draws) (hi : i < xs.length) :
    shuffleLoop i draws (xs ++ [x]) = shuffleLoop i draws xs ++ [x] := by
  induction i generalizing draws xs with
  | zero => rfl
  | succ i ih =>
    obtain ⟨j, rest, rfl, hj, hr⟩ := h
    have hl := (swapAt_perm hi (Nat.lt_of_le_of_lt hj hi)).length_eq
    rw [shuffleLoop, shuffleLoop, swapAt_concat hi (by omega), ih hr (by omega)]

theorem shuffleLoop_perm (h : InRange i draws) (hi : i < xs.length) :
    (shuffleLoop i draws xs).Perm xs := by
  induction i generalizing draws xs with
  | zero => exact .refl _
  | succ i ih =>
    obtain ⟨j, rest, rfl, hj, hr⟩ := h
    have hp := swapAt_perm hi (Nat.lt_of_le_of_lt hj hi)
    exact (ih hr (by rw [hp.length_eq]; omega)).trans hp

/-- Each arrangement of distinct entries comes from one row of draws. -/
theorem existsUnique_draws {n : Nat} {xs l : List Nat} (hl : xs.length = n + 1) (hn : xs.Nodup)
    (hp : l.Perm xs) : ∃! draws, InRange n draws ∧ shuffleLoop n draws xs = l := by
  induction n generalizing xs l with
  | zero =>
    obtain ⟨x, rfl⟩ := length_eq_one_iff.mp hl
    exact ⟨[], ⟨rfl, (perm_singleton.mp hp).symm⟩, fun _ h => h.1⟩
  | succ n ih =>
    obtain ⟨xs, x, rfl⟩ := eq_nil_or_concat' xs |>.resolve_left (by rintro rfl; simp at hl)
    obtain ⟨l, y, rfl⟩ := eq_nil_or_concat' l |>.resolve_left (by rintro rfl; simp at hp)
    have hlen : xs.length = n + 1 := by simpa using hl
    -- the place of the last entry is the first draw
    obtain ⟨j, hj, rfl⟩ := getElem_of_mem (hp.subset (by simp : y ∈ l ++ [y]))
    rw [length_append, length_singleton] at hj
    obtain ⟨ys, hys, hs⟩ := swapAt_last x (Nat.lt_succ_iff.mp hj)
    have hsp : (swapAt (xs ++ [x]) xs.length j).Perm (xs ++ [x]) :=
      swapAt_perm (by simp) (by simpa using hj)
    rw [getD_eq_getElem _ _ (by simpa using hj)] at hs
    rw [hs] at hsp
    have hyn := hsp.nodup_iff.mpr hn
    obtain ⟨rest, ⟨hr, hrun⟩, hu⟩ := ih (by omega) (nodup_append.mp hyn).1
      ((perm_append_right_iff _).mp (hp.trans hsp.symm))
    refine ⟨j :: rest, ⟨⟨j, rest, rfl, by omega, hr⟩, ?_⟩, ?_⟩
    · rw [shuffleLoop, ← hlen, hs, shuffleLoop_concat hr (by omega), hrun]
    · rintro _ ⟨⟨k, rest', rfl, hk, hr'⟩, hrun'⟩
      obtain ⟨zs, hzs, hs'⟩ := swapAt_last x (show k ≤ xs.length by omega)
      rw [shuffleLoop, ← hlen, hs', shuffleLoop_concat hr' (by omega)] at hrun'
      obtain ⟨hrest, hlast⟩ := append_inj' hrun' rfl
      have hkj : k = j := by
        rw [getD_eq_getElem _ _ (by simp; omega), cons.injEq] at hlast
        exact (hn.getElem_inj_iff).mp hlast.1
      subst hkj
      have hzy : zs = ys := (append_inj' (hs'.symm.trans hs) rfl).1
      rw [hu rest' ⟨hr', hzy ▸ hrest⟩]

section Keys

variable (sha256 : Bytes → Bytes) (epochNumber : Nat) (prevBlockHash : Bytes)

/-- The keys as a new shuffler with these draws gives them out. -/
def shuffledKeys (draws : List Nat) (keys : List Bytes) : List Bytes :=
  (Shuffler.new sha256 (fun _ _ => draws) keys epochNumber prevBlockHash).shuffle

theorem shuffledKeys_eq (draws : List Nat) (keys : List Bytes) :
    shuffledKeys sha256 epochNumber prevBlockHash draws keys =
      (shuffleLoop (keys.length - 1) draws (range keys.length)).map (keys.getD · []) := by
  cases keys with
  | nil => rfl
  | cons key keys => rfl

theorem map_getD_range (keys : List Bytes) : (range keys.length).map (keys.getD · []) = keys := by
  refine ext_getElem (by simp) fun i _ hi => ?_
  rw [getElem_map, getElem_range, getD_eq_getElem _ _ hi]

/-- Distinct keys tell the order they are in. -/
theorem map_idxOf_getD {keys : List Bytes} {order : List Nat} (hd : keys.Nodup)
    (hp : order.Perm (range keys.length)) :
    (order.map (keys.getD · [])).map keys.idxOf = order := by
  rw [map_map, map_congr_left (g := id) fun i hi => ?_, map_id]
  have hlt := mem_range.mp (hp.subset hi)
  rw [Function.comp_apply, getD_eq_getElem _ _ hlt, hd.idxOf_getElem, id]

theorem shuffleLoop_range_perm {n : Nat} (h : InRange (n - 1) draws) :
    (shuffleLoop (n - 1) draws (range n)).Perm (range n) := by
  cases n with
  | zero => exact .refl _
  | succ n => exact shuffleLoop_perm h (by simp)

/-- Of distinct keys each arrangement comes from one row of draws. -/
theorem existsUnique_shuffledKeys {keys l : List Bytes} (hd : keys.Nodup) (hp : l.Perm keys) :
    ∃! draws, InRange (keys.length - 1) draws ∧
      shuffledKeys sha256 epochNumber prevBlockHash draws keys = l := by
  have hback : (l.map keys.idxOf).map (keys.getD · []) = l := by
    rw [map_map, map_congr_left (g := id) fun key hk => ?_, map_id]
    rw [Function.comp_apply, getD_eq_getElem _ _ (idxOf_lt_length_of_mem (hp.subset hk)),
      getElem_idxOf, id]
  have horder : (l.map keys.idxOf).Perm (range keys.length) := by
    have h := map_idxOf_getD hd (.refl _)
    rw [map_getD_range] at h
    exact h ▸ hp.map _
  -- the row of draws that puts the places in the order of `l`
  have hdraws : ∃! draws, InRange (keys.length - 1) draws ∧
      shuffleLoop (keys.length - 1) draws (range keys.length) = l.map keys.idxOf := by
    cases hn : keys.length with
    | zero =>
      rw [hn, range_zero, perm_nil] at horder
      exact ⟨[], ⟨rfl, horder.symm⟩, fun _ h => h.1⟩
    | succ n => exact existsUnique_draws (by simp) nodup_range (hn ▸ horder)
  obtain ⟨draws, ⟨hr, hrun⟩, hu⟩ := hdraws
  refine ⟨draws, ⟨hr, by rw [shuffledKeys_eq, hrun, hback]⟩, fun draws' h => hu draws' ⟨h.1, ?_⟩⟩
  rw [← h.2, shuffledKeys_eq, map_idxOf_getD hd (shuffleLoop_range_perm h.1)]

/-- The shuffled keys are the keys in another order, each order of the places is that of
one row of draws, whatever the keys, and each arrangement of distinct keys comes from
one row. -/
theorem shuffler_permutes (items : List Bytes) :
    (∀ draws, InRange (items.length - 1) draws →
      (shuffledKeys sha256 epochNumber prevBlockHash draws items).Perm items) ∧
    (∀ order : List Nat, order.Perm (range items.length) →
      ∃! draws, InRange (items.length - 1) draws ∧
        ∀ keys : List Bytes, keys.length = items.length →
        shuffledKeys sha256 epochNumber prevBlockHash draws keys =
          order.map (keys.getD · [])) ∧
    (items.Nodup → ∀ l, l.Perm items → ∃! draws, InRange (items.length - 1) draws ∧
      shuffledKeys sha256 epochNumber prevBlockHash draws items = l) := by
  refine ⟨fun draws h => ?_, fun order h => ?_,
    fun hd l hp => existsUnique_shuffledKeys _ _ _ hd hp⟩
  · have hp := (shuffleLoop_range_perm h).map (items.getD · [])
    rwa [map_getD_range, ← shuffledKeys_eq] at hp
  · -- keys of distinct lengths stand for the places
    let marks : List Bytes := (range items.length).map (replicate · 0)
    have hl : marks.length = items.length := by simp [marks]
    have hd : marks.Nodup := nodup_range.map fun i j hij => by
      simpa using congrArg length hij
    have hp : (order.map (marks.getD · [])).Perm marks := by
      have := h.map (marks.getD · [])
      rwa [← hl, map_getD_range] at this
    obtain ⟨draws, ⟨hr, hrun⟩, hu⟩ :=
      existsUnique_shuffledKeys sha256 epochNumber prevBlockHash hd hp
    have hloop := congrArg (map marks.idxOf) hrun
    rw [shuffledKeys_eq, map_idxOf_getD hd (shuffleLoop_range_perm hr),
      map_idxOf_getD hd (hl ▸ h)] at hloop
    refine ⟨draws, ⟨hl ▸ hr, fun keys hk => ?_⟩,
      fun draws' h' => hu draws' ⟨hl ▸ h'.1, h'.2 _ hl⟩⟩
    rw [shuffledKeys_eq, hk, ← hl, hloop]

end Keys

end Shuffle

end Pneumatic
