import Pneumatic.Committer.Selection

/-!
# One leader for every node

A node that selects with the core and one that selects with the Committer's own loop come to
the same leader, and the order in which the two hold the stakers has no part in it. The
total is a saturating sum and so does not depend on the order of its summands; the keys
are sorted before the walk; and the two walks take the same steps and differ only
in what they return when the keys run out.

The last section says what is elected: nobody exactly if there is no stake, and otherwise
a staker that has some.
-/

namespace Pneumatic

open List

variable {stakes : StakeMap} {key : Bytes}

namespace StakeMap

def stakeSet (stakes : StakeMap) : StakeSet where
  entries := ↑(stakes.stakers.map fun entry => (⟨entry.1, entry.2⟩ : (_ : Bytes) × Nat))
  nodupKeys := by
    have hkeys : (stakes.stakers.map fun entry =>
        (⟨entry.1, entry.2⟩ : (_ : Bytes) × Nat)).keys = stakes.stakers.map Prod.fst := by
      simp [List.keys, Function.comp_def]
    rw [Multiset.coe_nodupKeys, List.NodupKeys, hkeys]
    exact stakes.nodup_keys

theorem perm_of_stakeSet_eq {stakes' : StakeMap} (h : stakes.stakeSet = stakes'.stakeSet) :
    stakes.stakers.Perm stakes'.stakers := by
  have he : (stakes.stakers.map fun entry =>
      (⟨entry.1, entry.2⟩ : (_ : Bytes) × Nat)).Perm (stakes'.stakers.map fun entry =>
        (⟨entry.1, entry.2⟩ : (_ : Bytes) × Nat)) :=
    Multiset.coe_eq_coe.mp (congrArg Finmap.entries h)
  have hb := he.map fun entry => (entry.1, entry.2)
  simpa [map_map, Function.comp_def] using hb

/-- A saturating sum is the sum, cut off at the end. -/
theorem foldl_saturatingAdd (entries : List (Bytes × Nat)) {start : Nat} (hs : start ≤ u64Max) :
    entries.foldl (fun total entry => saturatingAdd total entry.2) start =
      min (start + (entries.map Prod.snd).sum) u64Max := by
  induction entries generalizing start with
  | nil => simp [hs]
  | cons entry rest ih =>
    have hle : saturatingAdd start entry.2 ≤ u64Max := Nat.min_le_right _ _
    rw [foldl_cons, ih hle]
    simp only [saturatingAdd, map_cons, sum_cons]
    omega

theorem totalStake_eq (stakes : StakeMap) :
    stakes.totalStake = min (stakes.stakers.map Prod.snd).sum u64Max := by
  rw [totalStake, foldl_saturatingAdd _ (Nat.zero_le _), Nat.zero_add]

theorem totalStake_stakeSet (stakes : StakeMap) :
    stakes.stakeSet.totalStake = stakes.totalStake := by
  rw [totalStake_eq, StakeSet.totalStake]
  simp [stakeSet, Function.comp_def]

def positiveKeys (stakes : StakeMap) : List Bytes :=
  ((stakes.stakers.filter fun entry => 0 < entry.2).map Prod.fst).insertionSort (· ≤ ·)

theorem get_eq_some_iff {stake : Nat} :
    stakes.get key = some stake ↔ (key, stake) ∈ stakes.stakers := by
  obtain ⟨e, hn⟩ := stakes
  show e.lookup key = some stake ↔ (key, stake) ∈ e
  induction e with
  | nil => simp
  | cons entry rest ih =>
    obtain ⟨first, held⟩ := entry
    rw [map_cons, nodup_cons] at hn
    obtain ⟨hf, hr⟩ := hn
    by_cases hkey : key = first
    · -- the first entry is the only one with its key
      subst hkey
      have hnn : (key, stake) ∉ rest :=
        fun hmem => hf (mem_map.mpr ⟨_, hmem, rfl⟩)
      simp [hnn, eq_comm]
    · simp [lookup_cons, beq_eq_false_iff_ne.mpr hkey, hkey, ih hr]

section SameStakes

variable {stakes stakes' : StakeMap} (h : stakes.stakeSet = stakes'.stakeSet)
include h

theorem totalStake_congr : stakes.totalStake = stakes'.totalStake := by
  rw [← totalStake_stakeSet, h, totalStake_stakeSet]

theorem positiveKeys_congr : stakes.positiveKeys = stakes'.positiveKeys :=
  insertionSort_eq_of_perm (((perm_of_stakeSet_eq h).filter _).map _)

theorem get_congr (key : Bytes) : stakes.get key = stakes'.get key := by
  ext stake
  rw [get_eq_some_iff, get_eq_some_iff, (perm_of_stakeSet_eq h).mem_iff]

theorem selectKey_congr (target cumulative : Nat) (keys : List Bytes) :
    selectKey stakes target cumulative keys = selectKey stakes' target cumulative keys := by
  induction keys generalizing cumulative with
  | nil => rfl
  | cons key rest ih =>
    simp only [selectKey, get_congr h]
    split
    · rfl
    · exact ih _

end SameStakes

end StakeMap

open StakeMap

/-- The walk of the Committer is the walk of the core with its last key filled in. -/
theorem walk_eq_getD_selectKey (stakes : StakeMap) (target : Nat) (firstKey : Bytes)
    (cumulative : Nat) (keys : List Bytes) :
    LeaderSelector.walk stakes target firstKey cumulative keys =
      (selectKey stakes target cumulative keys).getD firstKey := by
  induction keys generalizing cumulative with
  | nil => rfl
  | cons key rest ih =>
    simp only [LeaderSelector.walk, selectKey]
    split
    · rfl
    · exact ih _

variable {sha256 : Bytes → Bytes} {genRange : Bytes → Nat → Nat}

theorem deterministicSelect_eq (stakes : StakeMap) (domain : UInt8) (seedBytes : Bytes)
    (epochNumber : Nat) (prevBlockHash : Bytes) :
    deterministicSelect sha256 genRange stakes domain seedBytes epochNumber prevBlockHash =
      if stakes.totalStake = 0 then none
      else
        (selectKey stakes (genRange (deriveSelectionSeed sha256 domain epochNumber
          prevBlockHash seedBytes) stakes.totalStake) 0 stakes.positiveKeys).or
          stakes.positiveKeys.head? := by
  simp only [deterministicSelect, positiveKeys]
  split
  · rfl
  · split
    · next h => rw [h]; rfl
    · next h => rw [h]; rfl

theorem select_eq_coreSelect (hlen : ∀ input, (sha256 input).length = 32)
    (stakes : StakeMap) (epochNumber : Nat) (prevBlockHash : Bytes) :
    LeaderSelector.select sha256 genRange stakes epochNumber prevBlockHash =
      coreSelect sha256 genRange stakes epochNumber prevBlockHash := by
  unfold LeaderSelector.select LeaderSelector.selectInternal coreSelect
  rw [deterministicSelect_eq]
  by_cases ht : stakes.totalStake = 0
  · simp [ht]
  · simp only [ht, hlen, if_false, ne_eq, not_true_eq_false, walk_eq_getD_selectKey,
      deriveSelectionSeed, append_nil, positiveKeys]
    cases selectKey stakes _ 0 _ <;> rfl

/-- Whichever of the two selections a node uses, and in whatever order it holds the stakers
of the epoch, it elects the same leader. -/
theorem leaders_agree (hlen : ∀ input, (sha256 input).length = 32)
    (mine theirs : StakeMap) (hsame : mine.stakeSet = theirs.stakeSet) (epochNumber : Nat)
    (prevBlockHash : Bytes) : LeaderSelector.select sha256 genRange mine epochNumber prevBlockHash =
      (deterministicSelect sha256 genRange theirs leaderDomain [] epochNumber
        prevBlockHash).getD [] := by
  rw [select_eq_coreSelect hlen, coreSelect, deterministicSelect_eq, deterministicSelect_eq,
    totalStake_congr hsame, positiveKeys_congr hsame, selectKey_congr hsame]

/-- Three stakers, one of them without a stake, with the other two tied. -/
def threeStakers : StakeMap where
  stakers := [([1], 10), ([2], 0), ([3], 10)]
  nodup_keys := by decide

def threeReversed : StakeMap where
  stakers := [([3], 10), ([2], 0), ([1], 10)]
  nodup_keys := by decide

theorem three_stakers_agree :
    LeaderSelector.select (fun _ => List.replicate 32 0) (fun _ total => total - 5)
        threeStakers 4 [7] =
      (deterministicSelect (fun _ => List.replicate 32 0) (fun _ total => total - 5)
        threeReversed leaderDomain [] 4 [7]).getD [] ∧
      LeaderSelector.select (fun _ => List.replicate 32 0) (fun _ total => total - 5)
        threeStakers 4 [7] = [3] :=
  ⟨leaders_agree (fun _ => length_replicate) threeStakers threeReversed
    (Finmap.ext (Multiset.coe_eq_coe.mpr (by decide))) 4 [7], rfl⟩

theorem mem_of_selectKey {target cumulative : Nat} {keys : List Bytes}
    (h : selectKey stakes target cumulative keys = some key) : key ∈ keys := by
  induction keys generalizing cumulative with
  | nil => cases h
  | cons first rest ih =>
    simp only [selectKey] at h
    split at h
    · cases h; exact mem_cons_self
    · exact mem_cons_of_mem _ (ih h)

theorem mem_positiveKeys :
    key ∈ stakes.positiveKeys ↔ ∃ stake, stakes.get key = some stake ∧ 0 < stake := by
  simp [positiveKeys, get_eq_some_iff]

theorem positiveKeys_eq_nil_iff : stakes.positiveKeys = [] ↔ stakes.totalStake = 0 := by
  have hsum : stakes.totalStake = 0 ↔ ∀ entry ∈ stakes.stakers, entry.2 = 0 := by
    rw [totalStake_eq, Nat.min_eq_zero_iff, or_iff_left (by decide), sum_eq_zero_iff,
      forall_mem_map]
  rw [hsum, eq_nil_iff_forall_not_mem]
  simp only [mem_positiveKeys, get_eq_some_iff, not_exists, not_and, Nat.not_lt,
    Nat.le_zero, Prod.forall]

theorem deterministicSelect_eq_none_iff {domain : UInt8}
    {seedBytes : Bytes} {epochNumber : Nat} {prevBlockHash : Bytes} :
    deterministicSelect sha256 genRange stakes domain seedBytes epochNumber prevBlockHash =
      none ↔ stakes.totalStake = 0 := by
  rw [deterministicSelect_eq]
  split
  · next h => simp [h]
  · next h =>
    rw [Option.or_eq_none_iff, head?_eq_none_iff, positiveKeys_eq_nil_iff]
    exact and_iff_right_of_imp fun hz => absurd hz h

theorem stake_of_deterministicSelect {domain : UInt8}
    {seedBytes : Bytes} {epochNumber : Nat} {prevBlockHash : Bytes}
    (h : deterministicSelect sha256 genRange stakes domain seedBytes epochNumber
      prevBlockHash = some key) : ∃ stake, stakes.get key = some stake ∧ 0 < stake := by
  rw [deterministicSelect_eq] at h
  split at h
  · cases h
  · rw [← mem_positiveKeys]
    rcases Option.or_eq_some_iff.mp h with hkey | ⟨-, hh⟩
    · exact mem_of_selectKey hkey
    · exact mem_of_mem_head? hh

end Pneumatic
