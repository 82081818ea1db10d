import Pneumatic.Committer.Quoruming

/-!
# Leader selection

`epoch/leader.rs` of the core and `LeaderSelector` of the Committer. Both draw a number
below the total stake from a generator seeded with the epoch and the chain tip, and walk the
stakers in the order of their keys until the stakes add up to it. They were written
separately and differ in how they say that there is no leader.

A `HashMap` is iterated in an order of its own, so a stake map here is a list. The
generator is outside of the repository: `genRange seed total` is the number that
`StdRng::from_seed(seed).gen_range(0..total)` draws.
-/

namespace Pneumatic

def leaderDomain : UInt8 := 0x01

/-- The map in a `StakeSet`, in the order of its iterator. -/
structure StakeMap where
  stakers : List (Bytes × Nat)
  nodup_keys : (stakers.map Prod.fst).Nodup

def checkedAdd (a b : Nat) : Option Nat := if a + b ≤ u64Max then some (a + b) else none

namespace StakeMap

def get (stakes : StakeMap) (key : Bytes) : Option Nat := stakes.stakers.lookup key

def totalStake (stakes : StakeMap) : Nat :=
  stakes.stakers.foldl (fun total entry => saturatingAdd total entry.2) 0

end StakeMap

section Core

variable (sha256 : Bytes → Bytes) (genRange : Bytes → Nat → Nat)

def deriveSelectionSeed (domain : UInt8) (epochNumber : Nat) (prevBlockHash extra : Bytes) :
    Bytes :=
  sha256 (domain :: (LittleEndian.leBytes 8 epochNumber).reverse ++ prevBlockHash ++ extra)

/-- The loop of `deterministic_select`; `none` when the keys run out. The keys are the map's, so
each of them has a stake. -/
def selectKey (stakes : StakeMap) (target : Nat) : Nat → List Bytes → Option Bytes
  | _, [] => none
  | cumulative, key :: rest =>
    let cumulative := (checkedAdd cumulative ((stakes.get key).getD 0)).getD u64Max
    if target ≤ cumulative then some key else selectKey stakes target cumulative rest

def deterministicSelect (stakes : StakeMap) (domain : UInt8) (seedBytes : Bytes)
    (epochNumber : Nat) (prevBlockHash : Bytes) : Option Bytes :=
  let total := stakes.totalStake
  if total = 0 then none
  else
    let seed := deriveSelectionSeed sha256 domain epochNumber prevBlockHash seedBytes
    let target := genRange seed total
    let keys := ((stakes.stakers.filter fun entry => 0 < entry.2).map Prod.fst).insertionSort
      (· ≤ ·)
    match selectKey stakes target 0 keys with
    | some key => some key
    | none => keys.head?

/-- `IEpochLeaderSelector::select` of the core's `LeaderSelector`. -/
def coreSelect (stakes : StakeMap) (epochNumber : Nat) (prevBlockHash : Bytes) : Bytes :=
  (deterministicSelect sha256 genRange stakes leaderDomain [] epochNumber prevBlockHash).getD []

/-! ### The shuffle -/

def shardShuffleDomain : UInt8 := 0x02

/-- `indices.swap(i, j)`. -/
def swapAt (indices : List Nat) (i j : Nat) : List Nat :=
  (indices.set i (indices.getD j 0)).set j (indices.getD i 0)

/-- The loop of `Shuffler::new`, from an index down to 1, with the numbers it draws. -/
def shuffleLoop : Nat → List Nat → List Nat → List Nat
  | i + 1, j :: draws, indices => shuffleLoop i draws (swapAt indices (i + 1) j)
  | _, _, indices => indices

structure Shuffler where
  items : List Bytes
  lastPermutation : List Bytes

/-- `Shuffler::new`; `genRanges seed n` are the numbers that `StdRng::from_seed(seed)` draws by
`gen_range(0..=i)`, `i` from `n - 1` to 1. -/
def Shuffler.new (genRanges : Bytes → Nat → List Nat) (items : List Bytes) (epochNumber : Nat)
    (prevBlockHash : Bytes) : Shuffler :=
  let seed := deriveSelectionSeed sha256 shardShuffleDomain epochNumber prevBlockHash []
  let n := items.length
  if n = 0 then ⟨items, []⟩
  else
    let indices := shuffleLoop (n - 1) (genRanges seed n) (List.range n)
    ⟨items, indices.map fun i => items.getD i []⟩

/-- `Shuffler::shuffle`, the keys in their shuffled order. -/
def Shuffler.shuffle (shuffler : Shuffler) : List Bytes := shuffler.lastPermutation

end Core

namespace LeaderSelector

variable (hash : Bytes → Bytes) (genRange : Bytes → Nat → Nat)

/-- The loop of `select_internal`, which ends with the first key. -/
def walk (stakes : StakeMap) (target : Nat) (firstKey : Bytes) : Nat → List Bytes → Bytes
  | _, [] => firstKey
  | cumulative, key :: rest =>
    let cumulative := (checkedAdd cumulative ((stakes.get key).getD 0)).getD u64Max
    if target ≤ cumulative then key else walk stakes target firstKey cumulative rest

/-- `select_internal`, with the text of its `PneumaticError::Epoch`. -/
def selectInternal (stakes : StakeMap) (epochNumber : Nat) (prevBlockHash : Bytes) :
    Except String Bytes :=
  let total := stakes.totalStake
  if total = 0 then .ok []
  else
    let seed := hash (leaderDomain :: (LittleEndian.leBytes 8 epochNumber).reverse ++ prevBlockHash)
    if seed.length ≠ 32 then
      .error ("hash provider produced " ++ toString seed.length ++ " bytes, expected 32")
    else
      let target := genRange seed total
      let keys := ((stakes.stakers.filter fun entry => 0 < entry.2).map
        Prod.fst).insertionSort (· ≤ ·)
      let firstKey := keys.head?.getD []
      .ok (walk stakes target firstKey 0 keys)

/-- `IEpochLeaderSelector::select` of the Committer's `LeaderSelector`. -/
def select (stakes : StakeMap) (epochNumber : Nat) (prevBlockHash : Bytes) : Bytes :=
  match selectInternal hash genRange stakes epochNumber prevBlockHash with
  | .ok key => key
  | .error _ => []

end LeaderSelector

end Pneumatic
