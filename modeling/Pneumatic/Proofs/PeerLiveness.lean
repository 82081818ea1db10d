import Pneumatic.Proofs.RoleBuckets
import Mathlib.Data.Finset.Sort

/-!
# Who is evicted

A peer that was not seen for thirty seconds is evicted from its bucket. A heartbeat names
one key, and `handle_heartbeat` refreshes the first bucket the key is in: a composite node
that sends nothing but heartbeats ages out of all its other roles, where a re-registration
would refresh all of them.
-/

namespace Pneumatic

open Run Finmap List

variable {C : Codec} {N : NodeCodec} {cfg : NodeConfig} {world : NodeWorld}
  {request : NodeRequest} {nodes nodes' : NodeBuckets} {key : Bytes} {t : NodeRegistryType}

/-! ## One heartbeat and one sweep -/

theorem lookup_touch_self (world : NodeWorld) (key : Bytes) (bucket : Nodes) :
    (touch world key bucket).lookup key =
      (bucket.lookup key).map fun node => { node with lastSeen := world.now } := by
  unfold touch
  split
  · next hn => rw [hn]; rfl
  · next node hn => rw [lookup_insert, hn]; rfl

theorem findNodeTypeByPublicKey_congr (h : ∀ t, key ∈ nodes' t ↔ key ∈ nodes t) :
    findNodeTypeByPublicKey cfg world nodes' key = findNodeTypeByPublicKey cfg world nodes key := by
  simp only [findNodeTypeByPublicKey, rolesOfKey, h]

/-! ## Heartbeats and sweeps in turn -/

inductive PeerEvent where
  | heartbeat (time : Nat)
  | sweep (time : Nat)

def PeerEvent.time : PeerEvent → Nat
  | .heartbeat time => time
  | .sweep time => time

/-- Time does not run back, and there is less than the timeout between one heartbeat, the
`last` so far, and the next. -/
def Steady : Nat → Nat → List PeerEvent → Prop
  | _, _, [] => True
  | last, clock, event :: events =>
    clock ≤ event.time ∧ event.time < last + 30 ∧
      Steady (match event with | .heartbeat time => time | .sweep _ => last) event.time events

def NodeWorld.later (world : NodeWorld) (time : Nat) : NodeWorld := { world with now := time }

/-- What an event does to the buckets; the heartbeats all carry one request. -/
def peerTurn (C : Codec) (N : NodeCodec) (cfg : NodeConfig) (world : NodeWorld)
    (request : NodeRequest) (nodes : NodeBuckets) : PeerEvent → NodeBuckets
  | .heartbeat time => handleHeartbeat C N cfg (world.later time) request nodes
  | .sweep time => evictExpired (world.later time) nodes

variable {time : Nat}

theorem heartbeat_bucket (hb : verifyBinding C N request.binding = true) :
    peerTurn C N cfg world request nodes (.heartbeat time) t =
      if findNodeTypeByPublicKey cfg world nodes request.requesterKey = some t then
        touch (world.later time) request.requesterKey (nodes t)
      else nodes t := by
  have hf : findNodeTypeByPublicKey cfg (world.later time) nodes request.requesterKey =
      findNodeTypeByPublicKey cfg world nodes request.requesterKey := rfl
  rw [peerTurn, handleHeartbeat, if_neg (by simp [hb]), hf]
  cases findNodeTypeByPublicKey cfg world nodes request.requesterKey with
  | none => rfl
  | some found =>
    by_cases ht : t = found
    · subst ht
      rw [if_pos rfl]
      exact modify_self nodes t _
    · rw [if_neg fun h => ht (Option.some.inj h).symm]
      exact modify_of_ne nodes _ ht

theorem sweep_lookup (ho : ∀ keys, ∀ k ∈ keys, k ∈ world.order keys) {node : NodeRegistryNode} :
    (peerTurn C N cfg world request nodes (.sweep time) t).lookup key = some node ↔
      (nodes t).lookup key = some node ∧ time ≤ node.lastSeen + 30 := by
  rw [peerTurn, evictExpired, lookup_foldl_erase]
  cases hn : (nodes t).lookup key with
  | none => simp
  | some found =>
    have hk := ho _ key (Finmap.mem_keys.mpr (mem_of_lookup_eq_some hn))
    split
    · next hmem =>
      have hlt := (mem_filter.mp hmem).2
      simp only [hn, decide_eq_true_eq] at hlt
      refine iff_of_false (Option.some_ne_none _).symm ?_
      rintro ⟨h, hle⟩
      obtain rfl := Option.some.inj h
      exact Nat.not_lt.mpr hle hlt
    · next hmem =>
      refine ⟨fun h => ⟨h, ?_⟩, And.left⟩
      obtain rfl := Option.some.inj h
      refine Nat.not_lt.mp fun hlt => hmem (mem_filter.mpr ⟨hk, ?_⟩)
      simp only [hn]
      exact decide_eq_true hlt

/-- The key is in the buckets it was in, and was seen in each of them at the last heartbeat. -/
structure StaysIn (key : Bytes) (nodes : NodeBuckets) (last : Nat) (after : NodeBuckets) :
    Prop where
  mem_iff : ∀ t, key ∈ after t ↔ key ∈ nodes t
  seen : ∀ t node, (after t).lookup key = some node → last ≤ node.lastSeen

theorem StaysIn.run (hb : verifyBinding C N request.binding = true)
    (ho : ∀ keys, ∀ k ∈ keys, k ∈ world.order keys)
    (hone : ∀ t, request.requesterKey ∈ nodes t →
      findNodeTypeByPublicKey cfg world nodes request.requesterKey = some t)
    {events : List PeerEvent} {last clock : Nat} {after : NodeBuckets}
    (h : StaysIn request.requesterKey nodes last after) (hs : Steady last clock events) :
    ∃ last', StaysIn request.requesterKey nodes last'
      (run (peerTurn C N cfg world request) after events) := by
  induction events generalizing last clock after with
  | nil => exact ⟨last, h⟩
  | cons event events ih =>
    obtain ⟨-, hlt, hs⟩ := hs
    refine ih ?_ hs
    cases event with
    | heartbeat time =>
      refine ⟨fun t => handleHeartbeat_mem.trans (h.mem_iff t), fun t node hn => ?_⟩
      have ht := (h.mem_iff t).mp (handleHeartbeat_mem.mp (mem_of_lookup_eq_some hn))
      have hf := (findNodeTypeByPublicKey_congr h.mem_iff).trans (hone t ht)
      rw [heartbeat_bucket hb, if_pos hf, lookup_touch_self] at hn
      obtain ⟨old, -, rfl⟩ := Option.map_eq_some_iff.mp hn
      exact Nat.le_refl time
    | sweep time =>
      refine ⟨fun t => ⟨fun hm => (h.mem_iff t).mp (evictExpired_mem hm), fun hm => ?_⟩,
        fun t node hn => h.seen t node ((sweep_lookup ho).mp hn).1⟩
      obtain ⟨node, hn⟩ := Finmap.mem_iff.mp ((h.mem_iff t).mpr hm)
      have hl := h.seen t node hn
      have htime : time ≤ node.lastSeen + 30 := by
        simp only [PeerEvent.time] at hlt
        omega
      exact mem_of_lookup_eq_some ((sweep_lookup ho).mpr ⟨hn, htime⟩)

/-- A key whose entries are all fresh stays in all its buckets as long as its heartbeats
come exactly if there is only one, the one that the heartbeats refresh. -/
theorem heartbeats_keep_iff (request : NodeRequest) {start clock : Nat}
    (hb : verifyBinding C N request.binding = true)
    (ho : ∀ keys, ∀ k ∈ keys, k ∈ world.order keys)
    (hseen : ∀ t node, (nodes t).lookup request.requesterKey = some node →
      start ≤ node.lastSeen ∧ node.lastSeen ≤ clock) (hc : clock < start + 30) :
    (∀ events, Steady start clock events → ∀ t, request.requesterKey ∈ nodes t →
      request.requesterKey ∈ run (peerTurn C N cfg world request) nodes events t) ↔
    ∀ t, request.requesterKey ∈ nodes t →
      findNodeTypeByPublicKey cfg world nodes request.requesterKey = some t := by
  constructor
  · intro h t ht
    by_contra hne
    -- two heartbeats go by, and the entry of the other bucket is as it was
    obtain ⟨node, hn⟩ := Finmap.mem_iff.mp ht
    have hmem := h [.heartbeat clock, .heartbeat (clock + 29), .sweep (clock + 31)]
      ⟨Nat.le_refl _, hc, by simp [PeerEvent.time], by simp [PeerEvent.time],
        by simp [PeerEvent.time], by simp [PeerEvent.time], trivial⟩ t ht
    obtain ⟨left, hl⟩ := Finmap.mem_iff.mp hmem
    simp only [run, foldl_cons, foldl_nil] at hl
    obtain ⟨hl, hold⟩ := (sweep_lookup ho).mp hl
    have hne' : findNodeTypeByPublicKey cfg world (peerTurn C N cfg world request nodes
        (.heartbeat clock)) request.requesterKey ≠ some t :=
      fun hf => hne ((findNodeTypeByPublicKey_congr fun _ => handleHeartbeat_mem).symm.trans hf)
    rw [heartbeat_bucket hb, if_neg hne', heartbeat_bucket hb, if_neg hne, hn] at hl
    obtain rfl := Option.some.inj hl
    have hle := (hseen t _ hn).2
    omega
  · intro hone events hs t ht
    have hstart : StaysIn request.requesterKey nodes start nodes :=
      ⟨fun _ => Iff.rfl, fun t node hn => (hseen t node hn).1⟩
    obtain ⟨_, h⟩ := hstart.run hb ho hone hs
    exact (h.mem_iff t).mpr ht

/-- The key `[1]` runs two roles, and `[2]` one of them. -/
def twoRoles : NodeBuckets
  | .committer =>
    (Finmap.singleton [1] (.new oneStaked default)).insert [2] (.new oneStaked default)
  | .sentinel => Finmap.singleton [1] (.new oneStaked default)
  | _ => ∅

/-- Buckets are walked in the order of their keys. -/
def inKeyOrder : NodeWorld := { oneStaked with order := fun keys => keys.sort (· ≤ ·) }

def heartbeatOf (key : Bytes) : NodeRequest where
  requesterKey := key
  requesterRhash := default
  requestType := .heartbeat
  requesterTypes := [.committer, .sentinel]
  requestedType := .committer
  bindingSignature := key

theorem one_role_kept : [2] ∈ twoRoles .committer ∧ ∀ events, Steady 0 0 events →
    ∀ t, [2] ∈ twoRoles t →
    [2] ∈ run (peerTurn keySigning unboundNodes tenOfEach inKeyOrder (heartbeatOf [2]))
      twoRoles events t := by
  have hone : ∀ t, [2] ∈ twoRoles t → t = .committer ∧
      (twoRoles t).lookup [2] = some (.new oneStaked default) := by
    intro t
    cases t <;> decide +kernel
  refine ⟨by decide +kernel, (heartbeats_keep_iff (heartbeatOf [2]) rfl
    (fun keys k hk => (Finset.mem_sort _).mpr hk) (fun t node hn => ?_) (by decide)).mpr
    fun t ht => ?_⟩
  · have h := (hone t (mem_of_lookup_eq_some hn)).2
    obtain rfl := Option.some.inj (hn.symm.trans h)
    exact ⟨Nat.le_refl 0, Nat.le_refl 0⟩
  · rw [(hone t ht).1]
    rfl

/-- A heartbeat every twenty seconds, and after the second one the key is no Sentinel any more. -/
theorem second_role_evicted :
    let events := [.heartbeat 20, .heartbeat 40, PeerEvent.sweep 41]
    Steady 0 0 events ∧ verifyBinding keySigning unboundNodes (heartbeatOf [1]).binding = true ∧
      [1] ∈ twoRoles .sentinel ∧
      [1] ∉ run (peerTurn keySigning unboundNodes tenOfEach inKeyOrder (heartbeatOf [1]))
        twoRoles events .sentinel := by
  refine ⟨by simp [Steady, PeerEvent.time], rfl, by decide +kernel, by decide +kernel⟩

end Pneumatic
