import Pneumatic.Proofs.RoleBuckets

/-!
# A node among its own peers

A node serves its own roles by a local copy of what it sends, and it is not to be in its
own buckets. A directory response leaves the node's own key and address out. The other three
ways in do not ask whose message they have: a node's own acknowledgement, sent back to it,
files the node under all the types it declares, and so does its own `Register` at a Sentinel,
or at the control plane for a type that it does not run.
-/

namespace Pneumatic

open Run Finmap List

variable (C : Codec) (N : NodeCodec) (cfg : NodeConfig)

/-- Neither the node's own key nor its own address. -/
def IsOther (key : Bytes) (rhash : Rhash) : Prop :=
  key ≠ cfg.publicKey ∧ rhash ≠ cfg.rhash

/-- A role that the host serves gets one local copy, and nothing goes to the host over the
network. -/
def ServesItselfOnce (nodes : NodeBuckets) : Prop :=
  ∀ world data, ∀ nodeType ∈ world.selfRoles,
    (sendToAll cfg world data nodes nodeType).selfCopies = [data] ∧
      ∀ peer ∈ (sendToAll cfg world data nodes nodeType).sends, IsOther cfg peer.1 peer.2

/-- A message that gets an entry names neither the node's key nor its address. -/
def FilesOther (nodes : NodeBuckets) (d : NodeDelivery) : Prop :=
  match d.message with
  | .control request =>
    match request.requestType with
    | .register => (handleRegister C N cfg d.world request nodes).2.accepted = true →
      IsOther cfg request.requesterKey request.requesterRhash
    | .registerAck accepted nodeType responderKey _ => accepted = true →
      verifyBinding C N (request.ackBinding nodeType responderKey) = true →
      IsOther cfg responderKey request.requesterRhash
    | _ => True
  | .sentinelRegister request => RegisterAdmitted C N cfg d.world nodes request →
    IsOther cfg request.requesterKey request.rhash
  | _ => True

/-- The bucket has no entry of the node itself. -/
def Others (bucket : Nodes) : Prop :=
  ∀ key node, bucket.lookup key = some node → IsOther cfg key node.rhash

/-- No bucket has one. -/
def AllOthers (nodes : NodeBuckets) : Prop := ∀ t, Others cfg (nodes t)

variable {C N cfg} {world : NodeWorld} {nodes : NodeBuckets} {bucket : Nodes} {key : Bytes}
  {node : NodeRegistryNode} {t : NodeRegistryType}

namespace Others

theorem insert (h : Others cfg bucket) (hn : IsOther cfg key node.rhash) :
    Others cfg (bucket.insert key node) := by
  intro key' node' hl
  rcases lookup_insert_cases hl with ⟨rfl, rfl⟩ | hold
  · exact hn
  · exact h key' node' hold

theorem touch (h : Others cfg bucket) : Others cfg (touch world key bucket) := by
  unfold Pneumatic.touch
  split
  · exact h
  · next old ho => exact h.insert (h key old ho)

theorem notMem (h : Others cfg bucket) : cfg.publicKey ∉ bucket := by
  intro hm
  obtain ⟨node, hn⟩ := mem_iff.mp hm
  exact (h _ node hn).1 rfl

end Others

namespace AllOthers

theorem modify (h : AllOthers cfg nodes) {write : Nodes → Nodes}
    (hw : Others cfg (write (nodes t))) : AllOthers cfg (nodes.modify t write) := by
  intro t'
  by_cases ht : t' = t
  · rw [ht, modify_self]
    exact hw
  · rw [modify_of_ne _ _ ht]
    exact h t'

theorem register {request : NodeRequest} (h : AllOthers cfg nodes)
    (ho : (handleRegister C N cfg world request nodes).2.accepted = true →
      IsOther cfg request.requesterKey request.requesterRhash) :
    AllOthers cfg (handleRegister C N cfg world request nodes).1 := by
  unfold handleRegister at ho ⊢
  split
  · exact h
  · next hb =>
    have hrefreshed : AllOthers cfg ((rolesOfKey cfg world nodes request.requesterKey).foldl
        (refreshLastSeen world request.requesterKey) nodes) :=
      foldlRecOn (motive := AllOthers cfg) _ _ h fun nodes h t _ => h.modify (h t).touch
    simp only [if_neg hb] at ho
    dsimp only
    split at ho
    · intro t key node hn
      rcases admit_foldl_lookup _ (fun _ => mem_of_mem_select) hn with hr | ⟨rfl, hr, -, -⟩
      · exact hrefreshed t key node hr
      · rw [hr]
        exact ho rfl
    · next ha =>
      rw [(admit_foldl_refused _ (Bool.eq_false_of_not_eq_true ha)).1]
      exact hrefreshed

theorem registerAck {request : NodeRequest} {accepted : Bool} {nodeType : NodeRegistryType}
    {responderKey : Bytes} (h : AllOthers cfg nodes) (ho : accepted = true →
      verifyBinding C N (request.ackBinding nodeType responderKey) = true →
      IsOther cfg responderKey request.requesterRhash) : AllOthers cfg
      (handleRegisterAck C N cfg world request accepted nodeType responderKey nodes) := by
  unfold handleRegisterAck
  split
  · exact h
  split
  · exact h
  split
  · exact h
  · next ha _ hb =>
    replace ho := ho (Bool.eq_true_of_not_eq_false ha) (Bool.eq_true_of_not_eq_false hb)
    refine foldlRecOn (motive := AllOthers cfg) _ _ h fun nodes h t _ => h.modify ?_
    unfold registerPeerWithBinding
    split
    · exact (h t).insert ho
    · exact h t

theorem heartbeat {request : NodeRequest} (h : AllOthers cfg nodes) :
    AllOthers cfg (handleHeartbeat C N cfg world request nodes) := by
  unfold handleHeartbeat
  split
  · exact h
  split
  · exact h
  · exact h.modify (h _).touch

theorem directory {response : NodeRegistryResponse} (h : AllOthers cfg nodes) :
    AllOthers cfg (handleDirectoryResponse C N cfg world response nodes).2 := by
  unfold handleDirectoryResponse
  split
  · exact h
  · refine h.modify (foldlRecOn (motive := Others cfg) _ _ (h _) fun bucket h entry he => ?_)
    have hf := (mem_filter.mp he).2
    simp only [Bool.and_eq_true, decide_eq_true_eq] at hf
    unfold registerDirectoryPeer
    split
    · exact h.touch
    split
    · exact h.insert ⟨hf.2, hf.1⟩
    · exact h

theorem sentinelRegister {request : NodeRegistryRequest} (h : AllOthers cfg nodes)
    (ho : RegisterAdmitted C N cfg world nodes request →
      IsOther cfg request.requesterKey request.rhash) :
    AllOthers cfg ((handleRegisterRequest C N cfg world request).exec nodes).2 := by
  intro t
  by_cases ha : RegisterAdmitted C N cfg world nodes request
  · rw [handleRegisterRequest_state.1 ha]
    split
    · exact (h t).insert (ho ha)
    · exact h t
  · rw [(handleRegisterRequest_state (t := t)).2 ha]
    exact h t

theorem evict (h : AllOthers cfg nodes) : AllOthers cfg (evictExpired world nodes) := by
  intro t key node hn
  rw [evictExpired, lookup_foldl_erase] at hn
  split at hn
  · cases hn
  · exact h t key node hn

theorem step (nodes : NodeBuckets) (d : NodeDelivery) (h : AllOthers cfg nodes)
    (hf : FilesOther C N cfg nodes d) : AllOthers cfg (nodeStep C N cfg nodes d) := by
  obtain ⟨world, message⟩ := d
  cases message with
  | control request =>
    simp only [nodeStep, handleControl]
    cases hr : request.requestType with
    | register =>
      simp only [FilesOther, hr] at hf
      exact h.register hf
    | request => exact h
    | heartbeat => exact h.heartbeat
    | registerAck accepted nodeType responderKey reason =>
      simp only [FilesOther, hr] at hf
      exact h.registerAck hf
  | directory response => exact h.directory
  | sentinelRegister request => exact h.sentinelRegister hf
  | evict => exact h.evict

theorem servesItselfOnce (h : AllOthers cfg nodes) : ServesItselfOnce cfg nodes := by
  intro world data nodeType hs
  refine ⟨?_, fun peer hp => ?_⟩
  · simp [sendToAll, deliverSelfCopy, hs, (h nodeType).notMem]
  · obtain ⟨key, -, hk⟩ := mem_filterMap.mp hp
    obtain ⟨node, hn, rfl⟩ := Option.map_eq_some_iff.mp hk
    exact h nodeType key node hn

end AllOthers

theorem own_key_stays_out {inputs : List NodeDelivery}
    (h : Meets (nodeStep C N cfg) (FilesOther C N cfg) .fresh inputs) :
    (∀ t, cfg.publicKey ∉ run (nodeStep C N cfg) .fresh inputs t) ∧
      ServesItselfOnce cfg (run (nodeStep C N cfg) .fresh inputs) := by
  have hfresh : AllOthers cfg .fresh := fun _ _ _ hn => by cases hn
  have ho := run_invariant AllOthers.step hfresh h
  exact ⟨fun t => (ho t).notMem, ho.servesItselfOnce⟩

/-- The acknowledgement of `[2]` files `[2]` and not the node `[0]`. -/
theorem acknowledged_other_stays_out :
    let inputs := [requestOf [2] (.registerAck true .committer [2] "") [.committer]]
    (∀ t, [0] ∉ run (nodeStep keySigning unboundNodes tenOfEach) .fresh inputs t) ∧
      ServesItselfOnce tenOfEach (run (nodeStep keySigning unboundNodes tenOfEach) .fresh inputs) :=
  own_key_stays_out ⟨fun _ _ => ⟨by decide, by decide⟩, trivial⟩

/-- The node's own acknowledgement comes back to it. From then on it sends to itself over the
network what it should deliver to itself. -/
theorem own_acknowledgement_filed :
    let nodes := run (nodeStep keySigning unboundNodes tenOfEach) .fresh
      [requestOf [0] (.registerAck true .committer [0] "") [.committer]]
    let sent := sendToAll tenOfEach
      { oneStaked with selfRoles := [.committer], order := fun _ => [[0]] } [9] nodes .committer
    [0] ∈ nodes .committer ∧ sent.selfCopies = [] ∧ sent.sends.map Prod.fst = [[0]] := by
  decide +kernel

end Pneumatic
