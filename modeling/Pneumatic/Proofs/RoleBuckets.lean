import Pneumatic.Proofs.PoolRepresentation
import Pneumatic.Sentinel.Registering

/-!
# Who is in a role bucket

A key should be in the bucket of a role because a message with a verified
binding put it there, one whose declared types contain the role, and because the
stake gate passed it for that role. `Register` is written so. The other three
ways in each leave a check out: an acknowledgement is filed without the stake
gate and, when it declares nothing, under a type it did not declare; a directory
entry is filed under the type of the response, whatever its own binding
declares, and without the stake gate; the Sentinel's `Register` is filed under
all its types with the stake of one.

Each handler gets one lemma that says which keys it lets in. The exact condition
on a message is then read off, and the statement about runs needs nothing but
that a member of a bucket came in at some message and has been in it since.
-/

namespace Pneumatic

open Handler Run Finmap List

/-- What reaches the buckets. -/
inductive NodeMessage where
  | control (request : NodeRequest)
  | directory (response : NodeRegistryResponse)
  | sentinelRegister (request : NodeRegistryRequest)
  | evict

structure NodeDelivery where
  world : NodeWorld
  message : NodeMessage

variable (C : Codec) (N : NodeCodec) (cfg : NodeConfig)

def nodeStep (nodes : NodeBuckets) (d : NodeDelivery) : NodeBuckets :=
  match d.message with
  | .control request => handleControl C N cfg d.world request nodes
  | .directory response =>
    (handleDirectoryResponse C N cfg d.world response nodes).2
  | .sentinelRegister request =>
    ((handleRegisterRequest C N cfg d.world request).exec nodes).2
  | .evict => evictExpired d.world nodes

def NodeBuckets.fresh : NodeBuckets := fun _ => ∅

/-! ## Proven members -/

def NodeMessage.bindings : NodeMessage → List Binding
  | .control request =>
    match request.requestType with
    | .registerAck _ nodeType responderKey _ =>
      [request.ackBinding nodeType responderKey]
    | _ => [request.binding]
  | .directory response => response.entries.map NodeRegistryEntry.binding
  | .sentinelRegister request => [request.binding]
  | .evict => []

/-- The stake check on this way in. -/
def NodeDelivery.stakeGate (d : NodeDelivery) (key : Bytes) (nodeType : NodeRegistryType) : Prop :=
  match d.message with
  | .sentinelRegister _ =>
    checkStakeForType cfg d.world key nodeType = .ok true
  | _ => d.world.stakeCheck key nodeType = true

section

variable (world : NodeWorld) (nodes : NodeBuckets)

/-- A message proves a key for a type at an address: it carries a binding of the
key over the address that verifies and declares the type, and the stake gate
passes the key for the type. -/
def Proves (d : NodeDelivery) (key : Bytes) (rhash : Rhash) (nodeType : NodeRegistryType) : Prop :=
  (∃ binding ∈ d.message.bindings, binding.key = key ∧ binding.rhash = rhash ∧
    verifyBinding C N binding = true ∧ nodeType ∈ binding.nodeTypes) ∧
  d.stakeGate cfg key nodeType

/-- Every member of every bucket after a run was put there by a message that
proves it, and has been there since. -/
def ProvenMembers (inputs : List NodeDelivery) : Prop :=
  ∀ key nodeType, key ∈ run (nodeStep C N cfg) .fresh inputs nodeType →
    ∃ pre d post node, inputs = pre ++ d :: post ∧
      key ∉ run (nodeStep C N cfg) .fresh pre nodeType ∧
      (run (nodeStep C N cfg) .fresh (pre ++ [d]) nodeType).lookup key = some node ∧
      (∀ r, r <+: post → key ∈ run (nodeStep C N cfg) .fresh (pre ++ d :: r) nodeType) ∧
      Proves C N cfg d key node.rhash nodeType

/-! ## The condition -/

/-- The acknowledgement brings in its responder only under types it declares and
has the stake for. -/
def AckSafe (request : NodeRequest)
    (accepted : Bool) (nodeType : NodeRegistryType) (responderKey : Bytes) : Prop :=
  accepted = true → responderKey ≠ [] →
  verifyBinding C N (request.ackBinding nodeType responderKey) = true →
  ∀ installType ∈ installTypes request nodeType, responderKey ∉ nodes installType →
    (nodes installType).keys.card < cfg.maxNodeNumber installType →
    installType ∈ request.requesterTypes ∧ world.stakeCheck responderKey installType = true

/-- The entries of a directory response that are new to a bucket and find a free
place in it. -/
def newcomers (max : Nat) : Finset Bytes → List NodeRegistryEntry → List NodeRegistryEntry
  | _, [] => []
  | held, entry :: rest =>
    if entry.nodeKey ∈ held ∨ max ≤ held.card then newcomers max held rest
    else entry :: newcomers max (insert entry.nodeKey held) rest

/-- The entries that a directory response brings in declare the type of the
response and have the stake for it. -/
def DirectorySafe (response : NodeRegistryResponse) : Prop :=
  checkDirectoryResponse C N cfg world nodes response = .ok () →
  ∀ entry ∈ newcomers (cfg.maxNodeNumber response.registryType)
      (nodes response.registryType).keys (otherEntries cfg response),
    (∃ listed ∈ response.entries, listed.nodeKey = entry.nodeKey ∧
      listed.nodeRhash = entry.nodeRhash ∧ response.registryType ∈ listed.nodeTypes) ∧
    world.stakeCheck entry.nodeKey response.registryType = true

/-- The checks of the Sentinel's `Register`. -/
def RegisterAdmitted (request : NodeRegistryRequest) : Prop :=
  verifyBinding C N request.binding = true ∧ request.requesterKey ∉ nodes request.requestedType ∧
    checkStakeForType cfg world request.requesterKey request.requestedType = .ok true

/-- A node that the Sentinel's `Register` brings in has the stake for all the
types it is new under. -/
def RegisterSafe (request : NodeRegistryRequest) : Prop :=
  RegisterAdmitted C N cfg world nodes request →
  ∀ nodeType ∈ request.requesterTypes, request.requesterKey ∉ nodes nodeType →
    checkStakeForType cfg world request.requesterKey nodeType = .ok true

/-- The condition on a message in the state it meets. -/
def InsertSafe (d : NodeDelivery) : Prop :=
  match d.message with
  | .control request =>
    match request.requestType with
    | .registerAck accepted nodeType responderKey _ =>
      AckSafe C N cfg d.world nodes request accepted nodeType responderKey
    | _ => True
  | .directory response => DirectorySafe C N cfg d.world nodes response
  | .sentinelRegister request => RegisterSafe C N cfg d.world nodes request
  | .evict => True

end

/-! ## One bucket -/

variable {nodeType : NodeRegistryType} {request : NodeRequest}

section Buckets

variable {world : NodeWorld} {key other : Bytes} {bucket : Nodes}

theorem modify_self (nodes : NodeBuckets) (nodeType : NodeRegistryType) (write : Nodes → Nodes) :
    nodes.modify nodeType write nodeType = write (nodes nodeType) :=
  Function.update_self ..

theorem modify_of_ne (nodes : NodeBuckets) {other : NodeRegistryType}
    (write : Nodes → Nodes) (h : other ≠ nodeType) :
    nodes.modify nodeType write other = nodes other :=
  Function.update_of_ne h ..

/-- Writing to the buckets of a list of types, one after the other, where a
second write changes nothing. -/
theorem foldl_modify {write : NodeRegistryType → Nodes → Nodes}
    (hi : ∀ t bucket, write t (write t bucket) = write t bucket)
    (types : List NodeRegistryType) (nodes : NodeBuckets) (t : NodeRegistryType) :
    types.foldl (fun nodes t => nodes.modify t (write t)) nodes t =
      if t ∈ types then write t (nodes t) else nodes t := by
  induction types generalizing nodes with
  | nil => rfl
  | cons t' types ih =>
    rw [foldl_cons, ih]
    by_cases ht : t = t'
    · subst ht
      rw [modify_self, hi]
      simp
    · rw [modify_of_ne _ _ ht]
      simp [ht]

theorem keys_touch : (touch world key bucket).keys = bucket.keys := by
  unfold touch
  split
  · rfl
  · next node hn =>
    have hmem : key ∈ bucket := mem_of_lookup_eq_some hn
    ext k
    rw [Finmap.mem_keys, Finmap.mem_keys, mem_insert]
    exact ⟨fun h => h.elim (fun h => h ▸ hmem) id, .inr⟩

theorem mem_touch : other ∈ touch world key bucket ↔ other ∈ bucket := by
  rw [← Finmap.mem_keys, keys_touch, Finmap.mem_keys]

/-- A node seen just now is not changed by being seen again. -/
theorem lookup_touch_of_seen {node : NodeRegistryNode}
    (hn : bucket.lookup other = some node) (hs : node.lastSeen = world.now) :
    (touch world key bucket).lookup other = some node := by
  unfold touch
  split
  · exact hn
  · next found hf =>
    by_cases hkey : other = key
    · subst hkey
      obtain rfl := Option.mem_unique hf hn
      rw [lookup_insert, ← hs]
    · rw [lookup_insert_of_ne _ hkey, hn]

theorem registerPeerWithBinding_idem {rhash : Rhash}
    (t : NodeRegistryType) (bucket : Nodes) : registerPeerWithBinding cfg world key rhash request t
        (registerPeerWithBinding cfg world key rhash request t bucket) =
      registerPeerWithBinding cfg world key rhash request t bucket := by
  unfold registerPeerWithBinding
  by_cases h : key ∈ bucket ∨ bucket.keys.card < cfg.maxNodeNumber t
  · rw [if_pos h, if_pos (.inl (mem_insert.mpr (.inl rfl))), insert_insert]
  · rw [if_neg h, if_neg h]

end Buckets

/-! ## What each handler lets in -/

variable {responderKey : Bytes}

section Handlers

variable {C N cfg} {world : NodeWorld} {nodes : NodeBuckets} {key : Bytes}
  {t : NodeRegistryType} {node : NodeRegistryNode}

theorem mem_refresh_foldl {requester : Bytes} (types : List NodeRegistryType)
    (nodes : NodeBuckets) :
    key ∈ types.foldl (refreshLastSeen world requester) nodes t ↔ key ∈ nodes t := by
  induction types generalizing nodes with
  | nil => rfl
  | cons t' types ih =>
    rw [foldl_cons, ih, refreshLastSeen]
    by_cases ht : t = t'
    · subst ht
      rw [modify_self, mem_touch]
    · rw [modify_of_ne _ _ ht]

/-- The entry that a registration gets. -/
structure Filed (world : NodeWorld) (request : NodeRequest) (key : Bytes)
    (t : NodeRegistryType) (node : NodeRegistryNode) : Prop where
  requester : key = request.requesterKey
  rhash : node.rhash = request.requesterRhash
  declared : t ∈ request.requesterTypes
  staked : world.stakeCheck key t = true

theorem admitNodeUnderType_lookup (hd : nodeType ∈ request.requesterTypes)
    (h : ((admitNodeUnderType cfg world request nodeType nodes).1 t).lookup key = some node) :
    (nodes t).lookup key = some node ∨ Filed world request key t node := by
  unfold admitNodeUnderType at h
  split at h
  · exact .inl h
  split at h
  · exact .inl h
  split at h
  · exact .inl h
  · next hs _ =>
    dsimp only at h
    by_cases ht : t = nodeType
    · subst ht
      rw [modify_self] at h
      rcases lookup_insert_cases h with ⟨rfl, rfl⟩ | hold
      · exact .inr ⟨rfl, rfl, hd, by simpa using hs⟩
      · exact .inl hold
    · rw [modify_of_ne _ _ ht] at h
      exact .inl h

theorem admitStep_nodes (request : NodeRequest) (admission : Admission)
    (nodeType : NodeRegistryType) :
    (admitStep cfg world request admission nodeType).nodes = admission.nodes ∨
    (admitStep cfg world request admission nodeType).nodes =
      (admitNodeUnderType cfg world request nodeType admission.nodes).1 := by
  unfold admitStep
  split
  · exact .inl rfl
  · right
    split <;> next hv => rw [hv]

theorem admit_foldl_lookup (types : List NodeRegistryType)
    (hd : ∀ t ∈ types, t ∈ request.requesterTypes) {admission : Admission}
    (h : ((types.foldl (admitStep cfg world request) admission).nodes t).lookup key = some node) :
    (admission.nodes t).lookup key = some node ∨ Filed world request key t node := by
  induction types generalizing admission with
  | nil => exact .inl h
  | cons t' types ih =>
    have hr := fun t ht => hd t (mem_cons_of_mem t' ht)
    rcases ih hr h with hb | hf
    · rcases admitStep_nodes request admission t' with hn | hn
      · exact .inl (hn ▸ hb)
      · rw [hn] at hb
        exact admitNodeUnderType_lookup (hd t' mem_cons_self) hb
    · exact .inr hf

/-- A registration that is not accepted gets no entry. -/
theorem admit_foldl_refused (types : List NodeRegistryType) {admission : Admission}
    (h : (types.foldl (admitStep cfg world request) admission).accepted = false) :
    (types.foldl (admitStep cfg world request) admission).nodes = admission.nodes ∧
      admission.accepted = false := by
  induction types generalizing admission with
  | nil => exact ⟨rfl, h⟩
  | cons t types ih =>
    obtain ⟨hn, ha⟩ := ih h
    rw [foldl_cons, hn]
    unfold admitStep admitNodeUnderType at ha ⊢
    grind

theorem mem_of_mem_select (h : t ∈ selectRegistrationNodeTypes cfg nodes request) :
    t ∈ request.requesterTypes := by
  have := (mem_filter.mp h).2
  simp only [Bool.and_eq_true, contains_iff_mem] at this
  exact this.1

theorem handleRegister_filed (ha : key ∉ nodes t)
    (h : ((handleRegister C N cfg world request nodes).1 t).lookup key = some node) :
    verifyBinding C N request.binding = true ∧ Filed world request key t node := by
  unfold handleRegister at h
  split at h
  · exact absurd (mem_of_lookup_eq_some h) ha
  · next hb =>
    refine ⟨by simpa using hb, ?_⟩
    rcases admit_foldl_lookup _ (fun _ => mem_of_mem_select) h with hbf | hf
    · have hmem := mem_of_lookup_eq_some hbf
      exact absurd ((mem_refresh_foldl _ nodes).mp hmem) ha
    · exact hf

theorem handleRegisterAck_lookup_iff {accepted : Bool} (ha : key ∉ nodes t) :
    (handleRegisterAck C N cfg world request accepted nodeType responderKey nodes
        t).lookup key = some node ↔ accepted = true ∧ responderKey ≠ [] ∧
      verifyBinding C N (request.ackBinding nodeType responderKey) = true ∧
      t ∈ installTypes request nodeType ∧
      (nodes t).keys.card < cfg.maxNodeNumber t ∧ key = responderKey ∧
      node = .withBinding world request.requesterRhash request := by
  have hn : (nodes t).lookup key = none := lookup_eq_none.mpr ha
  by_cases hg : accepted = true ∧ responderKey ≠ [] ∧
      verifyBinding C N (request.ackBinding nodeType responderKey) = true
  · obtain ⟨rfl, hkey, hb⟩ := hg
    unfold handleRegisterAck
    rw [if_neg (by simp), if_neg (by simpa using hkey), if_neg (by simp [hb]),
      foldl_modify (registerPeerWithBinding_idem cfg) _ nodes t]
    by_cases ht : t ∈ installTypes request nodeType
    · rw [if_pos ht, registerPeerWithBinding]
      by_cases hs : key = responderKey
      · subst hs
        by_cases hr : (nodes t).keys.card < cfg.maxNodeNumber t
        · simp [hkey, hb, ht, hr, eq_comm]
        · rw [if_neg (by simp [ha, hr]), hn]
          simp [hr]
      · have : (if responderKey ∈ nodes t ∨
              (nodes t).keys.card < cfg.maxNodeNumber t then
            (nodes t).insert responderKey
              (.withBinding world request.requesterRhash request)
            else nodes t).lookup key = none := by
          split
          · rw [lookup_insert_of_ne _ hs, hn]
          · exact hn
        rw [this]
        simp [hs]
    · rw [if_neg ht, hn]
      simp [ht]
  · have hs : handleRegisterAck C N cfg world request accepted nodeType
        responderKey nodes = nodes := by
      unfold handleRegisterAck
      split
      · rfl
      split
      · rfl
      split
      · rfl
      · next hac he hb =>
        refine absurd ⟨by simpa using hac, ?_, by simpa using hb⟩ hg
        simpa using he
    rw [hs, hn]
    refine iff_of_false (by simp) fun h => hg ⟨h.1, h.2.1, h.2.2.1⟩

variable {entries : List NodeRegistryEntry}

theorem not_mem_of_mem_newcomers {max : Nat} {held : Finset Bytes} {entry : NodeRegistryEntry}
    (h : entry ∈ newcomers max held entries) : entry.nodeKey ∉ held := by
  induction entries generalizing held with
  | nil => cases h
  | cons first entries ih =>
    rw [newcomers] at h
    split at h
    · exact ih h
    · next hnew =>
      rcases mem_cons.mp h with rfl | h
      · exact fun hmem => hnew (.inl hmem)
      · exact fun hmem => ih h (Finset.mem_insert_of_mem hmem)

/-- A node that was just put in stays as it is while the rest of the response is
applied. -/
theorem directory_foldl_of_seen {bucket : Nodes}
    (hn : bucket.lookup key = some node) (hs : node.lastSeen = world.now) :
    (entries.foldl (registerDirectoryPeer cfg world t) bucket).lookup key = some node := by
  induction entries generalizing bucket with
  | nil => exact hn
  | cons entry entries ih =>
    apply ih
    unfold registerDirectoryPeer
    split
    · exact lookup_touch_of_seen hn hs
    · next hnew =>
      have hne : key ≠ entry.nodeKey := fun heq =>
        hnew (heq ▸ mem_of_lookup_eq_some hn)
      split
      · rw [lookup_insert_of_ne _ hne, hn]
      · exact hn

theorem directory_foldl_lookup_iff {bucket : Nodes} (ha : key ∉ bucket) :
    (entries.foldl (registerDirectoryPeer cfg world t) bucket).lookup key = some node ↔
      ∃ entry ∈ newcomers (cfg.maxNodeNumber t) bucket.keys entries,
        entry.nodeKey = key ∧ node = .new world entry.nodeRhash := by
  induction entries generalizing bucket with
  | nil => simp [newcomers, lookup_eq_none.mpr ha]
  | cons first entries ih =>
    rw [foldl_cons, newcomers, registerDirectoryPeer]
    by_cases hh : first.nodeKey ∈ bucket
    · rw [if_pos hh, if_pos (.inl (Finmap.mem_keys.mpr hh)),
        ih (fun h => ha (mem_touch.mp h)), keys_touch]
    · rw [if_neg hh]
      by_cases hr : bucket.keys.card < cfg.maxNodeNumber t
      · have hnew : ¬ (first.nodeKey ∈ bucket.keys ∨ cfg.maxNodeNumber t ≤ bucket.keys.card) := by
          exact fun h => h.elim hh (Nat.not_le.mpr hr)
        rw [if_pos hr, if_neg hnew]
        have hk : (bucket.insert first.nodeKey (.new world first.nodeRhash)).keys =
            insert first.nodeKey bucket.keys := by
          ext k
          simp [Finmap.mem_keys]
        by_cases hkey : key = first.nodeKey
        · -- the entry that lets the key in; no later one has the same key
          subst hkey
          rw [directory_foldl_of_seen (lookup_insert _) rfl]
          constructor
          · rintro ⟨rfl⟩
            exact ⟨first, mem_cons_self, rfl, rfl⟩
          · rintro ⟨entry, he, hkey, rfl⟩
            rcases mem_cons.mp he with rfl | hl
            · rfl
            · refine absurd ?_ (not_mem_of_mem_newcomers hl)
              rw [hkey]
              exact Finset.mem_insert_self _ _
        · have hs : key ∉ bucket.insert first.nodeKey (.new world first.nodeRhash) := by
            rw [mem_insert]
            exact fun h => h.elim hkey ha
          rw [ih hs, hk]
          constructor
          · rintro ⟨entry, he, h⟩
            exact ⟨entry, mem_cons_of_mem _ he, h⟩
          · rintro ⟨entry, he, rfl, h⟩
            rcases mem_cons.mp he with rfl | hl
            · exact absurd rfl hkey
            · exact ⟨entry, hl, rfl, h⟩
      · rw [if_neg hr, if_pos (.inr (Nat.not_lt.mp hr)), ih ha]

theorem handleHeartbeat_mem :
    key ∈ handleHeartbeat C N cfg world request nodes t ↔ key ∈ nodes t := by
  unfold handleHeartbeat
  split
  · rfl
  · cases findNodeTypeByPublicKey cfg world nodes request.requesterKey with
    | none => rfl
    | some nodeType => exact mem_refresh_foldl [nodeType] nodes

theorem lookup_foldl_erase (keys : List Bytes) (bucket : Nodes) :
    (keys.foldl (fun bucket key => bucket.erase key) bucket).lookup key =
      if key ∈ keys then none else bucket.lookup key := by
  induction keys generalizing bucket with
  | nil => rfl
  | cons k keys ih =>
    rw [foldl_cons, ih]
    by_cases hk : key = k
    · subst hk
      simp
    · simp [hk, lookup_erase_ne hk]

theorem evictExpired_mem (h : key ∈ evictExpired world nodes t) : key ∈ nodes t := by
  obtain ⟨node, hn⟩ := mem_iff.mp h
  rw [evictExpired, lookup_foldl_erase] at hn
  split at hn
  · cases hn
  · exact mem_of_lookup_eq_some hn

theorem handleRegisterRequest_state {request : NodeRegistryRequest} :
    (RegisterAdmitted C N cfg world nodes request →
      ((handleRegisterRequest C N cfg world request).exec nodes).2 t =
        if t ∈ request.requesterTypes then
          (nodes t).insert request.requesterKey (.new world request.rhash)
        else nodes t) ∧
    (¬ RegisterAdmitted C N cfg world nodes request →
      ((handleRegisterRequest C N cfg world request).exec nodes).2 = nodes) := by
  constructor
  · rintro ⟨hb, ha, hs⟩
    refine (keeps_iff (P := fun after : NodeBuckets => after t = _)).mp ?_
    simp only [Keeps, handleRegisterRequest, ends_bind, ends_require, ends_getState,
      ends_lift, ends_update, hb, ha, hs, Except.ok.injEq]
    refine ⟨fun _ => ⟨fun _ => ⟨?_, ?_⟩, ?_⟩, ?_⟩
    · rintro s rfl
      refine ⟨fun _ => ?_, fun h => absurd rfl h⟩
      exact foldl_modify (fun _ bucket => insert_insert bucket) request.requesterTypes nodes t
    · intro e h
      cases h
    · exact fun h => absurd not_false h
    · exact fun h => absurd trivial h
  · intro hr
    refine (keeps_iff (P := fun after : NodeBuckets => after = nodes)).mp ?_
    simp only [Keeps, handleRegisterRequest, ends_bind, ends_require, ends_getState,
      ends_lift, ends_update, implies_true, and_true]
    intro hb ha s hs ht
    exact absurd ⟨hb, ha, ht ▸ hs⟩ hr

end Handlers

/-! ## One message -/

/-- Whoever a message brings in is proven by it. -/
def ProvesEntrants (nodes : NodeBuckets) (d : NodeDelivery) : Prop :=
  ∀ key t node, key ∉ nodes t → (nodeStep C N cfg nodes d t).lookup key = some node →
    Proves C N cfg d key node.rhash t

section Messages

variable {C N cfg} {nodes : NodeBuckets} {world : NodeWorld}

theorem provesEntrants_of_mem {d : NodeDelivery}
    (h : ∀ key t, key ∈ nodeStep C N cfg nodes d t → key ∈ nodes t) :
    ProvesEntrants C N cfg nodes d :=
  fun key t _ ha hl =>
    absurd (h key t (mem_of_lookup_eq_some hl)) ha

theorem provesEntrants_register (ht : request.requestType = .register) :
    ProvesEntrants C N cfg nodes ⟨world, .control request⟩ := by
  intro key t node ha hl
  simp only [nodeStep, handleControl, ht] at hl
  obtain ⟨hb, hf⟩ := handleRegister_filed ha hl
  refine ⟨⟨request.binding, ?_, hf.requester.symm, hf.rhash.symm, hb, hf.declared⟩, hf.staked⟩
  simp [NodeMessage.bindings, ht]

theorem provesEntrants_ack_iff {accepted : Bool} {reason : String}
    (hty : request.requestType = .registerAck accepted nodeType responderKey reason) :
    ProvesEntrants C N cfg nodes ⟨world, .control request⟩ ↔
      AckSafe C N cfg world nodes request accepted nodeType responderKey := by
  have hst : nodeStep C N cfg nodes ⟨world, .control request⟩ =
      handleRegisterAck C N cfg world request accepted nodeType responderKey nodes := by
    simp only [nodeStep, handleControl, hty]
  have hbn : (NodeMessage.control request).bindings =
      [request.ackBinding nodeType responderKey] := by
    simp only [NodeMessage.bindings, hty]
  constructor
  · intro hp hac hkey hb t ht ha hr
    have hl : (nodeStep C N cfg nodes ⟨world, .control request⟩ t).lookup
        responderKey = some (.withBinding world request.requesterRhash request) := by
      rw [hst]
      exact (handleRegisterAck_lookup_iff ha).mpr ⟨hac, hkey, hb, ht, hr, rfl, rfl⟩
    obtain ⟨⟨b, hmem, -, -, -, hd⟩, hs⟩ :=
      hp responderKey t _ ha hl
    rw [hbn, List.mem_singleton] at hmem
    subst hmem
    exact ⟨hd, hs⟩
  · intro hsf key t node ha hl
    rw [hst] at hl
    obtain ⟨hac, hkey, hb, ht, hr, rfl, rfl⟩ :=
      (handleRegisterAck_lookup_iff ha).mp hl
    obtain ⟨hd, hs⟩ :=
      hsf hac hkey hb t ht ha hr
    refine ⟨⟨_, ?_, rfl, rfl, hb, hd⟩, hs⟩
    rw [hbn]
    exact mem_singleton_self _

theorem provesEntrants_directory_iff {response : NodeRegistryResponse} :
    ProvesEntrants C N cfg nodes ⟨world, .directory response⟩ ↔
      DirectorySafe C N cfg world nodes response := by
  cases hc : checkDirectoryResponse C N cfg world nodes response with
  | error e =>
    refine iff_of_true (provesEntrants_of_mem fun key t h => ?_) fun hok => ?_
    · simpa only [nodeStep, handleDirectoryResponse, hc] using h
    · rw [hc] at hok
      cases hok
  | ok =>
    -- every entry of a response that passes the checks has a valid binding
    have hb : ∀ entry ∈ response.entries, verifyBinding C N entry.binding = true := by
      unfold checkDirectoryResponse at hc
      split at hc
      · cases hc
      split at hc
      · cases hc
      split at hc
      · cases hc
      · next hall => simpa using hall
    have hst : nodeStep C N cfg nodes ⟨world, .directory response⟩ =
        nodes.modify response.registryType fun bucket =>
          (otherEntries cfg response).foldl
            (registerDirectoryPeer cfg world response.registryType) bucket := by
      simp only [nodeStep, handleDirectoryResponse, hc]
    constructor
    · intro hp _ entry he
      have ha : entry.nodeKey ∉ nodes response.registryType := fun h =>
        not_mem_of_mem_newcomers he (Finmap.mem_keys.mpr h)
      have hl : (nodeStep C N cfg nodes ⟨world, .directory response⟩
          response.registryType).lookup entry.nodeKey = some (.new world entry.nodeRhash) := by
        rw [hst, modify_self]
        exact (directory_foldl_lookup_iff ha).mpr ⟨entry, he, rfl, rfl⟩
      obtain ⟨⟨b, hmem, hkey, hr, -, hd⟩, hs⟩ :=
        hp entry.nodeKey _ _ ha hl
      obtain ⟨l, hls, rfl⟩ := mem_map.mp hmem
      exact ⟨⟨l, hls, hkey, hr, hd⟩, hs⟩
    · intro hsf key t node ha hl
      rw [hst] at hl
      by_cases ht : t = response.registryType
      · subst ht
        rw [modify_self] at hl
        obtain ⟨entry, he, rfl, rfl⟩ :=
          (directory_foldl_lookup_iff ha).mp hl
        obtain ⟨⟨l, hls, hkey, hr, hd⟩, hs⟩ :=
          hsf hc entry he
        exact ⟨⟨l.binding, mem_map_of_mem hls, hkey, hr, hb l hls, hd⟩, hs⟩
      · rw [modify_of_ne _ _ ht] at hl
        exact absurd (mem_of_lookup_eq_some hl) ha

theorem provesEntrants_sentinelRegister_iff {request : NodeRegistryRequest} :
    ProvesEntrants C N cfg nodes ⟨world, .sentinelRegister request⟩ ↔
      RegisterSafe C N cfg world nodes request := by
  by_cases ha : RegisterAdmitted C N cfg world nodes request
  · have hs : ∀ t, nodeStep C N cfg nodes ⟨world, .sentinelRegister request⟩ t =
        if t ∈ request.requesterTypes then
          (nodes t).insert request.requesterKey (.new world request.rhash)
        else nodes t :=
      fun t => handleRegisterRequest_state.1 ha
    constructor
    · intro hp _ t ht hab
      have hl : (nodeStep C N cfg nodes ⟨world, .sentinelRegister request⟩
          t).lookup request.requesterKey = some (.new world request.rhash) := by
        rw [hs, if_pos ht, lookup_insert]
      exact (hp _ t _ hab hl).2
    · intro hsf key t node hab hl
      rw [hs] at hl
      split at hl
      · next ht =>
        rcases lookup_insert_cases hl with ⟨rfl, rfl⟩ | hold
        · exact ⟨⟨request.binding, mem_singleton_self _, rfl, rfl, ha.1, ht⟩, hsf ha t ht hab⟩
        · exact absurd (mem_of_lookup_eq_some hold) hab
      · exact absurd (mem_of_lookup_eq_some hl) hab
  · refine iff_of_true (provesEntrants_of_mem fun key t h => ?_) fun h => absurd h ha
    have hs : nodeStep C N cfg nodes ⟨world, .sentinelRegister request⟩ = nodes :=
      (handleRegisterRequest_state (t := t)).2 ha
    rwa [hs] at h

/-- A message proves whom it brings in exactly when it meets the condition. -/
theorem provesEntrants_iff (nodes : NodeBuckets) (d : NodeDelivery) :
    ProvesEntrants C N cfg nodes d ↔ InsertSafe C N cfg nodes d := by
  obtain ⟨world, m⟩ := d
  cases m with
  | control request =>
    cases ht : request.requestType with
    | register =>
      simp only [InsertSafe, ht, iff_true]
      exact provesEntrants_register ht
    | request =>
      simp only [InsertSafe, ht, iff_true]
      refine provesEntrants_of_mem fun key t h => ?_
      simpa only [nodeStep, handleControl, ht] using h
    | heartbeat =>
      simp only [InsertSafe, ht, iff_true]
      refine provesEntrants_of_mem fun key t h => ?_
      simp only [nodeStep, handleControl, ht] at h
      exact handleHeartbeat_mem.mp h
    | registerAck a nodeType responderKey rs =>
      simp only [InsertSafe, ht]
      exact provesEntrants_ack_iff ht
  | directory r => exact provesEntrants_directory_iff
  | sentinelRegister request => exact provesEntrants_sentinelRegister_iff
  | evict =>
    exact iff_of_true (provesEntrants_of_mem fun _ _ => evictExpired_mem) trivial

end Messages

/-! ## Runs -/

variable {C N cfg}

/-- The buckets hold only proven members all along a run exactly when every
message of it meets the condition. -/
theorem provenMembers_iff (inputs : List NodeDelivery) :
    (∀ taken, taken <+: inputs → ProvenMembers C N cfg taken) ↔
      Meets (nodeStep C N cfg) (InsertSafe C N cfg) .fresh inputs := by
  rw [meets_iff_forall]
  constructor
  · intro hpr pre d post hs
    refine (provesEntrants_iff _ d).mp fun key t node ha hl => ?_
    have ht : pre ++ [d] <+: inputs := ⟨post, by rw [hs]; simp⟩
    have haf : (run (nodeStep C N cfg) .fresh (pre ++ [d]) t).lookup key = some node := by
      rw [run_append]
      exact hl
    obtain ⟨pre', d', post', node', hs', -, hn', hsn, hpv⟩ :=
      hpr _ ht key t (mem_of_lookup_eq_some haf)
    -- the key was not there before the last message, so that one let it in
    cases hp : post' using reverseRecOn with
    | nil =>
      subst hp
      obtain ⟨rfl, hd⟩ := append_inj' hs' rfl
      obtain rfl := singleton_inj.mp hd
      obtain rfl := Option.mem_unique haf hn'
      exact hpv
    | append_singleton rest last _ =>
      subst hp
      have hr := hsn rest (prefix_append _ _)
      rw [← cons_append, ← append_assoc] at hs'
      obtain ⟨rfl, -⟩ := append_inj' hs' rfl
      exact absurd hr ha
  · rintro hsf taken ⟨later, rfl⟩ key t hmem
    obtain ⟨pre, d, post, rfl, ha, hsn⟩ := exists_last_entry
      (P := fun nodes : NodeBuckets => key ∈ nodes t)
      (notMem_empty) hmem
    have he := hsn [] nil_prefix
    obtain ⟨node, hn⟩ := mem_iff.mp he
    have hst := hsf pre d (post ++ later) (by simp)
    have hl : (nodeStep C N cfg (run (nodeStep C N cfg) .fresh pre) d
        t).lookup key = some node := by
      rw [run_append] at hn
      exact hn
    exact ⟨pre, d, post, node, rfl, ha, hn, hsn, (provesEntrants_iff _ d).mpr hst key t node ha hl⟩

/-! ## Three unproven members -/

theorem ProvenMembers.exists_proof {inputs : List NodeDelivery}
    (h : ProvenMembers C N cfg inputs) {key : Bytes} {t : NodeRegistryType}
    (hmem : key ∈ run (nodeStep C N cfg) .fresh inputs t) :
    ∃ d ∈ inputs, ∃ rhash, Proves C N cfg d key rhash t := by
  obtain ⟨pre, d, post, node, rfl, -, -, -, hp⟩ := h key t hmem
  exact ⟨d, by simp, node.rhash, hp⟩

/-- A codec in which the signature of a key is the key. -/
def keySigning : Codec :=
  { ShieldedPool.sampleCodec with
    checkSignature := fun signature key _ => some (signature == key) }

def unboundNodes : NodeCodec where
  rmpBinding _ _ _ := []
  rmpDirectory _ _ _ := []

def tenOfEach : NodeConfig where
  publicKey := [0]
  rhash := default
  directoryObserver := false
  maxNodeNumber _ := 10
  globalMinStake := 10
  minTypeStake
    | .finalizer => 100
    | _ => 10

/-- The key `[2]` is staked for every type, `[1]` for none; as a user of the
data service `[1]` has the stake of an archiver. -/
def oneStaked : NodeWorld where
  now := 0
  stakeCheck key _ := key == [2]
  hasRoute _ := false
  selfRoles := []
  declaredRoles := []
  getUser _ := some 10
  order _ := []

def requestOf (key : Bytes) (requestType : NodeRequestType)
    (types : List NodeRegistryType) : NodeDelivery where
  world := oneStaked
  message := .control
    { requesterKey := key
      requesterRhash := ⟨List.replicate 16 7, rfl⟩
      requestType := requestType
      requesterTypes := types
      requestedType := .archiver
      bindingSignature := key }

/-- A response of `[2]` for the Finalizers that lists an archiver. -/
def archiverAsFinalizer : NodeDelivery where
  world := { oneStaked with stakeCheck := fun _ _ => true }
  message := .directory
    { responderKey := [2]
      responderRhash := ⟨List.replicate 16 7, rfl⟩
      registryType := .finalizer
      entries :=
        [{ nodeKey := [1]
           nodeRhash := ⟨List.replicate 16 9, rfl⟩
           signature := [1]
           requestedType := .archiver
           nodeTypes := [.archiver] }]
      signature := [2] }

/-- A request to the Sentinel for the archivers that declares a Finalizer. -/
def finalizerForArchiver : NodeDelivery where
  world := oneStaked
  message := .sentinelRegister
    { requesterKey := [1]
      rhash := ⟨List.replicate 16 9, rfl⟩
      requesterTypes := [.archiver, .finalizer]
      requestedType := .archiver
      bindingSignature := [1] }

/-- An acknowledgement nobody asked for, a directory entry under a type it does
not declare, and a registration with the stake of another type each put `[1]`
among the Finalizers. -/
theorem unproven_finalizers : ¬ ProvenMembers keySigning unboundNodes tenOfEach
        [requestOf [1] (.registerAck true .archiver [1] "") [.finalizer]] ∧
    ¬ ProvenMembers keySigning unboundNodes tenOfEach
        [requestOf [2] .register [.committer], archiverAsFinalizer] ∧
    ¬ ProvenMembers keySigning unboundNodes tenOfEach [finalizerForArchiver] := by
  refine ⟨fun h => ?_, fun h => ?_, fun h => ?_⟩
  · have hmem : [1] ∈ run (nodeStep keySigning unboundNodes tenOfEach) .fresh
        [requestOf [1] (.registerAck true .archiver [1] "") [.finalizer]] .finalizer := by
      decide +kernel
    obtain ⟨d, hd, rhash, -, hs⟩ := h.exists_proof hmem
    rw [List.mem_singleton] at hd
    subst hd
    have hg : oneStaked.stakeCheck [1] .finalizer = true := hs
    exact absurd hg (by decide)
  · have hmem : [1] ∈ run (nodeStep keySigning unboundNodes tenOfEach) .fresh
        [requestOf [2] .register [.committer], archiverAsFinalizer] .finalizer := by
      decide +kernel
    obtain ⟨d, hd, rhash, ⟨b, hb, hkey, -, -, hdc⟩, -⟩ :=
      h.exists_proof hmem
    rcases mem_cons.mp hd with rfl | hd
    · obtain rfl := mem_singleton.mp hb
      exact absurd hkey (by decide)
    · obtain rfl := mem_singleton.mp hd
      obtain rfl := mem_singleton.mp hb
      exact absurd hdc (by decide)
  · have hmem : [1] ∈ run (nodeStep keySigning unboundNodes tenOfEach) .fresh
        [finalizerForArchiver] .finalizer := by
      decide +kernel
    obtain ⟨d, hd, rhash, -, hs⟩ := h.exists_proof hmem
    rw [List.mem_singleton] at hd
    subst hd
    have hg : meetsMinimumStake 10 10 100 = true := Except.ok.inj hs
    exact absurd hg (by decide)

end Pneumatic
