import Pneumatic.NodeServer.EpochCoord
import Pneumatic.Proofs.CommitterEffects
import Pneumatic.Proofs.FinalizerAuthority

/-!
# The epochs of a composite host

What every part of a host counts, along any run of ticks and advances. The number
a tick hands out is the one the host was built with, so the stake index, the role
selector and the Sentinel stay in the first epoch for good; the Finalizer counts
the ticks that found that epoch over, and the Committer its advances.

So the parts agree only as long as the coordinator has nothing to do: a tick after
an advance finds three of them behind, and a tick after the first epoch's end that
no advance precedes puts the Finalizer ahead.
-/

namespace Pneumatic

open Handler HandlerM Run List ShieldedPool RoleHost

/-- The Committer's epoch: its detector is the authority for it. -/
def RoleHost.committerEpoch : RoleHost → Option Nat
  | .committer leader =>
    leader.detector.map fun detector => detector.currentEpoch.epochNumber
  | _ => none

/-- The epoch of a role that follows the Committer. -/
def RoleHost.followedEpoch : RoleHost → Option Nat
  | .sentinel state => some state.currentEpoch
  | .finalizer config => some config.currentEpoch
  | _ => none

def NodeServer.committerEpochs (server : NodeServer) : List Nat :=
  server.hosts.filterMap RoleHost.committerEpoch

/-- The epochs of the stake index, the role selector, the Sentinel and the
Finalizer. -/
def NodeServer.followedEpochs (server : NodeServer) : List Nat :=
  server.stakeIndex.epoch :: server.roleSelector.epoch ::
    server.hosts.filterMap RoleHost.followedEpoch

/-- What a plugin counts after so many advances, and so many ticks that found
the first epoch over. -/
def RoleHost.Counts (advances expired : Nat) : RoleHost → Prop
  | .committer leader => ∃ detector, leader.detector = some detector ∧
      detector.currentEpoch.epochNumber = 1 + advances ∧
      leader.epochNumber ≤ 1 + advances
  | .executor => True
  | .sentinel state => state.currentEpoch = 1
  | .finalizer config => config.currentEpoch = 1 + expired

/-- What a host counts. Nothing of a host but its numbers changes. -/
structure NodeServer.Counts (detector : EpochBoundaryDetector)
    (installed : List NodeRegistryType) (advances expired : Nat)
    (server : NodeServer) : Prop where
  boundary : server.epochBoundaryDetector = detector
  first : detector.currentEpoch.epochNumber = 1
  index : server.stakeIndex.epoch = 1
  selector : server.roleSelector.epoch = 1
  installed : server.hosts.map RoleHost.role = installed
  hosts : ∀ host ∈ server.hosts, host.Counts advances expired

/-- Does the coordinator act on an event? -/
def EpochEvent.isExpired (detector : EpochBoundaryDetector) : EpochEvent → Bool
  | .tick now _ => detector.isEpochExpired now
  | .advance _ => false

def EpochEvent.isAdvance : EpochEvent → Bool
  | .tick _ _ => false
  | .advance _ => true

variable {C : Codec} {setup : LeaderSetup} {cfg : NodeConfig}

namespace RoleHost

variable {host : RoleHost} {advances expired : Nat}

theorem role_advanceEpoch (epoch : Nat) (host : RoleHost) :
    (host.advanceEpoch epoch).role = host.role := by
  cases host <;> rfl

theorem role_selfAdvance (world : TurnWorld) (host : RoleHost) :
    (host.selfAdvance C setup world).role = host.role := by
  cases host <;> rfl

theorem Counts.advanceEpoch (h : host.Counts advances expired) :
    (host.advanceEpoch 1).Counts advances (expired + 1) := by
  cases host with
  | committer l => exact h
  | executor => trivial
  | sentinel state =>
    have hs : Pneumatic.advanceEpoch 1 state = state := if_pos (Nat.le_of_eq h.symm)
    show (Pneumatic.advanceEpoch 1 state).currentEpoch = 1
    rw [hs]
    exact h
  | finalizer c =>
    have hc : c.currentEpoch = 1 + expired := h
    show c.currentEpoch + 1 = 1 + (expired + 1)
    omega

/-- The counter never keeps the Committer from advancing, and a snapshot that is
not saved does not either. -/
theorem Counts.selfAdvance (world : TurnWorld) (h : host.Counts advances expired) :
    (host.selfAdvance C setup world).Counts (advances + 1) expired := by
  cases host with
  | executor => trivial
  | sentinel state => exact h
  | finalizer c => exact h
  | committer l =>
    obtain ⟨detector, hd, hnm, hc⟩ := h
    have hn : ¬ detector.currentEpoch.epochNumber + 1 ≤ l.epochNumber := by
      omega
    refine keeps_iff (P := fun led => RoleHost.Counts _ expired (.committer led)).mp ?_
    simp only [Keeps, advanceEpochTo, ends_bind, ends_getState, ends_ofOption,
      hd, Option.some.injEq, forall_eq', hn, if_false, ends_update,
      ends_require, ends_pure, reduceCtorEq, false_imp_iff, and_true]
    have hled : RoleHost.Counts (advances + 1) expired (.committer { l with
        detector := some (detector.advanceToNewEpoch setup l.base.stakes
          (canonicalChainTip C l.base.tokens))
        epochNumber := detector.currentEpoch.epochNumber + 1 }) := by
      refine ⟨_, rfl, ?_, ?_⟩
      · show detector.currentEpoch.epochNumber + 1 = 1 + (advances + 1)
        omega
      · show detector.currentEpoch.epochNumber + 1 ≤ 1 + (advances + 1)
        omega
    exact ⟨fun _ => ⟨fun _ => hled, fun _ => hled⟩, fun _ => hled⟩

end RoleHost

namespace NodeServer

variable {server : NodeServer} {detector : EpochBoundaryDetector}
  {installed : List NodeRegistryType} {advances expired : Nat}

variable (C setup cfg)

section

variable (h : server.Counts detector installed advances expired)

include h

theorem Counts.tick {now : Int} {world : TickWorld} :
    (epochStep C setup cfg server (.tick now world)).Counts detector installed
      advances (expired + (detector.isEpochExpired now).toNat) := by
  have he : server.currentEpoch = 1 := by
    rw [currentEpoch, h.boundary]
    exact h.first
  show (server.pollAndAdvance cfg world now).2.Counts _ _ _ _
  rw [← h.boundary]
  cases hex : server.epochBoundaryDetector.isEpochExpired now with
  | true =>
    rw [pollAndAdvance, if_neg (ne_of_eq_of_ne hex Bool.noConfusion), he]
    refine ⟨rfl, ?_, StakeIndex.setEpoch_epoch _ _ _, h.selector, ?_, ?_⟩
    · exact he
    · show (server.hosts.map (RoleHost.advanceEpoch 1)).map role = installed
      rw [map_map, ← h.installed]
      exact map_congr_left fun host _ => host.role_advanceEpoch 1
    · intro host hh
      obtain ⟨b, hb, rfl⟩ := mem_map.mp hh
      exact (h.hosts b hb).advanceEpoch
  | false =>
    rw [NodeServer.pollAndAdvance, if_pos hex]
    exact ⟨rfl, he, h.index, h.selector, h.installed, h.hosts⟩

theorem Counts.advance {world : TurnWorld} :
    (epochStep C setup cfg server (.advance world)).Counts detector installed
      (advances + 1) expired := by
  refine ⟨h.boundary, h.first, h.index, h.selector, ?_, ?_⟩
  · show (server.hosts.map (selfAdvance C setup world)).map role = installed
    rw [map_map, ← h.installed]
    exact map_congr_left fun host _ => host.role_selfAdvance world
  · intro host hh
    have hmem : host ∈ server.hosts.map (selfAdvance C setup world) := hh
    obtain ⟨b, hb, rfl⟩ := mem_map.mp hmem
    exact (h.hosts b hb).selfAdvance world

theorem Counts.step (event : EpochEvent) :
    (epochStep C setup cfg server event).Counts detector installed
      (advances + event.isAdvance.toNat) (expired + (event.isExpired detector).toNat) := by
  cases event with
  | tick now world => exact h.tick C setup cfg
  | advance world => exact h.advance C setup cfg

theorem Counts.run (events : List EpochEvent) :
    (run (epochStep C setup cfg) server events).Counts detector installed
      (advances + events.countP EpochEvent.isAdvance)
      (expired + events.countP (EpochEvent.isExpired detector)) := by
  induction events generalizing server advances expired with
  | nil => exact h
  | cons event events ih =>
    have hc : ∀ (p : EpochEvent → Bool) (n : Nat),
        n + (event :: events).countP p = n + (p event).toNat + events.countP p := by
      intro p n
      rw [countP_cons]
      cases p event
      · simp
      · simp
        omega
    rw [hc, hc]
    exact ih (h.step C setup cfg event)

end

variable {C setup cfg}

section

variable (h : server.Counts detector installed advances expired)

include h

theorem Counts.committerEpochs_eq : ∀ epoch ∈ server.committerEpochs, epoch = 1 + advances := by
  intro epoch he
  obtain ⟨host, hh, hc⟩ := mem_filterMap.mp he
  have hcounts := h.hosts host hh
  cases host with
  | committer l =>
    obtain ⟨_, hd, hn, -⟩ := hcounts
    simp only [committerEpoch, hd, Option.map_some, Option.some.injEq] at hc
    omega
  | executor | sentinel state | finalizer c => cases hc

theorem Counts.mem_committerEpochs
    (hc : .committer ∈ installed) : 1 + advances ∈ server.committerEpochs := by
  rw [← h.installed] at hc
  obtain ⟨host, hh, hr⟩ := mem_map.mp hc
  have hcounts := h.hosts host hh
  cases host with
  | committer l =>
    obtain ⟨_, hd, hn, -⟩ := hcounts
    refine mem_filterMap.mpr ⟨_, hh, ?_⟩
    simp only [committerEpoch, hd, Option.map_some, hn]
  | executor | sentinel state | finalizer c => cases hr

theorem Counts.followedEpochs_eq :
    ∀ epoch ∈ server.followedEpochs, epoch = 1 ∨ .finalizer ∈ installed ∧ epoch = 1 + expired := by
  intro epoch he
  rcases mem_cons.mp he with rfl | he
  · exact .inl h.index
  rcases mem_cons.mp he with rfl | he
  · exact .inl h.selector
  obtain ⟨host, hh, hc⟩ := mem_filterMap.mp he
  have hcounts := h.hosts host hh
  cases host with
  | committer l => cases hc
  | executor => cases hc
  | sentinel state =>
    obtain rfl := Option.some.inj hc
    exact .inl hcounts
  | finalizer c =>
    obtain rfl := Option.some.inj hc
    refine .inr ⟨?_, hcounts⟩
    rw [← h.installed]
    exact mem_map.mpr ⟨_, hh, rfl⟩

theorem Counts.mem_followedEpochs
    (hf : .finalizer ∈ installed) : 1 + expired ∈ server.followedEpochs := by
  rw [← h.installed] at hf
  obtain ⟨host, hh, hr⟩ := mem_map.mp hf
  have hcounts := h.hosts host hh
  cases host with
  | committer l | executor | sentinel state => cases hr
  | finalizer c =>
    have hc : c.currentEpoch = 1 + expired := hcounts
    refine mem_cons_of_mem _ (mem_cons_of_mem _ ?_)
    exact mem_filterMap.mpr ⟨_, hh, congrArg some hc⟩

end

end NodeServer

theorem counts_of_buildRolePlugin {parts : HostParts}
    {detector : EpochBoundaryDetector} {role : NodeRegistryType} {host : RoleHost}
    (hf : detector.currentEpoch.epochNumber = 1)
    (h : buildRolePlugin parts detector role = some host) : host.Counts 0 0 := by
  cases role with
  | committer =>
    cases h
    exact ⟨detector, rfl, hf, Nat.zero_le _⟩
  | executor =>
    cases h
    trivial
  | sentinel =>
    cases h
    rfl
  | finalizer =>
    cases h
    rfl
  | archiver => cases h

def installedRoles (cfg : NodeConfig) (world : TickWorld) : List NodeRegistryType :=
  (qualifyingRoles cfg (world.stake cfg.publicKey 1)).filter NodeRegistryType.isConsensusRole

theorem map_role_filterMap_buildRolePlugin (parts : HostParts)
    (detector : EpochBoundaryDetector) (roles : List NodeRegistryType) :
    (roles.filterMap (buildRolePlugin parts detector)).map role =
      roles.filter NodeRegistryType.isConsensusRole := by
  induction roles with
  | nil => rfl
  | cons role roles ih =>
    cases role with
    | archiver => exact ih
    | committer | sentinel | executor | finalizer => exact congrArg (_ :: ·) ih

theorem buildRuntime_counts (cfg : NodeConfig) (setup : LeaderSetup)
    (parts : HostParts) (world : TickWorld) (now : Int) :
    (buildRuntime cfg setup parts world now).Counts
      (initialDetector setup parts.committer.stakes now) (installedRoles cfg world) 0 0 := by
  refine ⟨rfl, rfl, StakeIndex.refresh_epoch _ _, rfl, ?_, ?_⟩
  · exact map_role_filterMap_buildRolePlugin parts _ _
  · intro host hh
    obtain ⟨role, -, hb⟩ := mem_filterMap.mp hh
    exact counts_of_buildRolePlugin rfl hb

/-- Along a run no part is ever ahead of the Committer, and a tick that comes
after an advance leaves every part in the Committer's epoch. -/
structure Coherent (C : Codec) (setup : LeaderSetup) (cfg : NodeConfig)
    (server : NodeServer) (events : List EpochEvent) : Prop where
  never_ahead : ∀ pre, pre <+: events →
    ∀ epoch ∈ (run (epochStep C setup cfg) server pre).committerEpochs,
    ∀ number ∈ (run (epochStep C setup cfg) server pre).followedEpochs, number ≤ epoch
  caught_up : ∀ pre now world, pre ++ [.tick now world] <+: events →
    (∃ answers, .advance answers ∈ pre) →
    let server' := run (epochStep C setup cfg) server (pre ++ [.tick now world])
    ∀ epoch ∈ server'.committerEpochs, ∀ number ∈ server'.followedEpochs, number = epoch

section Built

variable {server : NodeServer} {detector : EpochBoundaryDetector}
  {installed : List NodeRegistryType} {events : List EpochEvent}

theorem NodeServer.Counts.committer_mem {advances expired epoch : Nat}
    (h : server.Counts detector installed advances expired)
    (he : epoch ∈ server.committerEpochs) : .committer ∈ installed := by
  obtain ⟨host, hh, hc⟩ := mem_filterMap.mp he
  rw [← h.installed]
  refine mem_map.mpr ⟨host, hh, ?_⟩
  cases host with
  | committer l => rfl
  | executor | sentinel state | finalizer c => cases hc

section

variable (hcounts : server.Counts detector installed 0 0)

include hcounts

/-- The stake index is behind after every tick that an advance precedes. -/
theorem Coherent.advance_not_mem (h : Coherent C setup cfg server events)
    (hc : .committer ∈ installed) {pre : List EpochEvent} {t : Int}
    {w : TickWorld} (hpre : pre ++ [.tick t w] <+: events) (w' : TurnWorld) :
    .advance w' ∉ pre := by
  intro ha
  have hend := hcounts.run C setup cfg (pre ++ [.tick t w])
  have he := h.caught_up pre t w hpre ⟨w', ha⟩ _ (hend.mem_committerEpochs hc) _ mem_cons_self
  have hi := hend.index
  have hpos : 0 < (pre ++ [EpochEvent.tick t w]).countP EpochEvent.isAdvance :=
    countP_pos_iff.mpr ⟨_, mem_append_left _ ha, rfl⟩
  omega

/-- The Finalizer is ahead after the first tick that finds the epoch over. -/
theorem Coherent.not_expired (h : Coherent C setup cfg server events)
    (hc : .committer ∈ installed) (hf : .finalizer ∈ installed)
    {t : Int} {w : TickWorld} (ht : .tick t w ∈ events) : detector.isEpochExpired t = false := by
  rw [← Bool.not_eq_true]
  intro hex
  obtain ⟨pre, post, rfl⟩ := append_of_mem ht
  have hpre : pre ++ [EpochEvent.tick t w] <+: pre ++ .tick t w :: post :=
    ⟨post, by simp⟩
  have hend := hcounts.run C setup cfg (pre ++ [.tick t w])
  have hah := h.never_ahead _ hpre _ (hend.mem_committerEpochs hc) _ (hend.mem_followedEpochs hf)
  have ha : (pre ++ [EpochEvent.tick t w]).countP EpochEvent.isAdvance = 0 := by
    rw [countP_eq_zero]
    intro event he
    rcases mem_append.mp he with he | he
    · cases event with
      | tick _ _ => exact Bool.false_ne_true
      | advance w' =>
        exact absurd he (h.advance_not_mem hcounts hc hpre w')
    · rw [mem_singleton.mp he]
      exact Bool.false_ne_true
  have hcn : 0 < (pre ++ [EpochEvent.tick t w]).countP (EpochEvent.isExpired detector) :=
    countP_pos_iff.mpr ⟨.tick t w, by simp, hex⟩
  omega

theorem NodeServer.Counts.coherent (hq : .committer ∈ installed →
      (∀ pre t w, pre ++ [.tick t w] <+: events → ∀ w', .advance w' ∉ pre) ∧
      (.finalizer ∈ installed → ∀ t w, .tick t w ∈ events → detector.isEpochExpired t = false)) :
    Coherent C setup cfg server events := by
  constructor
  · intro pre hpre epoch he n hn
    have hend := hcounts.run C setup cfg pre
    obtain ⟨-, her⟩ := hq (hend.committer_mem he)
    rw [hend.committerEpochs_eq epoch he]
    rcases hend.followedEpochs_eq n hn with rfl | ⟨hf, rfl⟩
    · exact Nat.le_add_right 1 _
    · have hnn : pre.countP (EpochEvent.isExpired detector) = 0 := by
        rw [countP_eq_zero]
        intro event hev
        cases event with
        | advance _ => exact Bool.false_ne_true
        | tick t w =>
          have hl := her hf t w (hpre.subset hev)
          exact Bool.eq_false_iff.mp hl
      omega
  · intro pre t w hpre ha server' epoch he
    obtain ⟨a, had⟩ := ha
    have hc := (hcounts.run C setup cfg _).committer_mem he
    exact absurd had ((hq hc).1 pre t w hpre a)

end

end Built

/-- The parts of a host agree along a run exactly when every tick of it comes
before all advances and, where there is a Finalizer, before the end of the first
epoch. -/
theorem coherent_iff (C : Codec) (setup : LeaderSetup) (cfg : NodeConfig)
    (parts : HostParts) (world : TickWorld) (now : Int) (events : List EpochEvent) :
    Coherent C setup cfg (buildRuntime cfg setup parts world now) events ↔
      (.committer ∈ installedRoles cfg world →
        (∀ pre t w, pre ++ [.tick t w] <+: events → ∀ w', .advance w' ∉ pre) ∧
        (.finalizer ∈ installedRoles cfg world → ∀ t w, .tick t w ∈ events → t < now + 300)) := by
  have hcounts := buildRuntime_counts cfg setup parts world now
  have hl : ∀ t, (initialDetector setup parts.committer.stakes now).isEpochExpired t =
      false ↔ t < now + 300 := by
    intro t
    rw [← Int.not_le]
    exact decide_eq_false_iff_not
  simp only [← hl]
  constructor
  · intro h hc
    refine ⟨fun pre t w hpre => h.advance_not_mem hcounts hc hpre, ?_⟩
    intro hf t w ht
    exact h.not_expired hcounts hc hf ht
  · intro h
    exact hcounts.coherent h

def unstakedNode : NodeConfig where
  publicKey := [1]
  rhash := default
  directoryObserver := false
  maxNodeNumber _ := 1
  globalMinStake := 0
  minTypeStake _ := 0

def quietTick : TickWorld where
  getStakeSnapshot _ := none
  stake _ _ := 0

def firstLeader : LeaderSetup where
  publicKey := [1]
  epochDuration := 300
  select _ _ _ := [1]
  leaderAddress := [1]
  leaderStake := 0
  leaderHash := []

def savingTurn : TurnWorld where
  now := 300
  saveStakeSnapshot _ _ := true
  saveExecutorSet _ _ := true
  blockTime _ := 0
  commit _ := obligingWorld

def fullHost : NodeServer :=
  buildRuntime unstakedNode firstLeader
    { committer := bootState
      queue := .new
      registry := .new
      nodes _ := ∅
      finalizer := sampleFinalizer } quietTick 0

def fullHostEpochs (events : List EpochEvent) : List Nat × List Nat :=
  let server :=
    run (epochStep ShieldedPool.sampleCodec firstLeader unstakedNode) fullHost events
  (server.committerEpochs, server.followedEpochs)

/-- A tick at the end of the first epoch puts the Finalizer ahead of the
Committer; after an advance and that tick the stake index, the role selector and
the Sentinel are behind it. -/
theorem fullHost_not_coherent : (fullHostEpochs [.tick 300 quietTick] = ([1], [1, 1, 1, 2]) ∧
      fullHostEpochs [.advance savingTurn, .tick 300 quietTick] = ([2], [1, 1, 1, 2])) ∧
    ¬ Coherent ShieldedPool.sampleCodec firstLeader unstakedNode fullHost [.tick 300 quietTick] ∧
    ¬ Coherent ShieldedPool.sampleCodec firstLeader unstakedNode fullHost
      [.advance savingTurn, .tick 300 quietTick] := by
  have ht : fullHostEpochs [.tick 300 quietTick] = ([1], [1, 1, 1, 2]) := by rfl
  have ha : fullHostEpochs [.advance savingTurn, .tick 300 quietTick] =
      ([2], [1, 1, 1, 2]) := by rfl
  have hmem : ∀ {events l l'}, fullHostEpochs events = (l, l') →
      (run (epochStep sampleCodec firstLeader unstakedNode) fullHost events).committerEpochs = l ∧
      (run (epochStep sampleCodec firstLeader unstakedNode) fullHost
        events).followedEpochs = l' := by
    intro events l l' h
    exact ⟨congrArg Prod.fst h, congrArg Prod.snd h⟩
  refine ⟨⟨ht, ha⟩, fun h => ?_, fun h => ?_⟩
  · obtain ⟨hc, hf⟩ := hmem ht
    have hah := h.never_ahead _ (prefix_refl _)
    exact absurd (hah 1 (by decide) 2 (by decide)) (by decide)
  · obtain ⟨hc, hf⟩ := hmem ha
    have he := h.caught_up [.advance savingTurn] 300 quietTick (prefix_refl _) ⟨_, mem_cons_self⟩
    simp only [cons_append, nil_append] at he
    exact absurd (he 2 (by decide) 1 (by decide)) (by decide)

end Pneumatic
