import Mathlib.Order.Bounds.Basic
import Pneumatic.Sentinel.EpochCalls

/-!
# Advances of the Sentinel's epoch at the same time

`advance_epoch` takes the lock of the epoch twice, to compare and to assign. Between the
two another call can assign a larger epoch, which the first one then writes over. So the
epoch goes forward where the calls that have compared assign in the order of their
arguments, and a run that has come to its end with the epoch never going back was one
of these: a call that is overtaken has a smaller epoch in hand, and nothing but its own
assignment takes that from it.

The caches are emptied behind the assignment, with locks of their own. Since they are
filed by epoch it does not matter when.
-/

namespace Pneumatic.EpochRace

open Run List Finmap Interleaving

variable {m : EpochMachine} {t : EpochTurn} {turns : List EpochTurn}

/-- The turn does not take the epoch back. -/
def NonDecreasing (m : EpochMachine) (t : EpochTurn) : Prop :=
  m.shared.sentinel.currentEpoch ≤ (epochMachineTurn m t).shared.sentinel.currentEpoch

/-- A call that comes to its assignment has overtaken none with a smaller epoch. -/
def InOrder (m : EpochMachine) (t : EpochTurn) : Prop :=
  ∀ i answer epoch, t = .advance i answer → m.calls i = some (.assign epoch) →
    ∀ j other, m.calls j = some (.assign other) → epoch ≤ other

/-! ## What a turn does to the epoch -/

/-- A turn leaves the epoch and the calls that are to assign, compares for a new call, or
assigns for one. -/
inductive EpochEffect (m : EpochMachine) (t : EpochTurn) (m' : EpochMachine) : Prop
  | kept (hepoch : m'.shared.sentinel.currentEpoch = m.shared.sentinel.currentEpoch)
      (hasked : m'.shared.asked = m.shared.asked)
      (hcalls : ∀ j epoch, m'.calls j = some (.assign epoch) ↔ m.calls j = some (.assign epoch))
  | compared (i epoch : Nat) (hfree : m.calls i = none)
      (hepoch : m'.shared.sentinel.currentEpoch = m.shared.sentinel.currentEpoch)
      (hasked : m'.shared.asked = epoch :: m.shared.asked)
      (hcalls : m'.calls = Function.update m.calls i
        (if epoch ≤ m.shared.sentinel.currentEpoch then none else some (.assign epoch)))
  | assigned (i epoch : Nat) (answer : Option StakeSet) (hturn : t = .advance i answer)
      (hcall : m.calls i = some (.assign epoch))
      (hepoch : m'.shared.sentinel.currentEpoch = epoch)
      (hasked : m'.shared.asked = m.shared.asked)
      (hcalls : m'.calls = Function.update m.calls i (some .invalidateExecutorSets))

theorem epochEffect (m : EpochMachine) (t : EpochTurn) :
    EpochEffect m t (epochMachineTurn m t) := by
  have hother : ∀ {i : Nat} {old new : Option EpochPoint}, m.calls i = old →
      (∀ epoch, old ≠ some (.assign epoch)) → (∀ epoch, new ≠ some (.assign epoch)) →
      ∀ j epoch, Function.update m.calls i new j = some (.assign epoch) ↔
        m.calls j = some (.assign epoch) := by
    intro i old new hi ho hn j epoch
    by_cases hj : j = i
    · subst hj
      rw [Function.update_self, hi]
      exact iff_of_false (hn epoch) (ho epoch)
    · rw [Function.update_of_ne hj]
  refine turn_rule (p := EpochEffect m t) (.kept rfl rfl fun _ _ => .rfl)
    (fun i input ht hi => ?_) fun i answer call ht hi => ?_
  · cases input with
    | advanceEpoch epoch => exact .compared i epoch hi rfl rfl rfl
    | get cache epoch =>
      unfold epochStart State.moved
      dsimp only
      split <;> exact .kept rfl rfl (hother hi nofun nofun)
  · cases call with
    | assign epoch => exact .assigned i epoch answer ht hi rfl rfl rfl
    | fetch cache epoch => cases answer <;> exact .kept rfl rfl (hother hi nofun nofun)
    | invalidateExecutorSets | invalidateStakeSnapshots =>
      exact .kept rfl rfl (hother hi nofun nofun)
    | insert snapshot =>
      refine .kept ?_ rfl (hother hi nofun nofun)
      obtain ⟨cache, epoch, stakes⟩ := snapshot
      cases cache <;> rfl

/-- Every epoch that was asked for is reached or to be assigned yet. -/
structure Reaching (initial : Nat) (m : EpochMachine) : Prop where
  low : initial ≤ m.shared.sentinel.currentEpoch
  mem : m.shared.sentinel.currentEpoch ∈ initial :: m.shared.asked
  due : ∀ epoch ∈ m.shared.asked, epoch ≤ m.shared.sentinel.currentEpoch ∨
    ∃ i, m.calls i = some (.assign epoch)
  ahead : ∀ i epoch, m.calls i = some (.assign epoch) →
    m.shared.sentinel.currentEpoch ≤ epoch ∧ epoch ∈ m.shared.asked

theorem Reaching.turn {initial : Nat} (h : Reaching initial m) (ho : InOrder m t) :
    Reaching initial (epochMachineTurn m t) ∧ NonDecreasing m t := by
  obtain ⟨hl, hm, hd, ha⟩ := h
  unfold NonDecreasing
  rcases epochEffect m t with ⟨he, hs, hc⟩ | ⟨i, e, hi, he, hs, hc⟩ |
    ⟨i, e, answer, rfl, hi, he, hs, hc⟩
  · rw [he]
    refine ⟨⟨he ▸ hl, he ▸ hs ▸ hm, fun epoch h => ?_, fun j epoch h => ?_⟩, le_rfl⟩
    · simpa only [he, hc] using hd epoch (hs ▸ h)
    · simpa only [he, hs] using ha j epoch ((hc j epoch).mp h)
  · rw [he]
    refine ⟨⟨he ▸ hl, ?_, fun epoch h => ?_, fun j epoch h => ?_⟩, le_rfl⟩
    · rw [he, hs]
      exact cons_subset_cons _ (subset_cons_self _ _) hm
    · rw [hs] at h
      rw [he, hc]
      rcases mem_cons.mp h with rfl | h
      · by_cases hle : epoch ≤ m.shared.sentinel.currentEpoch
        · exact .inl hle
        · exact .inr ⟨i, by rw [Function.update_self, if_neg hle]⟩
      · refine (hd epoch h).imp_right fun ⟨j, hj⟩ => ⟨j, ?_⟩
        rwa [Function.update_of_ne]
        rintro rfl
        cases hi.symm.trans hj
    · rw [he, hs]
      rw [hc] at h
      by_cases hj : j = i
      · subst hj
        rw [Function.update_self] at h
        split at h
        · cases h
        · next hlt =>
          cases h
          exact ⟨(Nat.not_le.mp hlt).le, mem_cons_self⟩
      · rw [Function.update_of_ne hj] at h
        exact ⟨(ha j epoch h).1, mem_cons_of_mem _ (ha j epoch h).2⟩
  · obtain ⟨hle, hmem⟩ := ha i e hi
    rw [he]
    refine ⟨⟨he ▸ hl.trans hle, ?_, fun epoch h => ?_, fun j epoch h => ?_⟩, hle⟩
    · rw [he, hs]
      exact mem_cons_of_mem _ hmem
    · rw [he, hc]
      rcases hd epoch (hs ▸ h) with hr | ⟨j, hj⟩
      · exact .inl (hr.trans hle)
      · by_cases hji : j = i
        · subst hji
          cases hi.symm.trans hj
          exact .inl le_rfl
        · exact .inr ⟨j, by rw [Function.update_of_ne hji, hj]⟩
    · rw [hc] at h
      by_cases hj : j = i
      · rw [hj, Function.update_self] at h
        cases h
      · rw [Function.update_of_ne hj] at h
        rw [he, hs]
        exact ⟨ho i _ e rfl hi j epoch h, (ha j epoch h).2⟩

/-- A call that has been overtaken cannot assign while the epoch goes forward. -/
theorem overtaken_waits {i epoch : Nat} (hi : m.calls i = some (.assign epoch))
    (hlt : epoch < m.shared.sentinel.currentEpoch)
    (h : Meets epochMachineTurn NonDecreasing m turns) :
    (run epochMachineTurn m turns).calls i = some (.assign epoch) := by
  induction turns generalizing m with
  | nil => exact hi
  | cons t turns ih =>
    have hf : m.shared.sentinel.currentEpoch ≤ _ := h.1
    refine ih ?_ (Nat.lt_of_lt_of_le hlt hf) h.2
    rcases epochEffect m t with ⟨-, -, hc⟩ | ⟨j, e, hj, -, -, hc⟩ |
      ⟨j, e, _, -, hj, he, -, hc⟩
    · exact (hc i epoch).mpr hi
    · rw [hc, Function.update_of_ne, hi]
      rintro rfl
      cases hi.symm.trans hj
    · rw [hc, Function.update_of_ne, hi]
      rintro rfl
      cases hi.symm.trans hj
      rw [he] at hf
      exact absurd hf (Nat.not_le.mpr hlt)

/-- Where the epoch only went forward and no call is left, none was overtaken. -/
theorem inOrder_of_nonDecreasing (h : Meets epochMachineTurn NonDecreasing m turns)
    (hend : ∀ i, (run epochMachineTurn m turns).calls i = none) :
    Meets epochMachineTurn InOrder m turns := by
  induction turns generalizing m with
  | nil => trivial
  | cons t turns ih =>
    refine ⟨?_, ih h.2 hend⟩
    rintro i answer epoch rfl hi j other hj
    by_contra hlt
    rw [Nat.not_le] at hlt
    have hne : j ≠ i := by
      rintro rfl
      cases hi.symm.trans hj
      exact Nat.lt_irrefl _ hlt
    have hm : epochMachineTurn m (.advance i answer) =
        m.moved i (epochAdvance answer (.assign epoch) m.shared) := by
      simp only [epochMachineTurn, turn, hi]
    have hj' : (epochMachineTurn m (.advance i answer)).calls j = some (.assign other) := by
      rw [hm, State.moved_calls_of_ne hne, hj]
    have hw := overtaken_waits hj' (by rw [hm]; exact hlt) h.2
    cases (hend j).symm.trans hw

/-! ## What is served -/

/-- What is in a cache, in the hands of a call or served for an epoch was fetched for it. -/
structure Filed (m : EpochMachine) : Prop where
  cached : ∀ cache epoch stakes, (m.shared.sentinel.cache cache).lookup epoch = some stakes →
    ⟨cache, epoch, stakes⟩ ∈ m.shared.fetched
  inserted : ∀ i snapshot, m.calls i = some (.insert snapshot) → snapshot ∈ m.shared.fetched
  served : ∀ snapshot ∈ m.shared.served, snapshot ∈ m.shared.fetched

theorem Filed.moved (h : Filed m) (i : Nat) {r : EpochState × Option EpochPoint}
    (hf : m.shared.fetched ⊆ r.1.fetched)
    (hc : ∀ cache epoch stakes, (r.1.sentinel.cache cache).lookup epoch = some stakes →
      ⟨cache, epoch, stakes⟩ ∈ r.1.fetched)
    (hi : ∀ snapshot, r.2 = some (.insert snapshot) → snapshot ∈ r.1.fetched)
    (hs : ∀ snapshot ∈ r.1.served, snapshot ∈ r.1.fetched) : Filed (m.moved i r) := by
  refine ⟨hc, fun j snapshot hj => ?_, hs⟩
  by_cases hne : j = i
  · rw [hne, State.moved_calls] at hj
    exact hi snapshot hj
  · rw [State.moved_calls_of_ne hne] at hj
    exact hf (h.inserted j snapshot hj)

theorem cache_setCache (s : SentinelState) (cached : Finmap fun _ : Nat => StakeSet)
    (changed cache : SnapshotCache) : (s.setCache cached changed).cache cache =
      if cache = changed then cached else s.cache cache := by
  cases changed <;> cases cache <;> rfl

theorem Filed.turn (h : Filed m) (t : EpochTurn) : Filed (epochMachineTurn m t) := by
  -- a cache that was emptied
  have he : ∀ changed cache epoch stakes,
      ((m.shared.sentinel.setCache ∅ changed).cache cache).lookup epoch = some stakes →
      ⟨cache, epoch, stakes⟩ ∈ m.shared.fetched := by
    intro changed cache epoch stakes hl
    rw [cache_setCache] at hl
    split at hl
    · cases hl
    · exact h.cached cache epoch stakes hl
  refine turn_rule h (fun i input _ _ => ?_) fun i answer call _ hcall => ?_
  · cases input with
    | advanceEpoch epoch =>
      refine h.moved i (Subset.refl _) h.cached (fun _ hi => ?_) h.served
      simp only [epochStart] at hi
      split at hi <;> cases hi
    | get cache epoch =>
      unfold epochStart
      dsimp only
      split
      · next stakes hl =>
        refine h.moved i (Subset.refl _) h.cached (by rintro _ ⟨⟩) fun snapshot hs => ?_
        rcases mem_cons.mp hs with rfl | hs
        · exact h.cached cache epoch stakes hl
        · exact h.served snapshot hs
      · exact h.moved i (Subset.refl _) h.cached (by rintro _ ⟨⟩) h.served
  · cases call with
    | assign epoch => exact h.moved i (Subset.refl _) h.cached (by rintro _ ⟨⟩) h.served
    | invalidateExecutorSets | invalidateStakeSnapshots =>
      exact h.moved i (Subset.refl _) (he _) (by rintro _ ⟨⟩) h.served
    | fetch cache epoch =>
      cases answer with
      | none => exact h.moved i (Subset.refl _) h.cached (by rintro _ ⟨⟩) h.served
      | some stakes =>
        refine h.moved i (subset_cons_self _ _)
          (fun _ _ _ hl => mem_cons_of_mem _ (h.cached _ _ _ hl)) (fun snapshot hi => ?_)
          fun snapshot hs => mem_cons_of_mem _ (h.served snapshot hs)
        cases hi
        exact mem_cons_self
    | insert snapshot =>
      have hmem := h.inserted i snapshot hcall
      refine h.moved i (Subset.refl _) (fun cache epoch stakes hl => ?_) (by rintro _ ⟨⟩)
        fun other hs => ?_
      · simp only [epochAdvance, cache_setCache] at hl
        split at hl
        · next hc =>
          subst hc
          rcases lookup_insert_cases hl with ⟨rfl, rfl⟩ | hl
          · exact hmem
          · exact h.cached _ epoch stakes hl
        · exact h.cached cache epoch stakes hl
      · rcases mem_cons.mp hs with rfl | hs
        · exact hmem
        · exact h.served other hs

/-! ## Whole runs -/

/-- The epoch only goes forward wherever no call overtakes one with a smaller epoch; when
all calls have ended, only there, and it is then the largest there was. And nothing is
served for an epoch but what was fetched for it. -/
theorem epoch_forward_iff (s : SentinelState) (turns : List EpochTurn) :
    let m := run epochMachineTurn (epochBoot s) turns
    (Meets epochMachineTurn InOrder (epochBoot s) turns →
      Meets epochMachineTurn NonDecreasing (epochBoot s) turns) ∧
    ((∀ i, m.calls i = none) →
      ((Meets epochMachineTurn NonDecreasing (epochBoot s) turns ∧
        IsGreatest {epoch | epoch ∈ s.currentEpoch :: m.shared.asked}
          m.shared.sentinel.currentEpoch) ↔
        Meets epochMachineTurn InOrder (epochBoot s) turns)) ∧
    ∀ snapshot ∈ m.shared.served, snapshot ∈ m.shared.fetched := by
  intro m
  have hboot : Reaching s.currentEpoch (epochBoot s) := ⟨le_rfl, mem_cons_self, nofun, nofun⟩
  have hfiled : Filed (epochBoot s) := by
    refine ⟨fun cache epoch stakes hl => ?_, nofun, nofun⟩
    cases cache <;> cases hl
  have hforward : Meets epochMachineTurn InOrder (epochBoot s) turns →
      Meets epochMachineTurn NonDecreasing (epochBoot s) turns :=
    Meets.of_invariant (fun _ _ h ho => (h.turn ho).1) (fun _ _ h ho => (h.turn ho).2) hboot
  refine ⟨hforward, fun hend => ⟨fun h => inOrder_of_nonDecreasing h.1 hend,
    fun h => ⟨hforward h, ?_⟩⟩, ?_⟩
  · have hr : Reaching s.currentEpoch m := run_invariant (fun _ _ h ho => (h.turn ho).1) hboot h
    refine ⟨hr.mem, fun epoch he => ?_⟩
    rcases mem_cons.mp he with rfl | he
    · exact hr.low
    · refine (hr.due epoch he).resolve_right ?_
      rintro ⟨i, hi⟩
      cases (hend i).symm.trans hi
  · exact (run_invariant_of_step (fun _ t h => h.turn t) turns hfiled).served

/-- Both calls compare before one of them assigns, and the smaller epoch comes last. -/
theorem smaller_epoch_last :
    let turns : List EpochTurn := [.start 0 (.advanceEpoch 3), .start 1 (.advanceEpoch 5),
      .advance 1 none, .advance 0 none]
    let epochAfter (k : Nat) := (run epochMachineTurn (epochBoot (.new .new fun _ => ∅))
      (turns.take k)).shared.sentinel.currentEpoch
    epochAfter 3 = 5 ∧ epochAfter 4 = 3 := by
  decide

end Pneumatic.EpochRace
