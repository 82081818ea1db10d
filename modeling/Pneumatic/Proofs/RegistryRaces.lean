import Pneumatic.Core.RegistryCalls
import Pneumatic.Lib.Run

/-!
# Two registries under concurrent calls

One operation on one key of a map is atomic, and nothing more. `mark_many_atomic`
checks its batch key by key, inserts it key by key, and takes its inserts back when it
meets a key that is there. A key that a call inserted stays until that call removes it,
so nobody else inserts it meanwhile, and what a call takes back is its own.

`register_shielded` finds a duplicate by writing over the entry, and puts back what it
found in a second step. The first call to write is the only one to succeed, but between
the two steps of a later one the entry is the loser's.
-/

namespace Pneumatic

open Run Function List Option

namespace NullifierRegistry

def MarkPhase.owned (batch : List Bytes32) : MarkPhase → List Bytes32
  | .inserting _ inserted => inserted
  | .undoing rest => rest
  | .returned true => batch
  | _ => []

/-- What a call knows at each phase. -/
structure MarkPhase.Holds (batch : List Bytes32) (spent : Bytes32 → Option (Option Nat)) (i : Nat)
    (phase : MarkPhase) : Prop where
  held : ∀ key, spent key = some (some i) ↔ key ∈ phase.owned batch
  nodup : (phase.owned batch).Nodup
  split : ∀ rest inserted, phase = .inserting rest inserted → batch = inserted ++ rest

/-- Every key is held by the call that has it, or it was spent before. -/
structure MarkInv (batches : Nat → List Bytes32) (initial : Finset Bytes32) (s : MarkState) :
    Prop where
  start : ∀ key, s.spent key = some none ↔ key ∈ initial
  calls : ∀ i, (s.phase i).Holds (batches i) s.spent i

variable {batches : Nat → List Bytes32} {initial : Finset Bytes32} {s : MarkState} {i : Nat}

section

variable (h : MarkInv batches initial s)

include h

theorem MarkInv.moved {spent : Bytes32 → Option (Option Nat)} {phase : MarkPhase}
    (ho : ∀ key holder, holder ≠ some i → (spent key = some holder ↔ s.spent key = some holder))
    (hc : phase.Holds (batches i) spent i) :
    MarkInv batches initial ⟨spent, update s.phase i phase⟩ := by
  constructor
  · intro key
    rw [ho key none (by simp), h.start]
  · refine (forall_update_iff s.phase fun j p => p.Holds (batches j) spent j).mpr ⟨hc, ?_⟩
    intro j hj
    obtain ⟨hheld, hnodup, hsplit⟩ := h.calls j
    refine ⟨fun key => ?_, hnodup, hsplit⟩
    rw [ho key (some j) (by simpa using hj), hheld]

theorem MarkInv.kept {phase : MarkPhase}
    (hs : phase.owned (batches i) = (s.phase i).owned (batches i))
    (hsp : ∀ rest ir, phase = .inserting rest ir → batches i = ir ++ rest) :
    MarkInv batches initial ⟨s.spent, update s.phase i phase⟩ :=
  h.moved (fun _ _ _ => Iff.rfl) ⟨hs ▸ (h.calls i).held, hs ▸ (h.calls i).nodup, hsp⟩

theorem MarkInv.step (i : Nat) : MarkInv batches initial (markStep batches s i) := by
  have hc := h.calls i
  unfold markStep
  cases hp : s.phase i with
  | checking rest =>
    cases rest with
    | nil => exact h.kept (by rw [hp]; rfl) (by rintro _ _ ⟨⟩; rfl)
    | cons key rest =>
      dsimp only
      split
      · exact h.kept (by rw [hp]; rfl) (by rintro _ _ ⟨⟩)
      · exact h.kept (by rw [hp]; rfl) (by rintro _ _ ⟨⟩)
  | inserting rest inserted =>
    rw [hp] at hc
    cases rest with
    | nil =>
      refine h.kept ?_ (by rintro _ _ ⟨⟩)
      rw [hp]
      exact (hc.split _ _ rfl).trans (append_nil inserted)
    | cons key rest =>
      dsimp only
      split
      · exact h.kept (by rw [hp]; rfl) (by rintro _ _ ⟨⟩)
      · next hnew =>
        rw [Bool.not_eq_true, isSome_eq_false_iff, isNone_iff_eq_none] at hnew
        have hf : key ∉ inserted := fun hmem => by simp [(hc.held key).mpr hmem] at hnew
        refine h.moved (fun other hl hne => ?_) ⟨fun other => ?_, ?_, ?_⟩
        · by_cases ho : other = key
          · simp [ho, hnew, hne.symm]
          · rw [update_of_ne ho]
        · by_cases ho : other = key
          · simp [ho, MarkPhase.owned]
          · simpa [update_of_ne ho, MarkPhase.owned, ho] using hc.held other
        · exact hc.nodup.append (nodup_singleton key) (disjoint_singleton.mpr hf)
        · rintro _ _ ⟨⟩
          exact (hc.split _ _ rfl).trans (append_cons inserted key rest)
  | undoing rest =>
    rw [hp] at hc
    cases rest with
    | nil => exact h.kept (by rw [hp]; rfl) (by rintro _ _ ⟨⟩)
    | cons key rest =>
      have hm := (hc.held key).mpr mem_cons_self
      obtain ⟨hnot, hn⟩ := nodup_cons.mp hc.nodup
      refine h.moved (fun other hl hne => ?_) ⟨fun other => ?_, hn, by rintro _ _ ⟨⟩⟩
      · by_cases ho : other = key
        · simp [ho, hm, hne.symm]
        · rw [update_of_ne ho]
      · by_cases ho : other = key
        · simpa [ho, MarkPhase.owned] using hnot
        · simpa [update_of_ne ho, MarkPhase.owned, ho] using hc.held other
  | returned ok => exact h

/-- Only a call that gives up removes a key, and one that it inserted. -/
theorem MarkInv.removed {key : Bytes32}
    (hb : (s.spent key).isSome) (ha : ((markStep batches s i).spent key).isNone) :
    (∃ rest, s.phase i = .undoing rest) ∧ s.spent key = some (some i) := by
  have hk : ∀ {now : Option (Option Nat)}, now = s.spent key → ¬ now.isNone := by
    rintro _ rfl
    simpa using isSome_iff_ne_none.mp hb
  dsimp only [markStep] at ha
  split at ha
  · exact absurd ha (hk rfl)
  · exact absurd ha (hk rfl)
  · exact absurd ha (hk rfl)
  · split at ha
    · exact absurd ha (hk rfl)
    · next hnew =>
      refine absurd ha (hk (update_of_ne ?_ _ _))
      rintro rfl
      exact hnew hb
  · exact absurd ha (hk rfl)
  · next other rest hp =>
    obtain rfl : key = other := by
      by_contra hne
      exact hk (update_of_ne hne _ _) ha
    refine ⟨⟨_, hp⟩, ((h.calls i).held key).mpr ?_⟩
    rw [hp]
    exact mem_cons_self
  · exact absurd ha (hk rfl)

end

/-- Whatever the interleaving, no call removes a key that it did not insert; and when
every call has returned or has not begun, the spent set is the initial one with the
batches that succeeded, which share no key with it, with each other or within. -/
theorem batches_atomic (batches : Nat → List Bytes32) (initial : Finset Bytes32)
    (turns : List Nat) :
    let s := run (markStep batches)
      ⟨fun key => if key ∈ initial then some none else none, fun i => .checking (batches i)⟩ turns
    (∀ i key, (s.spent key).isSome → ((markStep batches s i).spent key).isNone →
      (∃ rest, s.phase i = .undoing rest) ∧ s.spent key = some (some i)) ∧
    ((∀ i, s.phase i = .checking (batches i) ∨ ∃ ok, s.phase i = .returned ok) →
      (∀ key, (s.spent key).isSome ↔
        key ∈ initial ∨ ∃ i, s.phase i = .returned true ∧ key ∈ batches i) ∧
      ∀ i, s.phase i = .returned true → (batches i).Nodup ∧ (∀ key ∈ batches i, key ∉ initial) ∧
        ∀ j, s.phase j = .returned true → j ≠ i → (batches i).Disjoint (batches j)) := by
  have hst : MarkInv batches initial
      ⟨fun key => if key ∈ initial then some none else none, fun i => .checking (batches i)⟩ := by
    refine ⟨fun key => by simp, fun i => ⟨fun key => ?_, nodup_nil, by rintro _ _ ⟨⟩⟩⟩
    simp only [MarkPhase.owned, not_mem_nil, iff_false]
    split <;> simp
  have h := run_invariant_of_step (fun s i hs => hs.step i) turns hst
  intro s
  have hm : ∀ {i key}, s.phase i = .returned true →
      (s.spent key = some (some i) ↔ key ∈ batches i) := by
    intro i key hi
    have hh := (h.calls i).held key
    rwa [hi] at hh
  refine ⟨fun i key => h.removed, fun he => ⟨fun key => ?_, fun i hi => ⟨?_, ?_, ?_⟩⟩⟩
  · rw [← h.start key, isSome_iff_exists]
    constructor
    · rintro ⟨hl, hkey⟩
      cases hl with
      | none => exact .inl hkey
      | some i =>
        have hown := ((h.calls i).held key).mp hkey
        refine .inr ⟨i, ?_⟩
        rcases he i with hp | ⟨ok, hp⟩
        · rw [hp] at hown
          cases hown
        · rw [hp] at hown
          cases ok with
          | true => exact ⟨hp, hown⟩
          | false => cases hown
    · rintro (hkey | ⟨i, hi, hkey⟩)
      · exact ⟨_, hkey⟩
      · exact ⟨_, (hm hi).mpr hkey⟩
  · have hn := (h.calls i).nodup
    rwa [hi] at hn
  · intro key hkey hin
    cases mem_unique ((hm hi).mpr hkey) ((h.start key).mpr hin)
  · intro j hj hne key hkey hkey'
    cases mem_unique ((hm hi).mpr hkey) ((hm hj).mpr hkey')
    exact hne rfl

end NullifierRegistry

variable {payloads : Nat → ShieldedTransaction} {s : RegisterState} {winner i : Nat}

theorem registerStep_cases {entry : ShieldedTransaction} (he : s.entry = some entry)
    (payloads : Nat → ShieldedTransaction) (i : Nat) :
    (s.phase i = .waiting ∧ registerStep payloads s i =
      ⟨some (payloads i), update s.phase i (.restoring entry)⟩) ∨
    (∃ old, s.phase i = .restoring old ∧ registerStep payloads s i =
      ⟨some old, update s.phase i (.returned false)⟩) ∨
    (∃ ok, s.phase i = .returned ok) ∧ registerStep payloads s i = s := by
  unfold registerStep
  rw [he]
  cases hp : s.phase i with
  | waiting => exact .inl ⟨rfl, rfl⟩
  | restoring old => exact .inr (.inl ⟨old, rfl, rfl⟩)
  | returned ok => exact .inr (.inr ⟨⟨ok, rfl⟩, rfl⟩)

theorem registerStep_phase_of_ne {j : Nat} (hne : i ≠ j) :
    (registerStep payloads s j).phase i = s.phase i := by
  unfold registerStep
  split
  · exact update_of_ne hne _ _
  · exact update_of_ne hne _ _
  · exact update_of_ne hne _ _
  · rfl

/-- After the first write: one call has succeeded, and no other will. -/
structure Won (winner : Nat) (s : RegisterState) : Prop where
  held : ∃ entry, s.entry = some entry
  won : ∀ i, s.phase i = .returned true ↔ i = winner

theorem Won.step (h : Won winner s) (i : Nat) : Won winner (registerStep payloads s i) := by
  have hm : ∀ {entry phase}, s.phase i ≠ .returned true → phase ≠ .returned true →
      Won winner ⟨some entry, update s.phase i phase⟩ := by
    intro entry phase hb ha
    refine ⟨⟨entry, rfl⟩, (forall_update_iff s.phase fun j p =>
      p = .returned true ↔ j = winner).mpr ⟨?_, fun j _ => h.won j⟩⟩
    exact iff_of_false ha fun heq => hb ((h.won i).mpr heq)
  obtain ⟨entry, he⟩ := h.held
  rcases registerStep_cases he payloads i with ⟨hp, heq⟩ | ⟨old, hp, heq⟩ | ⟨-, heq⟩
  · exact heq ▸ hm (by simp [hp]) (by simp)
  · exact heq ▸ hm (by simp [hp]) (by simp)
  · rwa [heq]

/-- The entry is one payload, and so is all that is put back. -/
structure OnePayload (payload : ShieldedTransaction) (s : RegisterState) : Prop where
  entry : s.entry = some payload
  restoring : ∀ i old, s.phase i = .restoring old → old = payload

theorem OnePayload.step {payload : ShieldedTransaction} (h : OnePayload payload s)
    (hi : payloads i = payload) : OnePayload payload (registerStep payloads s i) := by
  have hm : ∀ {phase}, (∀ old, phase = .restoring old → old = payload) →
      OnePayload payload ⟨some payload, update s.phase i phase⟩ := fun hp =>
    ⟨rfl, (forall_update_iff s.phase fun _ p =>
      ∀ old, p = .restoring old → old = payload).mpr ⟨hp, fun j _ => h.restoring j⟩⟩
  rcases registerStep_cases h.entry payloads i with ⟨-, heq⟩ | ⟨old, hp, heq⟩ | ⟨-, heq⟩
  · rw [heq, hi]
    exact hm (by rintro _ ⟨⟩; rfl)
  · obtain rfl := h.restoring i old hp
    exact heq ▸ hm (by rintro _ ⟨⟩)
  · rwa [heq]

/-- The first call to write succeeds, and no other. It is read back at every moment
exactly if all the calls carry the same payload. -/
theorem registered_iff (payloads : Nat → ShieldedTransaction) (winner : Nat) (turns : List Nat) :
    let after := run (registerStep payloads) ⟨none, fun _ => .waiting⟩
    (∀ i, (after (winner :: turns)).phase i = .returned true ↔ i = winner) ∧
    ((∀ b, b <+: winner :: turns → ∀ i, (after b).phase i = .returned true →
      (after b).entry = some (payloads i)) ↔ ∀ i ∈ turns, payloads i = payloads winner) := by
  let first : RegisterState :=
    ⟨some (payloads winner), update (fun _ => .waiting) winner (.returned true)⟩
  have hwon : ∀ turns, Won winner (run (registerStep payloads) first turns) := by
    refine fun turns => run_invariant_of_step (fun _ i h => h.step i) turns ⟨⟨_, rfl⟩, ?_⟩
    intro i
    by_cases hi : i = winner <;> simp [first, hi]
  refine ⟨(hwon turns).won, fun h i hi => ?_, fun h b hb => ?_⟩
  · obtain ⟨pre, post, rfl, hpre⟩ := eq_append_cons_of_mem hi
    by_cases hiw : i = winner
    · rw [hiw]
    · -- the call's first step writes over the entry
      have hp : (run (registerStep payloads) first pre).phase i = .waiting := by
        refine run_invariant (fun (s : RegisterState) j (hs : s.phase i = .waiting) (hj : i ≠ j) =>
          (registerStep_phase_of_ne hj).trans hs) ?_ (meets_of_forall fun j hj => ?_)
        · simp [first, hiw]
        · exact fun heq => hpre (heq ▸ hj)
      have hk := h (winner :: (pre ++ [i])) (by simp) winner
        (((hwon (pre ++ [i])).won winner).mpr rfl)
      obtain ⟨entry, he⟩ := (hwon pre).held
      have hw : (run (registerStep payloads) first (pre ++ [i])).entry = some (payloads i) := by
        rw [run_append]
        rcases registerStep_cases he payloads i with
          ⟨-, heq⟩ | ⟨old, hold, -⟩ | ⟨⟨ok, hok⟩, -⟩
        · exact congrArg RegisterState.entry heq
        · cases hp.symm.trans hold
        · cases hp.symm.trans hok
      exact mem_unique hw hk
  · cases b with
    | nil => rintro _ ⟨⟩
    | cons j b =>
      obtain ⟨rfl, hr⟩ := cons_prefix_cons.mp hb
      have hone : OnePayload (payloads j) (run (registerStep payloads) first b) := by
        refine run_invariant (fun s i hs (hi : payloads i = payloads j) => hs.step hi)
          ⟨rfl, fun i old hi => ?_⟩ (meets_of_forall fun i hi => h i (hr.subset hi))
        by_cases hij : i = j <;> simp [first, hij] at hi
      intro i hi
      rw [((hwon b).won i).mp hi]
      exact hone.entry

/-- The second call has written and not yet restored. -/
theorem loser_read_back :
    let payloads : Nat → ShieldedTransaction := fun i =>
      { (default : ShieldedTransaction) with fee := i }
    let s := run (registerStep payloads) ⟨none, fun _ => .waiting⟩ [0, 1]
    s.phase 0 = .returned true ∧ s.entry = some (payloads 1) ∧ payloads 1 ≠ payloads 0 := by
  exact ⟨rfl, rfl, by decide⟩

end Pneumatic
