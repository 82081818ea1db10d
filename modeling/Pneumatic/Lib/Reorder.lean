import Mathlib.Data.List.Infix
import Mathlib.Data.List.Nodup

/-!
# A line that items join out of order

Items come in any order. Each names the item it goes after and has a name of its
own; some are unsound. An item that goes after the end of the line is placed if it
is sound and dropped if it is not; any other waits. After an item is placed, the
line takes from the waiting items the oldest that goes after the new end, again and
again, until there is none or the one it takes is unsound: that one is dropped, and
the line takes no more. An item may also be let in at the end without this, when no
sound item waits for it.

So a sound item can be left waiting for good: an unsound one that goes after the
same item came before it, and the last item in front of both came after it. The
main result is that nothing else goes wrong: a course of sound items is placed
whole if and only if none of its items is intercepted in this way.
-/

namespace Reorder

open List

variable {α κ : Type*}

/-- The name an item goes after, its own, and whether it is sound. -/
structure Labels (α κ : Type*) where
  parent : α → κ
  name : α → κ
  sound : α → Prop

/-- The name at the end of the line, what was placed, and what waits, oldest
first. -/
structure Line (α κ : Type*) where
  tip : κ
  placed : List α
  waiting : List α

variable (K : Labels α κ)

/-- What the line takes from the waiting items. -/
inductive Release : Line α κ → Line α κ → Prop
  | stop {l : Line α κ} (hnone : ∀ a ∈ l.waiting, K.parent a ≠ l.tip) : Release l l
  | drop {l : Line α κ} {front back : List α} {a : α} (hwaiting : l.waiting = front ++ a :: back)
      (holdest : ∀ b ∈ front, K.parent b ≠ l.tip) (ha : K.parent a = l.tip)
      (hunsound : ¬ K.sound a) : Release l { l with waiting := front ++ back }
  | next {l l' : Line α κ} {front back : List α} {a : α} (hwaiting : l.waiting = front ++ a :: back)
      (holdest : ∀ b ∈ front, K.parent b ≠ l.tip) (ha : K.parent a = l.tip)
      (hsound : K.sound a)
      (hrest : Release ⟨K.name a, l.placed ++ [a], front ++ back⟩ l') : Release l l'

/-- An item waits, is refused or takes its place, and items that wait may follow it. -/
inductive Arrive (l : Line α κ) (a : α) : Line α κ → Prop
  | wait (hparent : K.parent a ≠ l.tip) : Arrive l a { l with waiting := l.waiting ++ [a] }
  | refuse (hparent : K.parent a = l.tip) (hunsound : ¬ K.sound a) : Arrive l a l
  | place {l' : Line α κ} (hparent : K.parent a = l.tip) (hsound : K.sound a)
      (hrelease : Release K ⟨K.name a, l.placed ++ [a], l.waiting⟩ l') : Arrive l a l'
  | letIn (hparent : K.parent a = l.tip) (hsound : K.sound a)
      (hnone : ∀ b ∈ l.waiting, K.sound b → K.parent b ≠ K.name a) :
      Arrive l a ⟨K.name a, l.placed ++ [a], l.waiting⟩

/-- Items one after the other. -/
inductive Arrivals (start : Line α κ) : List α → Line α κ → Prop
  | nil : Arrivals start [] start
  | snoc {items : List α} {a : α} {l l' : Line α κ} (hitems : Arrivals start items l)
      (ha : Arrive K l a l') : Arrivals start (items ++ [a]) l'

/-- Items that go one after the other from a name on. -/
def Path : κ → List α → Prop
  | _, [] => True
  | tip, a :: rest => K.parent a = tip ∧ Path (K.name a) rest

/-- The name at the end of some items placed after a name. -/
def Labels.tipAfter (tip : κ) (items : List α) : κ :=
  (items.getLast?.map K.name).getD tip

/-- Sound items that go one after the other, under different names. -/
structure Course (tip : κ) (chain : List α) : Prop where
  path : Path K tip chain
  names : (tip :: chain.map K.name).Nodup
  sound : ∀ a ∈ chain, K.sound a

/-- An unsound item that goes after the same one came before this item, and an item
in front of both came after it. -/
def Intercepted (seen front : List α) (b : α) : Prop :=
  ∃ x, ¬ K.sound x ∧ K.parent x = K.parent b ∧ ∃ a ∈ front, [x, b, a].Sublist seen

variable {K} {tip : κ} {chain seen rest : List α} {l l' : Line α κ} {a b : α}

/-! ## Positions on a course -/

@[simp]
theorem tipAfter_concat (items : List α) : K.tipAfter tip (items ++ [a]) = K.name a := by
  simp [Labels.tipAfter]

theorem tipAfter_cons (items : List α) :
    K.tipAfter tip (a :: items) = K.tipAfter (K.name a) items := by
  unfold Labels.tipAfter
  rw [getLast?_cons]
  cases items.getLast? with
  | none => rfl
  | some last => rfl

variable {pre post : List α}

/-- An item of a path goes after what is in front of it. -/
theorem Path.parent_eq (h : Path K tip (pre ++ a :: post)) : K.parent a = K.tipAfter tip pre := by
  induction pre generalizing tip with
  | nil => exact h.1
  | cons c pre ih => rw [ih h.2, tipAfter_cons]

theorem getElem?_tipAfter (h : pre <+: chain) :
    (tip :: chain.map K.name)[pre.length]? = some (K.tipAfter tip pre) := by
  obtain ⟨post, rfl⟩ := h
  induction pre using reverseRecOn with
  | nil => rfl
  | append_singleton pre c _ => simp

/-- Different beginnings of a course end in different names. -/
theorem Course.tipAfter_inj (hcourse : Course K tip chain) {pre' : List α}
    (h : pre <+: chain) (h' : pre' <+: chain)
    (heq : K.tipAfter tip pre = K.tipAfter tip pre') : pre = pre' := by
  have hl : pre.length = pre'.length := by
    refine (getElem?_inj ?_ hcourse.names).mp ?_
    · rw [length_cons, length_map]
      exact Nat.lt_succ_of_le h.length_le
    · rw [getElem?_tipAfter h, getElem?_tipAfter h', heq]
  exact (prefix_of_prefix_length_le h h' (Nat.le_of_eq hl)).eq_of_length hl

variable {later : List α}

section Split

variable {placed : List α} (hcourse : Course K tip chain) (hsplit : placed ++ rest = chain)

include hcourse hsplit

/-- The end of the line is not the name of an item still to come. -/
theorem Course.tip_notMem : K.tipAfter tip placed ∉ rest.map K.name := by
  intro hmem
  obtain ⟨b, hb, hn⟩ := mem_map.mp hmem
  obtain ⟨mid, post, rfl⟩ := append_of_mem hb
  have heq := hcourse.tipAfter_inj (show placed <+: chain from ⟨_, hsplit⟩)
    (show placed ++ mid ++ [b] <+: chain from ⟨post, by rw [← hsplit]; simp⟩)
    (by rw [tipAfter_concat, hn])
  have hl := congrArg length heq
  simp only [length_append, length_singleton] at hl
  omega

/-- The only item of the course that goes after the end of the line is the next
one. -/
theorem Course.head_of_parent (hb : b ∈ chain)
    (hpr : K.parent b = K.tipAfter tip placed) : ∃ later, rest = b :: later := by
  obtain ⟨pre, post, hc⟩ := append_of_mem hb
  have hp := hcourse.path
  rw [hc] at hp
  have hpre : pre = placed := by
    refine hcourse.tipAfter_inj ⟨b :: post, hc.symm⟩ ⟨rest, hsplit⟩ ?_
    rw [← hp.parent_eq, hpr]
  refine ⟨post, ?_⟩
  rw [hpre, ← hsplit] at hc
  exact append_cancel_left hc

theorem Course.parent_head (hr : rest = b :: later) : K.parent b = K.tipAfter tip placed := by
  have hp := hcourse.path
  rw [← hsplit, hr] at hp
  exact hp.parent_eq

theorem Course.sound_head (hr : rest = b :: later) : K.sound b := by
  refine hcourse.sound b ?_
  rw [← hsplit, hr]
  exact mem_append_right _ mem_cons_self

/-- What was placed does not go after an item still to come. -/
theorem Course.parent_notMem (ha : a ∈ placed) : K.parent a ∉ rest.map K.name := by
  obtain ⟨pre, post, hpl⟩ := append_of_mem ha
  have hsplit' : pre ++ (a :: post ++ rest) = chain := by
    rw [← hsplit, hpl]
    simp
  have hp := hcourse.path
  rw [← hsplit', cons_append] at hp
  intro hmem
  refine hcourse.tip_notMem hsplit' ?_
  rw [← hp.parent_eq, map_append]
  exact mem_append_right _ hmem

theorem Course.notMem_placed (hr : rest = b :: later) : b ∉ placed := by
  intro hb
  have hc : chain.Nodup := (nodup_cons.mp hcourse.names).2.of_map
  rw [← hsplit, hr] at hc
  exact disjoint_of_nodup_append hc hb mem_cons_self

end Split

/-! ## Order among what has come -/

open Classical in
theorem filter_mem_eq_self {kept : List α} (h : kept.Sublist seen) (hn : seen.Nodup) :
    seen.filter (· ∈ kept) = kept := by
  induction h with
  | slnil => rfl
  | @cons kept seen c hsub ih =>
    obtain ⟨hc, hs⟩ := nodup_cons.mp hn
    have hnot : c ∉ kept := fun hmem => hc (hsub.subset hmem)
    rw [filter_cons_of_neg (by simpa using hnot), ih hs]
  | @cons_cons kept seen c hsub ih =>
    obtain ⟨hc, hs⟩ := nodup_cons.mp hn
    have hsm : ∀ d ∈ seen, decide (d ∈ c :: kept) = decide (d ∈ kept) := by
      intro d hd
      have hne : d ≠ c := fun heq => hc (heq ▸ hd)
      simp [hne]
    rw [filter_cons_of_pos (by simp), filter_congr hsm, ih hs]

variable {items : List α}

/-- Items in their order are in it among those that are kept. -/
theorem sublist_of_subset {kept : List α} (hn : seen.Nodup)
    (hk : kept.Sublist seen) (hi : items.Sublist seen)
    (hs : ∀ a ∈ items, a ∈ kept) : items.Sublist kept := by
  classical
  have hf : items.filter (· ∈ kept) = items :=
    filter_eq_self.mpr fun a ha => by simpa using hs a ha
  have hsub := hi.filter fun a => decide (a ∈ kept)
  rwa [hf, filter_mem_eq_self hk hn] at hsub

/-- Only the last item of a sublist can be the one that has just come. -/
theorem sublist_of_concat (items : List α) (h : (items ++ [b]).Sublist (seen ++ [a]))
    (hne : b ≠ a) : (items ++ [b]).Sublist seen := by
  rcases sublist_append_iff.mp h with ⟨l₁, l₂, heq, hl₁, hl₂⟩
  rcases sublist_singleton.mp hl₂ with rfl | rfl
  · rw [heq, append_nil]
    exact hl₁
  · have hl := (append_inj' heq rfl).2
    exact absurd (singleton_inj.mp hl) hne

variable {front back : List α}

/-- What comes before an item in a list is in front of it. -/
theorem mem_front_of_sublist {x : α}
    (hn : (front ++ a :: back).Nodup) (h : [x, a].Sublist (front ++ a :: back))
    (hne : x ≠ a) : x ∈ front := by
  obtain ⟨l₁, l₂, heq, hl₁, hl₂⟩ := sublist_append_iff.mp h
  cases l₁ with
  | cons y l₁ =>
    obtain ⟨rfl, -⟩ := cons.inj heq
    exact hl₁.subset mem_cons_self
  | nil =>
    obtain rfl : [x, a] = l₂ := heq
    rcases sublist_cons_iff.mp hl₂ with hb | ⟨tail, hc, -⟩
    · have ha : a ∈ back := hb.subset (mem_cons_of_mem x mem_cons_self)
      exact absurd ha (nodup_cons.mp (nodup_append.mp hn).2.1).1
    · exact absurd (cons.inj hc).1 hne

/-- An item of a list with one more at its end is that one or an item of the list. -/
theorem split_concat (h : items ++ [a] = pre ++ b :: post) :
    (pre = items ∧ b = a) ∨ ∃ post', items = pre ++ b :: post' := by
  rcases eq_nil_or_concat post with rfl | ⟨post', c, rfl⟩
  · obtain ⟨hi, hab⟩ := append_inj' h rfl
    exact .inl ⟨hi.symm, (singleton_inj.mp hab).symm⟩
  · have hsplit : items ++ [a] = (pre ++ b :: post') ++ [c] := by simpa using h
    exact .inr ⟨post', (append_inj' hsplit rfl).1⟩

theorem Intercepted.mono {front' : List α} (h : Intercepted K seen front b)
    (hf : ∀ c ∈ front, c ∈ front') : Intercepted K (seen ++ [a]) front' b := by
  obtain ⟨x, hu, hp, c, hc, hsub⟩ := h
  exact ⟨x, hu, hp, c, hf c hc, hsub.trans (sublist_append_left _ _)⟩

/-- What has just come intercepts nothing when it is not in front. -/
theorem Intercepted.of_concat (h : Intercepted K (seen ++ [a]) front b)
    (ha : a ∉ front) : Intercepted K seen front b := by
  obtain ⟨x, hu, hp, c, hc, hsub⟩ := h
  have hne : c ≠ a := fun heq => ha (heq ▸ hc)
  exact ⟨x, hu, hp, c, hc, sublist_of_concat [x, b] hsub hne⟩

/-! ## Where the line stands -/

/-- What holds of the line and of what has come, with a part of the course still to
place. -/
structure Standing (K : Labels α κ) (tip : κ) (chain seen : List α) (l : Line α κ)
    (rest : List α) : Prop where
  split : l.placed ++ rest = chain
  tip_eq : l.tip = K.tipAfter tip l.placed
  seen_placed : ∀ a ∈ l.placed, a ∈ seen
  waiting : l.waiting.Sublist seen
  future : ∀ a ∈ seen, K.parent a ∈ rest.map K.name → a ∈ l.waiting
  clean : ∀ pre b post, l.placed = pre ++ b :: post → ¬ Intercepted K seen pre b
  stuck : ∀ b later, rest = b :: later → b ∈ seen → Intercepted K seen l.placed b

/-- The same while the line takes from the waiting items, after an item that has
just come. -/
structure Releasing (K : Labels α κ) (tip : κ) (chain seen : List α) (trigger : α)
    (l : Line α κ) (rest : List α) : Prop where
  split : l.placed ++ rest = chain
  tip_eq : l.tip = K.tipAfter tip l.placed
  seen_placed : ∀ a ∈ l.placed, a ∈ seen ++ [trigger]
  placed_trigger : trigger ∈ l.placed
  waiting : l.waiting.Sublist seen
  future : ∀ a ∈ seen, K.parent a = l.tip ∨ K.parent a ∈ rest.map K.name → a ∈ l.waiting
  clean : ∀ pre b post, l.placed = pre ++ b :: post → ¬ Intercepted K (seen ++ [trigger]) pre b

section Release

variable {trigger : α} (hcourse : Course K tip chain)

include hcourse

section

variable (h : Releasing K tip chain seen trigger l rest)

include h

/-- What an item still to come goes after was not there when it came. -/
theorem Releasing.future_concat
    (ha : a ∈ seen ++ [trigger]) (hp : K.parent a ∈ rest.map K.name) : a ∈ seen := by
  rcases mem_append.mp ha with ha | ha
  · exact ha
  · obtain rfl := mem_singleton.mp ha
    exact absurd hp (hcourse.parent_notMem h.split h.placed_trigger)

/-- The next item waits if it has come. -/
theorem Releasing.head_waits (hr : rest = b :: later) (hb : b ∈ seen ++ [trigger]) :
    b ∈ l.waiting ∧ K.parent b = l.tip := by
  have hp : K.parent b = l.tip := by
    rw [h.tip_eq]
    exact hcourse.parent_head h.split hr
  rcases mem_append.mp hb with hb | hb
  · exact ⟨h.future b hb (.inl hp), hp⟩
  · obtain rfl := mem_singleton.mp hb
    exact absurd h.placed_trigger (hcourse.notMem_placed h.split hr)

/-- What the line takes and places is the next item, and was not intercepted. -/
theorem Releasing.next (hn : (seen ++ [trigger]).Nodup) (hsn : ∀ a ∈ seen, K.sound a → a ∈ chain)
    (hw : l.waiting = front ++ a :: back)
    (hol : ∀ b ∈ front, K.parent b ≠ l.tip) (ha : K.parent a = l.tip) (hsa : K.sound a) :
    ∃ later, rest = a :: later ∧ Releasing K tip chain seen trigger
      ⟨K.name a, l.placed ++ [a], front ++ back⟩ later := by
  have haw : a ∈ l.waiting := by
    rw [hw]
    exact mem_append_right _ mem_cons_self
  have has : a ∈ seen := h.waiting.subset haw
  have hs : seen.Nodup := (nodup_append.mp hn).1
  obtain ⟨later, rfl⟩ := hcourse.head_of_parent h.split (hsn a has hsa) (ha.trans h.tip_eq)
  have hk : (front ++ back).Sublist l.waiting := by
    rw [hw]
    exact (List.Sublist.refl front).append (sublist_cons_self a back)
  refine ⟨later, rfl, ?_, ?_, ?_, ?_, hk.trans h.waiting, ?_, ?_⟩
  · rw [← h.split]
    simp
  · rw [tipAfter_concat]
  · intro c hc
    rcases mem_append.mp hc with hc | hc
    · exact h.seen_placed c hc
    · rw [mem_singleton.mp hc]
      exact mem_append_left _ has
  · exact mem_append_left _ h.placed_trigger
  · intro c hc hp
    have hl : K.parent c ∈ (a :: later).map K.name := by
      rcases hp with heq | hmem
      · rw [heq]
        exact mem_cons_self
      · exact mem_cons_of_mem _ hmem
    have hcw := h.future c hc (.inr hl)
    have hne : c ≠ a := by
      rintro rfl
      rw [ha, h.tip_eq] at hl
      exact hcourse.tip_notMem h.split hl
    rw [hw] at hcw
    simpa [hne] using hcw
  · intro pre b post hpl hi
    rcases split_concat hpl with ⟨rfl, rfl⟩ | ⟨post', hold⟩
    · -- the item just placed: what would have intercepted it waits, and is older
      obtain ⟨x, hu, hp, c, -, hsub⟩ := hi
      have htwo : [x, b].Sublist (seen ++ [trigger]) :=
        (sublist_append_left [x, b] [c]).trans hsub
      have hne : b ≠ trigger := by
        rintro rfl
        exact disjoint_of_nodup_append hn has mem_cons_self
      have hxb : [x, b].Sublist seen := sublist_of_concat [x] htwo hne
      have ho : [x, b].Sublist l.waiting := by
        refine sublist_of_subset hs h.waiting hxb fun d hd => ?_
        rcases mem_cons.mp hd with rfl | hd
        · exact h.future d (hxb.subset mem_cons_self) (.inl (hp.trans ha))
        · rw [mem_singleton.mp hd]
          exact haw
      have hwt := hs.sublist h.waiting
      rw [hw] at ho hwt
      refine hol x (mem_front_of_sublist hwt ho ?_) (hp.trans ha)
      rintro rfl
      exact hu hsa
    · exact h.clean pre b post' hold hi

/-- An unsound item that is taken intercepts the next one, if that has come. -/
theorem Releasing.drop (hw : l.waiting = front ++ a :: back)
    (ho : ∀ b ∈ front, K.parent b ≠ l.tip) (ha : K.parent a = l.tip) (hu : ¬ K.sound a) :
    Standing K tip chain (seen ++ [trigger]) { l with waiting := front ++ back } rest := by
  have hk : (front ++ back).Sublist l.waiting := by
    rw [hw]
    exact (List.Sublist.refl front).append (sublist_cons_self a back)
  have hsn := sublist_append_left seen [trigger]
  -- an item other than the dropped one that waited still waits
  have hs : ∀ {c}, c ∈ l.waiting → c ≠ a → c ∈ front ++ back := by
    intro c hc hne
    rw [hw] at hc
    simpa [hne] using hc
  refine ⟨h.split, h.tip_eq, h.seen_placed, (hk.trans h.waiting).trans hsn, ?_, h.clean, ?_⟩
  · intro c hc hp
    refine hs (h.future c (h.future_concat hcourse hc hp) (.inr hp)) ?_
    rintro rfl
    rw [ha, h.tip_eq] at hp
    exact hcourse.tip_notMem h.split hp
  · intro b later hr hb
    obtain ⟨hbw, hp⟩ := h.head_waits hcourse hr hb
    have hbs := hcourse.sound_head h.split hr
    rw [hw] at hbw
    have hbb : b ∈ back := by
      rcases mem_append.mp hbw with hf | hbc
      · exact absurd hp (ho b hf)
      · refine (mem_cons.mp hbc).resolve_left ?_
        rintro rfl
        exact hu hbs
    refine ⟨a, hu, ha.trans hp.symm, trigger, h.placed_trigger, ?_⟩
    have hab : [a, b].Sublist seen := by
      refine List.Sublist.trans ?_ h.waiting
      rw [hw]
      exact ((singleton_sublist.mpr hbb).cons_cons a).trans (sublist_append_right front _)
    exact hab.append (List.Sublist.refl [trigger])

/-- The line stands when the next item has not come. -/
theorem Releasing.stop (hn : ∀ b ∈ l.waiting, K.sound b → K.parent b ≠ l.tip) :
    Standing K tip chain (seen ++ [trigger]) l rest := by
  refine ⟨h.split, h.tip_eq, h.seen_placed,
    h.waiting.trans (sublist_append_left _ _), ?_, h.clean, ?_⟩
  · intro c hc hp
    exact h.future c (h.future_concat hcourse hc hp) (.inr hp)
  · intro b later hr hb
    obtain ⟨hw, hp⟩ := h.head_waits hcourse hr hb
    exact absurd hp (hn b hw (hcourse.sound_head h.split hr))

/-- However far the line gets, it stands well. -/
theorem Releasing.standing (hn : (seen ++ [trigger]).Nodup) (hs : ∀ a ∈ seen, K.sound a → a ∈ chain)
    (hr : Release K l l') : ∃ rest', Standing K tip chain (seen ++ [trigger]) l' rest' := by
  induction hr generalizing rest with
  | stop hnn =>
    exact ⟨rest, h.stop hcourse fun b hb _ => hnn b hb⟩
  | drop hw ho ha hu =>
    exact ⟨rest, h.drop hcourse hw ho ha hu⟩
  | next hw ho ha hsa _ ih =>
    obtain ⟨later, -, hnx⟩ :=
      h.next hcourse hn hs hw ho ha hsa
    exact ih hnx

end

end Release

/-! ## Arrivals -/

theorem Standing.start : Standing K tip chain [] ⟨tip, [], []⟩ chain where
  split := rfl
  tip_eq := rfl
  seen_placed _ ha := by cases ha
  waiting := List.Sublist.refl _
  future _ ha := by cases ha
  clean pre b post h := by cases pre <;> cases h
  stuck _ _ _ hb := by cases hb

/-- Before an item comes nothing in front of it is new. -/
theorem Standing.clean_concat (h : Standing K tip chain seen l rest) (ha : a ∉ seen)
    (hp : l.placed = pre ++ b :: post) : ¬ Intercepted K (seen ++ [a]) pre b := by
  intro hi
  refine h.clean pre b post hp (hi.of_concat fun hmem => ha ?_)
  refine h.seen_placed a ?_
  rw [hp]
  exact mem_append_left _ hmem

/-- The next item comes, and the line begins to take from the waiting ones. -/
theorem Standing.place (h : Standing K tip chain seen l (a :: later)) (ha : a ∉ seen) :
    Releasing K tip chain seen a ⟨K.name a, l.placed ++ [a], l.waiting⟩ later := by
  refine ⟨?_, ?_, ?_, ?_, h.waiting, ?_, ?_⟩
  · rw [← h.split]
    simp
  · rw [tipAfter_concat]
  · intro c hc
    rcases mem_append.mp hc with hc | hc
    · exact mem_append_left _ (h.seen_placed c hc)
    · exact mem_append_right _ hc
  · exact mem_append_right _ mem_cons_self
  · intro c hc hf
    refine h.future c hc ?_
    rcases hf with heq | hmem
    · rw [heq]
      exact mem_cons_self
    · exact mem_cons_of_mem _ hmem
  · intro pre b post hsplit
    rcases split_concat hsplit with ⟨rfl, rfl⟩ | ⟨post', hold⟩
    · -- what is in front of it came before
      rintro ⟨x, -, -, c, hc, hsub⟩
      have hcs := h.seen_placed c hc
      have ht := sublist_of_concat [x, b] hsub fun heq => ha (heq ▸ hcs)
      exact ha (ht.subset (mem_cons_of_mem x mem_cons_self))
    · exact h.clean_concat ha hold

theorem Standing.arrive (hcourse : Course K tip chain)
    (h : Standing K tip chain seen l rest) (hn : (seen ++ [a]).Nodup)
    (hs : ∀ b ∈ seen ++ [a], K.sound b → b ∈ chain) (har : Arrive K l a l') :
    ∃ rest', Standing K tip chain (seen ++ [a]) l' rest' := by
  have ha : a ∉ seen := fun hmem =>
    disjoint_of_nodup_append hn hmem mem_cons_self
  have hpl : ∀ c ∈ l.placed, c ∈ seen ++ [a] :=
    fun c hc => mem_append_left _ (h.seen_placed c hc)
  -- the next item comes with this arrival, or had come and was intercepted
  have hst : (∀ later, rest ≠ a :: later) → ∀ b later, rest = b :: later →
      b ∈ seen ++ [a] → Intercepted K (seen ++ [a]) l.placed b := by
    intro ho b later hr hb
    rcases mem_append.mp hb with hb | hb
    · exact (h.stuck b later hr hb).mono fun _ hc => hc
    · rw [mem_singleton.mp hb] at hr
      exact absurd hr (ho later)
  have hnx : K.parent a = l.tip → K.sound a → ∃ later, rest = a :: later := by
    intro hp hsa
    exact hcourse.head_of_parent h.split (hs a (mem_append_right _ mem_cons_self) hsa)
      (hp.trans h.tip_eq)
  cases har with
  | wait hp =>
    refine ⟨rest, h.split, h.tip_eq, hpl, h.waiting.append (.refl [a]), ?_,
      fun pre b post => h.clean_concat ha, hst fun later hr => ?_⟩
    · intro c hc hf
      rcases mem_append.mp hc with hc | hc
      · exact mem_append_left _ (h.future c hc hf)
      · exact mem_append_right _ hc
    · exact hp ((hcourse.parent_head h.split hr).trans h.tip_eq.symm)
  | refuse hp hu =>
    refine ⟨rest, h.split, h.tip_eq, hpl, h.waiting.trans (sublist_append_left _ _), ?_,
      fun pre b post => h.clean_concat ha, hst fun later hr => ?_⟩
    · intro c hc hf
      rcases mem_append.mp hc with hc | hc
      · exact h.future c hc hf
      · rw [mem_singleton.mp hc, hp, h.tip_eq] at hf
        exact absurd hf (hcourse.tip_notMem h.split)
    · exact hu (hcourse.sound_head h.split hr)
  | place hp hsa hrl =>
    obtain ⟨later, rfl⟩ := hnx hp hsa
    exact (h.place ha).standing hcourse hn (fun b hb => hs b (mem_append_left _ hb)) hrl
  | letIn hp hsa hnn =>
    obtain ⟨later, rfl⟩ := hnx hp hsa
    exact ⟨later, (h.place ha).stop hcourse hnn⟩

theorem Standing.arrivals (hcourse : Course K tip chain)
    (hn : items.Nodup) (hs : ∀ b ∈ items, K.sound b → b ∈ chain)
    (h : Arrivals K ⟨tip, [], []⟩ items l) : ∃ rest, Standing K tip chain items l rest := by
  induction h with
  | nil => exact ⟨chain, .start⟩
  | snoc _ ha ih =>
    obtain ⟨rest, hst⟩ := ih (nodup_append.mp hn).1 fun b hb => hs b (mem_append_left _ hb)
    exact hst.arrive hcourse hn hs ha

/-- Of a course that has come among unsound items a beginning is placed, and all of
it if and only if none of its items was intercepted. -/
theorem placed_iff (hcourse : Course K tip chain)
    (hn : items.Nodup) (hsn : ∀ b ∈ items, K.sound b → b ∈ chain)
    (hcm : ∀ b ∈ chain, b ∈ items) (h : Arrivals K ⟨tip, [], []⟩ items l) : (l.placed = chain ↔
      ∀ pre b post, chain = pre ++ b :: post → ¬ Intercepted K items pre b) ∧
    l.placed <+: chain := by
  obtain ⟨rest, hs⟩ := Standing.arrivals hcourse hn hsn h
  refine ⟨⟨fun hp pre b post hc => ?_, fun hf => ?_⟩, ⟨rest, hs.split⟩⟩
  · exact hs.clean pre b post (hp.trans hc)
  · have hsplit := hs.split
    cases rest with
    | nil => rwa [append_nil] at hsplit
    | cons b later =>
      have hb : b ∈ items := by
        refine hcm b ?_
        rw [← hsplit]
        exact mem_append_right _ mem_cons_self
      exact absurd (hs.stuck b later rfl hb) (hf _ b later hsplit.symm)

end Reorder
