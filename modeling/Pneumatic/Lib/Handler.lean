import Mathlib.Control.Lawful
import Mathlib.Data.List.Forall2

/-!
# Handlers that can fail half way

A message handler works on a state it shares with every later call and may give
up at any point, keeping whatever it has written so far. `HandlerM` is that: a
function from a state to a verdict and the state left behind, the error case
included.

`Ends m s Q E` says where a handler started in `s` ends: in `Q` with its value,
or in `E` with its error. It distributes over the monad's operations, so a
handler is followed statement by statement with `simp`, and `Ends.mono` is the
rule of consequence. `Keeps` is the special case of a property of the state
that holds at the end whatever the verdict.
-/

namespace Handler

open List

universe u

variable {σ ε : Type*} {α β : Type u}

/-- A handler over a state `σ` with errors `ε`. -/
def HandlerM (σ ε : Type*) (α : Type u) := σ → Except ε α × σ

variable {m : HandlerM σ ε α} {s' : σ} {a : α} {e : ε}

namespace HandlerM

def exec (m : HandlerM σ ε α) (s : σ) : Except ε α × σ := m s

instance : Monad (HandlerM σ ε) where
  pure a := fun s => (.ok a, s)
  bind m f := fun s =>
    match m s with
    | (.ok a, s') => f a s'
    | (.error e, s') => (.error e, s')

theorem exec_bind (m : HandlerM σ ε α) (f : α → HandlerM σ ε β) (s : σ) :
    (m >>= f).exec s = match m.exec s with
      | (.ok a, s') => (f a).exec s'
      | (.error e, s') => (.error e, s') := rfl

theorem exec_bind_ok {f : α → HandlerM σ ε β} {s : σ}
    (h : m.exec s = (.ok a, s')) : (m >>= f).exec s = (f a).exec s' := by
  rw [exec_bind, h]

theorem exec_bind_error {f : α → HandlerM σ ε β} {s : σ}
    (h : m.exec s = (.error e, s')) : (m >>= f).exec s = (.error e, s') := by
  rw [exec_bind, h]

def fail (e : ε) : HandlerM σ ε α := fun s => (.error e, s)

def getState : HandlerM σ ε σ := fun s => (.ok s, s)

def update (f : σ → σ) : HandlerM σ ε Unit := fun s => (.ok (), f s)

def require (c : Prop) [Decidable c] (e : ε) : HandlerM σ ε Unit :=
  if c then pure () else fail e

def ofOption (o : Option α) (e : ε) : HandlerM σ ε α :=
  match o with
  | some a => pure a
  | none => fail e

/-- The value of a fallible computation that does not touch the state. -/
def lift (r : Except ε α) : HandlerM σ ε α := fun s => (r, s)

/-- Run a handler for its verdict; an error is a value. -/
def attempt {ε' : Type*} (m : HandlerM σ ε α) : HandlerM σ ε' (Except ε α) :=
  fun s => (.ok (m s).1, (m s).2)

/-- A handler of a part of the state, with its errors renamed. -/
def zoom {τ ε' : Type*} (get : σ → τ) (set : σ → τ → σ) (rename : ε → ε')
    (m : HandlerM τ ε α) : HandlerM σ ε' α := fun s =>
  match m (get s) with
  | (.ok a, t) => (.ok a, set s t)
  | (.error e, t) => (.error (rename e), set s t)

/-! Running the primitives: rewriting with these runs a handler from its start. -/

theorem exec_pure (a : α) (s : σ) : (pure a : HandlerM σ ε α).exec s = (.ok a, s) := rfl

theorem exec_getState (s : σ) : (getState : HandlerM σ ε σ).exec s = (.ok s, s) := rfl

theorem exec_update (f : σ → σ) (s : σ) :
    (update f : HandlerM σ ε Unit).exec s = (.ok (), f s) := rfl

theorem exec_lift (r : Except ε α) (s : σ) : (lift r).exec s = (r, s) := rfl

theorem exec_ofOption_some (a : α) (e : ε) (s : σ) :
    (ofOption (some a) e).exec s = (.ok a, s) := rfl

theorem exec_ofOption_none (e : ε) (s : σ) :
    (ofOption (none : Option α) e).exec s = (.error e, s) := rfl

theorem exec_require (c : Prop) [Decidable c] (e : ε) (s : σ) :
    (require c e : HandlerM σ ε Unit).exec s = (if c then .ok () else .error e, s) := by
  unfold require
  split <;> rfl

end HandlerM

open HandlerM

/-- Where a handler ends. -/
def Ends (m : HandlerM σ ε α) (s : σ) (Q : α → σ → Prop) (E : ε → σ → Prop) : Prop :=
  match m s with
  | (.ok a, s') => Q a s'
  | (.error e, s') => E e s'

variable {s : σ} {Q : α → σ → Prop} {E : ε → σ → Prop}

@[simp]
theorem ends_pure : Ends (pure a : HandlerM σ ε α) s Q E ↔ Q a s :=
  Iff.rfl

@[simp]
theorem ends_fail : Ends (fail e : HandlerM σ ε α) s Q E ↔ E e s :=
  Iff.rfl

variable {f : β → HandlerM σ ε α}

@[simp]
theorem ends_bind {m : HandlerM σ ε β} :
    Ends (m >>= f) s Q E ↔ Ends m s (fun b s' => Ends (f b) s' Q E) E := by
  have hrun : (m >>= f) s = match m s with
      | (.ok b, s') => f b s'
      | (.error e, s') => (.error e, s') := rfl
  unfold Ends
  rw [hrun]
  generalize m s = r
  obtain ⟨_ | b, s'⟩ := r <;> rfl

@[simp]
theorem ends_getState {Q : σ → σ → Prop} : Ends (getState : HandlerM σ ε σ) s Q E ↔ Q s s :=
  Iff.rfl

@[simp]
theorem ends_update {f : σ → σ} {Q : Unit → σ → Prop} :
    Ends (update f : HandlerM σ ε Unit) s Q E ↔ Q () (f s) :=
  Iff.rfl

@[simp]
theorem ends_require {c : Prop} [Decidable c] {Q : Unit → σ → Prop} :
    Ends (require c e : HandlerM σ ε Unit) s Q E ↔ (c → Q () s) ∧ (¬ c → E e s) := by
  unfold require
  split <;> next h => simp [h]

@[simp]
theorem ends_ofOption {o : Option α} : Ends (ofOption o e : HandlerM σ ε α) s Q E ↔
      (∀ a, o = some a → Q a s) ∧ (o = none → E e s) := by
  cases o <;> simp [ofOption]

@[simp]
theorem ends_lift {r : Except ε α} : Ends (lift r : HandlerM σ ε α) s Q E ↔
      (∀ a, r = .ok a → Q a s) ∧ (∀ e, r = .error e → E e s) := by
  cases r <;> simp [lift, Ends]

@[simp]
theorem ends_attempt {ε' : Type*} {m : HandlerM σ ε β}
    {Q : Except ε β → σ → Prop} {E : ε' → σ → Prop} : Ends (attempt m) s Q E ↔
      Ends m s (fun b s' => Q (.ok b) s') (fun e s' => Q (.error e) s') := by
  unfold Ends attempt
  generalize m s = r
  obtain ⟨_ | b, s'⟩ := r <;> rfl

@[simp]
theorem ends_zoom {τ ε' : Type*} {get : σ → τ} {set : σ → τ → σ} {rename : ε → ε'}
    {m : HandlerM τ ε α} {E : ε' → σ → Prop} : Ends (zoom get set rename m) s Q E ↔
      Ends m (get s) (fun a t => Q a (set s t)) (fun e t => E (rename e) (set s t)) := by
  unfold Ends zoom
  generalize m (get s) = r
  obtain ⟨_ | a, t⟩ := r <;> rfl

theorem ends_ite {c : Prop} [Decidable c] {n : HandlerM σ ε α} : Ends (if c then m else n) s Q E ↔
      (c → Ends m s Q E) ∧ (¬ c → Ends n s Q E) := by
  split <;> next h => simp [h]

theorem Ends.mono {Q' : α → σ → Prop} {E' : ε → σ → Prop}
    (h : Ends m s Q E) (hQ : ∀ a s', Q a s' → Q' a s')
    (hE : ∀ e s', E e s' → E' e s') : Ends m s Q' E' := by
  unfold Ends at h ⊢
  split
  · next a s' heq => rw [heq] at h; exact hQ a s' h
  · next e s' heq => rw [heq] at h; exact hE e s' h

theorem ends_of_ok (hrun : m.exec s = (.ok a, s')) (h : Q a s') : Ends m s Q E := by
  unfold exec at hrun
  unfold Ends
  rw [hrun]
  exact h

theorem ends_of_error (hrun : m.exec s = (.error e, s')) (h : E e s') : Ends m s Q E := by
  unfold exec at hrun
  unfold Ends
  rw [hrun]
  exact h

theorem ends_iff_exec : Ends m s Q E ↔ (∀ a, (m.exec s).1 = .ok a → Q a (m.exec s).2) ∧
        (∀ e, (m.exec s).1 = .error e → E e (m.exec s).2) := by
  unfold Ends exec
  split <;> next heq => simp [heq]

theorem ends_trivial : Ends m s (fun _ _ => True) (fun _ _ => True) :=
  ends_iff_exec.mpr ⟨fun _ _ => trivial, fun _ _ => trivial⟩

theorem ends_verdict {R : Except ε α → σ → Prop} :
    Ends m s (fun a s' => R (.ok a) s') (fun e s' => R (.error e) s') ↔
      R (m.exec s).1 (m.exec s).2 := by
  unfold Ends exec
  split <;> next heq => rw [heq]

theorem exec_of_ends
    (h : Ends m s (fun b t => b = a ∧ t = s') (fun _ _ => False)) : m.exec s = (.ok a, s') := by
  unfold Ends at h
  unfold exec
  split at h
  · next heq => rw [heq, h.1, h.2]
  · exact h.elim

/-- A property of the state at the end, whatever the verdict. -/
def Keeps (m : HandlerM σ ε α) (s : σ) (P : σ → Prop) : Prop :=
  Ends m s (fun _ => P) (fun _ => P)

theorem keeps_iff {P : σ → Prop} : Keeps m s P ↔ P (m.exec s).2 := by
  unfold Keeps Ends exec
  split <;> next heq => rw [heq]

theorem Keeps.mono {P P' : σ → Prop} (h : Keeps m s P) (hP : ∀ s', P s' → P' s') : Keeps m s P' :=
  Ends.mono h (fun _ => hP) (fun _ => hP)

section Exactly

variable {R : σ → Prop} (hs : R s) {cond : β → Prop}

include hs

/-- A handler that starts by decoding, and what holds at its end exactly under a
condition. -/
theorem keeps_decode_iff {decoded : Option β}
    (h : ∀ b, decoded = some b → Keeps (f b) s fun t => (R t ↔ cond b)) :
    Keeps (ofOption decoded e >>= f) s fun t => (R t ↔ ∀ b, decoded = some b → cond b) := by
  refine ends_bind.mpr (ends_ofOption.mpr ⟨fun b hb => ?_, fun hn => ?_⟩)
  · exact (h b hb).mono fun _ ht => ht.trans (by simp [hb])
  · exact iff_of_true hs (by simp [hn])

theorem keeps_lift_iff {checked : Except ε β}
    (h : ∀ b, checked = .ok b → Keeps (f b) s fun t => (R t ↔ cond b)) :
    Keeps (lift checked >>= f) s fun t => (R t ↔ ∀ b, checked = .ok b → cond b) := by
  refine ends_bind.mpr (ends_lift.mpr ⟨fun b hb => ?_, fun e he => ?_⟩)
  · exact (h b hb).mono fun _ ht => ht.trans (by simp [hb])
  · exact iff_of_true hs (by simp [he])

end Exactly

theorem keeps_check_iff {α : Type} {R : σ → Prop} (hs : R s) {checked : Except ε Unit}
    {f : Unit → HandlerM σ ε α} {cond : Prop}
    (h : checked = .ok () → Keeps (f ()) s fun t => (R t ↔ cond)) :
    Keeps (lift checked >>= f) s fun t => (R t ↔ (checked = .ok () → cond)) :=
  (keeps_lift_iff hs fun _ hok => h hok).mono fun _ ht =>
    ht.trans ⟨fun hall hok => hall () hok, fun h _ hok => h hok⟩

/-- A handler does to a part of its state what another one does there, and relates
the states it starts and ends in. -/
structure Simulates {τ : Type*} (get : σ → τ) (R : σ → σ → Prop) (m : HandlerM σ ε α)
    (m' : HandlerM τ ε α) (s : σ) : Prop where
  verdict : (m.exec s).1 = (m'.exec (get s)).1
  part : get (m.exec s).2 = (m'.exec (get s)).2
  related : R s (m.exec s).2

section Simulates

variable {τ : Type*} {get : σ → τ} {R : σ → σ → Prop}

theorem Simulates.bind {m : HandlerM σ ε β} {m' : HandlerM τ ε β} {f' : β → HandlerM τ ε α}
    (ht : ∀ {s s' s''}, R s s' → R s' s'' → R s s'') (h : Simulates get R m m' s)
    (hf : ∀ b s', R s s' → Simulates get R (f b) (f' b) s') :
    Simulates get R (m >>= f) (m' >>= f') s := by
  obtain ⟨hv, hp, hr⟩ := h
  cases hrun : m.exec s with
  | mk verdict s' =>
    cases hrun' : m'.exec (get s) with
    | mk verdict' t =>
      rw [hrun, hrun'] at hv hp
      rw [hrun] at hr
      obtain rfl : verdict = verdict' := hv
      obtain rfl : get s' = t := hp
      cases verdict with
      | error e =>
        refine ⟨?_, ?_, ?_⟩
        · rw [exec_bind, exec_bind, hrun, hrun']
        · rw [exec_bind, exec_bind, hrun, hrun']
        · rw [exec_bind, hrun]
          exact hr
      | ok b =>
        obtain ⟨hv, hp, hrs⟩ := hf b s' hr
        refine ⟨?_, ?_, ?_⟩
        · rw [exec_bind, exec_bind, hrun, hrun']
          exact hv
        · rw [exec_bind, exec_bind, hrun, hrun']
          exact hp
        · rw [exec_bind, hrun]
          exact ht hr hrs

theorem Simulates.zoom {set : σ → τ → σ} {m : HandlerM τ ε α}
    (hget : ∀ t, get (set s t) = t) (hset : ∀ t, R s (set s t)) :
    Simulates get R (zoom get set id m) m s := by
  have hrun : (HandlerM.zoom get set id m).exec s =
      ((m.exec (get s)).1, set s (m.exec (get s)).2) := by
    simp only [HandlerM.zoom, exec]
    generalize m (get s) = r
    obtain ⟨_ | a, t⟩ := r
    · rfl
    · rfl
  refine ⟨?_, ?_, ?_⟩
  · rw [hrun]
  · rw [hrun]
    exact hget _
  · rw [hrun]
    exact hset _

theorem Simulates.lift (hr : R s s) (r : Except ε α) :
    Simulates get R (lift r) (lift r) s := ⟨rfl, rfl, hr⟩

theorem Simulates.fail (hr : R s s) (e : ε) :
    Simulates get R (fail e : HandlerM σ ε α) (fail e) s := ⟨rfl, rfl, hr⟩

theorem Simulates.pure (hr : R s s) (a : α) :
    Simulates get R (pure a : HandlerM σ ε α) (pure a) s := ⟨rfl, rfl, hr⟩

theorem Simulates.ofOption (hr : R s s) (o : Option α) (e : ε) :
    Simulates get R (ofOption o e : HandlerM σ ε α) (ofOption o e) s := by
  cases o with
  | none => exact .fail hr e
  | some a => exact .pure hr a

theorem Simulates.getState {σ : Type u} {s : σ} {get : σ → τ} {R : σ → σ → Prop}
    {f : σ → HandlerM σ ε α} {m' : HandlerM τ ε α} (h : Simulates get R (f s) m' s) :
    Simulates get R (getState >>= f) m' s :=
  ⟨h.verdict, h.part, h.related⟩

theorem Simulates.getState_part {τ : Type u} {get : σ → τ}
    {f : τ → HandlerM τ ε α} (h : Simulates get R m (f (get s)) s) :
    Simulates get R m (HandlerM.getState >>= f) s :=
  ⟨h.verdict, h.part, h.related⟩

end Simulates

/-- A handler keeps an invariant, whatever the verdict. -/
def Preserves (I : σ → Prop) (m : HandlerM σ ε α) : Prop :=
  ∀ s, I s → Keeps m s I

section Preserves

variable {I : σ → Prop}

theorem Preserves.pure (a : α) : Preserves I (Pure.pure a : HandlerM σ ε α) :=
  fun _ h => h

theorem Preserves.fail (e : ε) : Preserves I (HandlerM.fail e : HandlerM σ ε α) :=
  fun _ h => h

theorem Preserves.getState : Preserves I (HandlerM.getState : HandlerM σ ε σ) :=
  fun _ h => h

theorem Preserves.lift (r : Except ε α) : Preserves I (HandlerM.lift r : HandlerM σ ε α) :=
  fun _ h => ends_lift.mpr ⟨fun _ _ => h, fun _ _ => h⟩

theorem Preserves.ofOption (o : Option α) (e : ε) :
    Preserves I (HandlerM.ofOption o e : HandlerM σ ε α) :=
  fun _ h => ends_ofOption.mpr ⟨fun _ _ => h, fun _ => h⟩

theorem Preserves.require (c : Prop) [Decidable c] (e : ε) :
    Preserves I (HandlerM.require c e : HandlerM σ ε Unit) :=
  fun _ h => ends_require.mpr ⟨fun _ => h, fun _ => h⟩

theorem Preserves.attempt {ε' : Type*} (hm : Preserves I m) :
    Preserves I (HandlerM.attempt m : HandlerM σ ε' (Except ε α)) :=
  fun s h => ends_attempt.mpr (hm s h)

theorem Preserves.zoom {τ ε' : Type*} {get : σ → τ} {set : σ → τ → σ}
    {rename : ε → ε'} {J : τ → Prop} {m : HandlerM τ ε α} (hget : ∀ s, I s → J (get s))
    (hset : ∀ s t, I s → J t → I (set s t)) (hm : Preserves J m) :
    Preserves I (HandlerM.zoom get set rename m) := by
  intro s h
  refine ends_zoom.mpr (Ends.mono (hm (get s) (hget s h)) ?_ ?_)
  · exact fun _ t ht => hset s t h ht
  · exact fun _ t ht => hset s t h ht

theorem Preserves.update {f : σ → σ} (hf : ∀ s, I s → I (f s)) :
    Preserves I (HandlerM.update f : HandlerM σ ε Unit) :=
  fun s h => hf s h

theorem Preserves.bind {m : HandlerM σ ε β}
    (hm : Preserves I m) (hf : ∀ b, Preserves I (f b)) : Preserves I (m >>= f) := by
  intro s h
  have hk : Ends m s _ _ := hm s h
  exact ends_bind.mpr (hk.mono (fun b s' hs' => hf b s' hs') (fun _ _ hs' => hs'))

end Preserves

theorem mapM_eq_ok_iff {ε α β : Type*} {f : α → Except ε β} {inputs : List α} {values : List β} :
    inputs.mapM f = .ok values ↔ List.Forall₂ (fun a b => f a = .ok b) inputs values := by
  induction inputs generalizing values with
  | nil =>
    rw [mapM_nil, forall₂_nil_left_iff]
    exact ⟨fun h => (Except.ok.inj h).symm, fun h => congrArg Except.ok h.symm⟩
  | cons a inputs ih =>
    rw [mapM_cons, forall₂_cons_left_iff]
    cases ha : f a with
    | error e => simp [bind, Except.bind]
    | ok b =>
      cases hr : inputs.mapM f with
      | error e => simp [bind, Except.bind, ← ih, hr]
      | ok rest => simp [bind, Except.bind, pure, Except.pure, ← ih, hr, eq_comm]

theorem exists_of_forall₂_of_mem {α β : Type*} {R : α → β → Prop} {xs : List α} {ys : List β}
    {y : β} (h : List.Forall₂ R xs ys) (hy : y ∈ ys) : ∃ x ∈ xs, R x y := by
  induction h with
  | nil => cases hy
  | cons hr _ ih =>
    rcases mem_cons.mp hy with rfl | hy
    · exact ⟨_, mem_cons_self, hr⟩
    · obtain ⟨x, hx, hr⟩ := ih hy
      exact ⟨x, mem_cons_of_mem _ hx, hr⟩

theorem exists_mapM_eq_ok {ε α β : Type*} {f : α → Except ε β} {inputs : List α}
    (h : ∀ a ∈ inputs, ∃ b, f a = .ok b) : ∃ values, inputs.mapM f = .ok values := by
  simp only [mapM_eq_ok_iff]
  induction inputs with
  | nil => exact ⟨[], .nil⟩
  | cons a inputs ih =>
    obtain ⟨b, hb⟩ := h a mem_cons_self
    obtain ⟨values, hv⟩ := ih fun a ha => h a (mem_cons_of_mem _ ha)
    exact ⟨b :: values, .cons hb hv⟩

end Handler
