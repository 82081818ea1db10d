import Mathlib.Data.Countable.Basic
import Mathlib.Data.Finmap
import Mathlib.Logic.Equiv.List
import Pneumatic.Lib.Codebook

/-!
# Words for countable types

Every value of a countable type can be given a word of bytes of its own. A codec that
has to tell all values of a type apart, and to be evaluated on a few of them, lists
those in a codebook and takes the others' words from here; the two do not meet, since a
listed word does not start with a zero.
-/

namespace Words

open Codebook List

instance countableUInt8 : Countable UInt8 :=
  Function.Injective.countable fun _ _ => UInt8.toNat_inj.mp

instance countableUInt32 : Countable UInt32 :=
  Function.Injective.countable fun _ _ => UInt32.toNat_inj.mp

instance countableChar : Countable Char := Function.Injective.countable fun _ _ => Char.toNat_inj.mp

instance countableString : Countable String :=
  Function.Injective.countable fun _ _ => String.toList_inj.mp

instance countableFinmap {α β : Type} [Countable α] [Countable β] :
    Countable (Finmap fun _ : α => β) :=
  Function.Injective.countable fun _ _ => Finmap.ext

variable {α : Type} [Countable α]

theorem exists_word (α : Type) [Countable α] :
    ∃ word : α → List UInt8, Function.Injective word := by
  obtain ⟨n, hn⟩ := exists_injective_nat α
  refine ⟨fun a => replicate (n a) 0, fun a b h => hn ?_⟩
  simpa using congrArg length h

noncomputable def word : α → List UInt8 := Classical.choose (exists_word α)

theorem word_injective : Function.Injective (word : α → List UInt8) :=
  Classical.choose_spec (exists_word α)

/-- The word of a value, the listed one if there is one. -/
noncomputable def listed [DecidableEq α] (book : List (α × List UInt8)) (a : α) : List UInt8 :=
  match encode book a with
  | some listed => listed
  | none => 0 :: word a

theorem listed_injective [DecidableEq α] {book : List (α × List UInt8)}
    (hn : (book.map Prod.snd).Nodup) (ho : ∀ tail, 0 :: tail ∉ book.map Prod.snd) :
    Function.Injective (listed book) := by
  have hmem : ∀ {a w}, encode book a = some w → w ∈ book.map Prod.snd :=
    fun h => mem_map_of_mem (mem_of_encode h)
  intro a b h
  unfold listed at h
  cases ha : encode book a with
  | some w =>
    cases hb : encode book b with
    | some w' =>
      simp only [ha, hb] at h
      subst h
      exact congrArg Prod.fst (inj_on_of_nodup_map hn (mem_of_encode ha) (mem_of_encode hb) rfl)
    | none =>
      simp only [ha, hb] at h
      subst h
      exact absurd (hmem ha) (ho _)
  | none =>
    cases hb : encode book b with
    | some w' =>
      simp only [ha, hb] at h
      subst h
      exact absurd (hmem hb) (ho _)
    | none =>
      simp only [ha, hb] at h
      exact word_injective (cons.inj h).2

noncomputable def read [Nonempty α] [DecidableEq α] (book : List (α × List UInt8))
    (w : List UInt8) : α :=
  match decode book w with
  | some a => a
  | none => Function.invFun word w.tail

theorem read_listed [Nonempty α] [DecidableEq α] {book : List (α × List UInt8)}
    (hn : (book.map Prod.snd).Nodup) (ho : ∀ tail, 0 :: tail ∉ book.map Prod.snd) (a : α) :
    read book (listed book a) = a := by
  unfold read listed
  cases hl : encode book a with
  | some w =>
    rw [decode_encode hn hl]
  | none =>
    rw [decode_eq_none (ho _)]
    exact Function.leftInverse_invFun word_injective a

end Words
