import Mathlib.Data.List.Nodup

/-!
# Codebooks

A codebook is a finite list of messages with a word for each. It encodes the
messages it lists and decodes the words it lists; when no word stands for two
messages, what was encoded decodes to itself.
-/

namespace Codebook

open List Option

variable {α β : Type*}

def encode [DecidableEq α] (book : List (α × β)) (a : α) : Option β :=
  (book.find? fun entry => entry.1 = a).map Prod.snd

def decode [DecidableEq β] (book : List (α × β)) (b : β) : Option α :=
  (book.find? fun entry => entry.2 = b).map Prod.fst

variable {book : List (α × β)} {a : α} {b : β}

theorem mem_of_encode [DecidableEq α] (h : encode book a = some b) : (a, b) ∈ book := by
  obtain ⟨entry, hf, rfl⟩ := map_eq_some_iff.mp h
  have hmem := mem_of_find?_eq_some hf
  have ha : entry.1 = a := by simpa using find?_some hf
  rwa [← ha]

theorem mem_of_decode [DecidableEq β] (h : decode book b = some a) : (a, b) ∈ book := by
  obtain ⟨entry, hf, rfl⟩ := map_eq_some_iff.mp h
  have hmem := mem_of_find?_eq_some hf
  have hb : entry.2 = b := by simpa using find?_some hf
  rwa [← hb]

theorem decode_encode [DecidableEq α] [DecidableEq β]
    (hb : (book.map Prod.snd).Nodup) (h : encode book a = some b) : decode book b = some a := by
  have hmem := mem_of_encode h
  unfold decode
  cases hf : book.find? fun entry => entry.2 = b with
  | none =>
    have ho := find?_eq_none.mp hf (a, b) hmem
    simp at ho
  | some entry =>
    have he := mem_of_find?_eq_some hf
    have hw : entry.2 = b := by simpa using find?_some hf
    rw [inj_on_of_nodup_map hb he hmem hw]
    rfl

theorem decode_eq_none [DecidableEq β] (h : b ∉ book.map Prod.snd) : decode book b = none := by
  unfold decode
  rw [map_eq_none_iff, find?_eq_none]
  intro entry he
  simp only [decide_eq_true_eq]
  rintro rfl
  exact h (mem_map_of_mem he)

end Codebook
