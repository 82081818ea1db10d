import Mathlib.Data.List.Basic

/-!
# Signature schemes and what a party can build

A signature scheme over words, with the decoders that a key and a signature pass through
before they are compared with a message, and the words a party can build: whatever it
starts from, it can join two words and cut one. A scheme holds against a party under a key
when the party builds no signature over a message that the key's owner did not sign.
-/

namespace Signatures

variable {α : Type}

/-- A signature scheme. Signing takes the randomness it draws as an argument. -/
structure Scheme (α : Type) where
  Secret : Type
  Key : Type
  Signature : Type
  publicKey : Secret → List α
  sign : Secret → Nat → List α → List α
  keyFromBytes : List α → Option Key
  signatureFromBytes : List α → Option Signature
  verify : Key → List α → Signature → Bool

/-- The decoders and the verification together: the words are a key and a signature of
that key over the message. -/
def Scheme.accepts (S : Scheme α) (key message signature : List α) : Bool :=
  match S.keyFromBytes key, S.signatureFromBytes signature with
  | some key, some signature => S.verify key message signature
  | _, _ => false

theorem Scheme.accepts_iff {S : Scheme α} {key message signature : List α} :
    S.accepts key message signature = true ↔
      ∃ k s, S.keyFromBytes key = some k ∧ S.signatureFromBytes signature = some s ∧
        S.verify k message s = true := by
  unfold Scheme.accepts
  cases S.keyFromBytes key <;> cases S.signatureFromBytes signature <;> simp

/-- The words a party can build. -/
structure Knowledge (α : Type) where
  builds : List α → Prop
  builds_append : ∀ {v w}, builds v → builds w → builds (v ++ w)
  builds_take : ∀ {w} (n : Nat), builds w → builds (w.take n)
  builds_drop : ∀ {w} (n : Nat), builds w → builds (w.drop n)

/-- The words without a letter are closed under joining and cutting. -/
def Knowledge.without (hidden : α → Prop) : Knowledge α where
  builds w := ∀ a ∈ w, ¬ hidden a
  builds_append hv hw a ha := (List.mem_append.mp ha).elim (hv a) (hw a)
  builds_take _ hw a ha := hw a (List.mem_of_mem_take ha)
  builds_drop _ hw a ha := hw a (List.mem_of_mem_drop ha)

/-- The party builds no signature under the key over a message outside of `signed`. -/
def Scheme.Unforgeable (S : Scheme α) (party : Knowledge α) (key : List α)
    (signed : List α → Prop) : Prop :=
  ∀ message, ¬ signed message → ∀ signature, party.builds signature →
    ¬ S.accepts key message signature = true

end Signatures
