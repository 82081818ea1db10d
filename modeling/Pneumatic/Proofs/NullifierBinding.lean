import Pneumatic.Shielded.Note

/-!
# What a nullifier binds

A nullifier is the hash of the spend key and of `rho`, both reduced into the base field.
`rho` is of the scalar field, whose order is the larger one, and a key is any thirty-two
bytes: two values of `rho` that are the order of the base field apart come to the same
element, and so do up to four keys.

The owner is no input of the hash. A note has one nullifier for its owner all the same,
because the key model derives the owner's public key from the secret by a hash.
-/

namespace Pneumatic

open LittleEndian

/-- `SpendKey::owner_pk` as it comes from the spend secret. -/
def ownerPkOf (sha256 : Bytes → Bytes32) (spendSecret : Bytes32) : Bytes32 :=
  sha256 ("pneumatic-shielded/v1/owner-pk".toUTF8.data.toList ++ spendSecret.bytes)

def nullifierInput (note : ShieldedNote) (spendKey : Bytes32) : List Fp :=
  [1, bytes32ToFp spendKey, bytes32ToFp (scalarToRepr note.rho)]

theorem toNat_scalarToRepr (x : Fq) : (scalarToRepr x).toNat = x.val :=
  Bytes32.toNat_ofNat ((ZMod.val_lt x).trans (by decide))

/-- There is room for one order of the base field below that of the scalar field. -/
theorem scalar_mod_eq_iff (x y : Fq) : x.val % pallasModulus = y.val % pallasModulus ↔
    x.val = y.val ∨ x.val = y.val + pallasModulus ∨ y.val = x.val + pallasModulus := by
  have hx := ZMod.val_lt x
  have hy := ZMod.val_lt y
  simp only [pallasModulus, pallasScalarModulus] at hx hy ⊢
  omega

variable {sha256 : Bytes → Bytes32} {poseidonHash : List Fp → Fp} {note note' : ShieldedNote}
  {key key' : Bytes32}

theorem nullifierInput_eq_iff : nullifierInput note key = nullifierInput note' key' ↔
    key.toNat % pallasModulus = key'.toNat % pallasModulus ∧
      (note.rho.val = note'.rho.val ∨ note.rho.val = note'.rho.val + pallasModulus ∨
        note'.rho.val = note.rho.val + pallasModulus) := by
  simp only [nullifierInput, List.cons.injEq, bytes32ToFp_eq_iff, toNat_scalarToRepr,
    scalar_mod_eq_iff, true_and, and_true]

/-- Where the hashes do not collide, a nullifier binds `rho` and the key, and a note has
exactly one of them for its owner, if and only if the two pairs are no aliases of each other
and the owner's key was derived from a secret at all. -/
theorem nullifier_binds_iff (note note' : ShieldedNote) (key key' : Bytes32)
    (hs : ∀ secret secret', ownerPkOf sha256 secret = ownerPkOf sha256 secret' → secret = secret')
    (hp : poseidonHash (nullifierInput note key) = poseidonHash (nullifierInput note' key') →
      nullifierInput note key = nullifierInput note' key') :
    ((nullifier poseidonHash note key = nullifier poseidonHash note' key' →
        note.rho = note'.rho ∧ key = key') ∧
      ∃! nf, ∃ secret, ownerPkOf sha256 secret = note.ownerPk ∧
        nf = nullifier poseidonHash note secret) ↔
    ((key.toNat % pallasModulus = key'.toNat % pallasModulus →
        (note.rho.val = note'.rho.val ∨ note.rho.val = note'.rho.val + pallasModulus ∨
          note'.rho.val = note.rho.val + pallasModulus) →
        note.rho = note'.rho ∧ key = key') ∧
      ∃ secret, ownerPkOf sha256 secret = note.ownerPk) := by
  have heq : nullifier poseidonHash note key = nullifier poseidonHash note' key' ↔
      nullifierInput note key = nullifierInput note' key' :=
    ⟨fun h => hp (toRepr_injective h), fun h => congrArg (toRepr ∘ poseidonHash) h⟩
  rw [heq, nullifierInput_eq_iff, and_imp]
  refine and_congr_right fun _ => ⟨?_, ?_⟩
  · rintro ⟨_, ⟨secret, hsecret, -⟩, -⟩
    exact ⟨secret, hsecret⟩
  · rintro ⟨secret, hsecret⟩
    refine ⟨_, ⟨secret, hsecret, rfl⟩, ?_⟩
    rintro _ ⟨other, hother, rfl⟩
    rw [hs other secret (hother.trans hsecret.symm)]

def keepSecret (input : Bytes) : Bytes32 :=
  if h : (input.drop 30).length = 32 then ⟨input.drop 30, h⟩ else default

theorem ownerPkOf_keepSecret (secret : Bytes32) : ownerPkOf keepSecret secret = secret := by
  have htag : "pneumatic-shielded/v1/owner-pk".toUTF8.data.toList.length = 30 := by decide
  have hd : ("pneumatic-shielded/v1/owner-pk".toUTF8.data.toList ++ secret.bytes).drop 30 =
      secret.bytes := by
    rw [← htag, List.drop_left]
  simp only [ownerPkOf, keepSecret, hd, secret.length_eq, dite_true]

def someNote : ShieldedNote := ⟨1, default, 0, 0⟩

/-- Two notes of one owner that differ in `rho` only. -/
theorem other_rho_other_nullifier :
    nullifier List.sum someNote default ≠ nullifier List.sum { someNote with rho := 1 } default ∧
    ∃! nf, ∃ secret, ownerPkOf keepSecret secret = someNote.ownerPk ∧
      nf = nullifier List.sum someNote secret := by
  have hr : ¬ (someNote.rho.val = (1 : Fq).val ∨ someNote.rho.val = (1 : Fq).val + pallasModulus ∨
      (1 : Fq).val = someNote.rho.val + pallasModulus) := by decide +kernel
  have hs : ∀ secret secret', ownerPkOf keepSecret secret = ownerPkOf keepSecret secret' →
      secret = secret' := by
    intro secret secret' h
    rwa [ownerPkOf_keepSecret, ownerPkOf_keepSecret] at h
  obtain ⟨hb, hu⟩ := (@nullifier_binds_iff keepSecret List.sum someNote
    { someNote with rho := 1 } default default hs fun h => absurd h (by decide +kernel)).mpr
    ⟨fun _ h => absurd h hr, default, ownerPkOf_keepSecret _⟩
  exact ⟨fun h => absurd (hb h).1 (by decide +kernel), hu⟩

/-- Zero and the order of the base field are different values of `rho`. -/
theorem rho_alias_shares_nullifier :
    let other : ShieldedNote := { someNote with rho := (pallasModulus : Fq) }
    (∀ hash, nullifier hash someNote default = nullifier hash other default) ∧
      someNote.rho ≠ other.rho := by
  have hv : ((pallasModulus : Nat) : Fq).val = pallasModulus :=
    ZMod.val_natCast_of_lt (by decide)
  refine ⟨fun hash => congrArg (toRepr ∘ hash) (nullifierInput_eq_iff.mpr ⟨rfl, ?_⟩), ?_⟩
  · exact .inr (.inr (hv.trans (Nat.zero_add _).symm))
  · intro h
    have := congrArg ZMod.val h
    rw [hv] at this
    exact absurd this (by decide)

end Pneumatic
