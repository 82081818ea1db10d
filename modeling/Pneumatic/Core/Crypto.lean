import Pneumatic.Core.Bytes
import Pneumatic.Lib.Signatures

/-!
# Hybrid signatures

The signature half of `crypto.rs`. A hybrid signature is the Ed25519 signature, the
ML-DSA public key and the ML-DSA signature, one after the other. The identity is the
Ed25519 key alone: `checkSignature` is given that key by its caller and takes the other
one out of the signature it checks.

The two schemes are libraries of their own; of them only the byte lengths and that a
signature verifies under its own key are used. The locks around a provider's keys are never taken
for writing, so reading a key cannot fail.
-/

namespace Pneumatic

open Signatures List

def ed25519SigLen : Nat := 64
def mldsaPkLen : Nat := 1312
def mldsaSigLen : Nat := 2420
def mldsaFullSigLen : Nat := ed25519SigLen + mldsaPkLen + mldsaSigLen

/-- The two schemes, with what their libraries say of the words they return. -/
structure HybridSchemes where
  ed25519 : Scheme UInt8
  mldsa : Scheme UInt8
  ed25519_publicKey_length : ∀ secret, (ed25519.publicKey secret).length = 32
  ed25519_sign_length : ∀ secret r data, (ed25519.sign secret r data).length = ed25519SigLen
  ed25519_accepts_sign : ∀ secret r data,
    ed25519.accepts (ed25519.publicKey secret) data (ed25519.sign secret r data) = true
  mldsa_publicKey_length : ∀ secret, (mldsa.publicKey secret).length = mldsaPkLen
  mldsa_sign_length : ∀ secret r data, (mldsa.sign secret r data).length = mldsaSigLen
  mldsa_accepts_sign : ∀ secret r data,
    mldsa.accepts (mldsa.publicKey secret) data (mldsa.sign secret r data) = true

namespace HybridSchemes

variable (S : HybridSchemes)

/-- `Ed25519Provider`, its two signing keys. -/
structure Ed25519Provider where
  signingKey : S.ed25519.Secret
  mldsaSecretKey : S.mldsa.Secret

variable {S}

/-- `public_key`: the Ed25519 half only. -/
def Ed25519Provider.publicKey (provider : S.Ed25519Provider) : Bytes :=
  S.ed25519.publicKey provider.signingKey

def Ed25519Provider.mldsaPublicKey (provider : S.Ed25519Provider) : Bytes :=
  S.mldsa.publicKey provider.mldsaSecretKey

/-- `sign_data`. The ML-DSA half draws fresh randomness, the Ed25519 half is
deterministic. -/
def Ed25519Provider.signData (provider : S.Ed25519Provider) (randomness : Nat)
    (data : Bytes) : Bytes :=
  S.ed25519.sign provider.signingKey 0 data ++ provider.mldsaPublicKey ++
    S.mldsa.sign provider.mldsaSecretKey randomness data

def splitHybridSignature (signature : Bytes) : Option (Bytes × Bytes × Bytes) :=
  if signature.length ≠ mldsaFullSigLen then none
  else
    some (signature.take ed25519SigLen, (signature.drop ed25519SigLen).take mldsaPkLen,
      signature.drop (ed25519SigLen + mldsaPkLen))

variable (S)

def checkEd25519Half (signature ed25519PublicKey data : Bytes) : Bool :=
  match S.ed25519.signatureFromBytes signature with
  | none => false
  | some sig =>
    if ed25519PublicKey.length ≠ 32 then false
    else
      match S.ed25519.keyFromBytes ed25519PublicKey with
      | none => false
      | some pk => S.ed25519.verify pk data sig

def checkMlDsaHalf (signature mldsaPk data : Bytes) : Bool :=
  match S.mldsa.signatureFromBytes signature with
  | none => false
  | some detached =>
    match S.mldsa.keyFromBytes mldsaPk with
    | none => false
    | some pk => S.mldsa.verify pk data detached

/-- `check_signature`, which writes the two checks out once more. The provider never answers
with an error. -/
def checkSignature (signature publicKey data : Bytes) : Option Bool :=
  match splitHybridSignature signature with
  | none => some false
  | some (ed25519Sig, mldsaPk, mldsaSig) =>
    -- the Ed25519 half, against the key the caller names
    if ¬ S.checkEd25519Half ed25519Sig publicKey data then some false
    -- the ML-DSA half, against the key the signature brings along
    else some (S.checkMlDsaHalf mldsaSig mldsaPk data)

variable {signature data : Bytes}

theorem checkEd25519Half_iff {publicKey : Bytes} :
    S.checkEd25519Half signature publicKey data = true ↔
      publicKey.length = 32 ∧ S.ed25519.accepts publicKey data signature = true := by
  rw [Scheme.accepts_iff]
  unfold checkEd25519Half
  cases S.ed25519.signatureFromBytes signature with
  | none => simp
  | some sig =>
    by_cases hlen : publicKey.length = 32
    · cases S.ed25519.keyFromBytes publicKey <;> simp [hlen]
    · simp [hlen]

theorem checkMlDsaHalf_iff {mldsaPk : Bytes} : S.checkMlDsaHalf signature mldsaPk data = true ↔
      S.mldsa.accepts mldsaPk data signature = true := by
  rw [Scheme.accepts_iff]
  unfold checkMlDsaHalf
  cases S.mldsa.signatureFromBytes signature with
  | none => simp
  | some d => cases S.mldsa.keyFromBytes mldsaPk <;> simp

/-- The parts of a signature of the right length, and the signature of the parts. -/
theorem splitHybridSignature_eq_some_iff {ed25519Sig mldsaPk mldsaSig : Bytes} :
    splitHybridSignature signature = some (ed25519Sig, mldsaPk, mldsaSig) ↔
      signature = ed25519Sig ++ mldsaPk ++ mldsaSig ∧
        ed25519Sig.length = ed25519SigLen ∧ mldsaPk.length = mldsaPkLen ∧
        mldsaSig.length = mldsaSigLen := by
  unfold splitHybridSignature
  constructor
  · intro h
    split at h
    · cases h
    · next hlen =>
      rw [not_not, mldsaFullSigLen] at hlen
      obtain ⟨rfl, rfl, rfl⟩ := h
      refine ⟨?_, ?_, ?_, ?_⟩
      · rw [← drop_drop, append_assoc, take_append_drop, take_append_drop]
      · rw [length_take]; omega
      · rw [length_take, length_drop]; omega
      · rw [length_drop]; omega
  · rintro ⟨rfl, hed, hpk, hsig⟩
    rw [if_neg]
    · rw [append_assoc, ← drop_drop, ← hed, ← hpk, take_left, drop_left, take_left, drop_left]
    · simp only [length_append, hed, hpk, hsig, mldsaFullSigLen, ne_eq, not_true, not_false_eq_true]

/-- What an accepted signature consists of. The ML-DSA key is one of its parts, and
`publicKey` says nothing about it. -/
theorem checkSignature_iff {publicKey : Bytes} :
    S.checkSignature signature publicKey data = some true ↔ publicKey.length = 32 ∧
        ∃ es ml ms, signature = es ++ ml ++ ms ∧
          es.length = ed25519SigLen ∧ ml.length = mldsaPkLen ∧
          ms.length = mldsaSigLen ∧ S.ed25519.accepts publicKey data es = true ∧
          S.mldsa.accepts ml data ms = true := by
  unfold checkSignature
  constructor
  · intro h
    cases hs : splitHybridSignature signature with
    | none => simp [hs] at h
    | some parts =>
      obtain ⟨es, ml, ms⟩ := parts
      obtain ⟨hsig, hed, hpk, hml⟩ := splitHybridSignature_eq_some_iff.mp hs
      simp only [hs] at h
      by_cases hh : S.checkEd25519Half es publicKey data = true
      · simp only [hh, not_true, if_false, Option.some.injEq] at h
        obtain ⟨hlen, ha⟩ := S.checkEd25519Half_iff.mp hh
        exact ⟨hlen, es, ml, ms, hsig, hed, hpk, hml, ha,
          S.checkMlDsaHalf_iff.mp h⟩
      · simp [hh] at h
  · rintro ⟨hlen, es, ml, ms, hsig, hed, hpk, hml, ha, ho⟩
    simp only [splitHybridSignature_eq_some_iff.mpr ⟨hsig, hed, hpk, hml⟩,
      S.checkEd25519Half_iff.mpr ⟨hlen, ha⟩, S.checkMlDsaHalf_iff.mpr ho, not_true, if_false]

end HybridSchemes

end Pneumatic
