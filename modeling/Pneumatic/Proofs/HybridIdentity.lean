import Pneumatic.Core.Crypto
import Pneumatic.Core.Messages
import Pneumatic.Proofs.PoolRepresentation

/-!
# What a hybrid signature takes to forge

An attacker is meant to need both halves. It does need both, but they are not halves of one
identity: the Ed25519 signature has to verify under the sender's key, and the ML-DSA
signature under a key that comes with the signature. Whoever can sign with Ed25519 in the
sender's place puts an ML-DSA key of its own beside it. What protects the identity is the
Ed25519 key alone, and against a broken Ed25519 only that the attacker has no ML-DSA key
of any kind.
-/

namespace Pneumatic

open Signatures List

namespace HybridSchemes

variable {S : HybridSchemes}

/-- A provider and the messages it signed. -/
structure HonestProvider (S : HybridSchemes) extends S.Ed25519Provider where
  signed : Bytes → Prop

/-- The attacker has the signatures that the provider made. -/
def Observes (attacker : Knowledge UInt8) (honest : S.HonestProvider) : Prop :=
  ∀ message, honest.signed message → ∀ randomness,
    attacker.builds (honest.signData randomness message)

/-- No signature that the attacker builds passes for the provider's over a message it
did not sign. -/
def Protected (attacker : Knowledge UInt8) (honest : S.HonestProvider) : Prop :=
  ∀ message, ¬ honest.signed message → ∀ signature, attacker.builds signature →
    ¬ S.checkSignature signature honest.publicKey message = some true

/-- The attacker builds valid Ed25519 signatures for every key and message. -/
def BreaksEd25519 (S : HybridSchemes) (attacker : Knowledge UInt8) : Prop :=
  ∀ secret message, ∃ signature, attacker.builds signature ∧ signature.length = ed25519SigLen ∧
    S.ed25519.accepts (S.ed25519.publicKey secret) message signature = true

section

variable (attacker : Knowledge UInt8) (honest : S.HonestProvider)

/-- The attacker cannot forge under the provider's Ed25519 key. -/
def Ed25519Unforgeable : Prop :=
  S.ed25519.Unforgeable attacker honest.publicKey honest.signed

/-- The attacker cannot forge under the provider's ML-DSA key. -/
def MldsaUnforgeable : Prop :=
  S.mldsa.Unforgeable attacker honest.mldsaPublicKey honest.signed

/-- The attacker signs with ML-DSA under no key at all, its own included. -/
def SignsUnderNoMldsaKey : Prop :=
  ∀ key, key.length = mldsaPkLen → attacker.builds key → ∀ message,
    ¬ honest.signed message → ∀ signature, signature.length = mldsaSigLen →
      attacker.builds signature → ¬ S.mldsa.accepts key message signature = true

/-- The ML-DSA key that a signature brings along. -/
def embeddedKey (signature : Bytes) : Bytes := (signature.drop ed25519SigLen).take mldsaPkLen

/-- The same for the signatures that bring the provider's own ML-DSA key along. -/
def ProtectedUnderOwnKey : Prop :=
  ∀ message, ¬ honest.signed message → ∀ signature, attacker.builds signature →
    embeddedKey signature = honest.mldsaPublicKey →
      ¬ S.checkSignature signature honest.publicKey message = some true

end

variable {attacker : Knowledge UInt8} {honest : S.HonestProvider}

variable {message : Bytes}

/-- An accepted signature gives both of its halves to whoever built it. -/
theorem halves_of_checkSignature {signature : Bytes} (hb : attacker.builds signature)
    (hc : S.checkSignature signature honest.publicKey message = some true) :
    (∃ half, attacker.builds half ∧ S.ed25519.accepts honest.publicKey message half = true) ∧
      (embeddedKey signature).length = mldsaPkLen ∧ attacker.builds (embeddedKey signature) ∧
        ∃ half, half.length = mldsaSigLen ∧ attacker.builds half ∧
          S.mldsa.accepts (embeddedKey signature) message half = true := by
  obtain ⟨-, ed25519Sig, mldsaPk, mldsaSig, rfl, hed, hpk, hml, heo, hmo⟩ :=
    S.checkSignature_iff.mp hc
  -- each part is a cut of the signature
  have hf : attacker.builds ed25519Sig := by
    have h := attacker.builds_take ed25519Sig.length hb
    rwa [append_assoc, take_left] at h
  have hr : attacker.builds (mldsaPk ++ mldsaSig) := by
    have h := attacker.builds_drop ed25519Sig.length hb
    rwa [append_assoc, drop_left] at h
  have he : embeddedKey (ed25519Sig ++ mldsaPk ++ mldsaSig) = mldsaPk := by
    rw [embeddedKey, append_assoc, ← hed, ← hpk, drop_left, take_left]
  have hkey : attacker.builds mldsaPk := by
    have h := attacker.builds_take mldsaPk.length hr
    rwa [take_left] at h
  have hl : attacker.builds mldsaSig := by
    have h := attacker.builds_drop mldsaPk.length hr
    rwa [drop_left] at h
  rw [he]
  exact ⟨⟨ed25519Sig, hf, heo⟩, hpk, hkey, mldsaSig, hml, hl, hmo⟩

/-- The two halves of different parties make an accepted signature. -/
theorem checkSignature_of_halves {ed25519Sig key half : Bytes}
    (hed : ed25519Sig.length = ed25519SigLen)
    (heo : S.ed25519.accepts honest.publicKey message ed25519Sig = true)
    (hkey : key.length = mldsaPkLen) (hh : half.length = mldsaSigLen)
    (hmo : S.mldsa.accepts key message half = true) :
    S.checkSignature (ed25519Sig ++ key ++ half) honest.publicKey message = some true :=
  S.checkSignature_iff.mpr ⟨S.ed25519_publicKey_length _, _, _, _, rfl, hed, hkey, hh, heo, hmo⟩

theorem protected_of_ed25519Unforgeable (hed : Ed25519Unforgeable attacker honest) :
    Protected attacker honest := by
  intro message hs s hb hc
  obtain ⟨⟨half, hh, hok⟩, -⟩ := halves_of_checkSignature hb hc
  exact hed message hs half hh hok

theorem protectedUnderOwnKey_of_mldsaUnforgeable (hml : MldsaUnforgeable attacker honest) :
    ProtectedUnderOwnKey attacker honest := by
  intro message hs s hb hkey hc
  obtain ⟨-, -, -, half, -, hh, hok⟩ := halves_of_checkSignature hb hc
  exact hml message hs half hh (hkey ▸ hok)

theorem protected_of_signsUnderNoMldsaKey (hn : SignsUnderNoMldsaKey attacker honest) :
    Protected attacker honest := by
  intro message hs s hb hc
  obtain ⟨-, hkl, hkey, half, hlen, hh, hok⟩ :=
    halves_of_checkSignature hb hc
  exact hn _ hkl hkey message hs half hlen hh hok

theorem signsUnderNoMldsaKey_of_protected (hb : BreaksEd25519 S attacker)
    (hp : Protected attacker honest) : SignsUnderNoMldsaKey attacker honest := by
  intro key hkl hkey message hs half hlen hh hok
  obtain ⟨es, hbl, hed, heo⟩ := hb honest.signingKey message
  exact hp message hs (es ++ key ++ half)
    (attacker.builds_append (attacker.builds_append hbl hkey) hh)
    (checkSignature_of_halves hed heo hkl hlen hok)

/-- While Ed25519 holds under the provider's key, the provider is protected, whatever the
attacker can do with ML-DSA. That ML-DSA holds under the provider's key protects it from
signatures that bring this key along, and once Ed25519 is broken from no others: the
provider is protected exactly against an attacker without any ML-DSA key. -/
theorem identity_protected_iff (attacker : Knowledge UInt8) (honest : S.HonestProvider) :
    (Ed25519Unforgeable attacker honest → Protected attacker honest) ∧
      (MldsaUnforgeable attacker honest → ProtectedUnderOwnKey attacker honest) ∧
      (BreaksEd25519 S attacker → MldsaUnforgeable attacker honest →
        (Protected attacker honest ↔ SignsUnderNoMldsaKey attacker honest)) :=
  ⟨protected_of_ed25519Unforgeable, protectedUnderOwnKey_of_mldsaUnforgeable,
    fun hb _ => ⟨signsUnderNoMldsaKey_of_protected hb, protected_of_signsUnderNoMldsaKey⟩⟩

/-- The codec with the hybrid check as its signature check. -/
def codec (S : HybridSchemes) (C : Codec) : Codec :=
  { C with checkSignature := S.checkSignature }

namespace OwnKey

/-- A broken Ed25519: anything is a signature. -/
def anySignature : Scheme UInt8 where
  Secret := Unit
  Key := Unit
  Signature := Unit
  publicKey _ := List.replicate 32 9
  sign _ _ _ := List.replicate ed25519SigLen 0
  keyFromBytes _ := some ()
  signatureFromBytes _ := some ()
  verify _ _ _ := true

/-- The letter a signature is made of. The provider's key, of ones, gives the message it
signed and the other ones different letters. -/
def letter (key message : Bytes) : UInt8 :=
  if key = List.replicate mldsaPkLen 1 then if message = [5] then 1 else 2 else 3

/-- An ML-DSA with two keys. -/
def lettered : Scheme UInt8 where
  Secret := Bool
  Key := Bytes
  Signature := Bytes
  publicKey honest := List.replicate mldsaPkLen (if honest then 1 else 4)
  sign honest _ message := List.replicate mldsaSigLen
    (letter (List.replicate mldsaPkLen (if honest then 1 else 4)) message)
  keyFromBytes key := some key
  signatureFromBytes signature := some signature
  verify key message signature :=
    decide (signature = List.replicate mldsaSigLen (letter key message))

theorem lettered_accepts (key message : Bytes) :
    lettered.accepts key message (replicate mldsaSigLen (letter key message)) = true :=
  decide_eq_true rfl

def schemes : HybridSchemes where
  ed25519 := anySignature
  mldsa := lettered
  ed25519_publicKey_length _ := List.length_replicate
  ed25519_sign_length _ _ _ := List.length_replicate
  ed25519_accepts_sign _ _ _ := rfl
  mldsa_publicKey_length _ := List.length_replicate
  mldsa_sign_length _ _ _ := List.length_replicate
  mldsa_accepts_sign _ _ _ := lettered_accepts _ _

def victim : schemes.HonestProvider where
  signingKey := ()
  mldsaSecretKey := true
  signed message := message = [5]

/-- An attacker who lacks what the provider's ML-DSA key gives other messages, and one who
lacks every ML-DSA signature but the one it has seen. -/
def impostor : Knowledge UInt8 := Knowledge.without fun a => a = 2

def keyless : Knowledge UInt8 := Knowledge.without fun a => a = 2 ∨ a = 3

def forged : Bytes :=
  List.replicate ed25519SigLen 0 ++ List.replicate mldsaPkLen 4 ++ List.replicate mldsaSigLen 3

theorem letter_own (message : Bytes) : letter (replicate mldsaPkLen 4) message = 3 := by
  rw [letter, if_neg]
  intro h
  have hone := (replicate_right_inj (by decide : mldsaPkLen ≠ 0)).mp h
  exact absurd hone (by decide)

theorem letter_unsigned {key : Bytes} (hs : message ≠ [5]) :
    letter key message = 2 ∨ letter key message = 3 := by
  rw [letter, if_neg hs]
  split
  · exact .inl rfl
  · exact .inr rfl

variable {hidden : UInt8 → Prop}

theorem builds_replicate {n : Nat} {a : UInt8} (ha : ¬ hidden a) :
    (Knowledge.without hidden).builds (replicate n a) := by
  intro b hb
  rw [eq_of_mem_replicate hb]
  exact ha

theorem not_builds_replicate {n : Nat} {a : UInt8} (ha : hidden a)
    (hn : n ≠ 0) : ¬ (Knowledge.without hidden).builds (replicate n a) :=
  fun hb => hb a (mem_replicate.mpr ⟨hn, rfl⟩) ha

theorem breaksEd25519 (hz : ¬ hidden 0) : BreaksEd25519 schemes (Knowledge.without hidden) :=
  fun _ _ => ⟨replicate ed25519SigLen 0, builds_replicate hz, length_replicate, rfl⟩

theorem mldsaUnforgeable (htwo : hidden 2) :
    MldsaUnforgeable (Knowledge.without hidden) victim := by
  intro message hs s hb hok
  have heq : s = replicate mldsaSigLen
      (letter (replicate mldsaPkLen 1) message) := of_decide_eq_true hok
  have hl : letter (replicate mldsaPkLen 1) message = 2 := by
    rw [letter, if_pos rfl, if_neg (show message ≠ [5] from hs)]
  rw [hl] at heq
  exact not_builds_replicate htwo (by decide) (heq ▸ hb)

/-- The attacker cannot forge under the provider's ML-DSA key, and its signature over a
message the provider did not sign is accepted, with an envelope that has the
provider's roles. -/
theorem forged_with_own_key : BreaksEd25519 schemes impostor ∧ MldsaUnforgeable impostor victim ∧
      Observes impostor victim ∧ impostor.builds forged ∧ ¬ victim.signed [6] ∧
      schemes.checkSignature forged victim.publicKey [6] = some true ∧
      authenticateEnvelope (schemes.codec ShieldedPool.sampleCodec)
        (fun key => if key = victim.publicKey then [.finalizer] else [])
        ⟨victim.publicKey, forged, [6]⟩ = .ok [.finalizer] := by
  have hown : schemes.mldsa.accepts (replicate mldsaPkLen 4) [6]
      (replicate mldsaSigLen 3) = true := by
    have h := lettered_accepts (replicate mldsaPkLen 4) [6]
    rwa [letter_own] at h
  have hc : schemes.checkSignature forged victim.publicKey [6] = some true :=
    checkSignature_of_halves length_replicate rfl length_replicate length_replicate hown
  refine ⟨breaksEd25519 (by decide), mldsaUnforgeable rfl, ?_, ?_, by simp [victim], hc, ?_⟩
  · rintro message rfl r
    exact impostor.builds_append
      (impostor.builds_append (builds_replicate (by decide)) (builds_replicate (by decide)))
      (builds_replicate (by simp [letter, victim]))
  · exact impostor.builds_append
      (impostor.builds_append (builds_replicate (by decide)) (builds_replicate (by decide)))
      (builds_replicate (by decide))
  · simp [authenticateEnvelope, codec, hc]

theorem keyless_protected : BreaksEd25519 schemes keyless ∧ MldsaUnforgeable keyless victim ∧
      Protected keyless victim := by
  have hb : BreaksEd25519 schemes keyless := breaksEd25519 (by decide)
  have hh : MldsaUnforgeable keyless victim := mldsaUnforgeable (.inl rfl)
  refine ⟨hb, hh, ((identity_protected_iff keyless victim).2.2 hb hh).mpr ?_⟩
  intro key _ _ message hs s _ hbl hok
  have heq : s = replicate mldsaSigLen (letter key message) :=
    of_decide_eq_true hok
  exact not_builds_replicate (letter_unsigned hs) (by decide) (heq ▸ hbl)

end OwnKey

end HybridSchemes

end Pneumatic
