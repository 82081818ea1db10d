import Pneumatic.Core.Authority
import Pneumatic.Core.Errors

/-!
# Messages and their envelopes

The envelope of a message, the commit a Finalizer sends a Committer, and the
shared check of `auth.rs`: the body is signed by the key the envelope claims,
and the key is a registered node's.
-/

namespace Pneumatic

/-- `Message`, as far as the handlers read it. -/
structure Message where
  publicKey : Bytes
  signature : Bytes
  body : Bytes

abbrev StakeSet := Finmap (fun _ : Bytes => Nat)

def StakeSet.getStake (stakers : StakeSet) (key : Bytes) : Nat :=
  (stakers.lookup key).getD 0

/-- `Message` with the fields beside the signed body. -/
structure WireMessage extends Message where
  chainId : String
  action : String
  stakeSet : Option StakeSet

/-- `EnvelopeAuthError`; `providerFailed` tells a provider that gave no answer
from one that answered no. -/
inductive EnvelopeAuthError where
  | signature (publicKey : Bytes) (providerFailed : Bool)
  | unregistered (publicKey : Bytes)
deriving DecidableEq

/-- `authenticate_envelope`: the roles of the proven sender. -/
def authenticateEnvelope (C : Codec) (roles : Bytes → List NodeRegistryType)
    (message : Message) : Except EnvelopeAuthError (List NodeRegistryType) :=
  match C.checkSignature message.signature message.publicKey message.body with
  | none => .error (.signature message.publicKey true)
  | some false => .error (.signature message.publicKey false)
  | some true =>
    if (roles message.publicKey).isEmpty then
      .error (.unregistered message.publicKey)
    else .ok (roles message.publicKey)

end Pneumatic
