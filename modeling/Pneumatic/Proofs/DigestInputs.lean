import Pneumatic.NodeServer.Signing

/-!
# What the digests of a contract commit to

`upgrade_digest` and `derive_token_id` hash a domain and a record behind it. A count in the
record has 32 bits and may be cut, but it is not needed to read the record back: the
bytes of a field are numbers, and what follows a field is the name of the next one. So the
record determines its fields at any length, and the two domains differ in a letter.
-/

namespace Pneumatic

open List

open MessagePack hiding Token

/-- The payload of `derive_token_id`. -/
def deployIdFields (deployer : Bytes) (nonce : Nat) (bytecodeHash : Bytes) (name : String) :
    List (Bytes × Bytes) :=
  [named "deployer_pubkey" (byteArray deployer), named "nonce" (uint nonce),
   named "bytecode_hash" (byteArray bytecodeHash), named "name" (str (asBytes name))]

@[ext]
structure UpgradeInput where
  tokenId : Bytes
  newBytecode : Bytes
  newOwners : List Bytes
  newThreshold : UInt32
  proposalEpoch : UInt64

@[ext]
structure DeployInput where
  deployer : Bytes
  nonce : UInt64
  bytecode : Bytes
  name : String

namespace SigningWorld

variable (W : SigningWorld)

/-- The serializers of the contracts, with the record of a token id as it is. -/
def contracts : ContractCodec :=
  { W.K with
    rmpDeployId := fun deployer nonce bytecodeHash name =>
      MessagePack.table (deployIdFields deployer nonce bytecodeHash name) }

def digest (input : UpgradeInput) : Bytes :=
  upgradeDigest W.C W.M input.tokenId input.newBytecode input.newOwners
    input.newThreshold.toNat input.proposalEpoch.toNat

def tokenId (input : DeployInput) : Bytes :=
  deriveTokenId W.C W.contracts input.deployer input.nonce.toNat input.bytecode input.name

/-- The record behind the domain of a digest, and behind that of a token id. -/
def digestRecord (input : UpgradeInput) : Bytes :=
  table (digestInputFields input.tokenId (W.C.sha256 input.newBytecode) input.newOwners
    input.newThreshold.toNat input.proposalEpoch.toNat)

def idRecord (input : DeployInput) : Bytes :=
  table (deployIdFields input.deployer input.nonce.toNat (W.C.sha256 input.bytecode) input.name)

/-- What a digest hashes was hashed: the code, and the record behind its domain. -/
def HashedUpgrade (input : UpgradeInput) : Prop :=
  input.newBytecode ∈ W.hashed ∧ upgradeDomain ++ W.digestRecord input ∈ W.hashed

/-- The two strings under a contract's id were hashed. -/
def HashedDeploy (input : DeployInput) : Prop :=
  input.bytecode ∈ W.hashed ∧ deployDomain ++ W.idRecord input ∈ W.hashed

variable {W}

theorem digest_eq (input : UpgradeInput) :
    W.digest input = W.C.sha256 (upgradeDomain ++ W.digestRecord input) := by
  rw [digest, upgradeDigest, W.namedMaps.digestInput]
  rfl

end SigningWorld

variable {rest rest' : Bytes}

theorem noUint_str (text rest : Bytes) : NoUint (str text ++ rest) := by
  intro n h
  rw [firstToken_str] at h
  cases h

theorem entries_named_cons (name : String) (value : Bytes) (pairs : List (Bytes × Bytes)) :
    entries (named name value :: pairs) = str (asBytes name) ++ (value ++ entries pairs) := by
  rw [entries_cons, named, append_assoc]

theorem uint_append_inj {n n' : Nat} (hn : n < 2 ^ 64) (hn' : n' < 2 ^ 64)
    (h : uint n ++ rest = uint n' ++ rest') : n = n' ∧ rest = rest' := by
  obtain ⟨ht, hr⟩ := eq_of_bytes_append h
  have ht := congrArg UInt64.toNat (MessagePack.Token.uint.inj ht)
  rw [UInt64.toNat_ofNat', UInt64.toNat_ofNat'] at ht
  exact ⟨by omega, hr⟩

theorem firstToken_items {items : List Bytes} {text rest : Bytes} {token : MessagePack.Token}
    (h : firstToken ((items.map byteArray).flatten ++ (str text ++ rest)) = some token) :
    (items = [] ∧ token = .str (UInt32.ofNat text.length)) ∨ ∃ n, token = .array n := by
  cases items with
  | nil =>
    rw [map_nil, flatten_nil, nil_append, firstToken_str] at h
    exact .inl ⟨rfl, (Option.some.inj h).symm⟩
  | cons item items =>
    rw [map_cons, flatten_cons, append_assoc, firstToken_byteArray] at h
    exact .inr ⟨_, (Option.some.inj h).symm⟩

/-- A list of byte strings is read back from where the name of a field follows. -/
theorem byteArrays_append_inj {items items' : List Bytes} {text text' : Bytes}
    (h : byteArrays items ++ (str text ++ rest) = byteArrays items' ++ (str text' ++ rest')) :
    items = items' ∧ str text ++ rest = str text' ++ rest' := by
  rw [byteArrays, byteArrays, array, array, append_assoc, append_assoc] at h
  replace h := (eq_of_bytes_append h).2
  have hno : ∀ (items : List Bytes) (text rest : Bytes),
      NoUint ((items.map byteArray).flatten ++ (str text ++ rest)) := by
    intro items text rest n hf
    rcases firstToken_items hf with ⟨-, ht⟩ | ⟨_, ht⟩ <;> cases ht
  induction items generalizing items' with
  | nil =>
    cases items' with
    | nil => exact ⟨rfl, h⟩
    | cons item' items' =>
      rcases firstToken_items ((congrArg firstToken h).symm.trans (firstToken_str _ _)) with
        ⟨hnil, -⟩ | ⟨_, ht⟩
      · cases hnil
      · cases ht
  | cons item items ih =>
    cases items' with
    | nil =>
      rcases firstToken_items ((congrArg firstToken h).trans (firstToken_str _ _)) with
        ⟨hnil, -⟩ | ⟨_, ht⟩
      · cases hnil
      · cases ht
    | cons item' items' =>
      simp only [map_cons, flatten_cons, append_assoc] at h
      obtain ⟨rfl, hitems⟩ := byteArray_append_inj (hno _ _ _) (hno _ _ _) h
      obtain ⟨rfl, hrest⟩ := ih hitems
      exact ⟨rfl, hrest⟩

namespace SigningWorld

variable {W : SigningWorld}

theorem digestRecord_inj {a b : UpgradeInput} (h : W.digestRecord a = W.digestRecord b) :
    a.tokenId = b.tokenId ∧ W.C.sha256 a.newBytecode = W.C.sha256 b.newBytecode ∧
      a.newOwners = b.newOwners ∧ a.newThreshold = b.newThreshold ∧
      a.proposalEpoch = b.proposalEpoch := by
  have he := (eq_of_bytes_append h).2
  simp only [digestInputFields, entries_named_cons] at he
  obtain ⟨hid, he⟩ := byteArray_append_inj (noUint_str _ _) (noUint_str _ _)
    (append_cancel_left he)
  obtain ⟨hcode, he⟩ := byteArray_append_inj (noUint_str _ _) (noUint_str _ _)
    (append_cancel_left he)
  obtain ⟨howners, he⟩ := byteArrays_append_inj (append_cancel_left he)
  have hlt : ∀ n : UInt32, n.toNat < 2 ^ 64 := fun n => n.toNat_lt.trans (by decide)
  obtain ⟨hth, he⟩ := uint_append_inj (hlt _) (hlt _) (append_cancel_left he)
  obtain ⟨hep, -⟩ := uint_append_inj (UInt64.toNat_lt _) (UInt64.toNat_lt _)
    (append_cancel_left he)
  exact ⟨hid, hcode, howners, UInt32.toNat_inj.mp hth, UInt64.toNat_inj.mp hep⟩

theorem idRecord_inj {a b : DeployInput} (h : W.idRecord a = W.idRecord b) :
    a.deployer = b.deployer ∧ a.nonce = b.nonce ∧
      W.C.sha256 a.bytecode = W.C.sha256 b.bytecode ∧ a.name = b.name := by
  have he := (eq_of_bytes_append h).2
  simp only [deployIdFields, entries_named_cons] at he
  obtain ⟨hkey, he⟩ := byteArray_append_inj (noUint_str _ _) (noUint_str _ _)
    (append_cancel_left he)
  obtain ⟨hn, he⟩ := uint_append_inj (UInt64.toNat_lt _) (UInt64.toNat_lt _)
    (append_cancel_left he)
  obtain ⟨hcode, he⟩ := byteArray_append_inj (noUint_str _ _) (noUint_str _ _)
    (append_cancel_left he)
  -- the name is the last field, so it is all that is left
  have hname := append_cancel_right (append_cancel_left he)
  exact ⟨hkey, UInt64.toNat_inj.mp hn, hcode, asBytes_injective (eq_of_bytes_append hname).2⟩

/-- Of what was hashed, no two upgrades share a digest and no two deployments an id, and no
digest is an id. -/
theorem digest_inputs_bound (W : SigningWorld) :
    (∀ a b, W.HashedUpgrade a → W.HashedUpgrade b → W.digest a = W.digest b → a = b) ∧
    (∀ a b, W.HashedDeploy a → W.HashedDeploy b → W.tokenId a = W.tokenId b → a = b) ∧
    ∀ a b, W.HashedUpgrade a → W.HashedDeploy b → W.digest a ≠ W.tokenId b := by
  refine ⟨fun a b ha hb h => ?_, fun a b ha hb h => ?_, fun a b ha hb h => ?_⟩
  · rw [digest_eq, digest_eq] at h
    obtain ⟨hid, hcode, howners, hth, hep⟩ :=
      digestRecord_inj (append_cancel_left (W.collisionFree ha.2 hb.2 h))
    exact UpgradeInput.ext hid (W.collisionFree ha.1 hb.1 hcode) howners hth hep
  · obtain ⟨hkey, hn, hcode, hname⟩ :=
      idRecord_inj (append_cancel_left (W.collisionFree ha.2 hb.2 h))
    exact DeployInput.ext hkey hn (W.collisionFree ha.1 hb.1 hcode) hname
  · rw [digest_eq] at h
    -- the letters after `PNEUMATIC/`
    have hd := congrArg (take 11) (W.collisionFree ha.2 hb.2 h)
    rw [take_append_of_le_length (by decide), take_append_of_le_length (by decide)] at hd
    exact absurd hd (by decide)

end SigningWorld

end Pneumatic
