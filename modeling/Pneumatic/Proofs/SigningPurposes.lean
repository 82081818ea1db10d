import Pneumatic.NodeServer.Signing
import Pneumatic.Proofs.Replacement

/-!
# Which signatures can stand in for others

Three checks take the payload from the message they check: an envelope's body, and
the hash that an Executor's vote or a shielded vote claims. A signature of any other
kind passes them. The other six checks rebuild the payload, and whether they can be
met from elsewhere depends on the shapes.

A directory query and a sender's transaction are longer than a digest and differ from
every other encoding in a token, so nothing else is ever taken for them. A binding
and an attestation can have exactly 32 bytes, and a digest that happens to be such a
string is taken for one. The digest of a block and that of an upgrade are met by what
else has 32 bytes: the id of a transaction to clear, or the binding of a node without
roles. Among digests it is the preimages that count. The preimage of a block's digest
is two hashes and nothing more, and a contract can give an output that is these 64
bytes.
-/

namespace Pneumatic

open SigningWorld List Handler

open ShieldedPool (sampleCodec)
open MessagePack hiding Token

variable {key : Bytes}

namespace SigningWorld

variable {W : SigningWorld} {payload : Bytes}

/-! ## What the checks accept -/

theorem approving_iff {C : Codec} {signature message : Bytes} :
    (C.approving payload).checkSignature signature key message = some true ↔ message = payload := by
  simp [Codec.approving]

theorem accepts_envelopeBody (payload : Bytes) : W.Accepts .envelopeBody payload := by
  refine ⟨fun _ => [.sentinel], ⟨[], [], payload⟩, [.sentinel], ?_⟩
  rw [authenticateEnvelope, approving_iff.mpr rfl]
  rfl

theorem accepts_executorVote (payload : Bytes) : W.Accepts .executorVote payload := by
  refine ⟨[], { (default : TransactionSignature) with transactionHash := payload }, ?_⟩
  rw [checkExecutorSignature, approving_iff.mpr rfl]

theorem accepts_shieldedVote (payload : Bytes) : W.Accepts .shieldedVote payload := by
  refine ⟨[], { (default : TransactionSignature) with transactionHash := payload }, ?_⟩
  rw [checkVoteSignature, approving_iff.mpr rfl]

theorem accepts_registrationBinding_iff : W.Accepts .registrationBinding payload ↔
      ∃ rhash rq rt,
        bindingPayload rhash rq rt = payload := by
  constructor
  · rintro ⟨b, h⟩
    rw [verifyBinding, beq_iff_eq, approving_iff, W.namedMaps.binding] at h
    exact ⟨_, _, _, h⟩
  · rintro ⟨rhash, rq, rt, h⟩
    refine ⟨⟨[], rhash, rq, rt, []⟩, ?_⟩
    rw [verifyBinding, beq_iff_eq, approving_iff, W.namedMaps.binding]
    exact h

theorem accepts_directoryQuery (h : W.Accepts .directoryQuery payload) :
    ∃ query : DirectoryQuery, query.payload = payload := by
  obtain ⟨query, hq⟩ := h
  rw [verifyQuery, beq_iff_eq, approving_iff] at hq
  exact ⟨query, hq⟩

theorem accepts_selectionAttestation_iff : W.Accepts .selectionAttestation payload ↔
      ∃ (txId : String) (domain : UInt8) (key : Bytes) (epoch : Nat) (salt : Bytes),
        (asBytes txId).length < 2 ^ 32 ∧
          attestationTuple (asBytes txId) domain key epoch salt = payload := by
  constructor
  · rintro ⟨r, txId, domain, hf, h⟩
    rw [SelectionRecord.verify] at h
    split_ifs at h with he
    · cases h
    · exact ⟨txId, domain, r.finalizerPublicKey, r.epochNumber, r.salt, hf,
        (W.namedMaps.attestation _ _ _ _ _).symm.trans (approving_iff.mp h)⟩
  · rintro ⟨txId, domain, key, epoch, salt, hf, h⟩
    refine ⟨⟨key, epoch, salt, [0], [0]⟩, txId, domain, hf, ?_⟩
    rw [SelectionRecord.verify, if_neg (by simp), approving_iff]
    exact (W.namedMaps.attestation _ _ _ _ _).trans h

theorem accepts_senderTransaction (h : W.Accepts .senderTransaction payload) :
    ∃ tx : CanonicalTransaction, tx.Fits ∧ table tx.fields = payload := by
  obtain ⟨tx, hf, hs⟩ := h
  rw [Transaction.verifySenderSignature, approving_iff] at hs
  exact ⟨tx.canonical, hf, (W.namedMaps.canonical _).symm.trans hs⟩

theorem accepts_finalizerDigest (h : W.Accepts .finalizerDigest payload) :
    ∃ signed, finalizerPreimage W.C signed ∈ W.hashed ∧
      W.C.sha256 (finalizerPreimage W.C signed) = payload := by
  obtain ⟨signed, key, hh, -, -, hok⟩ := h
  refine ⟨signed, hh, ?_⟩
  rw [verifyFinalizerSignature] at hok
  split_ifs at hok
  split at hok
  · rename_i ha
    exact approving_iff.mp ha
  · cases hok

theorem accepts_upgradeDigest (h : W.Accepts .upgradeDigest payload) :
    ∃ ti p, upgradePreimage W.C W.M ti p ∈ W.hashed ∧
      W.C.sha256 (upgradePreimage W.C W.M ti p) = payload := by
  obtain ⟨ti, p, o, t, hh, -, hq⟩ := h
  obtain ⟨hpos, hle⟩ := verifyQuorum_iff.mp hq
  obtain ⟨owner, ho⟩ := exists_mem_of_length_pos (hpos.trans_le hle)
  obtain ⟨s, -, hs⟩ := any_eq_true.mp (mem_filter.mp ho).2
  refine ⟨ti, p, hh, ?_⟩
  simpa [Codec.approving, UpgradeParams.digest, upgradeDigest, upgradePreimage] using hs

/-! ## Shapes -/

theorem length_of_signs {purpose : Purpose} (hd : purpose.isDigest = true)
    (h : W.Signs purpose payload) : payload.length = 32 := by
  cases purpose with
  | executorVote =>
    obtain ⟨r, -, rfl⟩ := h
    exact W.hash_length _
  | shieldedVote =>
    obtain ⟨stx, -, rfl⟩ := h
    exact W.hash_length _
  | finalizerDigest =>
    obtain ⟨signed, -, -, -, rfl⟩ := h
    exact W.hash_length _
  | upgradeDigest =>
    obtain ⟨ti, p, -, -, rfl⟩ := h
    exact W.hash_length _
  | _ => cases hd

end SigningWorld

theorem length_query (query : DirectoryQuery) : 32 < query.payload.length := by
  have hi := items_length_le_array
    [byteArray query.requesterRhash.bytes, byteArray query.queryTarget.bytes,
     byteArray query.queryNonce.bytes, str (asBytes query.requestedType.name),
     roleArray query.requesterTypes]
  have ht := length_lt_byteArray query.queryTarget.bytes
  have hn := length_lt_byteArray query.queryNonce.bytes
  rw [query.queryTarget.length_eq] at ht
  rw [query.queryNonce.length_eq] at hn
  simp only [flatten_cons, length_append] at hi
  rw [DirectoryQuery.payload]
  omega

variable {txId salt : Bytes} {domain : UInt8} {epoch : Nat}

theorem length_attestation
    (h : key.length = 32) : 32 < (attestationTuple txId domain key epoch salt).length := by
  have hi := items_length_le_array
    [byteArray txId, uint domain.toNat, byteArray key, uint epoch, byteArray salt]
  have hkey := length_lt_byteArray key
  simp only [flatten_cons, length_append] at hi
  rw [attestationTuple]
  omega

def nameKeys (names : List String) : List Bytes := names.map fun name => str (asBytes name)

theorem length_canonical (tx : CanonicalTransaction) : 32 < (table tx.fields).length := by
  have hk := keys_length_le_table tx.fields
  have hn : tx.fields.map Prod.fst = nameKeys ["id", "action", "token_id", "bid",
    "sequence_number", "sender", "receiver", "amount", "timestamp", "result_hash", "payload",
    "gas_limit"] := rfl
  rw [hn] at hk
  exact Nat.lt_of_lt_of_le (by decide +kernel) hk

theorem length_shielded (stx : ShieldedTransaction) : 64 < (table stx.fields).length := by
  have hk := keys_length_le_table stx.fields
  have hn : stx.fields.map Prod.fst = nameKeys ["id", "action", "token_id",
    "spent_commitments", "nullifiers", "commitments", "merkle_root", "proof",
    "note_ciphertexts", "fee"] := rfl
  rw [hn] at hk
  exact Nat.lt_of_lt_of_le (by decide +kernel) hk

theorem length_upgradePreimage (W : SigningWorld) (tokenId : Bytes) (params : UpgradeParams) :
    64 < (upgradePreimage W.C W.M tokenId params).length := by
  rw [upgradePreimage, W.namedMaps.digestInput, length_append]
  generalize hp : digestInputFields _ _ _ _ _ = pairs
  have hk := keys_length_le_table pairs
  have hn : pairs.map Prod.fst = nameKeys ["token_id", "bytecode_hash", "new_owners",
      "new_threshold", "proposal_epoch"] := by
    rw [← hp]
    rfl
  have hl : 44 < (nameKeys ["token_id", "bytecode_hash", "new_owners", "new_threshold",
      "proposal_epoch"]).flatten.length := by decide +kernel
  have hd : upgradeDomain.length = 20 := rfl
  rw [hn] at hk
  omega

theorem table_ne_array (pairs : List (Bytes × Bytes)) (items : List Bytes) :
    table pairs ≠ array items :=
  ne_of_firstToken (firstToken_table pairs) (firstToken_array items)
    (fun h => by cases h)

theorem array_ne_array {items items' : List Bytes} (h : items.length < 2 ^ 32)
    (h' : items'.length < 2 ^ 32) (hne : items.length ≠ items'.length) :
    array items ≠ array items' :=
  ne_of_firstToken (firstToken_array items) (firstToken_array items')
    (fun heq => hne (MessagePack.eq_of_ofNat_eq h h' (MessagePack.Token.array.inj heq)))

theorem table_ne_table {pairs pairs' : List (Bytes × Bytes)} (h : pairs.length < 2 ^ 32)
    (h' : pairs'.length < 2 ^ 32) (hne : pairs.length ≠ pairs'.length) :
    table pairs ≠ table pairs' :=
  ne_of_firstToken (firstToken_table pairs) (firstToken_table pairs')
    (fun heq => hne (MessagePack.eq_of_ofNat_eq h h' (MessagePack.Token.map.inj heq)))

/-- No body is an array of three or more that begins with a byte string. -/
theorem body_ne_array (W : SigningWorld) (body : EnvelopeBody) {inner : Bytes}
    {items : List Bytes} (htwo : 2 ≤ items.length) (hlt : items.length + 1 < 2 ^ 32) :
    body.bytes W.C ≠ array (byteArray inner :: items) := by
  cases body with
  | transaction tx =>
    rw [EnvelopeBody.bytes, W.namedMaps.transaction]
    exact table_ne_array _ _
  | shielded stx =>
    rw [EnvelopeBody.bytes, W.namedMaps.shielded]
    exact table_ne_array _ _
  | vote sig | record kind v hv => exact table_ne_array _ _
  | transactionId id =>
    exact ne_of_firstToken (firstToken_str _) (firstToken_array _) (fun h => by cases h)
  | blockHash hash => exact byteArray_ne_array_byteArray hlt
  | blockVote hash voter =>
    refine array_ne_array (by simp) hlt ?_
    simp only [length_cons, length_nil]
    omega

/-- No body is the canonical form of a transaction. -/
theorem body_ne_canonical (W : SigningWorld) {body : EnvelopeBody}
    {tx : CanonicalTransaction} (hb : body.Fits) (htx : tx.Fits) :
    body.bytes W.C ≠ table tx.fields := by
  have hl : tx.fields.length = 12 := rfl
  cases body with
  | transaction tx' =>
    rw [EnvelopeBody.bytes, W.namedMaps.transaction]
    exact table_fields_ne_canonical hb htx
  | shielded stx =>
    rw [EnvelopeBody.bytes, W.namedMaps.shielded]
    have hs : stx.fields.length = 10 := rfl
    exact table_ne_table (by omega) (by omega) (by omega)
  | vote sig =>
    have hvt : sig.fields.length = 5 := rfl
    exact table_ne_table (by omega) (by omega) (by omega)
  | record kind v hv =>
    have hr : (zipWith named kind.names v).length = kind.names.length := by
      rw [length_zipWith, hv, Nat.min_self]
    have hn : kind.names.length < 12 := by cases kind <;> decide
    exact table_ne_table (by omega) (by omega) (by omega)
  | transactionId id =>
    exact ne_of_firstToken (firstToken_str _) (firstToken_table _) (fun h => by cases h)
  | blockHash hash | blockVote hash voter => exact (table_ne_array _ _).symm

/-- The second item of a query is an address, that of an attestation a number. -/
theorem query_ne_attestation (query : DirectoryQuery) (h : txId.length < 2 ^ 32) :
    query.payload ≠ attestationTuple txId domain key epoch salt := by
  intro heq
  have hi := (eq_of_bytes_append heq).2
  have hr : query.requesterRhash.bytes.length < 2 ^ 32 := by
    rw [query.requesterRhash.length_eq]
    decide
  have htl := aligned_byteArray hr h _ _ hi
  have ht := congrArg firstToken htl
  rw [flatten_cons, firstToken_byteArray, flatten_cons, firstToken_uint] at ht
  cases ht

/-- The domain of an upgrade begins with a letter, a record with the token of a map. -/
theorem upgradePreimage_ne_table (W : SigningWorld) (tokenId : Bytes) (params : UpgradeParams)
    (pairs : List (Bytes × Bytes)) : table pairs ≠ upgradePreimage W.C W.M tokenId params := by
  intro heq
  have hd : upgradeDomain = 0x50 :: upgradeDomain.tail := rfl
  have ht := congrArg firstToken heq
  rw [← append_nil (table pairs), firstToken_table, upgradePreimage, hd] at ht
  cases ht

theorem result_ne_upgradePreimage (W : SigningWorld) (result : ResultData) (tokenId : Bytes)
    (params : UpgradeParams) : result.bytes W.K W.M ≠ upgradePreimage W.C W.M tokenId params := by
  cases result with
  | transfer delta =>
    rw [ResultData.bytes, W.namedMaps.transferDelta]
    exact upgradePreimage_ne_table W _ _ _
  | emitted value =>
    intro heq
    have hl := length_upgradePreimage W tokenId params
    rw [← heq, ResultData.bytes, LittleEndian.leBytes_length] at hl
    omega
  | wasm result =>
    rw [ResultData.bytes, W.namedMaps.wasmResult]
    exact upgradePreimage_ne_table W _ _ _
  | deployed delta =>
    obtain ⟨m, hw⟩ := W.namedMaps.createToken delta
    rw [ResultData.bytes, hw]
    exact upgradePreimage_ne_table W _ _ _
  | upgraded delta =>
    rw [ResultData.bytes, W.namedMaps.replaceAsset]
    exact upgradePreimage_ne_table W _ _ _

theorem length_finalizerPreimage (W : SigningWorld) (signed : SignedTransaction) :
    (finalizerPreimage W.C signed).length = 64 := by
  rw [finalizerPreimage, length_append, W.hash_length, W.hash_length]

/-! ## Which purposes are apart -/

/-- The items of a payload that is an array. -/
def Purpose.items : Purpose → Nat
  | .registrationBinding => 3
  | .directoryQuery | .selectionAttestation => 5
  | _ => 0

/-- What is signed for the one purpose never passes the check of the other. -/
def Purpose.separated (signed : Purpose) : Purpose → Bool
  | .envelopeBody | .executorVote | .shieldedVote => false
  | .directoryQuery | .senderTransaction => true
  | .registrationBinding | .selectionAttestation => !signed.isDigest
  | .finalizerDigest =>
    signed ≠ .envelopeBody ∧ signed ≠ .registrationBinding ∧ signed ≠ .executorVote
  | .upgradeDigest => signed ≠ .envelopeBody ∧ signed ≠ .registrationBinding

namespace SigningWorld

variable {W : SigningWorld} {payload : Bytes} {signed : Purpose}

/-- A payload with its own number of items is no other array of byte strings. -/
theorem ne_array (h : W.Signs signed payload) (hd : signed.isDigest = false)
    {inner : Bytes} {items : List Bytes} (htwo : 2 ≤ items.length)
    (hlt : items.length + 1 < 2 ^ 32) (hc : signed.items ≠ items.length + 1) :
    payload ≠ array (byteArray inner :: items) := by
  cases signed with
  | envelopeBody =>
    obtain ⟨body, -, rfl⟩ := h
    exact body_ne_array W body htwo hlt
  | registrationBinding =>
    obtain ⟨rhash, r, d, rfl⟩ := h
    rw [W.namedMaps.binding]
    exact array_ne_array (by simp) hlt hc
  | directoryQuery =>
    obtain ⟨query, rfl⟩ := h
    exact array_ne_array (by simp) hlt hc
  | selectionAttestation =>
    obtain ⟨rc, txId, -, -, rfl⟩ := h
    rw [SelectionRecord.attestationSurface, W.namedMaps.attestation]
    exact array_ne_array (by simp) hlt hc
  | senderTransaction =>
    obtain ⟨tx, -, rfl⟩ := h
    rw [Transaction.canonicalSignatureBytes, W.namedMaps.canonical]
    exact table_ne_array _ _
  | _ => cases hd

theorem ne_attestation (h : W.Signs signed payload) (hne : signed ≠ .selectionAttestation)
    (hd : signed.isDigest = false)
    (hf : txId.length < 2 ^ 32) : payload ≠ attestationTuple txId domain key epoch salt := by
  by_cases hq : signed = .directoryQuery
  · subst hq
    obtain ⟨query, rfl⟩ := h
    exact query_ne_attestation query hf
  · refine ne_array h hd (by simp) (by simp) fun hc => ?_
    cases signed <;> first | exact hq rfl | exact hne rfl | cases hc

theorem ne_query (h : W.Signs signed payload) (hne : signed ≠ .directoryQuery)
    (query : DirectoryQuery) : payload ≠ query.payload := by
  intro heq
  cases hd : signed.isDigest with
  | true =>
    have hl := length_of_signs hd h
    have hln := length_query query
    rw [heq] at hl
    omega
  | false =>
    by_cases ha : signed = .selectionAttestation
    · subst ha
      obtain ⟨r, txId, hf, -, rfl⟩ := h
      rw [SelectionRecord.attestationSurface, W.namedMaps.attestation] at heq
      exact query_ne_attestation query hf heq.symm
    · refine ne_array h hd (by simp) (by simp) (fun hc => ?_) heq
      cases signed <;> first | exact ha rfl | exact hne rfl | cases hc

theorem ne_canonical (h : W.Signs signed payload) (hne : signed ≠ .senderTransaction)
    {tx : CanonicalTransaction} (hf : tx.Fits) : payload ≠ table tx.fields := by
  intro heq
  by_cases hd : signed.isDigest = true
  · have hl := length_of_signs hd h
    have hln := length_canonical tx
    rw [heq] at hl
    omega
  cases signed with
  | envelopeBody =>
    obtain ⟨body, hb, rfl⟩ := h
    exact body_ne_canonical W hb hf heq
  | registrationBinding =>
    obtain ⟨rhash, r, d, rfl⟩ := h
    rw [W.namedMaps.binding] at heq
    exact table_ne_array _ _ heq.symm
  | directoryQuery =>
    obtain ⟨query, rfl⟩ := h
    exact table_ne_array _ _ heq.symm
  | selectionAttestation =>
    obtain ⟨rc, txId, -, -, rfl⟩ := h
    rw [SelectionRecord.attestationSurface, W.namedMaps.attestation] at heq
    exact table_ne_array _ _ heq.symm
  | senderTransaction => exact hne rfl
  | _ => exact hd rfl

/-- What is longer than a digest: all but bodies, bindings and the digests. -/
theorem length_ne_of_signs (h : W.Signs signed payload) (hd : signed.isDigest = false)
    (hbd : signed ≠ .envelopeBody) (hb : signed ≠ .registrationBinding) :
    32 < payload.length := by
  cases signed with
  | envelopeBody => exact absurd rfl hbd
  | registrationBinding => exact absurd rfl hb
  | directoryQuery =>
    obtain ⟨query, rfl⟩ := h
    exact length_query query
  | selectionAttestation =>
    obtain ⟨r, txId, -, hkey, rfl⟩ := h
    rw [SelectionRecord.attestationSurface, W.namedMaps.attestation]
    exact length_attestation hkey
  | senderTransaction =>
    obtain ⟨tx, -, rfl⟩ := h
    rw [Transaction.canonicalSignatureBytes, W.namedMaps.canonical]
    exact length_canonical _
  | _ => cases hd

/-- The hash of a string that was hashed. A digest of another purpose is the hash of
another string, so it is another digest. -/
theorem ne_hash {preimage : Bytes} (hh : preimage ∈ W.hashed)
    (h : W.Signs signed payload) (hbd : signed ≠ .envelopeBody)
    (hb : signed ≠ .registrationBinding)
    (he : signed = .executorVote → ∀ result : ResultData, result.bytes W.K W.M ≠ preimage)
    (hs : signed = .shieldedVote → ∀ stx : ShieldedTransaction, table stx.fields ≠ preimage)
    (hf : signed = .finalizerDigest → ∀ st, finalizerPreimage W.C st ≠ preimage)
    (hu : signed = .upgradeDigest → ∀ tokenId params,
      upgradePreimage W.C W.M tokenId params ≠ preimage) : payload ≠ W.C.sha256 preimage := by
  intro heq
  cases hd : signed.isDigest with
  | false =>
    have hl := length_ne_of_signs h hd hbd hb
    rw [heq, W.hash_length] at hl
    omega
  | true =>
    cases signed with
    | executorVote =>
      obtain ⟨result, hmem, rfl⟩ := h
      exact he rfl result (W.collisionFree hmem hh heq)
    | shieldedVote =>
      obtain ⟨stx, hmem, rfl⟩ := h
      have hsm := W.collisionFree hmem hh heq
      rw [W.namedMaps.shielded] at hsm
      exact hs rfl stx hsm
    | finalizerDigest =>
      obtain ⟨st, hmem, -, -, rfl⟩ := h
      exact hf rfl st (W.collisionFree hmem hh heq)
    | upgradeDigest =>
      obtain ⟨tokenId, params, hmem, -, rfl⟩ := h
      exact hu rfl tokenId params (W.collisionFree hmem hh heq)
    | _ => cases hd

theorem disjoint_of_separated {checked : Purpose} (hne : signed ≠ checked)
    (h : signed.separated checked = true) : W.Disjoint signed checked := by
  rintro payload ⟨hs, ha⟩
  cases checked with
  | envelopeBody => cases h
  | executorVote => cases h
  | shieldedVote => cases h
  | directoryQuery =>
    obtain ⟨query, rfl⟩ := accepts_directoryQuery ha
    exact ne_query hs hne query rfl
  | senderTransaction =>
    obtain ⟨tx, hf, rfl⟩ := accepts_senderTransaction ha
    exact ne_canonical hs hne hf rfl
  | registrationBinding =>
    obtain ⟨rhash, requested, d, rfl⟩ := accepts_registrationBinding_iff.mp ha
    refine ne_array hs (by simpa [Purpose.separated] using h) (by simp) (by simp) (fun hc => ?_) rfl
    cases signed <;> first | exact hne rfl | cases hc
  | selectionAttestation =>
    obtain ⟨txId, domain, key, epoch, salt, hf, rfl⟩ :=
      accepts_selectionAttestation_iff.mp ha
    exact ne_attestation hs hne (by simpa [Purpose.separated] using h) hf rfl
  | finalizerDigest =>
    obtain ⟨st, hh, rfl⟩ := accepts_finalizerDigest ha
    obtain ⟨hbd, hb, he⟩ := of_decide_eq_true h
    have hln := length_finalizerPreimage W st
    refine ne_hash hh hs hbd hb (absurd · he) (fun _ stx heq => ?_)
      (absurd · hne) (fun _ tokenId params heq => ?_) rfl
    · have hl := length_shielded stx
      rw [heq] at hl
      omega
    · have hl := length_upgradePreimage W tokenId params
      rw [heq] at hl
      omega
  | upgradeDigest =>
    obtain ⟨tokenId, params, hh, rfl⟩ := accepts_upgradeDigest ha
    obtain ⟨hbd, hb⟩ := of_decide_eq_true h
    refine ne_hash hh hs hbd hb (fun _ result => result_ne_upgradePreimage W result _ _)
      (fun _ stx => upgradePreimage_ne_table W _ _ _) (fun _ st heq => ?_)
      (absurd · hne) rfl
    have hl := length_upgradePreimage W tokenId params
    rw [← heq, length_finalizerPreimage] at hl
    omega

/-! ## Where they meet -/

theorem accepts_of_signs_finalizerDigest (h : W.Signs .finalizerDigest payload) :
    W.Accepts .finalizerDigest payload := by
  obtain ⟨signed, hp, hc, hs, rfl⟩ := h
  -- neither half of the preimage looks at the Finalizer's own signature
  refine ⟨{ signed with
    finalizerSig := ⟨[], [], finalizerDigest W.C W.C.sha256 signed, [0], 0⟩ }, [], hp, hc, hs, ?_⟩
  rw [verifyFinalizerSignature, if_neg (by simp), if_neg (by exact fun h => h rfl)]
  split
  · rfl
  · rename_i hr
    exact absurd (approving_iff.mpr rfl) hr

theorem accepts_of_signs_upgradeDigest (h : W.Signs .upgradeDigest payload) :
    W.Accepts .upgradeDigest payload := by
  obtain ⟨ti, p, hp, hc, rfl⟩ := h
  refine ⟨ti, { p with ownerSignatures := [[]] }, [[]], 1, hp, hc, ?_⟩
  rw [verifyQuorum_iff]
  refine ⟨Nat.one_pos, ?_⟩
  rw [filter_cons_of_pos]
  · exact Nat.le_refl 1
  · simp [ownerSigned, Codec.approving, UpgradeParams.digest, upgradeDigest]

end SigningWorld

def blankCarrier : Bytes := table (default : Transaction).fields

def threeHash (first second target bytes : Bytes) : Bytes :=
  if bytes = [] then second else if bytes = blankCarrier then first else target

/-- Three digests and a string whose digest is the last of them. -/
structure HashPlan where
  first : Bytes
  second : Bytes
  target : Bytes
  preimage : Bytes
  lengths : first.length = 32 ∧ second.length = 32 ∧ target.length = 32
  distinct : first ≠ second ∧ first ≠ target ∧ second ≠ target
  fresh : preimage ≠ [] ∧ preimage ≠ blankCarrier

namespace HashPlan

variable (plan : HashPlan)

def hash : Bytes → Bytes := threeHash plan.first plan.second plan.target

theorem hash_nil : plan.hash [] = plan.second := by
  rw [hash, threeHash, if_pos rfl]

theorem hash_carrier : plan.hash blankCarrier = plan.first := by
  rw [hash, threeHash, if_neg (by decide +kernel), if_pos rfl]

theorem hash_preimage : plan.hash plan.preimage = plan.target := by
  rw [hash, threeHash, if_neg plan.fresh.1, if_neg plan.fresh.2]

/-- The serializers as they are, with the hash of a plan. -/
def world : SigningWorld where
  C :=
    { sampleCodec with
      sha256 := plan.hash
      rmpTransaction := fun tx => table tx.fields
      rmpCanonicalTransaction := fun tx => table tx.fields
      rmpShielded := fun stx => table stx.fields
      rmpFinalizerCarrier := fun signed => table signed.transaction.fields
      rmpAttestation := attestationTuple }
  N := ⟨bindingPayload, fun _ _ _ => []⟩
  K :=
    { sampleContracts with
      rmpCreateTokenDelta := fun delta => table (delta.fields (table []))
      rmpReplaceAssetDelta := fun delta => table delta.fields }
  M :=
    { upgradeEngines with
      rmpTransferDelta := fun delta => table delta.fields
      rmpWasmResult := fun result => table result.fields
      rmpDigestInput := fun tokenId bytecodeHash newOwners newThreshold proposalEpoch =>
        table (digestInputFields tokenId bytecodeHash newOwners newThreshold proposalEpoch) }
  namedMaps :=
    ⟨fun _ => rfl, fun _ => rfl, fun _ => rfl, fun _ _ _ _ _ => rfl, fun _ _ _ => rfl,
      fun _ => rfl, fun _ => rfl, fun _ => ⟨_, rfl⟩, fun _ => rfl, fun _ _ _ _ _ => rfl⟩
  hash_length bytes := by
    show (threeHash _ _ _ bytes).length = 32
    obtain ⟨hfirst, hsecond, htarget⟩ := plan.lengths
    unfold threeHash
    split_ifs
    · exact hsecond
    · exact hfirst
    · exact htarget
  hashed := {[], blankCarrier, plan.preimage}
  collisionFree := by
    have hdistinct := plan.distinct
    rintro a (rfl | rfl | rfl) b (rfl | rfl | rfl) heq <;>
      grind [hash_nil, hash_carrier, hash_preimage]

theorem signs_executorVote (result : ResultData)
    (h : result.bytes plan.world.K plan.world.M = plan.preimage) :
    plan.world.Signs .executorVote plan.target :=
  ⟨result, .inr (.inr h), (congrArg plan.hash h).trans plan.hash_preimage⟩

theorem signs_shieldedVote {stx : ShieldedTransaction}
    (h : table stx.fields = plan.preimage) : plan.world.Signs .shieldedVote plan.target :=
  ⟨stx, .inr (.inr h), (congrArg plan.hash h).trans plan.hash_preimage⟩

theorem signs_finalizerDigest (h : plan.first ++ plan.second = plan.preimage) :
    plan.world.Signs .finalizerDigest plan.target := by
  have hs : executorSignatures default = [] := rfl
  have hp : finalizerPreimage plan.world.C default = plan.preimage := by
    rw [finalizerPreimage, hs, ← h]
    exact congrArg₂ (· ++ ·) plan.hash_carrier plan.hash_nil
  refine ⟨default, .inr (.inr hp), .inr (.inl rfl), .inl hs, ?_⟩
  exact (congrArg plan.hash hp).trans plan.hash_preimage

theorem signs_upgradeDigest
    (h : upgradeDomain ++ table (digestInputFields [] plan.second [] 0 0) = plan.preimage) :
    plan.world.Signs .upgradeDigest plan.target := by
  have hp : upgradePreimage plan.world.C plan.world.M [] ⟨[], [], 0, 0, []⟩ = plan.preimage := by
    rw [← h, ← plan.hash_nil]
    rfl
  refine ⟨[], ⟨[], [], 0, 0, []⟩, .inr (.inr hp), .inl rfl, ?_⟩
  exact (congrArg plan.hash hp).trans plan.hash_preimage

end HashPlan

/-- Any 32 bytes but two are the digest of some world, for each kind of digest. -/
theorem exists_signs_digest {purpose : Purpose} (hd : purpose.isDigest = true)
    {target : Bytes} (hl : target.length = 32) (hz : replicate 32 0 ≠ target)
    (ho : replicate 32 1 ≠ target) : ∃ W : SigningWorld, W.Signs purpose target := by
  have hpl : ∀ preimage : Bytes, preimage ≠ [] ∧ preimage ≠ blankCarrier →
      ∃ plan : HashPlan, plan.first = replicate 32 0 ∧ plan.second = replicate 32 1 ∧
        plan.target = target ∧ plan.preimage = preimage :=
    fun preimage hfr => ⟨⟨_, _, target, preimage, ⟨by decide, by decide, hl⟩,
      ⟨by decide, hz, ho⟩, hfr⟩, rfl, rfl, rfl, rfl⟩
  cases purpose with
  | executorVote =>
    obtain ⟨plan, -, -, rfl, hp⟩ :=
      hpl (LittleEndian.leBytes 8 0) (by decide +kernel)
    exact ⟨_, plan.signs_executorVote (.emitted 0) hp.symm⟩
  | shieldedVote =>
    obtain ⟨plan, -, -, rfl, hp⟩ :=
      hpl (table (default : ShieldedTransaction).fields) (by decide +kernel)
    exact ⟨_, plan.signs_shieldedVote hp.symm⟩
  | finalizerDigest =>
    obtain ⟨plan, hf, hs, rfl, hp⟩ :=
      hpl (replicate 32 0 ++ replicate 32 1) (by decide +kernel)
    exact ⟨_, plan.signs_finalizerDigest (by rw [hf, hs, hp])⟩
  | upgradeDigest =>
    obtain ⟨plan, -, hs, rfl, hp⟩ :=
      hpl (upgradeDomain ++ table (digestInputFields [] (replicate 32 1) [] 0 0))
        (by decide +kernel)
    exact ⟨_, plan.signs_upgradeDigest (by rw [hs, hp])⟩
  | _ => cases hd

/-- A binding, an attestation and a body of 32 bytes each. -/
def shortBinding : Bytes :=
  bindingPayload ⟨List.replicate 14 0 ++ [200, 200], rfl⟩ .executor []

def shortAttestation : Bytes := attestationTuple [] 3 (List.replicate 24 0) 0 []

def shortId : String := "0123456789012345678901234567890"

theorem exists_signs_short (purpose : Purpose) (hd : purpose.isDigest = true) :
    (∃ W : SigningWorld, W.Signs purpose shortBinding) ∧
      (∃ W : SigningWorld, W.Signs purpose shortAttestation) ∧
      ∃ W : SigningWorld, W.Signs purpose (str (asBytes shortId)) := by
  refine ⟨?_, ?_, ?_⟩
  all_goals exact exists_signs_digest hd rfl (by decide +kernel) (by decide +kernel)

theorem exists_signs (purpose : Purpose) :
    ∃ (W : SigningWorld) (payload : Bytes), W.Signs purpose payload := by
  obtain ⟨W, hs⟩ := (exists_signs_short .executorVote rfl).1
  cases purpose with
  | envelopeBody => exact ⟨W, _, .transactionId "", trivial, rfl⟩
  | registrationBinding => exact ⟨W, _, default, .executor, [], rfl⟩
  | directoryQuery =>
    exact ⟨W, _, ⟨⟨[], default, .request, [], .executor, []⟩, default, ⟨replicate 16 0, rfl⟩⟩, rfl⟩
  | selectionAttestation =>
    exact ⟨W, _, ⟨replicate 32 0, 0, [], [], []⟩, "", by decide, rfl, rfl⟩
  | senderTransaction =>
    refine ⟨W, _, default, ?_, rfl⟩
    constructor <;> decide
  | executorVote => exact ⟨W, _, hs⟩
  | shieldedVote | finalizerDigest | upgradeDigest =>
    exact ⟨_, _, (exists_signs_short _ rfl).1.choose_spec⟩

/-- A module whose output makes its result the two hashes of a block. -/
def chosenOutput : WasmResult := ⟨List.replicate 31 0, []⟩

/-- The result of a contract that has the digest of a block. -/
theorem exists_result_of_block : ∃ W payload, SigningWorld.Signs W .executorVote payload ∧
      SigningWorld.Signs W .finalizerDigest payload := by
  let plan : HashPlan :=
    { first := (table chosenOutput.fields).take 32
      second := (table chosenOutput.fields).drop 32
      target := replicate 32 0
      preimage := table chosenOutput.fields
      lengths := by decide +kernel
      distinct := by decide +kernel
      fresh := by decide +kernel }
  exact ⟨plan.world, plan.target, plan.signs_executorVote (.wasm chosenOutput) rfl,
    plan.signs_finalizerDigest (take_append_drop 32 _)⟩

theorem exists_meeting {signed checked : Purpose} (h : signed.separated checked = false) :
    ∃ W payload, SigningWorld.Signs W signed payload ∧ SigningWorld.Accepts W checked payload := by
  obtain ⟨W, payload, hs⟩ := exists_signs signed
  cases checked with
  | envelopeBody => exact ⟨W, payload, hs, accepts_envelopeBody payload⟩
  | executorVote => exact ⟨W, payload, hs, accepts_executorVote payload⟩
  | shieldedVote => exact ⟨W, payload, hs, accepts_shieldedVote payload⟩
  | directoryQuery => cases h
  | senderTransaction => cases h
  | registrationBinding =>
    have hd : signed.isDigest = true := by simpa [Purpose.separated] using h
    obtain ⟨W, hsh⟩ := (exists_signs_short signed hd).1
    exact ⟨W, _, hsh, accepts_registrationBinding_iff.mpr ⟨_, _, _, rfl⟩⟩
  | selectionAttestation =>
    have hd : signed.isDigest = true := by simpa [Purpose.separated] using h
    obtain ⟨W, hsh⟩ := (exists_signs_short signed hd).2.1
    exact ⟨W, _, hsh, accepts_selectionAttestation_iff.mpr ⟨"", 3, _, 0, [], by decide, rfl⟩⟩
  | finalizerDigest =>
    obtain ⟨⟨W, hb⟩, -, ⟨W', hbd⟩⟩ :=
      exists_signs_short .finalizerDigest rfl
    cases signed with
    | envelopeBody =>
      exact ⟨W', _, ⟨.transactionId shortId, trivial, rfl⟩, accepts_of_signs_finalizerDigest hbd⟩
    | registrationBinding =>
      exact ⟨W, _, ⟨_, .executor, [], W.namedMaps.binding _ _ _⟩,
        accepts_of_signs_finalizerDigest hb⟩
    | executorVote =>
      obtain ⟨W, payload, hv, hbl⟩ := exists_result_of_block
      exact ⟨W, payload, hv, accepts_of_signs_finalizerDigest hbl⟩
    | _ => cases h
  | upgradeDigest =>
    obtain ⟨⟨W, hb⟩, -, ⟨W', hbd⟩⟩ :=
      exists_signs_short .upgradeDigest rfl
    cases signed with
    | envelopeBody =>
      exact ⟨W', _, ⟨.transactionId shortId, trivial, rfl⟩, accepts_of_signs_upgradeDigest hbd⟩
    | registrationBinding =>
      exact ⟨W, _, ⟨_, .executor, [], W.namedMaps.binding _ _ _⟩, accepts_of_signs_upgradeDigest hb⟩
    | _ => cases h

/-- Two purposes are apart in every world where the table says so, and nowhere else. -/
theorem purposes_disjoint_iff {signed checked : Purpose} (hne : signed ≠ checked) :
    (∀ W : SigningWorld, W.Disjoint signed checked) ↔ signed.separated checked = true := by
  refine ⟨fun hd => ?_, fun h W => disjoint_of_separated hne h⟩
  by_contra hm
  obtain ⟨W, payload, hb⟩ := exists_meeting (Bool.eq_false_of_not_eq_true hm)
  exact hd W payload hb

/-- No vote for a result is a directory query. -/
theorem executorVote_never_query : Purpose.executorVote ≠ .directoryQuery ∧
    ∀ W : SigningWorld, W.Disjoint .executorVote .directoryQuery :=
  ⟨by decide, (purposes_disjoint_iff (by decide)).mpr rfl⟩

/-- The bytes a sender signed are the body of an envelope, the digest of a block is a vote
for a result, and the id of a transaction to clear is an upgrade the owners agreed on. -/
theorem purposes_meet : (∃ W : SigningWorld, ¬ W.Disjoint .senderTransaction .envelopeBody) ∧
      (∃ W : SigningWorld, ¬ W.Disjoint .finalizerDigest .executorVote) ∧
      ∃ W : SigningWorld, ¬ W.Disjoint .envelopeBody .upgradeDigest := by
  have hm : ∀ {signed checked : Purpose}, signed.separated checked = false →
      ∃ W : SigningWorld, ¬ W.Disjoint signed checked := by
    intro signed checked h
    obtain ⟨W, payload, hb⟩ := exists_meeting h
    exact ⟨W, fun hd => hd payload hb⟩
  exact ⟨hm rfl, hm rfl, hm rfl⟩

end Pneumatic
