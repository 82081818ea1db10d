import Pneumatic.DataService.Provider
import Pneumatic.Lib.Codebook

/-!
# What one exchange with the data service does

A request is served when its frame gets through, is neither too short nor too
long for the service and carries the tag the service expects. What is served is
a prefix of the request: the whole of it unless the length of the frame has
wrapped. A served request is dispatched whether or not the client will
authenticate the reply.
-/

namespace Pneumatic

open Handler HandlerM LittleEndian Codebook List

variable (D : DataCodec) (F : StateFormat) (channel : Channel)

/-- The payload the service dispatches for a request, if it dispatches any. -/
def served (request : DataRequest) : Option Bytes :=
  if channel.link.resolves ∧ channel.link.connects ∧ channel.link.sends then
    (D.serializeRequest request).bind fun data =>
      receive D channel.serverSecret (frame D channel.clientSecret data)
  else none

/-- The client gets the reply in time and authenticates it. -/
def AnsweredWith (response : Bytes) : Prop :=
  channel.link.answers = true ∧ verifyPayload D channel.clientSecret
      (signPayload D channel.serverSecret response).bytes response = true

variable {D F channel}

theorem frameHeader_length (n : Nat) : (frameHeader n).length = 4 := by
  simp [frameHeader]

variable {secret : Option Bytes} {payload : Bytes}

theorem take_frame :
    (frame D secret payload).take 4 = frameHeader (authTagLen + payload.length) := by
  unfold frame
  rw [take_left' (frameHeader_length _)]

theorem drop_frame :
    (frame D secret payload).drop 4 = (signPayload D secret payload).bytes ++ payload := by
  unfold frame
  rw [drop_left' (frameHeader_length _)]

theorem leNat_frameHeader (n : Nat) : leNat (frameHeader n).reverse = n % 256 ^ 4 := by
  unfold frameHeader
  rw [reverse_reverse, leNat_leBytes_mod]

theorem tag_length (secret : Option Bytes) (payload : Bytes) :
    (signPayload D secret payload).bytes.length = authTagLen :=
  (signPayload D secret payload).length_eq

theorem frame_length (secret : Option Bytes) (payload : Bytes) :
    (frame D secret payload).length = 4 + (authTagLen + payload.length) := by
  unfold frame
  rw [length_append, length_append, frameHeader_length, tag_length]

/-- A frame always has as many bytes as its length says: a length that has
wrapped is too small. -/
theorem readBody_frame {body : Bytes} (h : readBody (frame D secret payload) = some body) :
    ∃ n, body = (signPayload D secret payload).bytes ++ payload.take n := by
  unfold readBody at h
  rw [take_frame, drop_frame, leNat_frameHeader] at h
  dsimp only at h
  split at h
  · cases h
  split at h
  · cases h
  next htag =>
    split at h
    · cases h
    split at h
    · cases h
    cases h
    refine ⟨(authTagLen + payload.length) % 256 ^ 4 - authTagLen, ?_⟩
    rw [take_append, tag_length, take_of_length_le]
    rw [tag_length]
    omega

/-- What the service accepts is a prefix of what was sent. -/
theorem exists_take_of_receive {clientSecret serverSecret : Option Bytes} {data : Bytes}
    (h : receive D serverSecret (frame D clientSecret data) = some payload) :
    ∃ n, payload = data.take n := by
  unfold receive at h
  split at h
  · cases h
  next body hb =>
    obtain ⟨n, rfl⟩ := readBody_frame hb
    split at h
    · cases h
      exact ⟨n, drop_left' (tag_length _ _)⟩
    · cases h

/-- A reply that fits is read as it was sent, if its tag is the expected one. -/
theorem readReply_frame {clientSecret serverSecret : Option Bytes} {response : Bytes}
    (hf : authTagLen + response.length ≤ maxFrameSize) :
    readReply D clientSecret (frame D serverSecret response) =
      if verifyPayload D clientSecret (signPayload D serverSecret response).bytes response
      then .ok response else .error .unauthenticated := by
  have hlen : (authTagLen + response.length) % 256 ^ 4 = authTagLen + response.length := by
    refine Nat.mod_eq_of_lt (lt_of_le_of_lt hf ?_)
    decide
  unfold readReply
  rw [frame_length, take_frame, drop_frame, leNat_frameHeader, hlen]
  rw [if_neg (by omega), if_neg (by omega), length_append, tag_length,
    if_neg (by omega), take_of_length_le (by rw [length_append, tag_length])]
  unfold unframe
  rw [length_append, tag_length, if_neg (by omega), take_left' (tag_length _ _),
    drop_left' (tag_length _ _)]

section Exchange

variable {request : DataRequest} {store : DataStore}

/-- A request that is not served fails and changes nothing. -/
theorem exchange_unserved (h : served D channel request = none) :
    Ends (exchange D F channel request) store (fun _ _ => False)
      (fun _ after => after = store) := by
  unfold served at h
  simp only [exchange, getResponse, ends_bind, ends_require, ends_ofOption, ends_zoom,
    ends_getState, ends_update, ends_lift]
  refine ⟨fun hr => ⟨fun data hd => ⟨fun hc => ⟨fun hs => ?_,
    fun _ => rfl⟩, fun _ => rfl⟩, fun _ => trivial⟩, fun _ => trivial⟩
  have hrc : receive D channel.serverSecret (frame D channel.clientSecret data) = none := by
    simpa [hr, hc, hs, hd] using h
  simp [serveConnection, hrc]

/-- A request that is served leaves the store as the dispatch does, and succeeds
when the reply is authenticated. -/
theorem exchange_served {response : Bytes} {after : DataStore}
    (h : served D channel request = some payload)
    (hd : dispatchRequest D F channel.fault payload store = (response, after))
    (hf : authTagLen + response.length ≤ maxFrameSize) :
    Ends (exchange D F channel request) store
      (fun reply s => reply = response ∧ s = after ∧ AnsweredWith D channel response)
      (fun _ s => s = after ∧ ¬ AnsweredWith D channel response) := by
  unfold served at h
  split at h
  · next hl =>
    obtain ⟨hrs, hc, hsn⟩ := hl
    obtain ⟨data, hdt, hrc⟩ := Option.bind_eq_some_iff.mp h
    have hsr : serveConnection D F channel.fault channel.serverSecret
        (frame D channel.clientSecret data) store =
        (some (frame D channel.serverSecret response), after) := by
      simp only [serveConnection, hrc, hd]
    simp only [exchange, getResponse, hrs, hdt, hc, hsn, ends_bind,
      ends_require, ends_ofOption, ends_zoom, ends_getState, ends_update, ends_lift,
      Option.some.injEq, forall_eq', reduceCtorEq, id_eq, hsr, true_imp_iff,
      false_imp_iff, not_true_eq_false, and_true, true_and, readReply_frame hf]
    refine ⟨fun ha => ⟨fun reply hr => ?_, fun e he => ?_⟩, fun hs h =>
      hs h.1⟩
    · split at hr
      · next hv =>
        cases hr
        exact ⟨rfl, ha, hv⟩
      · cases hr
    · split at he
      · cases he
      · next hrf => exact fun h => hrf h.2
  · cases h

end Exchange

def heldStakes : StakeSet := (∅ : StakeSet).insert [5] 10

def sampleStakes : Envelope StakeSet := ⟨heldStakes, Bytes32.ofNat 0, some 0⟩

def sampleExecutors : Envelope ExecutorSet := ⟨⟨heldStakes⟩, Bytes32.ofNat 0, some 0⟩

def sampleValues : (kind : Kind) → List (kind.Stored × Bytes)
  | .data => [(([7] : Bytes), [1])]
  | .stakeSnapshot => [(sampleStakes, [2])]
  | .executorSet => [(sampleExecutors, [3])]
  | _ => []

/-- Requests for the first epoch and for the key `[1]`. -/
def sampleRequests : List (DataRequest × Bytes) :=
  [(⟨[1], .save ⟨.data, ([7] : Bytes)⟩, "p"⟩, [10]),
    (⟨Entity.epochKey 0, .save ⟨.stakeSnapshot, sampleStakes⟩, "p"⟩, [11]),
    (⟨Entity.epochKey 0, .save ⟨.executorSet, sampleExecutors⟩, "p"⟩, [12]),
    (⟨Entity.epochKey 0, .get (.stakeSnapshot 0), "p"⟩, [13]),
    (⟨Entity.epochKey 0, .get (.executorSet 0), "p"⟩, [14])]

def sampleData : DataCodec where
  sha256 _ := []
  hmacSha256 _ _ := Bytes32.ofNat 0
  canonicalStakes _ := none
  canonicalPool _ := none
  serialize kind := encode (sampleValues kind)
  deserialize kind := decode (sampleValues kind)
  serializeRequest := encode sampleRequests
  deserializeRequest := decode sampleRequests
  deserialize_serialize kind stored bytes h := by
    refine decode_encode ?_ h
    cases kind <;> decide
  deserialize_otherKind kind stored bytes h other hother := by
    refine decode_eq_none fun hword => ?_
    have hmem := List.mem_map_of_mem (f := Prod.snd) (mem_of_encode h)
    cases kind <;> cases other <;> simp_all [sampleValues]
  deserialize_nil kind := by
    refine decode_eq_none ?_
    cases kind <;> decide
  deserialize_serializeRequest request bytes h :=
    decode_encode (by decide) h
  deserializeRequest_truncated request bytes h n hn := by
    have hmem := List.mem_map_of_mem (f := Prod.snd) (mem_of_encode h)
    have hone : ∀ word ∈ sampleRequests.map Prod.snd, word.length = 1 := by decide
    rw [hone bytes hmem, Nat.lt_one_iff] at hn
    rw [hn, List.take_zero]
    exact decode_eq_none (by decide)

/-- A connection on which nothing goes wrong, without secrets. -/
def soundChannel : Channel where
  clientSecret := none
  serverSecret := none
  link := ⟨true, true, true, true⟩
  fault := none

/-- The file of a store with the value of `[1]`. -/
def sampleFormat : StateFormat where
  toJson := encode [([⟨"p", "01", "01"⟩], [5])]
  fromJson := decode [([⟨"p", "01", "01"⟩], [5])]
  fromJson_toJson _ _ h := decode_encode (by decide) h

end Pneumatic
