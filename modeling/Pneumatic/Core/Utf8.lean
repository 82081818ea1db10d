import Pneumatic.Core.Bytes

/-!
# Lossy decoding

`String::from_utf8_lossy`, which turns the id bytes of a message into the key of
a registry. A sequence that is not well-formed is cut after its longest
well-formed start, at least one byte, and replaced by one U+FFFD; so different
byte strings can name one key, and no byte string is refused.
-/

namespace Pneumatic

def replacement : Char := Char.ofNat 0xFFFD

def isContinuation (b : UInt8) : Bool := 0x80 ≤ b && b ≤ 0xBF

/-- The second bytes allowed after the first byte of a three-byte sequence. -/
def secondOfThree (b c : UInt8) : Bool :=
  if b = 0xE0 then 0xA0 ≤ c && c ≤ 0xBF
  else if b = 0xED then 0x80 ≤ c && c ≤ 0x9F
  else isContinuation c

/-- The second bytes allowed after the first byte of a four-byte sequence. -/
def secondOfFour (b c : UInt8) : Bool :=
  if b = 0xF0 then 0x90 ≤ c && c ≤ 0xBF
  else if b = 0xF4 then 0x80 ≤ c && c ≤ 0x8F
  else isContinuation c

def lowBits (b : UInt8) : Nat := b.toNat % 64

def lossyChars : Bytes → List Char
  | [] => []
  | b :: rest =>
    if b < 0x80 then Char.ofNat b.toNat :: lossyChars rest
    else if 0xC2 ≤ b && b ≤ 0xDF then
      match rest with
      | [] => [replacement]
      | c :: rest' =>
        if isContinuation c then
          Char.ofNat (b.toNat % 32 * 64 + lowBits c) :: lossyChars rest'
        else replacement :: lossyChars (c :: rest')
    else if 0xE0 ≤ b && b ≤ 0xEF then
      match rest with
      | [] => [replacement]
      | c :: rest' =>
        if secondOfThree b c then
          match rest' with
          | [] => [replacement]
          | d :: rest'' =>
            if isContinuation d then
              Char.ofNat ((b.toNat % 16 * 64 + lowBits c) * 64 + lowBits d) :: lossyChars rest''
            else replacement :: lossyChars (d :: rest'')
        else replacement :: lossyChars (c :: rest')
    else if 0xF0 ≤ b && b ≤ 0xF4 then
      match rest with
      | [] => [replacement]
      | c :: rest' =>
        if secondOfFour b c then
          match rest' with
          | [] => [replacement]
          | d :: rest'' =>
            if isContinuation d then
              match rest'' with
              | [] => [replacement]
              | e :: rest''' =>
                if isContinuation e then
                  Char.ofNat (((b.toNat % 8 * 64 + lowBits c) * 64 +
                    lowBits d) * 64 + lowBits e) :: lossyChars rest'''
                else replacement :: lossyChars (e :: rest''')
            else replacement :: lossyChars (d :: rest'')
        else replacement :: lossyChars (c :: rest')
    else replacement :: lossyChars rest

def fromUtf8Lossy (bytes : Bytes) : String := String.ofList (lossyChars bytes)

def asBytes (s : String) : Bytes := s.toUTF8.data.toList

theorem asBytes_injective : Function.Injective asBytes := by
  intro s t h
  exact String.toByteArray_inj.mp (ByteArray.ext (Array.toList_inj.mp h))

variable {b : UInt8}

theorem between_iff {lo hi : UInt8} :
    (lo ≤ b && b ≤ hi) = true ↔ lo.toNat ≤ b.toNat ∧ b.toNat ≤ hi.toNat := by
  simp only [Bool.and_eq_true, decide_eq_true_eq, UInt8.le_iff_toNat_le]

theorem not_between {lo hi : UInt8} (h : hi.toNat < b.toNat) : ¬ (lo ≤ b && b ≤ hi) = true := by
  rw [between_iff]
  omega

theorem not_ascii (h : 0x80 ≤ b.toNat) : ¬ b < 0x80 := by
  exact Nat.not_lt.mpr h

variable {c : UInt8} {rest : Bytes}

theorem lossyChars_two (hb : 0xC2 ≤ b.toNat ∧ b.toNat ≤ 0xDF) (hc : isContinuation c = true) :
    lossyChars (b :: c :: rest) =
      Char.ofNat (b.toNat % 32 * 64 + lowBits c) :: lossyChars rest := by
  have ha : ¬ b < 0x80 := not_ascii (by omega)
  have htwo : (0xC2 ≤ b && b ≤ 0xDF) = true := between_iff.mpr hb
  rw [lossyChars.eq_def]
  simp only [if_neg ha, if_pos htwo, if_pos hc]

theorem lossyChars_three {d : UInt8}
    (hb : 0xE0 ≤ b.toNat ∧ b.toNat ≤ 0xEF) (hc : secondOfThree b c = true)
    (hd : isContinuation d = true) : lossyChars (b :: c :: d :: rest) =
      Char.ofNat ((b.toNat % 16 * 64 + lowBits c) * 64 + lowBits d) :: lossyChars rest := by
  have ha : ¬ b < 0x80 := not_ascii (by omega)
  have htwo : ¬ (0xC2 ≤ b && b ≤ 0xDF) = true :=
    not_between (Nat.lt_of_lt_of_le (by decide) hb.1)
  have ht : (0xE0 ≤ b && b ≤ 0xEF) = true := between_iff.mpr hb
  rw [lossyChars.eq_def]
  simp only [if_neg ha, if_neg htwo, if_pos ht, if_pos hc, if_pos hd]

theorem lossyChars_four {d e : UInt8}
    (hb : 0xF0 ≤ b.toNat ∧ b.toNat ≤ 0xF4) (hc : secondOfFour b c = true)
    (hd : isContinuation d = true) (he : isContinuation e = true) :
    lossyChars (b :: c :: d :: e :: rest) =
      Char.ofNat (((b.toNat % 8 * 64 + lowBits c) * 64 + lowBits d) * 64 +
        lowBits e) :: lossyChars rest := by
  have ha : ¬ b < 0x80 := not_ascii (by omega)
  have htwo : ¬ (0xC2 ≤ b && b ≤ 0xDF) = true :=
    not_between (Nat.lt_of_lt_of_le (by decide) hb.1)
  have ht : ¬ (0xE0 ≤ b && b ≤ 0xEF) = true :=
    not_between (Nat.lt_of_lt_of_le (by decide) hb.1)
  have hf : (0xF0 ≤ b && b ≤ 0xF4) = true := between_iff.mpr hb
  rw [lossyChars.eq_def]
  simp only [if_neg ha, if_neg htwo, if_neg ht, if_pos hf, if_pos hc, if_pos hd, if_pos he]

variable {n : Nat}

theorem toNat_ofNat_of_lt (h : n < 256) : (UInt8.ofNat n).toNat = n := by
  exact Nat.mod_eq_of_lt h

variable {m : Nat}

theorem eq_of_ofNat_eq (hm : m < 256) (hn : n < 256)
    (h : UInt8.ofNat m = UInt8.ofNat n) : m = n := by
  rw [← toNat_ofNat_of_lt hm, h, toNat_ofNat_of_lt hn]

theorem isContinuation_ofNat (h : n < 64) : isContinuation (UInt8.ofNat (n + 128)) = true := by
  refine between_iff.mpr ?_
  rw [toNat_ofNat_of_lt (by omega)]
  show 128 ≤ n + 128 ∧ n + 128 ≤ 191
  omega

theorem lowBits_ofNat (h : n < 64) : lowBits (UInt8.ofNat (n + 128)) = n := by
  rw [lowBits, toNat_ofNat_of_lt (by omega)]
  omega

/-- The second byte of a three-byte sequence is allowed unless the sequence is
overlong or a surrogate. -/
theorem secondOfThree_ofNat (hm : m < 16) (hn : n < 64)
    (hl : m = 0 → 32 ≤ n) (hs : m = 13 → n < 32) :
    secondOfThree (UInt8.ofNat (m + 224)) (UInt8.ofNat (n + 128)) = true := by
  unfold secondOfThree
  split
  · next h =>
    have hm0 : _ = 0xE0 := eq_of_ofNat_eq (by omega) (by omega) h
    refine between_iff.mpr ?_
    rw [toNat_ofNat_of_lt (by omega)]
    show 160 ≤ n + 128 ∧ n + 128 ≤ 191
    omega
  · split
    · next h =>
      have hm13 : _ = 0xED := eq_of_ofNat_eq (by omega) (by omega) h
      refine between_iff.mpr ?_
      rw [toNat_ofNat_of_lt (by omega)]
      show 128 ≤ n + 128 ∧ n + 128 ≤ 159
      omega
    · exact isContinuation_ofNat hn

/-- The second byte of a four-byte sequence is allowed unless the sequence is
overlong or beyond the last character. -/
theorem secondOfFour_ofNat (hm : m < 5) (hn : n < 64) (hln : m = 0 → 16 ≤ n) (hl : m = 4 → n < 16) :
    secondOfFour (UInt8.ofNat (m + 240)) (UInt8.ofNat (n + 128)) = true := by
  unfold secondOfFour
  split
  · next h =>
    have hm0 : _ = 0xF0 := eq_of_ofNat_eq (by omega) (by omega) h
    refine between_iff.mpr ?_
    rw [toNat_ofNat_of_lt (by omega)]
    show 144 ≤ n + 128 ∧ n + 128 ≤ 191
    omega
  · split
    · next h =>
      have hm4 : _ = 0xF4 := eq_of_ofNat_eq (by omega) (by omega) h
      refine between_iff.mpr ?_
      rw [toNat_ofNat_of_lt (by omega)]
      show 128 ≤ n + 128 ∧ n + 128 ≤ 143
      omega
    · exact isContinuation_ofNat hn

theorem lossyChars_utf8EncodeChar (c : Char) (rest : Bytes) :
    lossyChars (String.utf8EncodeChar c ++ rest) = c :: lossyChars rest := by
  have hvl : c.val.toNat < 0xD800 ∨ 0xDFFF < c.val.toNat ∧ c.val.toNat < 0x110000 := c.valid
  have hbc : Char.ofNat c.val.toNat = c := Char.ofNat_toNat c
  simp only [String.utf8EncodeChar]
  generalize c.val.toNat = v at hvl hbc ⊢
  split
  · have hb : (UInt8.ofNat v).toNat = v := toNat_ofNat_of_lt (by omega)
    have ha : UInt8.ofNat v < 0x80 := by
      rw [UInt8.lt_iff_toNat_lt, hb]
      show v < 128
      omega
    rw [List.singleton_append, lossyChars.eq_def]
    simp only [if_pos ha, hb, hbc]
  · split
    · have hb : (UInt8.ofNat (v / 64 % 32 + 192)).toNat = v / 64 % 32 + 192 :=
        toNat_ofNat_of_lt (by omega)
      have hv : (v / 64 % 32 + 192) % 32 * 64 + v % 64 = v := by omega
      refine (lossyChars_two (by omega) (isContinuation_ofNat (by omega))).trans ?_
      rw [hb, lowBits_ofNat (by omega), hv, hbc]
      rfl
    · split
      · have hb : (UInt8.ofNat (v / 4096 % 16 + 224)).toNat = v / 4096 % 16 + 224 :=
          toNat_ofNat_of_lt (by omega)
        have hv : ((v / 4096 % 16 + 224) % 16 * 64 + v / 64 % 64) * 64 + v % 64 = v := by
          omega
        refine (lossyChars_three (by omega) (secondOfThree_ofNat (by omega) (by omega)
          (by omega) (by omega)) (isContinuation_ofNat (by omega))).trans ?_
        rw [hb, lowBits_ofNat (by omega), lowBits_ofNat (by omega), hv, hbc]
        rfl
      · have hb : (UInt8.ofNat (v / 262144 % 8 + 240)).toNat = v / 262144 % 8 + 240 :=
          toNat_ofNat_of_lt (by omega)
        have hv : (((v / 262144 % 8 + 240) % 8 * 64 + v / 4096 % 64) * 64 +
            v / 64 % 64) * 64 + v % 64 = v := by
          omega
        refine (lossyChars_four (by omega) (secondOfFour_ofNat (by omega) (by omega)
          (by omega) (by omega)) (isContinuation_ofNat (by omega))
          (isContinuation_ofNat (by omega))).trans ?_
        rw [hb, lowBits_ofNat (by omega), lowBits_ofNat (by omega),
          lowBits_ofNat (by omega), hv, hbc]
        rfl

theorem asBytes_ofList (chars : List Char) :
    asBytes (String.ofList chars) = chars.flatMap String.utf8EncodeChar := by
  show (String.ofList chars).toByteArray.data.toList = _
  rw [String.toByteArray_ofList, List.utf8Encode, List.data_toByteArray]

theorem fromUtf8Lossy_asBytes (s : String) : fromUtf8Lossy (asBytes s) = s := by
  have hc : ∀ chars : List Char, lossyChars (chars.flatMap String.utf8EncodeChar) = chars := by
    intro chars
    induction chars with
    | nil => rfl
    | cons c rest ih => rw [List.flatMap_cons, lossyChars_utf8EncodeChar, ih]
  obtain ⟨chars, rfl⟩ : ∃ chars, s = String.ofList chars :=
    ⟨s.toList, String.ofList_toList.symm⟩
  rw [fromUtf8Lossy, asBytes_ofList, hc]

end Pneumatic
