import Pneumatic.Lib.LittleEndian
import Mathlib.Data.List.Forall2

/-!
# MessagePack

A MessagePack stream is a row of tokens. A number is one token; a string, an array
and a map begin with a token that says how much of what follows is theirs, and a
writer puts every number and every count into the narrowest form that holds it.

What a protocol asks of such an encoding is where one value ends and the next
begins. `read_bytes` answers it for a token, and `Aligned` carries the answer to
strings, arrays and records: two encodings are aligned if, wherever they begin two
equal streams, the streams go on equally after them. Two streams that differ in one
token are then different, however the values before it were chosen.
-/

namespace MessagePack

open LittleEndian List Option UInt32

/-- The tokens; `negative k` is the number `-1 - k`. Counts have 32 bits and numbers
64, so a longer count or number is cut to them before it is written. -/
inductive Token where
  | nil
  | uint (n : UInt64)
  | negative (k : Fin (2 ^ 63))
  | float32 (bits : UInt32)
  | str (length : UInt32)
  | array (count : UInt32)
  | map (count : UInt32)
deriving DecidableEq

/-- The `width` low bytes of a number, most significant first. -/
def bigEndian (width n : Nat) : List UInt8 := (leBytes width n).reverse

def Token.bytes : Token → List UInt8
  | .nil => [0xc0]
  | .uint n =>
    if n.toNat < 2 ^ 7 then [UInt8.ofNat n.toNat]
    else if n.toNat < 2 ^ 8 then 0xcc :: bigEndian 1 n.toNat
    else if n.toNat < 2 ^ 16 then 0xcd :: bigEndian 2 n.toNat
    else if n.toNat < 2 ^ 32 then 0xce :: bigEndian 4 n.toNat
    else 0xcf :: bigEndian 8 n.toNat
  | .negative k =>
    if k.val < 2 ^ 5 then [UInt8.ofNat (255 - k.val)]
    else if k.val < 2 ^ 7 then 0xd0 :: bigEndian 1 (2 ^ 8 - 1 - k.val)
    else if k.val < 2 ^ 15 then 0xd1 :: bigEndian 2 (2 ^ 16 - 1 - k.val)
    else if k.val < 2 ^ 31 then 0xd2 :: bigEndian 4 (2 ^ 32 - 1 - k.val)
    else 0xd3 :: bigEndian 8 (2 ^ 64 - 1 - k.val)
  | .float32 bits => 0xca :: bigEndian 4 bits.toNat
  | .str n =>
    if n.toNat < 2 ^ 5 then [UInt8.ofNat (0xa0 + n.toNat)]
    else if n.toNat < 2 ^ 8 then 0xd9 :: bigEndian 1 n.toNat
    else if n.toNat < 2 ^ 16 then 0xda :: bigEndian 2 n.toNat
    else 0xdb :: bigEndian 4 n.toNat
  | .array n =>
    if n.toNat < 2 ^ 4 then [UInt8.ofNat (0x90 + n.toNat)]
    else if n.toNat < 2 ^ 16 then 0xdc :: bigEndian 2 n.toNat
    else 0xdd :: bigEndian 4 n.toNat
  | .map n =>
    if n.toNat < 2 ^ 4 then [UInt8.ofNat (0x80 + n.toNat)]
    else if n.toNat < 2 ^ 16 then 0xde :: bigEndian 2 n.toNat
    else 0xdf :: bigEndian 4 n.toNat

/-- The token a tag is by itself. -/
def shortForm (tag : Nat) : Option Token :=
  if tag < 0x80 then some (.uint (UInt64.ofNat tag))
  else if tag < 0x90 then some (.map (UInt32.ofNat (tag - 0x80)))
  else if tag < 0xa0 then some (.array (UInt32.ofNat (tag - 0x90)))
  else if tag < 0xc0 then some (.str (UInt32.ofNat (tag - 0xa0)))
  else if tag = 0xc0 then some .nil
  else if 0xe0 ≤ tag then some (.negative (Fin.ofNat _ (255 - tag)))
  else none

/-- A negative number in two's complement at so many bits. -/
def ofComplement (bits n : Nat) : Token := .negative (Fin.ofNat _ (2 ^ bits - 1 - n))

/-- How many bytes a tag is followed by, and what the number in them means. -/
def longForm : Nat → Option (Nat × (Nat → Token))
  | 0xca => some (4, fun n => .float32 (UInt32.ofNat n))
  | 0xcc => some (1, fun n => .uint (UInt64.ofNat n))
  | 0xcd => some (2, fun n => .uint (UInt64.ofNat n))
  | 0xce => some (4, fun n => .uint (UInt64.ofNat n))
  | 0xcf => some (8, fun n => .uint (UInt64.ofNat n))
  | 0xd0 => some (1, ofComplement 8)
  | 0xd1 => some (2, ofComplement 16)
  | 0xd2 => some (4, ofComplement 32)
  | 0xd3 => some (8, ofComplement 64)
  | 0xd9 => some (1, fun n => .str (UInt32.ofNat n))
  | 0xda => some (2, fun n => .str (UInt32.ofNat n))
  | 0xdb => some (4, fun n => .str (UInt32.ofNat n))
  | 0xdc => some (2, fun n => .array (UInt32.ofNat n))
  | 0xdd => some (4, fun n => .array (UInt32.ofNat n))
  | 0xde => some (2, fun n => .map (UInt32.ofNat n))
  | 0xdf => some (4, fun n => .map (UInt32.ofNat n))
  | _ => none

/-- The first token of a stream and what follows it. -/
def read : List UInt8 → Option (Token × List UInt8)
  | [] => none
  | tag :: rest =>
    match shortForm tag.toNat with
    | some token => some (token, rest)
    | none =>
      match longForm tag.toNat with
      | none => none
      | some (width, make) =>
        if width ≤ rest.length then
          some (make (leNat (rest.take width).reverse), rest.drop width)
        else none

variable {token : Token}

theorem read_short {tag : Nat} (htag : tag < 256)
    (h : shortForm tag = some token) (rest : List UInt8) :
    read ([UInt8.ofNat tag] ++ rest) = some (token, rest) := by
  have hnat : (UInt8.ofNat tag).toNat = tag := by
    exact Nat.mod_eq_of_lt htag
  simp only [singleton_append, read, hnat, h]

theorem read_long {tag : UInt8} {width n : Nat} {make : Nat → Token}
    (hs : shortForm tag.toNat = none) (hln : longForm tag.toNat = some (width, make))
    (hn : n < 256 ^ width) (h : make n = token) (rest : List UInt8) :
    read (tag :: bigEndian width n ++ rest) = some (token, rest) := by
  have hl : (bigEndian width n).length = width := by simp [bigEndian]
  have hle : width ≤ (bigEndian width n ++ rest).length := by
    rw [length_append]
    omega
  simp only [cons_append, read, hs, hln]
  rw [if_pos hle, take_left' hl, drop_left' hl, bigEndian, reverse_reverse, leNat_leBytes hn, h]

theorem ofComplement_complement {bits : Nat} {k : Fin (2 ^ 63)} (h : k.val < 2 ^ bits) :
    ofComplement bits (2 ^ bits - 1 - k.val) = .negative k := by
  have hb : 2 ^ bits - 1 - (2 ^ bits - 1 - k.val) = k.val := by omega
  unfold ofComplement
  rw [hb]
  exact congrArg Token.negative (Fin.ext (Nat.mod_eq_of_lt k.isLt))

/-- What is written is read back, whatever follows it. -/
theorem read_bytes (token : Token) (rest : List UInt8) :
    read (token.bytes ++ rest) = some (token, rest) := by
  cases token with
  | nil => rfl
  | uint n =>
    have hn : n.toNat < 2 ^ 64 := n.toNat_lt
    have hb : Token.uint (UInt64.ofNat n.toNat) = .uint n := by
      rw [UInt64.ofNat_toNat]
    simp only [Token.bytes]
    split_ifs with h7 h8 h16 h32
    · refine read_short (by omega) ?_ rest
      rw [shortForm, if_pos (by omega), hb]
    all_goals exact read_long rfl rfl (by omega) hb rest
  | negative k =>
    have hk : k.val < 2 ^ 63 := k.isLt
    simp only [Token.bytes]
    split_ifs with h5 h7 h15 h31
    · refine read_short (by omega) ?_ rest
      have hb : 255 - (255 - k.val) = k.val := by omega
      rw [shortForm, if_neg (by omega), if_neg (by omega), if_neg (by omega),
        if_neg (by omega), if_neg (by omega), if_pos (by omega), hb]
      exact congrArg (fun k => some (Token.negative k)) (Fin.ext (Nat.mod_eq_of_lt hk))
    all_goals exact read_long rfl rfl (by omega) (ofComplement_complement (by omega)) rest
  | float32 bits =>
    have hbt : bits.toNat < 2 ^ 32 := bits.toNat_lt
    have hb : Token.float32 (ofNat bits.toNat) = .float32 bits := by
      rw [UInt32.ofNat_toNat]
    exact read_long rfl rfl (by omega) hb rest
  | str n =>
    have hn : n.toNat < 2 ^ 32 := n.toNat_lt
    have hb : Token.str (ofNat n.toNat) = .str n := by
      rw [UInt32.ofNat_toNat]
    simp only [Token.bytes]
    split_ifs with h5 h8 h16
    · refine read_short (by omega) ?_ rest
      rw [shortForm, if_neg (by omega), if_neg (by omega), if_neg (by omega),
        if_pos (by omega), Nat.add_sub_cancel_left, hb]
    all_goals exact read_long rfl rfl (by omega) hb rest
  | array n =>
    have hn : n.toNat < 2 ^ 32 := n.toNat_lt
    have hb : Token.array (ofNat n.toNat) = .array n := by
      rw [UInt32.ofNat_toNat]
    simp only [Token.bytes]
    split_ifs with h4 h16
    · refine read_short (by omega) ?_ rest
      rw [shortForm, if_neg (by omega), if_neg (by omega), if_pos (by omega),
        Nat.add_sub_cancel_left, hb]
    all_goals exact read_long rfl rfl (by omega) hb rest
  | map n =>
    have hn : n.toNat < 2 ^ 32 := n.toNat_lt
    have hb : Token.map (ofNat n.toNat) = .map n := by
      rw [UInt32.ofNat_toNat]
    simp only [Token.bytes]
    split_ifs with h4 h16
    · refine read_short (by omega) ?_ rest
      rw [shortForm, if_neg (by omega), if_pos (by omega), Nat.add_sub_cancel_left, hb]
    all_goals exact read_long rfl rfl (by omega) hb rest

/-- The first token of a stream. -/
def firstToken (bytes : List UInt8) : Option Token := (read bytes).map Prod.fst

@[simp]
theorem firstToken_bytes_append (token : Token) (rest : List UInt8) :
    firstToken (token.bytes ++ rest) = some token := by
  rw [firstToken, read_bytes, map_some]

theorem bytes_ne_nil (token : Token) : token.bytes ≠ [] := by
  intro hnil
  have hr := read_bytes token []
  rw [hnil] at hr
  cases hr

/-- Wherever the two begin equal streams, the streams go on equally after them. -/
def Aligned (as bs : List UInt8) : Prop :=
  ∀ rest rest', as ++ rest = bs ++ rest' → rest = rest'

variable {items : List (List UInt8)}

namespace Aligned

variable {as bs as' bs' : List UInt8}

theorem refl (as : List UInt8) : Aligned as as :=
  fun _ _ h => append_cancel_left h

theorem append (h : Aligned as bs) (h' : Aligned as' bs') : Aligned (as ++ as') (bs ++ bs') := by
  intro rest rest' heq
  rw [append_assoc, append_assoc] at heq
  exact h' _ _ (h _ _ heq)

theorem flatten {items' : List (List UInt8)} (h : List.Forall₂ Aligned items items') :
    Aligned items.flatten items'.flatten := by
  induction h with
  | nil => exact refl []
  | cons hh _ ih => exact hh.append ih

end Aligned

theorem eq_of_bytes_append {token' : Token} {rest rest' : List UInt8}
    (h : token.bytes ++ rest = token'.bytes ++ rest') : token = token' ∧ rest = rest' := by
  have hr := congrArg read h
  rw [read_bytes, read_bytes] at hr
  exact Prod.mk.inj (some.inj hr)

theorem aligned_bytes (token token' : Token) : Aligned token.bytes token'.bytes :=
  fun _ _ h => (eq_of_bytes_append h).2

/-- Streams that begin with two different tokens are never equal. -/
theorem Aligned.of_firstToken_ne {as bs : List UInt8}
    (h : ∀ rest rest', firstToken (as ++ rest) ≠ firstToken (bs ++ rest')) : Aligned as bs :=
  fun rest rest' heq => absurd (congrArg firstToken heq) (h rest rest')

theorem ne_of_firstToken {as bs : List UInt8} {token' : Token}
    (has : ∀ rest, firstToken (as ++ rest) = some token)
    (hbs : ∀ rest, firstToken (bs ++ rest) = some token') (h : token ≠ token') : as ≠ bs := by
  rintro rfl
  exact h (mem_unique (has []) (hbs []))

def uint (n : Nat) : List UInt8 := (Token.uint (UInt64.ofNat n)).bytes

def sint (i : Int) : List UInt8 :=
  if 0 ≤ i then uint i.toNat else (Token.negative (Fin.ofNat _ (-1 - i).toNat)).bytes

def str (text : List UInt8) : List UInt8 :=
  (Token.str (UInt32.ofNat text.length)).bytes ++ text

def array (items : List (List UInt8)) : List UInt8 :=
  (Token.array (UInt32.ofNat items.length)).bytes ++ items.flatten

/-- Bytes as an array of numbers, which is what they are unless a type asks for more. -/
def byteArray (bytes : List UInt8) : List UInt8 := array (bytes.map fun b => uint b.toNat)

/-- The entries of a map, each the encoding of a key before that of its value. -/
def entries (pairs : List (List UInt8 × List UInt8)) : List UInt8 :=
  (pairs.map fun pair => pair.1 ++ pair.2).flatten

/-- A map. A record is one from the names of its fields. -/
def table (pairs : List (List UInt8 × List UInt8)) : List UInt8 :=
  (Token.map (UInt32.ofNat pairs.length)).bytes ++ entries pairs

theorem entries_cons (pair : List UInt8 × List UInt8) (pairs : List (List UInt8 × List UInt8)) :
    entries (pair :: pairs) = pair.1 ++ pair.2 ++ entries pairs := rfl

theorem entries_append (pairs pairs' : List (List UInt8 × List UInt8)) :
    entries (pairs ++ pairs') = entries pairs ++ entries pairs' := by
  rw [entries, map_append, flatten_append]
  rfl

def optional {α : Type} (encode : α → List UInt8) : Option α → List UInt8
  | none => Token.bytes .nil
  | some a => encode a

@[simp]
theorem firstToken_uint (n : Nat) (rest : List UInt8) :
    firstToken (uint n ++ rest) = some (.uint (UInt64.ofNat n)) :=
  firstToken_bytes_append _ rest

@[simp]
theorem firstToken_str (text rest : List UInt8) :
    firstToken (str text ++ rest) = some (.str (ofNat text.length)) := by
  rw [str, append_assoc, firstToken_bytes_append]

@[simp]
theorem firstToken_array (items : List (List UInt8)) (rest : List UInt8) :
    firstToken (array items ++ rest) = some (.array (ofNat items.length)) := by
  rw [array, append_assoc, firstToken_bytes_append]

@[simp]
theorem firstToken_byteArray (bytes rest : List UInt8) :
    firstToken (byteArray bytes ++ rest) = some (.array (ofNat bytes.length)) := by
  rw [byteArray, firstToken_array, length_map]

@[simp]
theorem firstToken_table (pairs : List (List UInt8 × List UInt8)) (rest : List UInt8) :
    firstToken (table pairs ++ rest) = some (.map (ofNat pairs.length)) := by
  rw [table, append_assoc, firstToken_bytes_append]

theorem eq_of_ofNat_eq {n n' : Nat} (hn : n < 2 ^ 32) (hn' : n' < 2 ^ 32)
    (h : ofNat n = ofNat n') : n = n' := by
  have hnat := congrArg toNat h
  rw [toNat_ofNat', toNat_ofNat'] at hnat
  omega

theorem aligned_uint (n n' : Nat) : Aligned (uint n) (uint n') := aligned_bytes _ _

theorem aligned_sint (i i' : Int) : Aligned (sint i) (sint i') := by
  unfold sint
  split_ifs <;> exact aligned_bytes _ _

theorem aligned_str {text text' : List UInt8} (h : text.length < 2 ^ 32)
    (h' : text'.length < 2 ^ 32) : Aligned (str text) (str text') := by
  intro rest rest' heq
  rw [str, str, append_assoc, append_assoc] at heq
  obtain ⟨ht, htl⟩ := eq_of_bytes_append heq
  have hl : text.length = text'.length := eq_of_ofNat_eq h h' (Token.str.inj ht)
  exact (append_inj htl hl).2

theorem aligned_byteArray {bytes bytes' : List UInt8} (h : bytes.length < 2 ^ 32)
    (h' : bytes'.length < 2 ^ 32) : Aligned (byteArray bytes) (byteArray bytes') := by
  intro rest rest' heq
  have ht := congrArg firstToken heq
  rw [firstToken_byteArray, firstToken_byteArray] at ht
  have hl : bytes.length = bytes'.length :=
    eq_of_ofNat_eq h h' (Token.array.inj (some.inj ht))
  refine (aligned_bytes _ _).append (Aligned.flatten ?_) rest rest' heq
  rw [forall₂_map_left_iff, forall₂_map_right_iff]
  exact forall₂_iff_zip.mpr ⟨hl, fun {b b'} _ => aligned_uint b.toNat b'.toNat⟩

/-- No number begins the stream. -/
def NoUint (rest : List UInt8) : Prop := ∀ n, firstToken rest ≠ some (.uint n)

/-- Bytes are read back from where no number follows, even if there are more of them than
their count can say. -/
theorem byteArray_append_inj {bytes bytes' rest rest' : List UInt8} (hr : NoUint rest)
    (hr' : NoUint rest') (h : byteArray bytes ++ rest = byteArray bytes' ++ rest') :
    bytes = bytes' ∧ rest = rest' := by
  rw [byteArray, byteArray, array, array, append_assoc, append_assoc] at h
  replace h := (eq_of_bytes_append h).2
  induction bytes generalizing bytes' with
  | nil =>
    cases bytes' with
    | nil => exact ⟨rfl, h⟩
    | cons b bytes' =>
      have ht := congrArg firstToken h
      rw [map_cons, flatten_cons, append_assoc, firstToken_uint] at ht
      exact absurd ht (hr _)
  | cons b bytes ih =>
    cases bytes' with
    | nil =>
      have ht := congrArg firstToken h
      rw [map_cons, flatten_cons, append_assoc, firstToken_uint] at ht
      exact absurd ht.symm (hr' _)
    | cons b' bytes' =>
      simp only [map_cons, flatten_cons, append_assoc] at h
      obtain ⟨ht, h⟩ := eq_of_bytes_append h
      obtain ⟨rfl, hrest⟩ := ih h
      have hb : b.toNat = b'.toNat := by
        have hn := congrArg UInt64.toNat (Token.uint.inj ht)
        have hlt := b.toNat_lt
        have hlt' := b'.toNat_lt
        simp only [UInt64.toNat_ofNat'] at hn
        omega
      exact ⟨by rw [UInt8.toNat_inj.mp hb], hrest⟩

theorem aligned_entries {pairs pairs' : List (List UInt8 × List UInt8)}
    (h : List.Forall₂ (fun p p' => p.1 = p'.1 ∧ Aligned p.2 p'.2) pairs pairs') :
    Aligned (entries pairs) (entries pairs') := by
  refine Aligned.flatten ?_
  rw [forall₂_map_left_iff, forall₂_map_right_iff]
  refine h.imp ?_
  rintro ⟨key, value⟩ ⟨key', value'⟩ ⟨rfl, hv⟩
  exact (Aligned.refl key).append hv

/-- An option is aligned if no present value begins as an absent one does. -/
theorem aligned_optional {α : Type} {encode : α → List UInt8}
    (he : ∀ a a', Aligned (encode a) (encode a'))
    (hnil : ∀ a rest, firstToken (encode a ++ rest) ≠ some .nil) (x x' : Option α) :
    Aligned (optional encode x) (optional encode x') := by
  cases x with
  | none =>
    cases x' with
    | none => exact Aligned.refl _
    | some a' =>
      refine Aligned.of_firstToken_ne fun rest rest' h => hnil a' rest' ?_
      exact h.symm
  | some a =>
    cases x' with
    | none =>
      refine Aligned.of_firstToken_ne fun rest rest' h => hnil a rest ?_
      exact h
    | some a' => exact he a a'

theorem length_pos_uint (n : Nat) : 0 < (uint n).length :=
  length_pos_of_ne_nil (bytes_ne_nil _)

theorem length_lt_byteArray (bytes : List UInt8) : bytes.length < (byteArray bytes).length := by
  have hi : bytes.length ≤ (bytes.map fun b => uint b.toNat).flatten.length := by
    induction bytes with
    | nil => exact Nat.zero_le _
    | cons b bytes ih =>
      have hpos := length_pos_uint b.toNat
      rw [map_cons, flatten_cons, length_append, length_cons]
      omega
  have ht : 0 < (Token.bytes (.array (ofNat bytes.length))).length :=
    length_pos_of_ne_nil (bytes_ne_nil _)
  rw [byteArray, array, length_append, length_map]
  omega

theorem items_length_le_array (items : List (List UInt8)) :
    items.flatten.length ≤ (array items).length := by
  rw [array, length_append]
  exact Nat.le_add_left _ _

theorem keys_length_le_table (pairs : List (List UInt8 × List UInt8)) :
    (pairs.map Prod.fst).flatten.length ≤ (table pairs).length := by
  have he : (pairs.map Prod.fst).flatten.length ≤ (entries pairs).length := by
    induction pairs with
    | nil => exact Nat.le_refl _
    | cons pair pairs ih =>
      rw [entries] at ih ⊢
      simp only [map_cons, flatten_cons, length_append]
      omega
  rw [table, length_append]
  omega

/-- An array of numbers is not an array that begins with an array. -/
theorem byteArray_ne_array_byteArray {bytes inner : List UInt8}
    (h : items.length + 1 < 2 ^ 32) : byteArray bytes ≠ array (byteArray inner :: items) := by
  intro heq
  obtain ⟨ht, htl⟩ := eq_of_bytes_append heq
  cases bytes with
  | nil =>
    have hl := eq_of_ofNat_eq (by simp) h (Token.array.inj ht)
    simp at hl
  | cons b bytes =>
    have hf := congrArg firstToken htl
    rw [map_cons, flatten_cons, flatten_cons, firstToken_uint, firstToken_byteArray] at hf
    cases hf

end MessagePack
