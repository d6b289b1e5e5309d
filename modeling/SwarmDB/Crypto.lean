import SwarmDB.Base64

namespace SwarmDB.Crypto

-- The character of padding.
def padding : UInt8 := 61

-- The numbers are of size_t. Before the start of a single '=' there is nothing to look at.
def calculateDecodeLength (base64Input : Bytes) : Nat :=
  if base64Input = [] then 0
  else
    let len := base64Input.length
    let count := if base64Input[len - 1]? = some padding ∧ base64Input[(len + 2 ^ 64 - 2) % 2 ^ 64]? = some padding
      then 2 else 1
    (len * 3 % 2 ^ 64 / 4 + 2 ^ 64 - count) % 2 ^ 64

-- What a call of base64_decode returns, what it leaves in the vector, and how many bytes the decoder
-- wrote to where the vector begins.
structure Decoding where
  result : Nat
  decodedMessage : Bytes
  written : Nat
  deriving DecidableEq, Repr

-- The bytes that the base64 BIO has for a text are code outside the repository. A read is of no more than
-- an int of them, and of none where that is negative.
def base64Decode (bio : Bytes → Bytes) (base64Message decodedMessage : Bytes) : Decoding :=
  if base64Message = [] then { result := 1, decodedMessage := decodedMessage, written := 0 }
  else
    let decodedLength := calculateDecodeLength base64Message
    let resized := (decodedMessage ++ List.replicate decodedLength 0).take decodedLength
    let read := (bio base64Message).take (Int.bmod base64Message.length (2 ^ 32)).toNat
    { result := if read.length ≠ decodedLength then 1 else 0
      decodedMessage := (read ++ resized.drop read.length).take decodedLength
      written := read.length }

variable {bio : Bytes → Bytes} {bytes decodedMessage : Bytes}

def text (bytes : Bytes) : Bytes := Bytes.ofAscii (Base64.encode bytes)

-- A decoding for which the vector has the right size.
structure Sized (bio : Bytes → Bytes) (bytes decodedMessage : Bytes) : Prop where
  length : calculateDecodeLength (text bytes) = bytes.length
  success : (base64Decode bio (text bytes) decodedMessage).result = 0
  decoded : (base64Decode bio (text bytes) decodedMessage).decodedMessage = bytes
  fits : (base64Decode bio (text bytes) decodedMessage).written ≤ calculateDecodeLength (text bytes)

theorem text_length (bytes : Bytes) : (text bytes).length = (bytes.length + 2) / 3 * 4 := by
  rw [text, Bytes.ofAscii, List.length_map, Base64.encode_length]

theorem text_ne_nil (h : bytes ≠ []) : text bytes ≠ [] := by
  intro hnil
  exact Base64.encode_ne_nil h (List.map_eq_nil_iff.mp hnil)

-- No other character of a text is the byte of the padding.
theorem text_padding (bytes : Bytes) (k : Nat) :
    (text bytes)[k]? = some padding ↔ (Base64.encode bytes)[k]? = some '=' := by
  rw [text, Bytes.ofAscii, List.getElem?_map]
  cases hget : (Base64.encode bytes)[k]? with
  | none => simp
  | some c =>
      have hmem := Base64.mem_of_mem_encode (List.mem_of_getElem? hget)
      have hbytes : ('=' :: Base64.alphabet).all (fun c => UInt8.ofNat c.toNat = padding ↔ c = '=') = true := by decide
      have hbyte := of_decide_eq_true (List.all_eq_true.mp hbytes c hmem)
      rw [Option.map_some, Option.some.injEq, Option.some.injEq, hbyte]

-- Without padding the formula still takes one off.
theorem calculateDecodeLength_text (h : bytes ≠ []) (hsmall : (text bytes).length < 2 ^ 31) :
    calculateDecodeLength (text bytes) = bytes.length - if bytes.length % 3 = 0 then 1 else 0 := by
  have hpos := List.length_pos_iff.mpr h
  obtain ⟨hlast, hbefore⟩ := Base64.encode_padding h
  have hlength : (Base64.encode bytes).length = (text bytes).length := by
    rw [text_length, Base64.encode_length]
  rw [hlength, ← text_padding] at hlast hbefore
  have hindex : ((text bytes).length + 2 ^ 64 - 2) % 2 ^ 64 = (text bytes).length - 2 := by
    rw [text_length] at hsmall ⊢
    omega
  unfold calculateDecodeLength
  rw [if_neg (text_ne_nil h)]
  simp only [hindex, hlast, hbefore]
  rw [text_length] at hsmall ⊢
  have hthree : (bytes.length + 2) / 3 * 4 * 3 % 2 ^ 64 / 4 = (bytes.length + 2) / 3 * 3 := by
    rw [Nat.mod_eq_of_lt (by omega)]
    omega
  have hwraps : ∀ count, count ≤ (bytes.length + 2) / 3 * 3 →
      ((bytes.length + 2) / 3 * 3 + 2 ^ 64 - count) % 2 ^ 64 = (bytes.length + 2) / 3 * 3 - count := by
    intro count hcount
    rw [Nat.sub_add_comm hcount, Nat.add_mod_right, Nat.mod_eq_of_lt (by omega)]
  rw [hthree, hwraps _ (by split_ifs <;> omega)]
  split_ifs <;> omega

theorem base64Decode_text (h : bytes ≠ []) (hbio : bio (text bytes) = bytes) (decodedMessage : Bytes) :
    let decodedLength := calculateDecodeLength (text bytes)
    let resized := (decodedMessage ++ List.replicate decodedLength 0).take decodedLength
    let read := bytes.take (Int.bmod (text bytes).length (2 ^ 32)).toNat
    base64Decode bio (text bytes) decodedMessage =
      { result := if read.length ≠ decodedLength then 1 else 0
        decodedMessage := (read ++ resized.drop read.length).take decodedLength
        written := read.length } := by
  unfold base64Decode
  rw [if_neg (text_ne_nil h), hbio]

-- A text that is too long for an int has more bytes than the read is of.
theorem small_of_read (h : bytes ≠ []) (hread : bytes.length ≤ (Int.bmod (text bytes).length (2 ^ 32)).toNat) :
    (text bytes).length < 2 ^ 31 := by
  have hpos := List.length_pos_iff.mpr h
  by_contra hlarge
  have hlength := text_length bytes
  rw [Int.bmod_def] at hread
  split at hread
  · -- it has as many bytes as an int cannot count
    have hwraps : 2 ^ 32 ≤ (text bytes).length := by omega
    omega
  · omega

-- The vector has the right size where the text is padded, and a read can be of all of it.
theorem sized_iff (h : bytes ≠ []) (hbio : bio (text bytes) = bytes) (decodedMessage : Bytes) :
    Sized bio bytes decodedMessage ↔ bytes.length % 3 ≠ 0 ∧ (text bytes).length < 2 ^ 31 := by
  have hpos := List.length_pos_iff.mpr h
  have hdecode := base64Decode_text h hbio decodedMessage
  constructor
  · intro hsized
    have hsuccess := hsized.success
    rw [hdecode] at hsuccess
    have hread : (bytes.take (Int.bmod (text bytes).length (2 ^ 32)).toNat).length = bytes.length := by
      rw [← hsized.length]
      by_contra hne
      rw [if_pos hne] at hsuccess
      cases hsuccess
    rw [List.length_take] at hread
    have hsmall := small_of_read h (by omega)
    have hlength := hsized.length
    rw [calculateDecodeLength_text h hsmall] at hlength
    refine ⟨?_, hsmall⟩
    intro hnone
    rw [if_pos hnone] at hlength
    omega
  · rintro ⟨hpadded, hsmall⟩
    have hlength : calculateDecodeLength (text bytes) = bytes.length := by
      rw [calculateDecodeLength_text h hsmall, if_neg hpadded, Nat.sub_zero]
    have hint : (Int.bmod (text bytes).length (2 ^ 32)).toNat = (text bytes).length := by
      rw [Int.bmod_def]
      split <;> omega
    have hall : bytes.take (text bytes).length = bytes :=
      List.take_of_length_le (by rw [text_length]; omega)
    rw [hint, hall, hlength] at hdecode
    constructor
    · exact hlength
    · rw [hdecode, if_neg (by simp)]
    · rw [hdecode, List.take_left]
    · exact Nat.le_of_eq (by rw [hdecode, hlength])

-- Three bytes do not fit into the room for two.
theorem base64Decode_overflows :
    let bio : Bytes → Bytes := fun input => if input = text [77, 97, 110] then [77, 97, 110] else []
    bio (text [77, 97, 110]) = [77, 97, 110] ∧ calculateDecodeLength (text [77, 97, 110]) = 2 ∧
      base64Decode bio (text [77, 97, 110]) [] = { result := 1, decodedMessage := [77, 97], written := 3 } ∧
      ¬Sized bio [77, 97, 110] [] := by
  intro bio
  have hlength : calculateDecodeLength (text [77, 97, 110]) = 2 := by decide
  refine ⟨by decide, hlength, by decide, ?_⟩
  intro hsized
  have hthree := hsized.length
  rw [hlength] at hthree
  cases hthree

theorem sized_of_one :
    let bio : Bytes → Bytes := fun input => if input = text [77] then [77] else []
    Sized bio [77] [] :=
  (sized_iff (by decide) (by decide) []).mpr ⟨by decide, by decide⟩

end SwarmDB.Crypto
