import Mathlib.Algebra.Group.Nat.Defs
import Mathlib.Data.List.Basic

namespace SwarmDB

-- A std::string, as the bytes it holds.
abbrev Bytes := List UInt8

def Bytes.ofString (text : String) : Bytes := text.toUTF8.toList

namespace Bytes

theorem toList_loop (bytes : ByteArray) (i : Nat) (read : Bytes) :
    ByteArray.toList.loop bytes i read = read.reverse ++ bytes.data.toList.drop i := by
  fun_induction ByteArray.toList.loop bytes i read with
  | case1 i read hlt ih =>
      have hi : i < bytes.data.toList.length := hlt
      have hget : bytes.get! i = bytes.data.toList[i] := by
        simp [ByteArray.get!, hlt]
      rw [ih, List.drop_eq_getElem_cons hi, hget]
      simp
  | case2 i read hlt =>
      have hi : bytes.data.toList.length ≤ i := Nat.not_lt.mp hlt
      rw [List.drop_eq_nil_of_le hi, List.append_nil]

theorem toList_eq (bytes : ByteArray) : bytes.toList = bytes.data.toList := by
  unfold ByteArray.toList
  rw [toList_loop]
  rfl

-- Different texts are different bytes.
theorem ofString_injective : Function.Injective ofString := by
  intro text other h
  unfold ofString at h
  rw [toList_eq, toList_eq] at h
  exact String.toByteArray_inj.mp (ByteArray.ext (Array.toList_inj.mp h))

def ofAscii (text : List Char) : Bytes := text.map fun c => UInt8.ofNat c.toNat

def toAscii (bytes : Bytes) : List Char := bytes.map fun b => Char.ofNat b.toNat

-- std::to_string.
def decimal (n : Nat) : Bytes := ofAscii (Nat.toDigits 10 n)

-- boost::lexical_cast<uint64_t>. Signs, which it would read too, are written by nobody.
def lexicalCast (bytes : Bytes) : Option Nat :=
  let digits := toAscii bytes
  if digits ≠ [] ∧ digits.all Char.isDigit = true then
    let n := Nat.ofDigitChars 10 digits 0
    if n < 2 ^ 64 then some n else none
  else none

theorem toAscii_ofAscii {text : List Char} (h : ∀ c ∈ text, c.isDigit = true) :
    toAscii (ofAscii text) = text := by
  unfold toAscii ofAscii
  rw [List.map_map]
  refine (List.map_congr_left ?_).trans (List.map_id text)
  intro c hc
  obtain ⟨_, hhigh⟩ := Char.isDigit_iff_toNat.mp (h c hc)
  have hnine : '9'.toNat = 57 := rfl
  have hbyte : c.toNat % 256 = c.toNat := Nat.mod_eq_of_lt (by omega)
  simp [hbyte, Char.ofNat_toNat]

theorem toAscii_decimal (n : Nat) : toAscii (decimal n) = Nat.toDigits 10 n :=
  toAscii_ofAscii fun _ hc => Nat.isDigit_of_mem_toDigits (by decide) (by decide) hc

theorem decimal_injective : Function.Injective decimal := by
  intro m n h
  have hdigits := congrArg (fun bytes => Nat.ofDigitChars 10 (toAscii bytes) 0) h
  simpa [toAscii_decimal, Nat.ofDigitChars_toDigits] using hdigits

theorem lexicalCast_decimal {n : Nat} (h : n < 2 ^ 64) : lexicalCast (decimal n) = some n := by
  have hdigits : (Nat.toDigits 10 n).all Char.isDigit = true := by
    rw [List.all_eq_true]
    intro c hc
    exact Nat.isDigit_of_mem_toDigits (by decide) (by decide) hc
  unfold lexicalCast
  simp only [toAscii_decimal]
  rw [if_pos ⟨Nat.toDigits_ne_nil, hdigits⟩, Nat.ofDigitChars_toDigits (by decide) (by decide), if_pos h]

theorem decimal_length_le {n k : Nat} (hk : 0 < k) (h : n < 10 ^ k) : (decimal n).length ≤ k := by
  unfold decimal ofAscii
  rw [List.length_map]
  exact (Nat.length_toDigits_le_iff (by decide) hk).mpr h

end Bytes

end SwarmDB
