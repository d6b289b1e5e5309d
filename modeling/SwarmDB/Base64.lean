import Mathlib.Algebra.Group.Nat.Defs
import SwarmDB.Bytes

namespace SwarmDB.Base64

def alphabet : List Char := "ABCDEFGHIJKLMNOPQRSTUVWXYZabcdefghijklmnopqrstuvwxyz0123456789+/".toList

def digit (n : Nat) : Char := alphabet.getD (n % 64) 'A'

-- Three bytes make four characters. A rest of one or two bytes is filled up with padding.
def encode : Bytes → List Char
  | [] => []
  | [a] => [digit (a.toNat / 4), digit (a.toNat % 4 * 16), '=', '=']
  | [a, b] =>
    [digit (a.toNat / 4), digit (a.toNat % 4 * 16 + b.toNat / 16), digit (b.toNat % 16 * 4), '=']
  | a :: b :: c :: rest =>
    digit (a.toNat / 4) :: digit (a.toNat % 4 * 16 + b.toNat / 16) ::
      digit (b.toNat % 16 * 4 + c.toNat / 64) :: digit (c.toNat % 64) :: encode rest

theorem digit_mem (n : Nat) : digit n ∈ alphabet := by
  have hlength : alphabet.length = 64 := by decide
  have hlt : n % 64 < alphabet.length := by
    rw [hlength]
    exact Nat.mod_lt _ (by decide)
  unfold digit
  rw [List.getD_eq_getElem?_getD, List.getElem?_eq_getElem hlt]
  exact List.getElem_mem hlt

theorem mem_of_mem_encode {bytes : Bytes} {c : Char} (h : c ∈ encode bytes) : c ∈ '=' :: alphabet := by
  have hdigit : ∀ n, digit n ∈ '=' :: alphabet := fun n => List.mem_cons_of_mem _ (digit_mem n)
  induction bytes using encode.induct with
  | case1 => cases h
  | case2 a =>
      simp only [encode, List.mem_cons, List.not_mem_nil, or_false] at h
      rcases h with rfl | rfl | rfl | rfl
      · exact hdigit _
      · exact hdigit _
      · exact List.mem_cons_self
      · exact List.mem_cons_self
  | case3 a b =>
      simp only [encode, List.mem_cons, List.not_mem_nil, or_false] at h
      rcases h with rfl | rfl | rfl | rfl
      · exact hdigit _
      · exact hdigit _
      · exact hdigit _
      · exact List.mem_cons_self
  | case4 a b d rest ih =>
      simp only [encode, List.mem_cons] at h
      rcases h with rfl | rfl | rfl | rfl | h
      · exact hdigit _
      · exact hdigit _
      · exact hdigit _
      · exact hdigit _
      · exact ih h

theorem encode_ne_nil {bytes : Bytes} (h : bytes ≠ []) : encode bytes ≠ [] := by
  cases bytes using encode.fun_cases with
  | case1 => exact absurd rfl h
  | case2 | case3 | case4 => simp [encode]

theorem encode_length (bytes : Bytes) : (encode bytes).length = (bytes.length + 2) / 3 * 4 := by
  induction bytes using encode.induct with
  | case1 => rfl
  | case2 | case3 => simp [encode]
  | case4 a b c rest ih =>
      simp only [encode, List.length_cons, ih]
      omega

theorem digit_ne_padding (n : Nat) : digit n ≠ '=' := by
  intro h
  have hmem := digit_mem n
  rw [h] at hmem
  revert hmem
  decide

-- The last character is padding unless all bytes come in threes, and the one before it if one is left over.
theorem encode_padding {bytes : Bytes} (h : bytes ≠ []) :
    ((encode bytes)[(encode bytes).length - 1]? = some '=' ↔ bytes.length % 3 ≠ 0) ∧
      ((encode bytes)[(encode bytes).length - 2]? = some '=' ↔ bytes.length % 3 = 1) := by
  induction bytes using encode.induct with
  | case1 => exact absurd rfl h
  | case2 a => simp [encode]
  | case3 a b => simp [encode, digit_ne_padding]
  | case4 a b c rest ih =>
      by_cases hrest : rest = []
      · subst hrest
        simp [encode, digit_ne_padding]
      · obtain ⟨hlast, hbefore⟩ := ih hrest
        have hlength := encode_length rest
        have hpos := List.length_pos_iff.mpr hrest
        have hshift : ∀ k, k < (encode rest).length →
            (encode (a :: b :: c :: rest))[(encode (a :: b :: c :: rest)).length - 1 - k]? =
              (encode rest)[(encode rest).length - 1 - k]? := by
          intro k hk
          have hindex : (encode (a :: b :: c :: rest)).length - 1 - k =
              (encode rest).length - 1 - k + 1 + 1 + 1 + 1 := by
            simp only [encode, List.length_cons]
            omega
          rw [hindex]
          simp only [encode, List.getElem?_cons_succ]
        have hmod : (a :: b :: c :: rest).length % 3 = rest.length % 3 := by
          simp only [List.length_cons]
          omega
        rw [hmod, ← hlast, ← hbefore]
        exact ⟨by rw [← Nat.sub_zero (_ - 1), hshift 0 (by omega)]; rfl, by
          rw [← Nat.sub_sub _ 1 1, hshift 1 (by omega)]; rfl⟩

end SwarmDB.Base64
