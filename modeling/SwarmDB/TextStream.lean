import Mathlib.Algebra.Group.Nat.Defs
import Mathlib.Data.List.TakeWhile
import SwarmDB.Bytes

namespace SwarmDB.TextStream

-- Formatted extraction from a std::istream in the classic locale. What an extraction leaves
-- is the rest of the input; none is a stream that has failed.

def isSpace (b : UInt8) : Bool := b == 32 || (9 ≤ b && b ≤ 13)

def isDigit (b : UInt8) : Bool := 48 ≤ b && b ≤ 57

def skipSpace (input : Bytes) : Bytes := input.dropWhile isSpace

def readByte (input : Bytes) : Option (UInt8 × Bytes) :=
  match skipSpace input with
  | [] => none
  | b :: rest => some (b, rest)

def readWord (input : Bytes) : Option (Bytes × Bytes) :=
  let start := skipSpace input
  if start = [] then none
  else some (start.takeWhile (fun b => !isSpace b), start.dropWhile (fun b => !isSpace b))

def readDigits (limit : Nat) (input : Bytes) : Option (Nat × Bytes) :=
  let digits := input.takeWhile isDigit
  let n := Nat.ofDigitChars 10 (Bytes.toAscii digits) 0
  if digits = [] ∨ limit ≤ n then none else some (n, input.dropWhile isDigit)

-- An unsigned number below the limit. A minus sign counts down from the limit.
def readNumber (limit : Nat) (input : Bytes) : Option (Nat × Bytes) :=
  match skipSpace input with
  | [] => none
  | b :: rest =>
    if b = 43 then readDigits limit rest
    else if b = 45 then
      (readDigits limit rest).map fun read => ((limit - read.1) % limit, read.2)
    else readDigits limit (b :: rest)

section Consumes

variable {input rest : Bytes} {limit n : Nat}

theorem skipSpace_length (input : Bytes) : (skipSpace input).length ≤ input.length :=
  (List.dropWhile_suffix _).length_le

theorem readByte_length {b : UInt8} (h : readByte input = some (b, rest)) :
    rest.length < input.length := by
  have hskip := skipSpace_length input
  unfold readByte at h
  cases hstart : skipSpace input with
  | nil => simp [hstart] at h
  | cons c left =>
      obtain ⟨rfl, rfl⟩ : c = b ∧ left = rest := by simpa [hstart] using h
      rw [hstart, List.length_cons] at hskip
      omega

theorem readWord_length {word : Bytes} (h : readWord input = some (word, rest)) :
    rest.length ≤ input.length := by
  have hskip := skipSpace_length input
  unfold readWord at h
  by_cases hstart : skipSpace input = []
  · simp [hstart] at h
  · simp only [hstart, if_false, Option.some.injEq, Prod.mk.injEq] at h
    have hdrop : rest.length ≤ (skipSpace input).length := by
      rw [← h.2]
      exact (List.dropWhile_suffix _).length_le
    omega

theorem readDigits_eq_some (h : readDigits limit input = some (n, rest)) :
    n < limit ∧ rest.length ≤ input.length := by
  unfold readDigits at h
  dsimp only at h
  split at h
  · cases h
  · rename_i hread
    simp only [Option.some.injEq, Prod.mk.injEq] at h
    obtain ⟨rfl, rfl⟩ := h
    rw [not_or, Nat.not_le] at hread
    exact ⟨hread.2, (List.dropWhile_suffix _).length_le⟩

theorem readNumber_eq_some (h : readNumber limit input = some (n, rest)) :
    n < limit ∧ rest.length ≤ input.length := by
  have hskip := skipSpace_length input
  unfold readNumber at h
  cases hstart : skipSpace input with
  | nil => simp [hstart] at h
  | cons b left =>
      rw [hstart, List.length_cons] at hskip
      simp only [hstart] at h
      split at h
      · have hread := readDigits_eq_some h
        omega
      · split at h
        · obtain ⟨⟨m, after⟩, hread, hpair⟩ := Option.map_eq_some_iff.mp h
          simp only [Prod.mk.injEq] at hpair
          obtain ⟨rfl, rfl⟩ := hpair
          have hread := readDigits_eq_some hread
          exact ⟨Nat.mod_lt _ (by omega), by omega⟩
        · have hread := readDigits_eq_some h
          rw [List.length_cons] at hread
          omega

theorem readNumber_lt (h : readNumber limit input = some (n, rest)) : n < limit :=
  (readNumber_eq_some h).1

theorem readNumber_length (h : readNumber limit input = some (n, rest)) : rest.length ≤ input.length :=
  (readNumber_eq_some h).2

end Consumes

section Longer

variable {p : UInt8 → Bool} {input more rest : Bytes} {limit : Nat}

-- A scan that stops before the end of its input does not see what is written behind it.
theorem dropWhile_append_of_stops (h : input.dropWhile p ≠ []) :
    (input ++ more).dropWhile p = input.dropWhile p ++ more := by
  rw [List.dropWhile_append]
  simp [List.isEmpty_iff, h]

theorem takeWhile_append_of_stops (h : input.dropWhile p ≠ []) :
    (input ++ more).takeWhile p = input.takeWhile p := by
  have hlength : (input.takeWhile p).length ≠ input.length := by
    intro heq
    have hwhole : (input.takeWhile p ++ input.dropWhile p).length = input.length := by
      rw [List.takeWhile_append_dropWhile]
    rw [List.length_append] at hwhole
    have hpos := List.length_pos_iff.mpr h
    omega
  rw [List.takeWhile_append, if_neg hlength]

theorem skipSpace_append (h : skipSpace input ≠ []) (more : Bytes) :
    skipSpace (input ++ more) = skipSpace input ++ more :=
  dropWhile_append_of_stops h

theorem readByte_append {b : UInt8} (h : readByte input = some (b, rest)) (more : Bytes) :
    readByte (input ++ more) = some (b, rest ++ more) := by
  unfold readByte at h ⊢
  cases hskip : skipSpace input with
  | nil => simp [hskip] at h
  | cons c left =>
      obtain ⟨rfl, rfl⟩ : c = b ∧ left = rest := by simpa [hskip] using h
      rw [skipSpace_append (by simp [hskip]), hskip]
      simp

theorem readWord_append {word : Bytes} (h : readWord input = some (word, rest)) (hrest : rest ≠ [])
    (more : Bytes) : readWord (input ++ more) = some (word, rest ++ more) := by
  unfold readWord at h ⊢
  by_cases hskip : skipSpace input = []
  · simp [hskip] at h
  · simp only [hskip, if_false, Option.some.injEq, Prod.mk.injEq] at h
    obtain ⟨rfl, rfl⟩ := h
    rw [skipSpace_append hskip]
    simp [hskip, takeWhile_append_of_stops hrest, dropWhile_append_of_stops hrest]

theorem readDigits_append {n : Nat} (h : readDigits limit input = some (n, rest)) (hrest : rest ≠ [])
    (more : Bytes) : readDigits limit (input ++ more) = some (n, rest ++ more) := by
  unfold readDigits at h ⊢
  dsimp only at h ⊢
  split at h
  · cases h
  · rename_i hread
    simp only [Option.some.injEq, Prod.mk.injEq] at h
    obtain ⟨rfl, rfl⟩ := h
    rw [takeWhile_append_of_stops hrest, if_neg hread, dropWhile_append_of_stops hrest]

theorem readNumber_append {n : Nat} (h : readNumber limit input = some (n, rest)) (hrest : rest ≠ [])
    (more : Bytes) : readNumber limit (input ++ more) = some (n, rest ++ more) := by
  unfold readNumber at h ⊢
  cases hskip : skipSpace input with
  | nil => simp [hskip] at h
  | cons b left =>
      rw [skipSpace_append (by simp [hskip]), hskip]
      rw [hskip] at h
      simp only [List.cons_append] at h ⊢
      split at h
      · rename_i hplus
        rw [if_pos hplus]
        exact readDigits_append h hrest more
      · rename_i hplus
        rw [if_neg hplus]
        split at h
        · rename_i hminus
          obtain ⟨⟨m, left'⟩, hread, hpair⟩ := Option.map_eq_some_iff.mp h
          simp only [Prod.mk.injEq] at hpair
          obtain ⟨rfl, rfl⟩ := hpair
          rw [if_pos hminus, readDigits_append hread hrest more]
          rfl
        · rename_i hminus
          rw [if_neg hminus]
          exact readDigits_append h hrest more

end Longer

section Written

variable {space rest : Bytes} {b : UInt8}

theorem skipSpace_spaces (h : space.all isSpace = true) (rest : Bytes) :
    skipSpace (space ++ rest) = skipSpace rest := by
  have hnone : space.dropWhile isSpace = [] := by
    rw [List.dropWhile_eq_nil_iff]
    exact List.all_eq_true.mp h
  unfold skipSpace
  rw [List.dropWhile_append, hnone]
  rfl

theorem skipSpace_visible (hb : isSpace b = false) (rest : Bytes) :
    skipSpace (b :: rest) = b :: rest := by
  simp [skipSpace, hb]

theorem readByte_written (hspace : space.all isSpace = true) (hb : isSpace b = false) (rest : Bytes) :
    readByte (space ++ b :: rest) = some (b, rest) := by
  unfold readByte
  rw [skipSpace_spaces hspace, skipSpace_visible hb]

theorem readWord_written {word : Bytes} (hword : word ≠ []) (hvisible : ∀ c ∈ word, isSpace c = false)
    (hb : isSpace b = true) (rest : Bytes) :
    readWord (32 :: word ++ b :: rest) = some (word, b :: rest) := by
  obtain ⟨c, left, rfl⟩ := List.exists_cons_of_ne_nil hword
  have hskip : skipSpace (32 :: (c :: left) ++ b :: rest) = (c :: left) ++ b :: rest := by
    have hone : ([32] : Bytes).all isSpace = true := rfl
    have hspaces := skipSpace_spaces hone ((c :: left) ++ b :: rest)
    rw [List.singleton_append] at hspaces
    rw [List.cons_append, hspaces]
    exact skipSpace_visible (hvisible c List.mem_cons_self) _
  have hall : ∀ d ∈ c :: left, (!isSpace d) = true := by
    intro d hd
    simp [hvisible d hd]
  have htake : ((c :: left) ++ b :: rest).takeWhile (fun d => !isSpace d) = c :: left := by
    rw [List.takeWhile_append_of_pos hall]
    simp [hb]
  have hdrop : ((c :: left) ++ b :: rest).dropWhile (fun d => !isSpace d) = b :: rest := by
    rw [List.dropWhile_append_of_pos hall]
    simp [hb]
  unfold readWord
  simp only [hskip, htake, hdrop]
  simp

theorem isDigit_of_mem_decimal {n : Nat} {d : UInt8} (h : d ∈ Bytes.decimal n) : isDigit d = true := by
  obtain ⟨c, hc, rfl⟩ := List.mem_map.mp h
  obtain ⟨hlow, hhigh⟩ := Char.isDigit_iff_toNat.mp
    (Nat.isDigit_of_mem_toDigits (by decide) (by decide) hc)
  have hzero : '0'.toNat = 48 := rfl
  have hnine : '9'.toNat = 57 := rfl
  have hbyte : c.toNat % 256 = c.toNat := Nat.mod_eq_of_lt (by omega)
  simp only [isDigit, Bool.and_eq_true, decide_eq_true_eq, UInt8.le_iff_toNat_le]
  simp [hbyte]
  omega

theorem readDigits_decimal {n limit : Nat} (h : n < limit) (hb : isDigit b = false) (rest : Bytes) :
    readDigits limit (Bytes.decimal n ++ b :: rest) = some (n, b :: rest) := by
  have htake : (Bytes.decimal n ++ b :: rest).takeWhile isDigit = Bytes.decimal n := by
    rw [List.takeWhile_append_of_pos fun d hd => isDigit_of_mem_decimal hd]
    simp [hb]
  have hdrop : (Bytes.decimal n ++ b :: rest).dropWhile isDigit = b :: rest := by
    rw [List.dropWhile_append_of_pos fun d hd => isDigit_of_mem_decimal hd]
    simp [hb]
  have hne : Bytes.decimal n ≠ [] := by
    simp [Bytes.decimal, Bytes.ofAscii, Nat.toDigits_ne_nil]
  unfold readDigits
  dsimp only
  rw [htake, hdrop, Bytes.toAscii_decimal, Nat.ofDigitChars_toDigits (by decide) (by decide),
    if_neg (by simp [hne, h])]

theorem readNumber_decimal {n limit : Nat} (h : n < limit) (hb : isDigit b = false) (rest : Bytes) :
    readNumber limit (32 :: Bytes.decimal n ++ b :: rest) = some (n, b :: rest) := by
  have hread := readDigits_decimal h hb rest
  obtain ⟨c, left, hdigits⟩ : ∃ c left, Bytes.decimal n = c :: left := by
    apply List.exists_cons_of_ne_nil
    simp [Bytes.decimal, Bytes.ofAscii, Nat.toDigits_ne_nil]
  have hc : isDigit c = true := by
    apply isDigit_of_mem_decimal (n := n)
    simp [hdigits]
  simp only [isDigit, Bool.and_eq_true, decide_eq_true_eq, UInt8.le_iff_toNat_le] at hc
  have hlow : 48 ≤ c.toNat := hc.1
  have hvisible : isSpace c = false := by
    simp only [isSpace, Bool.or_eq_false_iff, beq_eq_false_iff_ne, Bool.and_eq_false_iff,
      decide_eq_false_iff_not, UInt8.le_iff_toNat_le]
    refine ⟨?_, Or.inr ?_⟩
    · rintro rfl
      exact absurd hlow (by decide)
    · show ¬c.toNat ≤ 13
      omega
  have hplus : c ≠ 43 := by
    rintro rfl
    exact absurd hlow (by decide)
  have hminus : c ≠ 45 := by
    rintro rfl
    exact absurd hlow (by decide)
  unfold readNumber
  have hskip : skipSpace (32 :: Bytes.decimal n ++ b :: rest) = c :: (left ++ b :: rest) := by
    have hone : ([32] : Bytes).all isSpace = true := rfl
    have hspaces := skipSpace_spaces hone (Bytes.decimal n ++ b :: rest)
    rw [List.singleton_append] at hspaces
    rw [List.cons_append, hspaces, hdigits, List.cons_append]
    exact skipSpace_visible hvisible _
  rw [hdigits, List.cons_append] at hread
  rw [hskip]
  simpa [hplus, hminus] using hread

end Written

end SwarmDB.TextStream
