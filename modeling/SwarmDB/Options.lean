import SwarmDB.Bytes
import SwarmDB.Regex

namespace SwarmDB

-- What parse_size throws. The last two come out of the map and of lexical_cast.
inductive OptionsException
  | runtimeError (what : Bytes)
  | outOfRange
  | badLexicalCast
  deriving DecidableEq, Repr

namespace Options

open Bytes (ofAscii)

-- The classes of the regular expression.
def decimalDigits : Bytes := ofAscii ['0', '1', '2', '3', '4', '5', '6', '7', '8', '9']
def suffixClass : Bytes := ofAscii ['K', ',', 'M', ',', 'G', ',', 'T']
def byteClass : Bytes := ofAscii ['B']

def numberGroup : RegularExpression UInt8 := Regex.oneOrMore (Regex.oneOf decimalDigits)

def suffixGroup : RegularExpression UInt8 :=
  Regex.optional (Regex.oneOf suffixClass) * Regex.optional (Regex.oneOf byteClass)

def byteSuffixes : List (UInt8 × Nat) :=
  [(66, 1), (75, 1024), (77, 1048576), (71, 1073741824), (84, 1099511627776)]

def unableToParse (maxValue : Bytes) : Bytes :=
  Bytes.ofString "\nUnable to parse size value from options: " ++ maxValue

-- The product is one of size_t. Which of its factors throws first is up to the compiler.
def parseSize (maxValue : Bytes) : Except OptionsException Nat :=
  match Regex.matchGroups numberGroup suffixGroup maxValue with
  | none => .error (.runtimeError (unableToParse maxValue))
  | some (number, suffix) =>
    match Bytes.lexicalCast number with
    | none => .error .badLexicalCast
    | some n =>
      match byteSuffixes.lookup (suffix.headD 66) with
      | none => .error .outOfRange
      | some multiplier => .ok (n * multiplier % 2 ^ 64)

-- The letters of the units, and what they stand for.
def units : List (Bytes × Nat) :=
  [([], 1), (ofAscii ['K'], 2 ^ 10), (ofAscii ['M'], 2 ^ 20), (ofAscii ['G'], 2 ^ 30), (ofAscii ['T'], 2 ^ 40)]

def Digits (text : Bytes) : Prop := text ≠ [] ∧ ∀ c ∈ text, c ∈ decimalDigits

def OptionalByte (text : Bytes) : Prop := text = [] ∨ text = ofAscii ['B']

-- A size as it is to be written: a number, a unit, and a B that says nothing.
structure Spells (text : Bytes) (n multiplier : Nat) : Prop where
  split : ∃ number unit last, text = number ++ (unit ++ last) ∧ Digits number ∧
    n = Nat.ofDigitChars 10 number.toAscii 0 ∧ (unit, multiplier) ∈ units ∧ OptionalByte last

-- A comma in the place of the unit.
def Comma (text : Bytes) : Prop :=
  ∃ number last, text = number ++ (ofAscii [','] ++ last) ∧ Digits number ∧ OptionalByte last

-- What is promised of a text.
structure Exact (text : Bytes) : Prop where
  accepts : ∀ n multiplier, Spells text n multiplier → n * multiplier < 2 ^ 64 →
    parseSize text = .ok (n * multiplier)
  rejects : (∀ n multiplier, Spells text n multiplier → 2 ^ 64 ≤ n * multiplier) →
    parseSize text = .error (.runtimeError (unableToParse text))

section Groups

variable {text number suffix unit last : Bytes} {n multiplier : Nat}

theorem digits_iff : text ∈ numberGroup.matches' ↔ Digits text := Regex.mem_oneOrMore_oneOf

-- The second group begins with a unit or with a comma.
theorem suffixGroup_iff : text ∈ suffixGroup.matches' ↔
    ∃ unit last, text = unit ++ last ∧ ((∃ multiplier, (unit, multiplier) ∈ units) ∨ unit = ofAscii [',']) ∧
      OptionalByte last := by
  have hunit : ∀ unit, unit ∈ (Regex.optional (Regex.oneOf suffixClass)).matches' ↔
      (∃ multiplier, (unit, multiplier) ∈ units) ∨ unit = ofAscii [','] := by
    intro unit
    rw [Regex.mem_optional, Regex.mem_oneOf]
    simp only [suffixClass, units, ofAscii, List.map_cons, List.map_nil, List.mem_cons, List.not_mem_nil, or_false,
      Prod.mk.injEq]
    constructor
    · rintro (⟨c, rfl | rfl | rfl | rfl | rfl | rfl | rfl, rfl⟩ | rfl) <;> simp
    · rintro (⟨multiplier, ⟨rfl, _⟩ | ⟨rfl, _⟩ | ⟨rfl, _⟩ | ⟨rfl, _⟩ | ⟨rfl, _⟩⟩ | rfl) <;> simp
  have hlast : ∀ last, last ∈ (Regex.optional (Regex.oneOf byteClass)).matches' ↔ OptionalByte last := by
    intro last
    rw [Regex.mem_optional, Regex.mem_oneOf]
    simp [byteClass, OptionalByte, ofAscii, or_comm]
  rw [suffixGroup, RegularExpression.matches'_mul, Language.mem_mul]
  constructor
  · rintro ⟨unit, hfirst, last, hsecond, rfl⟩
    exact ⟨unit, last, rfl, (hunit unit).mp hfirst, (hlast last).mp hsecond⟩
  · rintro ⟨unit, last, rfl, hfirst, hsecond⟩
    exact ⟨unit, (hunit unit).mpr hfirst, last, (hlast last).mpr hsecond, rfl⟩

theorem not_digit_of_suffixGroup (h : suffix ∈ suffixGroup.matches') : ∀ c ∈ suffix, c ∉ decimalDigits := by
  have hunits : ∀ entry ∈ units, ∀ c ∈ entry.1, c ∉ decimalDigits := by decide +kernel
  have hcomma : ∀ c ∈ ofAscii [','], c ∉ decimalDigits := by decide +kernel
  have hbyte : ∀ c ∈ ofAscii ['B'], c ∉ decimalDigits := by decide +kernel
  obtain ⟨unit, last, rfl, hunit, hlast⟩ := suffixGroup_iff.mp h
  intro c hc
  rcases List.mem_append.mp hc with hc | hc
  · rcases hunit with ⟨multiplier, hmem⟩ | rfl
    · exact hunits _ hmem c hc
    · exact hcomma c hc
  · rcases hlast with rfl | rfl
    · cases hc
    · exact hbyte c hc

-- A number and a suffix are what the groups match.
theorem matchGroups_eq (hnumber : Digits number) (hsuffix : suffix ∈ suffixGroup.matches') :
    Regex.matchGroups numberGroup suffixGroup (number ++ suffix) = some (number, suffix) := by
  have hsome := Regex.matchGroups_isSome (digits_iff.mpr hnumber) hsuffix
  obtain ⟨⟨first, second⟩, hgroups⟩ := Option.isSome_iff_exists.mp hsome
  obtain ⟨hsplit, hfirst, hsecond⟩ := Regex.matchGroups_sound hgroups
  have hunique := Regex.split_unique (p := fun c => decide (c ∈ decimalDigits)) hsplit
    (fun c hc => decide_eq_true (hnumber.2 c hc)) (fun c hc => decide_eq_true ((digits_iff.mp hfirst).2 c hc))
    (fun c hc => decide_eq_false (not_digit_of_suffixGroup hsuffix c hc))
    (fun c hc => decide_eq_false (not_digit_of_suffixGroup hsecond c hc))
  rw [hgroups, hunique.1, hunique.2]

theorem lexicalCast_digits (h : Digits number) : Bytes.lexicalCast number =
    if Nat.ofDigitChars 10 number.toAscii 0 < 2 ^ 64 then some (Nat.ofDigitChars 10 number.toAscii 0) else none := by
  have hdigits : (Bytes.toAscii number).all Char.isDigit = true := by
    rw [List.all_eq_true]
    intro c hc
    obtain ⟨b, hb, rfl⟩ := List.mem_map.mp hc
    have hclass : ∀ b ∈ decimalDigits, (Char.ofNat b.toNat).isDigit = true := by decide +kernel
    exact hclass b (h.2 b hb)
  have hne : Bytes.toAscii number ≠ [] := by
    intro hnil
    exact h.1 (List.map_eq_nil_iff.mp hnil)
  unfold Bytes.lexicalCast
  rw [if_pos ⟨hne, hdigits⟩]

theorem lookup_unit (hunit : (unit, multiplier) ∈ units) (hlast : OptionalByte last) :
    byteSuffixes.lookup ((unit ++ last).headD 66) = some multiplier := by
  simp only [units, List.mem_cons, List.not_mem_nil, or_false, Prod.mk.injEq] at hunit
  rcases hunit with ⟨rfl, rfl⟩ | ⟨rfl, rfl⟩ | ⟨rfl, rfl⟩ | ⟨rfl, rfl⟩ | ⟨rfl, rfl⟩ <;>
    rcases hlast with rfl | rfl <;> decide

theorem parseSize_spelled (hnumber : Digits number) (hunit : (unit, multiplier) ∈ units) (hlast : OptionalByte last)
    (hn : n = Nat.ofDigitChars 10 number.toAscii 0) : parseSize (number ++ (unit ++ last)) =
      if n < 2 ^ 64 then .ok (n * multiplier % 2 ^ 64) else .error .badLexicalCast := by
  have hsuffix : unit ++ last ∈ suffixGroup.matches' :=
    suffixGroup_iff.mpr ⟨unit, last, rfl, Or.inl ⟨multiplier, hunit⟩, hlast⟩
  simp only [parseSize, matchGroups_eq hnumber hsuffix, lexicalCast_digits hnumber, ← hn]
  split_ifs
  · simp only [lookup_unit hunit hlast]
  · rfl

theorem parseSize_comma (h : Comma text) :
    parseSize text = .error .outOfRange ∨ parseSize text = .error .badLexicalCast := by
  obtain ⟨number, last, rfl, hnumber, hlast⟩ := h
  have hsuffix : ofAscii [','] ++ last ∈ suffixGroup.matches' :=
    suffixGroup_iff.mpr ⟨_, last, rfl, Or.inr rfl, hlast⟩
  have hnone : byteSuffixes.lookup ((ofAscii [','] ++ last).headD 66) = none := by
    rcases hlast with rfl | rfl <;> decide
  simp only [parseSize, matchGroups_eq hnumber hsuffix, lexicalCast_digits hnumber]
  split_ifs
  · simp only [hnone, true_or]
  · exact Or.inr rfl

-- All other texts are met with the error.
theorem parseSize_other (hspells : ¬∃ n multiplier, Spells text n multiplier) (hcomma : ¬Comma text) :
    parseSize text = .error (.runtimeError (unableToParse text)) := by
  unfold parseSize
  cases hgroups : Regex.matchGroups numberGroup suffixGroup text with
  | none => rfl
  | some groups =>
      obtain ⟨number, suffix⟩ := groups
      obtain ⟨hsplit, hfirst, hsecond⟩ := Regex.matchGroups_sound hgroups
      obtain ⟨unit, last, rfl, ⟨multiplier, hunit⟩ | rfl, hlast⟩ := suffixGroup_iff.mp hsecond
      · exact absurd ⟨_, multiplier, ⟨number, unit, last, hsplit, digits_iff.mp hfirst, rfl, hunit, hlast⟩⟩ hspells
      · exact absurd ⟨number, last, hsplit, digits_iff.mp hfirst, hlast⟩ hcomma

theorem Spells.parseSize (h : Spells text n multiplier) : parseSize text =
    if n < 2 ^ 64 then .ok (n * multiplier % 2 ^ 64) else .error .badLexicalCast := by
  obtain ⟨number, unit, last, rfl, hnumber, hn, hunit, hlast⟩ := h.split
  exact parseSize_spelled hnumber hunit hlast hn

-- A text spells one size.
theorem Spells.unique {n' multiplier' : Nat} (h : Spells text n multiplier) (h' : Spells text n' multiplier') :
    n = n' ∧ multiplier = multiplier' := by
  obtain ⟨number, unit, last, rfl, hnumber, rfl, hunit, hlast⟩ := h.split
  obtain ⟨number', unit', last', hsame, hnumber', rfl, hunit', hlast'⟩ := h'.split
  have hgroups := matchGroups_eq hnumber
    (suffixGroup_iff.mpr ⟨unit, last, rfl, Or.inl ⟨multiplier, hunit⟩, hlast⟩)
  have hgroups' := matchGroups_eq hnumber'
    (suffixGroup_iff.mpr ⟨unit', last', rfl, Or.inl ⟨multiplier', hunit'⟩, hlast'⟩)
  rw [hsame, hgroups'] at hgroups
  obtain ⟨hnum, hsuffix⟩ := Prod.mk.inj (Option.some.inj hgroups)
  have hlookup := lookup_unit hunit hlast
  rw [← hsuffix, lookup_unit hunit' hlast'] at hlookup
  exact ⟨by rw [hnum], (Option.some.inj hlookup).symm⟩

end Groups

theorem Spells.multiplier_pos {text : Bytes} {n multiplier : Nat} (h : Spells text n multiplier) :
    0 < multiplier := by
  obtain ⟨number, unit, last, _, _, _, hunit, _⟩ := h.split
  simp only [units, List.mem_cons, List.not_mem_nil, or_false, Prod.mk.injEq] at hunit
  rcases hunit with ⟨_, rfl⟩ | ⟨_, rfl⟩ | ⟨_, rfl⟩ | ⟨_, rfl⟩ | ⟨_, rfl⟩ <;> decide

-- The comma of the class and the product that wraps are all that goes wrong.
theorem parseSize_exact_iff (text : Bytes) : Exact text ↔
    ¬Comma text ∧ ∀ n multiplier, Spells text n multiplier → n * multiplier < 2 ^ 64 := by
  have hnoError : ∀ {n multiplier}, Spells text n multiplier →
      parseSize text ≠ .error (.runtimeError (unableToParse text)) := by
    intro n multiplier hspells
    rw [hspells.parseSize]
    split_ifs <;> simp
  constructor
  · intro h
    have hfits : ∀ n multiplier, Spells text n multiplier → n * multiplier < 2 ^ 64 := by
      intro n multiplier hspells
      by_contra hlarge
      refine hnoError hspells (h.rejects ?_)
      intro n' multiplier' hspells'
      obtain ⟨rfl, rfl⟩ := hspells.unique hspells'
      omega
    refine ⟨?_, hfits⟩
    intro hcomma
    by_cases hspelled : ∃ n multiplier, Spells text n multiplier
    · obtain ⟨n, multiplier, hspells⟩ := hspelled
      have haccepts := h.accepts n multiplier hspells (hfits n multiplier hspells)
      rcases parseSize_comma hcomma with heq | heq <;> rw [heq] at haccepts <;> cases haccepts
    · have hrejects := h.rejects fun n multiplier hspells => absurd ⟨n, multiplier, hspells⟩ hspelled
      rcases parseSize_comma hcomma with heq | heq <;> rw [heq] at hrejects <;> cases hrejects
  · rintro ⟨hcomma, hfits⟩
    constructor
    · intro n multiplier hspells hlt
      have hn : n < 2 ^ 64 := lt_of_le_of_lt (Nat.le_mul_of_pos_right n hspells.multiplier_pos) hlt
      rw [hspells.parseSize, if_pos hn, Nat.mod_eq_of_lt hlt]
    · intro hlarge
      apply parseSize_other _ hcomma
      rintro ⟨n, multiplier, hspells⟩
      have hsmall := hfits n multiplier hspells
      have hbig := hlarge n multiplier hspells
      omega

-- 2^24 units of 2^40 are none.
theorem parseSize_wraps : parseSize (ofAscii "16777216T".toList) = .ok 0 ∧ ¬Exact (ofAscii "16777216T".toList) := by
  have hspells : Spells (ofAscii "16777216T".toList) (2 ^ 24) (2 ^ 40) :=
    ⟨ofAscii "16777216".toList, ofAscii ['T'], [], by decide +kernel, ⟨by decide, by decide +kernel⟩, by decide +kernel,
      by decide +kernel, Or.inl rfl⟩
  refine ⟨by rw [hspells.parseSize]; rfl, ?_⟩
  intro hexact
  have hrejects := hexact.rejects fun n multiplier hother => by
    obtain ⟨rfl, rfl⟩ := hspells.unique hother
    decide
  rw [hspells.parseSize] at hrejects
  cases hrejects

end Options

end SwarmDB
