import Mathlib.Computability.RegularExpressions

namespace SwarmDB.Regex

variable {α : Type} {p : α → Bool} {cs text first second : List α} {r r' : RegularExpression α}

-- A character class.
def oneOf (cs : List α) : RegularExpression α := (cs.map RegularExpression.char).foldr (· + ·) 0

def optional (r : RegularExpression α) : RegularExpression α := r + 1

def oneOrMore (r : RegularExpression α) : RegularExpression α := r * r.star

section Matches

theorem mem_oneOf : text ∈ (oneOf cs).matches' ↔ ∃ c ∈ cs, text = [c] := by
  induction cs with
  | nil => simp [oneOf]
  | cons c rest ih =>
      have hcons : oneOf (c :: rest) = .char c + oneOf rest := rfl
      rw [hcons, RegularExpression.matches'_add, Language.mem_add, ih, RegularExpression.matches'_char]
      simp only [List.mem_cons, exists_eq_or_imp]
      exact Iff.rfl

theorem mem_optional : text ∈ (optional r).matches' ↔ text ∈ r.matches' ∨ text = [] := by
  rw [optional, RegularExpression.matches'_add, Language.mem_add, RegularExpression.matches'_epsilon,
    Language.mem_one]

theorem mem_star_oneOf : text ∈ (oneOf cs).star.matches' ↔ ∀ c ∈ text, c ∈ cs := by
  rw [RegularExpression.matches'_star, Language.mem_kstar]
  constructor
  · rintro ⟨words, rfl, hwords⟩ c hc
    obtain ⟨word, hword, hmem⟩ := List.mem_flatten.mp hc
    obtain ⟨d, hd, rfl⟩ := mem_oneOf.mp (hwords word hword)
    rw [List.mem_singleton.mp hmem]
    exact hd
  · intro hall
    refine ⟨text.map fun c => [c], by rw [← List.flatMap_def, List.flatMap_singleton'], ?_⟩
    intro word hword
    obtain ⟨c, hc, rfl⟩ := List.mem_map.mp hword
    exact mem_oneOf.mpr ⟨c, hall c hc, rfl⟩

theorem mem_oneOrMore_oneOf : text ∈ (oneOrMore (oneOf cs)).matches' ↔ text ≠ [] ∧ ∀ c ∈ text, c ∈ cs := by
  rw [oneOrMore, RegularExpression.matches'_mul, Language.mem_mul]
  constructor
  · rintro ⟨head, hhead, rest, hrest, rfl⟩
    obtain ⟨c, hc, rfl⟩ := mem_oneOf.mp hhead
    refine ⟨by simp, ?_⟩
    intro d hd
    rcases List.mem_cons.mp hd with rfl | hd
    · exact hc
    · exact mem_star_oneOf.mp hrest d hd
  · rintro ⟨hne, hall⟩
    obtain ⟨c, rest, rfl⟩ := List.exists_cons_of_ne_nil hne
    exact ⟨[c], mem_oneOf.mpr ⟨c, hall c List.mem_cons_self, rfl⟩, rest,
      mem_star_oneOf.mpr fun d hd => hall d (List.mem_cons_of_mem _ hd), rfl⟩

end Matches

section Split

-- Where the groups have no character in common, there is one way to split.
theorem split_unique {first' second' : List α} (h : first ++ second = first' ++ second')
    (hfirst : ∀ c ∈ first, p c = true) (hfirst' : ∀ c ∈ first', p c = true)
    (hsecond : ∀ c ∈ second, p c = false) (hsecond' : ∀ c ∈ second', p c = false) :
    first = first' ∧ second = second' := by
  have hfilter : ∀ {head tail : List α}, (∀ c ∈ head, p c = true) → (∀ c ∈ tail, p c = false) →
      (head ++ tail).filter p = head := by
    intro head tail hhead htail
    have hnone : tail.filter p = [] := List.filter_eq_nil_iff.mpr fun c hc => by simp [htail c hc]
    rw [List.filter_append, List.filter_eq_self.mpr hhead, hnone, List.append_nil]
  have heq : first = first' := by rw [← hfilter hfirst hsecond, h, hfilter hfirst' hsecond']
  subst heq
  exact ⟨rfl, List.append_cancel_left h⟩

end Split

section Groups

variable [DecidableEq α]

-- A match of the whole text by two groups, the first of which takes as much as it can.
def matchGroups (r r' : RegularExpression α) (text : List α) : Option (List α × List α) :=
  ((List.range (text.length + 1)).reverse.map fun n => (text.take n, text.drop n)).find? fun groups =>
    r.rmatch groups.1 && r'.rmatch groups.2

theorem matchGroups_sound (h : matchGroups r r' text = some (first, second)) :
    text = first ++ second ∧ first ∈ r.matches' ∧ second ∈ r'.matches' := by
  have hmatch := List.find?_some h
  obtain ⟨n, _, hsplit⟩ := List.mem_map.mp (List.mem_of_find?_eq_some h)
  obtain ⟨rfl, rfl⟩ := Prod.mk.inj hsplit
  simp only [Bool.and_eq_true, RegularExpression.rmatch_iff_matches'] at hmatch
  exact ⟨(List.take_append_drop n text).symm, hmatch⟩

theorem matchGroups_isSome (hfirst : first ∈ r.matches') (hsecond : second ∈ r'.matches') :
    (matchGroups r r' (first ++ second)).isSome = true := by
  rw [matchGroups, List.find?_isSome]
  refine ⟨(first, second), List.mem_map.mpr ⟨first.length, ?_, ?_⟩, ?_⟩
  · rw [List.mem_reverse, List.mem_range, List.length_append]
    omega
  · rw [List.take_left, List.drop_left]
  · simp only [Bool.and_eq_true, RegularExpression.rmatch_iff_matches']
    exact ⟨hfirst, hsecond⟩

end Groups

end SwarmDB.Regex
