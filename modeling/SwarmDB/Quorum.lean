import Mathlib.Data.Finset.Card
import Mathlib.Data.List.Sort
import Mathlib.Tactic.ByContra
import Mathlib.Algebra.Ring.Parity

namespace SwarmDB.Quorum

variable {ι : Type}

section Majority

open Classical in
-- More than half of the listed members satisfy P.
noncomputable def Majority (members : List ι) (P : ι → Prop) : Prop :=
  members.length < 2 * members.countP (fun u => decide (P u))

theorem majority_iff {members : List ι} {P : ι → Prop} [DecidablePred P] :
    Majority members P ↔ members.length < 2 * members.countP (fun u => decide (P u)) := by
  unfold Majority
  have hsame : ∀ u, @decide (P u) (Classical.propDecidable _) = decide (P u) := fun u => by congr
  simp only [hsame]

theorem Majority.mono {members : List ι} {P Q : ι → Prop} (h : Majority members P)
    (himp : ∀ u ∈ members, P u → Q u) : Majority members Q := by
  classical
  have hc : members.countP (fun u => decide (P u)) ≤ members.countP (fun u => decide (Q u)) := by
    apply List.countP_mono_left
    intro u hu hp
    simpa using himp u hu (by simpa using hp)
  unfold Majority at h ⊢
  omega

theorem countP_add_le_of_disjoint (members : List ι) (p q : ι → Bool)
    (h : ∀ u ∈ members, ¬(p u = true ∧ q u = true)) :
    members.countP p + members.countP q ≤ members.length := by
  induction members with
  | nil => simp
  | cons first rest ih =>
      have hr := ih (fun u hu => h u (List.mem_cons_of_mem _ hu))
      have hf := h first (by simp)
      simp only [List.countP_cons, List.length_cons]
      cases hp : p first with
      | false =>
          simp only [Bool.false_eq_true, ite_false]
          split <;> omega
      | true =>
          cases hq : q first with
          | false =>
              simp only [Bool.false_eq_true, ite_true, ite_false]
              omega
          | true => exact absurd ⟨hp, hq⟩ hf

-- Counting positions is enough: a member listed twice still counts twice on both sides.
theorem Majority.exists_common {members : List ι} {P Q : ι → Prop}
    (hp : Majority members P) (hq : Majority members Q) : ∃ u ∈ members, P u ∧ Q u := by
  classical
  by_contra hn
  have hd := countP_add_le_of_disjoint members (fun u => decide (P u)) (fun u => decide (Q u)) (by
    intro u hu hboth
    exact hn ⟨u, hu, by simpa using hboth⟩)
  unfold Majority at hp hq
  omega

theorem majority_of_all {members : List ι} {P : ι → Prop} (hne : members ≠ []) (h : ∀ u ∈ members, P u) :
    Majority members P := by
  classical
  have hall : members.countP (fun u => decide (P u)) = members.length :=
    List.countP_eq_length.mpr fun u hu => decide_eq_true (h u hu)
  have hpos := List.length_pos_iff.mpr hne
  unfold Majority
  omega

-- A voter supports at most one candidate, so two candidates with a majority are the same.
theorem winner_unique {members : List ι} {vote : ι → ι → Prop} {a b : ι}
    (hunique : ∀ u, vote u a → vote u b → a = b)
    (ha : Majority members (vote · a)) (hb : Majority members (vote · b)) : a = b := by
  obtain ⟨u, _, hua, hub⟩ := ha.exists_common hb
  exact hunique u hua hub

end Majority

section OrderStatistic

theorem countP_ge_sorted (sorted : List Nat) (hs : sorted.Pairwise (· ≤ ·)) (k : Nat)
    (hk : k < sorted.length) :
    sorted.length - k ≤ sorted.countP (fun x => decide (sorted[k] ≤ x)) := by
  have hdrop : (sorted.drop k).countP (fun x => decide (sorted[k] ≤ x)) = (sorted.drop k).length := by
    apply List.countP_eq_length.mpr
    intro x hx
    obtain ⟨j, hj, rfl⟩ := List.mem_iff_getElem.mp hx
    rw [List.getElem_drop]
    rcases Nat.eq_zero_or_pos j with rfl | hpos
    · simp
    · have hlt : k + j < sorted.length := by
        simp only [List.length_drop] at hj
        omega
      simpa using List.pairwise_iff_getElem.mp hs k (k + j) hk hlt (by omega)
  calc
    sorted.length - k = (sorted.drop k).length := by simp
    _ = (sorted.drop k).countP (fun x => decide (sorted[k] ≤ x)) := hdrop.symm
    _ ≤ sorted.countP (fun x => decide (sorted[k] ≤ x)) :=
      List.Sublist.countP_le (List.drop_sublist k sorted)

-- At least all but k of the values reach the one that sorting puts at position k.
theorem countP_ge_insertionSort (values : List Nat) (k m : Nat)
    (hm : (values.insertionSort (· ≤ ·))[k]? = some m) :
    values.length - k ≤ values.countP (fun x => decide (m ≤ x)) := by
  obtain ⟨hk, rfl⟩ := List.getElem?_eq_some_iff.mp hm
  have hc := countP_ge_sorted _ (values.pairwise_insertionSort (· ≤ ·)) k hk
  rw [(values.perm_insertionSort (· ≤ ·)).countP_eq, List.length_insertionSort] at hc
  exact hc

-- And a value that all but k of them reach is no larger than the one at position k.
theorem le_of_countP_insertionSort (values : List Nat) {k m v : Nat}
    (hm : (values.insertionSort (· ≤ ·))[k]? = some m)
    (hcount : values.length - k ≤ values.countP (fun x => decide (v ≤ x))) : v ≤ m := by
  obtain ⟨hk, rfl⟩ := List.getElem?_eq_some_iff.mp hm
  by_contra hlow
  have hsorted := values.pairwise_insertionSort (· ≤ ·)
  -- the first k + 1 values are all too small
  have htake : ((values.insertionSort (· ≤ ·)).take (k + 1)).countP (fun x => decide (v ≤ x)) = 0 := by
    apply List.countP_eq_zero.mpr
    intro x hx
    obtain ⟨j, hj, rfl⟩ := List.mem_iff_getElem.mp hx
    rw [List.length_take] at hj
    rw [List.getElem_take]
    have hle : (values.insertionSort (· ≤ ·))[j] ≤ (values.insertionSort (· ≤ ·))[k] := by
      rcases Nat.lt_or_ge j k with hlt | hge
      · exact List.pairwise_iff_getElem.mp hsorted j k (by omega) hk hlt
      · obtain rfl : j = k := by omega
        exact le_refl _
    simp only [decide_eq_true_eq]
    omega
  have hdrop := List.countP_le_length (p := fun x => decide (v ≤ x)) (l := (values.insertionSort (· ≤ ·)).drop (k + 1))
  have hsplit := congrArg (List.countP fun x => decide (v ≤ x))
    (List.take_append_drop (k + 1) (values.insertionSort (· ≤ ·)))
  rw [List.countP_append, htake, (values.perm_insertionSort (· ≤ ·)).countP_eq] at hsplit
  rw [List.length_drop, List.length_insertionSort] at hdrop
  rw [List.length_insertionSort] at hk
  omega

-- One more than all members that satisfy p satisfy q.
theorem countP_succ_le (members : List ι) (p q : ι → Bool) (hpq : ∀ u ∈ members, p u = true → q u = true)
    {extra : ι} (hmem : extra ∈ members) (hp : p extra = false) (hq : q extra = true) :
    members.countP p + 1 ≤ members.countP q := by
  induction members with
  | nil => cases hmem
  | cons first rest ih =>
      have hmono : rest.countP p ≤ rest.countP q :=
        List.countP_mono_left fun u hu => hpq u (List.mem_cons_of_mem _ hu)
      rw [List.countP_cons, List.countP_cons]
      rcases List.mem_cons.mp hmem with rfl | hrest
      · simp only [hp, hq, Bool.false_eq_true, if_false, if_true]
        omega
      · have hr := ih (fun u hu => hpq u (List.mem_cons_of_mem _ hu)) hrest
        have hf := hpq first List.mem_cons_self
        cases hpf : p first with
        | false =>
            simp only [Bool.false_eq_true, if_false]
            omega
        | true =>
            simp only [hf hpf, if_true]
            omega

-- A value in the middle of the sorted ones is reached by half of the members. With one more
-- member, whose own value does not count, they are a majority.
theorem majority_of_median (members : List ι) (value : ι → Nat) (P : ι → Prop) {m : Nat} {leader : ι}
    (hm : ((members.map value).insertionSort (· ≤ ·))[(members.length + 1) / 2]? = some m)
    (hreached : ∀ u ∈ members, m ≤ value u → P u) (hmem : leader ∈ members)
    (hlow : value leader < m) (hleader : P leader) : Majority members P := by
  classical
  have hcount := countP_ge_insertionSort (members.map value) _ m hm
  rw [List.length_map, List.countP_map] at hcount
  have hmore := countP_succ_le members ((fun x => decide (m ≤ x)) ∘ value) (fun u => decide (P u))
    (by
      intro u hu hv
      exact decide_eq_true (hreached u hu (by simpa using hv)))
    hmem (by simpa using hlow) (by simpa using hleader)
  unfold Majority
  omega

-- Without that member they are a majority of the others, if the others are odd in number.
theorem majority_of_median_without (members others : List ι) (value : ι → Nat) (P : ι → Prop) {m : Nat} {leader : ι}
    (hperm : members.Perm (leader :: others))
    (hm : ((members.map value).insertionSort (· ≤ ·))[(members.length + 1) / 2]? = some m)
    (hreached : ∀ u ∈ others, m ≤ value u → P u) (hlow : value leader < m) (hodd : Odd others.length) :
    Majority others P := by
  classical
  have hcount := countP_ge_insertionSort (members.map value) _ m hm
  rw [List.length_map, List.countP_map, hperm.countP_eq, hperm.length_eq, List.length_cons,
    List.countP_cons_of_neg (by simpa using hlow)] at hcount
  have hmono : others.countP ((fun x => decide (m ≤ x)) ∘ value) ≤ others.countP (fun u => decide (P u)) := by
    apply List.countP_mono_left
    intro u hu hv
    exact decide_eq_true (hreached u hu (by simpa using hv))
  obtain ⟨half, hhalf⟩ := hodd
  unfold Majority
  omega

end OrderStatistic

section Byzantine

variable [DecidableEq ι]

-- Two sets of more than 2f out of at most 3f+1 members share a member outside any set of f.
theorem exists_correct_common (members faulty A B : Finset ι) (f : Nat)
    (hn : members.card ≤ 3 * f + 1) (hf : faulty.card ≤ f)
    (hA : A ⊆ members) (hB : B ⊆ members) (ha : 2 * f < A.card) (hb : 2 * f < B.card) :
    ∃ u ∈ A, u ∈ B ∧ u ∉ faulty := by
  have hunion : (A ∪ B).card ≤ members.card := Finset.card_le_card (Finset.union_subset hA hB)
  have hinter := Finset.card_union_add_card_inter A B
  have hlt : faulty.card < (A ∩ B).card := by omega
  obtain ⟨u, hu, hnot⟩ := Finset.exists_mem_notMem_of_card_lt_card hlt
  obtain ⟨hua, hub⟩ := Finset.mem_inter.mp hu
  exact ⟨u, hua, hub, hnot⟩

-- Sets of q members always share more than f of them just where 2q exceeds their number by that much.
theorem overlap_iff (members : Finset ι) {q : Nat} (f : Nat) (hq : q ≤ members.card) :
    (∀ A ⊆ members, ∀ B ⊆ members, A.card = q → B.card = q → f < (A ∩ B).card) ↔ members.card + f < 2 * q := by
  constructor
  · intro h
    obtain ⟨A, hA, hcard⟩ := Finset.exists_subset_card_eq hq
    have hrest := Finset.card_sdiff_add_card_eq_card hA
    -- the second set goes round the first as far as it can
    by_cases hroom : q ≤ (members \ A).card
    · obtain ⟨B, hB, hcard'⟩ := Finset.exists_subset_card_eq hroom
      have hlt := h A hA B (hB.trans Finset.sdiff_subset) hcard hcard'
      have hdisjoint : A ∩ B = ∅ :=
        Finset.disjoint_iff_inter_eq_empty.mp (Finset.disjoint_sdiff.mono_right hB)
      rw [hdisjoint, Finset.card_empty] at hlt
      omega
    · obtain ⟨B, hout, hB, hcard'⟩ :=
        Finset.exists_subsuperset_card_eq (Finset.sdiff_subset (s := members) (t := A)) (by omega) hq
      have hlt := h A hA B hB hcard hcard'
      have hunion : A ∪ B = members := by
        apply Finset.Subset.antisymm (Finset.union_subset hA hB)
        intro u hu
        by_cases hua : u ∈ A
        · exact Finset.mem_union_left B hua
        · exact Finset.mem_union_right A (hout (Finset.mem_sdiff.mpr ⟨hu, hua⟩))
      have hinter := Finset.card_union_add_card_inter A B
      rw [hunion] at hinter
      omega
  · intro h A hA B hB hcard hcard'
    have hunion := Finset.card_le_card (Finset.union_subset hA hB)
    have hinter := Finset.card_union_add_card_inter A B
    omega

-- More than 2f members stand behind a value. What the faulty ones voted for does not matter.
def Certified {V : Type} (members faulty : Finset ι) (f : Nat) (vote : ι → V → Prop) (value : V) : Prop :=
  ∃ signers ⊆ members, 2 * f < signers.card ∧ ∀ u ∈ signers, u ∉ faulty → vote u value

-- If no correct member votes for both of two values, at most one of them gets certified.
theorem Certified.unique {V : Type} {members faulty : Finset ι} {f : Nat} {vote : ι → V → Prop} {a b : V}
    (ha : Certified members faulty f vote a) (hb : Certified members faulty f vote b)
    (hn : members.card ≤ 3 * f + 1) (hf : faulty.card ≤ f)
    (hvote : ∀ u ∈ members, u ∉ faulty → vote u a → vote u b → a = b) : a = b := by
  obtain ⟨A, hA, hcard, hsigned⟩ := ha
  obtain ⟨B, hB, hcard', hsigned'⟩ := hb
  obtain ⟨u, hua, hub, hcorrect⟩ := exists_correct_common members faulty A B f hn hf hA hB hcard hcard'
  exact hvote u (hA hua) hcorrect (hsigned u hua hcorrect) (hsigned' u hub hcorrect)

end Byzantine

end SwarmDB.Quorum
