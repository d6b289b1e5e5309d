import Mathlib.Data.List.Basic
import Mathlib.Data.Set.Insert

namespace SwarmDB

-- Keys in the order in which they were put down, each with a mark.
abbrev Shelf (κ : Type) := List (κ × Bool)

namespace Shelf

variable {κ : Type} {shelf : Shelf κ} {order : List κ} {marked pruned : Set κ} {k c x : κ}

section Order

-- One key was put down before another one.
def Before (order : List κ) (k c : κ) : Prop :=
  k ≠ c ∧ ∃ i j : Nat, i < j ∧ order[i]? = some k ∧ order[j]? = some c

-- A key is not put down again once another one has been.
def Settled (order : List κ) : Prop :=
  ∀ (i j m : Nat) (k c : κ), i < j → j < m → order[i]? = some k → order[j]? = some c → order[m]? = some k → c = k

theorem Settled.of_append {later : List κ} (h : Settled (order ++ later)) : Settled order := by
  have hsome : ∀ {i : Nat} {k : κ}, order[i]? = some k → (order ++ later)[i]? = some k := by
    intro i k hi
    rw [List.getElem?_append_left (List.getElem?_eq_some_iff.mp hi).1]
    exact hi
  intro i j m k c hij hjm hi hj hm
  exact h i j m k c hij hjm (hsome hi) (hsome hj) (hsome hm)

theorem settled_of_nodup (h : order.Nodup) : Settled order := by
  intro i j m k c hij hjm hi _ hm
  have hsame := (List.getElem?_inj (List.getElem?_eq_some_iff.mp hi).1 h).mp (hi.trans hm.symm)
  omega

theorem Settled.asymm (h : Settled order) (hbefore : Before order k c) : ¬Before order c k := by
  obtain ⟨hne, i, j, hij, hi, hj⟩ := hbefore
  rintro ⟨_, p, q, hpq, hp, hq⟩
  have hjq : j ≠ q := by
    rintro rfl
    exact hne (Option.some.inj (hq.symm.trans hj))
  rcases Nat.lt_or_gt_of_ne hjq with hlt | hgt
  · exact hne (h i j q k c hij hlt hi hj hq).symm
  · exact hne (h p q j c k hpq hgt hp hq hj)

theorem Settled.trans {d : κ} (h : Settled order) (hkc : Before order k c) (hcd : Before order c d) :
    Before order k d := by
  have hback := h.asymm hkc
  obtain ⟨hne, i, j, hij, hi, hj⟩ := hkc
  obtain ⟨hne', p, q, hpq, hp, hq⟩ := hcd
  have hiq : i < q := by
    by_contra hle
    -- then k stands between two entries of c
    exact hne (h p i j c k (by omega) hij hp hi hj)
  refine ⟨?_, i, q, hiq, hi, hq⟩
  rintro rfl
  exact hback ⟨hne', p, q, hpq, hp, hq⟩

theorem before_append {left right : List κ} (hne : k ≠ c) (hk : k ∈ left) (hc : c ∈ right) :
    Before (left ++ right) k c := by
  obtain ⟨i, hi⟩ := List.mem_iff_getElem?.mp hk
  obtain ⟨j, hj⟩ := List.mem_iff_getElem?.mp hc
  have hlt := (List.getElem?_eq_some_iff.mp hi).1
  refine ⟨hne, i, left.length + j, by omega, ?_, ?_⟩
  · rw [List.getElem?_append_left hlt]
    exact hi
  · rw [List.getElem?_append_right (by omega)]
    simpa using hj

theorem before_concat : Before (order ++ [x]) k c ↔ Before order k c ∨ k ≠ c ∧ k ∈ order ∧ c = x := by
  constructor
  · rintro ⟨hne, i, j, hij, hi, hj⟩
    have hjlt := (List.getElem?_eq_some_iff.mp hj).1
    rw [List.length_append, List.length_singleton] at hjlt
    rw [List.getElem?_append_left (by omega)] at hi
    by_cases hlast : j < order.length
    · rw [List.getElem?_append_left hlast] at hj
      exact Or.inl ⟨hne, i, j, hij, hi, hj⟩
    · obtain rfl : j = order.length := by omega
      rw [List.getElem?_concat_length] at hj
      exact Or.inr ⟨hne, List.mem_of_getElem? hi, (Option.some.inj hj).symm⟩
  · rintro (⟨hne, i, j, hij, hi, hj⟩ | ⟨hne, hk, rfl⟩)
    · have hjlt := (List.getElem?_eq_some_iff.mp hj).1
      refine ⟨hne, i, j, hij, ?_, ?_⟩
      · rw [List.getElem?_append_left (by omega)]
        exact hi
      · rw [List.getElem?_append_left hjlt]
        exact hj
    · exact before_append hne hk (by simp)

theorem Settled.not_before (h : Settled (order ++ [x])) : ¬Before order x c := by
  rintro ⟨hne, i, j, hij, hi, hj⟩
  have hjlt := (List.getElem?_eq_some_iff.mp hj).1
  refine hne (h i j order.length x c hij hjlt ?_ ?_ List.getElem?_concat_length).symm
  · rw [List.getElem?_append_left (by omega)]
    exact hi
  · rw [List.getElem?_append_left hjlt]
    exact hj

theorem before_or_before (hk : k ∈ order) (hc : c ∈ order) (hne : k ≠ c) : Before order k c ∨ Before order c k := by
  obtain ⟨i, hi⟩ := List.mem_iff_getElem?.mp hk
  obtain ⟨j, hj⟩ := List.mem_iff_getElem?.mp hc
  have hij : i ≠ j := by
    rintro rfl
    exact hne (Option.some.inj (hi.symm.trans hj))
  rcases Nat.lt_or_gt_of_ne hij with hlt | hgt
  · exact Or.inl ⟨hne, i, j, hlt, hi, hj⟩
  · exact Or.inr ⟨hne.symm, j, i, hgt, hj, hi⟩

end Order

def keys (shelf : Shelf κ) : List κ := shelf.map Prod.fst

def add (k : κ) (shelf : Shelf κ) : Shelf κ := shelf ++ [(k, false)]

@[simp] theorem keys_add (k : κ) (shelf : Shelf κ) : (shelf.add k).keys = shelf.keys ++ [k] := by simp [keys, add]

variable [DecidableEq κ]

-- Only the first entry of the key gets the mark.
def mark (k : κ) : Shelf κ → Shelf κ
  | [] => []
  | entry :: rest => if entry.1 = k then (entry.1, true) :: rest else entry :: mark k rest

-- Everything in front of the first entry of the key goes, if there is such an entry.
def prune (k : κ) (shelf : Shelf κ) : Shelf κ :=
  if k ∈ shelf.keys then shelf.dropWhile fun entry => entry.1 != k else shelf

def isMarked (k : κ) (shelf : Shelf κ) : Bool := ((shelf.find? fun entry => entry.1 == k).map Prod.snd).getD false

section Growth

-- How a shelf came about: the keys in order of arrival, those that were marked and those that were pruned.
-- A key is put down before it is marked or pruned.
inductive Grown : List κ → Set κ → Set κ → Shelf κ → Prop
  | empty : Grown [] ∅ ∅ []
  | add {order : List κ} {marked pruned : Set κ} {shelf : Shelf κ} (h : Grown order marked pruned shelf) (k : κ) :
      Grown (order ++ [k]) marked pruned (shelf.add k)
  | mark {order : List κ} {marked pruned : Set κ} {shelf : Shelf κ} {k : κ}
      (h : Grown order marked pruned shelf) (hk : k ∈ order) :
      Grown order (insert k marked) pruned (shelf.mark k)
  | prune {order : List κ} {marked pruned : Set κ} {shelf : Shelf κ} {k : κ}
      (h : Grown order marked pruned shelf) (hk : k ∈ order) :
      Grown order marked (insert k pruned) (shelf.prune k)

@[simp] theorem keys_mark (k : κ) (shelf : Shelf κ) : (shelf.mark k).keys = shelf.keys := by
  unfold keys
  induction shelf with
  | nil => rfl
  | cons entry rest ih =>
      unfold mark
      split
      · rfl
      · rw [List.map_cons, List.map_cons, ih]

theorem prune_absent (h : k ∉ shelf.keys) : shelf.prune k = shelf := if_neg h

-- What is cut off does not have the key, and the rest starts with it.
theorem prune_present (h : k ∈ shelf.keys) :
    ∃ cut entry rest, shelf = cut ++ entry :: rest ∧ k ∉ keys cut ∧ entry.1 = k ∧ shelf.prune k = entry :: rest := by
  induction shelf with
  | nil => cases h
  | cons entry rest ih =>
      by_cases hentry : entry.1 = k
      · refine ⟨[], entry, rest, rfl, by simp [keys], hentry, ?_⟩
        rw [prune, if_pos h, List.dropWhile_cons_of_neg (by simp [hentry])]
      · have hrest : k ∈ keys rest := by
          rcases List.mem_cons.mp h with heq | hrest
          · exact absurd heq.symm hentry
          · exact hrest
        obtain ⟨cut, first, last, hsplit, hcut, hfirst, hprune⟩ := ih hrest
        refine ⟨entry :: cut, first, last, by rw [hsplit]; rfl, ?_, hfirst, ?_⟩
        · intro hmem
          rcases List.mem_cons.mp hmem with heq | hmem
          · exact hentry heq.symm
          · exact hcut hmem
        · rw [← hprune, prune, if_pos h, prune, if_pos hrest, List.dropWhile_cons_of_pos (by simp [hentry])]

theorem Grown.suffix (h : Grown order marked pruned shelf) : shelf.keys <:+ order := by
  induction h with
  | empty => exact List.suffix_refl []
  | add _ k ih =>
      obtain ⟨cut, rfl⟩ := ih
      exact ⟨cut, by simp⟩
  | mark _ _ ih => simpa using ih
  | @prune order marked pruned shelf k _ _ ih =>
      by_cases hk : k ∈ shelf.keys
      · obtain ⟨cut, entry, rest, hsplit, _, _, hprune⟩ := prune_present hk
        rw [hprune]
        refine List.IsSuffix.trans ⟨keys cut, ?_⟩ ih
        rw [hsplit]
        simp [keys]
      · rw [prune_absent hk]
        exact ih

theorem Grown.pruned_subset (h : Grown order marked pruned shelf) : ∀ k ∈ pruned, k ∈ order := by
  induction h with
  | empty => exact fun _ hk => hk.elim
  | add _ _ ih => exact fun k hk => List.mem_append_left _ (ih k hk)
  | mark _ _ ih => exact ih
  | prune _ hk ih =>
      rintro c (rfl | hc)
      · exact hk
      · exact ih c hc

theorem Grown.marked_subset (h : Grown order marked pruned shelf) : ∀ k ∈ marked, k ∈ order := by
  induction h with
  | empty => exact fun _ hk => hk.elim
  | add _ _ ih => exact fun k hk => List.mem_append_left _ (ih k hk)
  | mark _ hk ih =>
      rintro c (rfl | hc)
      · exact hk
      · exact ih c hc
  | prune _ _ ih => exact ih

-- What a prune cuts off came before the key, and what it leaves is the key or came after it.
theorem Grown.prune_shape (h : Grown order marked pruned shelf) (hx : x ∈ shelf.keys) :
    ∃ cut, shelf = cut ++ shelf.prune x ∧ (∀ k ∈ keys cut, Before order k x) ∧
      ∀ k ∈ (shelf.prune x).keys, k ≠ x → Before order x k := by
  obtain ⟨cut, entry, rest, hsplit, hcut, rfl, hprune⟩ := prune_present hx
  obtain ⟨gone, hgone⟩ := h.suffix
  have horder : order = (gone ++ keys cut) ++ (entry.1 :: keys rest) := by
    rw [← hgone, hsplit]
    simp [keys]
  refine ⟨cut, hprune ▸ hsplit, ?_, ?_⟩
  · intro k hk
    rw [horder]
    refine before_append ?_ (List.mem_append_right gone hk) List.mem_cons_self
    rintro rfl
    exact hcut hk
  · intro k hk hne
    rw [hprune] at hk
    have hrest : k ∈ keys rest := (List.mem_cons.mp hk).resolve_left hne
    rw [horder, List.append_cons]
    exact before_append hne.symm (by simp) hrest

theorem Grown.mem_prune (h : Grown order marked pruned shelf) (hsettled : Settled order) (hx : x ∈ shelf.keys) :
    k ∈ (shelf.prune x).keys ↔ k ∈ shelf.keys ∧ ¬Before order k x := by
  obtain ⟨cut, hsplit, hcut, hrest⟩ := h.prune_shape hx
  have hkeys : shelf.keys = keys cut ++ (shelf.prune x).keys := by
    conv => lhs; rw [hsplit]
    exact List.map_append
  rw [hkeys, List.mem_append]
  constructor
  · intro hk
    exact ⟨Or.inr hk, fun hbefore => hsettled.asymm hbefore (hrest k hk hbefore.1)⟩
  · rintro ⟨hk | hk, hfree⟩
    · exact absurd (hcut k hk) hfree
    · exact hk

-- A key is still there if no key that was put down after it has been pruned.
theorem Grown.mem_keys (h : Grown order marked pruned shelf) (hsettled : Settled order) :
    k ∈ shelf.keys ↔ k ∈ order ∧ ∀ c ∈ pruned, ¬Before order k c := by
  induction h generalizing k with
  | empty => simp [keys]
  | @add order marked pruned shelf h x ih =>
      have hpruned : ∀ c ∈ pruned, Before (order ++ [x]) k c → Before order k c := by
        intro c hc hbefore
        rcases before_concat.mp hbefore with hbefore | ⟨hne, hk, rfl⟩
        · exact hbefore
        · -- the pruned key comes a second time: nothing was put down in between
          exact (before_or_before hk (h.pruned_subset c hc) hne).resolve_right hsettled.not_before
      rw [keys_add, List.mem_append, List.mem_append, List.mem_singleton, ih hsettled.of_append]
      constructor
      · rintro (⟨hk, hfree⟩ | rfl)
        · exact ⟨Or.inl hk, fun c hc hbefore => hfree c hc (hpruned c hc hbefore)⟩
        · exact ⟨Or.inr rfl, fun c hc hbefore => hsettled.not_before (hpruned c hc hbefore)⟩
      · rintro ⟨hk | rfl, hfree⟩
        · exact Or.inl ⟨hk, fun c hc hbefore => hfree c hc (before_concat.mpr (Or.inl hbefore))⟩
        · exact Or.inr rfl
  | mark _ _ ih => rw [keys_mark, ih hsettled]
  | @prune order marked pruned shelf x h hx ih =>
      have hprune : k ∈ (shelf.prune x).keys ↔ k ∈ shelf.keys ∧ ¬Before order k x := by
        by_cases hpresent : x ∈ shelf.keys
        · exact h.mem_prune hsettled hpresent
        · rw [prune_absent hpresent, iff_self_and]
          intro hk hbefore
          -- something after x has been pruned, and that is after k as well
          obtain ⟨c, hc, hafter⟩ : ∃ c ∈ pruned, Before order x c := by
            by_contra hnone
            exact hpresent ((ih hsettled).mpr ⟨hx, fun c hc hafter => hnone ⟨c, hc, hafter⟩⟩)
          exact ((ih hsettled).mp hk).2 c hc (hsettled.trans hbefore hafter)
      rw [hprune, ih hsettled]
      simp only [Set.mem_insert_iff, forall_eq_or_imp]
      tauto

theorem mem_keys_of_isMarked (h : isMarked k shelf = true) : k ∈ shelf.keys := by
  unfold isMarked at h
  cases hfind : shelf.find? fun entry => entry.1 == k with
  | none => simp [hfind] at h
  | some entry =>
      refine List.mem_map.mpr ⟨entry, List.mem_of_find?_eq_some hfind, ?_⟩
      simpa using List.find?_some hfind

theorem isMarked_of_cut {cut rest : Shelf κ} (h : k ∉ keys cut) : isMarked k (cut ++ rest) = isMarked k rest := by
  unfold isMarked
  rw [List.find?_append, List.find?_eq_none.mpr]
  · rfl
  · intro entry hentry heq
    exact h (List.mem_map.mpr ⟨entry, hentry, eq_of_beq heq⟩)

theorem isMarked_add (h : k ∈ shelf.keys) : isMarked k (shelf.add x) = isMarked k shelf := by
  obtain ⟨entry, hentry, rfl⟩ := List.mem_map.mp h
  have hsome : (shelf.find? fun other => other.1 == entry.1).isSome = true :=
    List.find?_isSome.mpr ⟨entry, hentry, beq_self_eq_true _⟩
  obtain ⟨found, hfound⟩ := Option.isSome_iff_exists.mp hsome
  simp [isMarked, add, List.find?_append, hfound]

theorem isMarked_mark (h : x ∈ shelf.keys) : isMarked k (shelf.mark x) = (decide (k = x) || isMarked k shelf) := by
  induction shelf with
  | nil => cases h
  | cons entry rest ih =>
      unfold mark
      by_cases hentry : entry.1 = x
      · rw [if_pos hentry]
        by_cases hk : k = x
        · simp [isMarked, hentry, hk]
        · simp [isMarked, hentry, hk, Ne.symm hk]
      · rw [if_neg hentry]
        have hrest : x ∈ keys rest := (List.mem_cons.mp h).resolve_left (Ne.symm hentry)
        by_cases hk : entry.1 = k
        · have hne : k ≠ x := fun heq => hentry (hk.trans heq)
          simp [isMarked, hk, hne]
        · have hskip : ∀ tail, isMarked k (entry :: tail) = isMarked k tail := by
            intro tail
            simp [isMarked, hk]
          rw [hskip, hskip, ih hrest]

theorem mark_absent (h : x ∉ shelf.keys) : shelf.mark x = shelf := by
  induction shelf with
  | nil => rfl
  | cons entry rest ih =>
      simp only [keys, List.map_cons, List.mem_cons, not_or] at h
      rw [mark, if_neg (Ne.symm h.1), ih h.2]

theorem Grown.isMarked_iff (h : Grown order marked pruned shelf) (hsettled : Settled order) (hk : k ∈ shelf.keys) :
    isMarked k shelf = true ↔ k ∈ marked := by
  induction h with
  | empty => cases hk
  | @add order marked pruned shelf h x ih =>
      by_cases hold : k ∈ shelf.keys
      · rw [isMarked_add hold, ih hsettled.of_append hold]
      · obtain rfl : k = x := by
          rw [keys_add, List.mem_append] at hk
          exact List.mem_singleton.mp (hk.resolve_left hold)
        have hunmarked : k ∉ marked := by
          intro hmarked
          -- it would have been put down before, and nothing since then
          refine hold ((h.mem_keys hsettled.of_append).mpr ⟨h.marked_subset k hmarked, ?_⟩)
          exact fun c _ => hsettled.not_before
        refine iff_of_false ?_ hunmarked
        rw [Shelf.add, isMarked_of_cut hold]
        simp [isMarked]
  | @mark order marked pruned shelf x h _ ih =>
      rw [keys_mark] at hk
      by_cases hpresent : x ∈ shelf.keys
      · simp [isMarked_mark hpresent, ih hsettled hk]
      · have hne : k ≠ x := by
          rintro rfl
          exact hpresent hk
        rw [mark_absent hpresent, ih hsettled hk]
        simp [hne]
  | @prune order marked pruned shelf x h _ ih =>
      by_cases hpresent : x ∈ shelf.keys
      · obtain ⟨cut, hsplit, hcut, _⟩ := h.prune_shape hpresent
        obtain ⟨hold, hfree⟩ := (h.mem_prune hsettled hpresent).mp hk
        rw [← ih hsettled hold]
        conv => rhs; rw [hsplit]
        rw [isMarked_of_cut fun hmem => hfree (hcut k hmem)]
      · rw [prune_absent hpresent] at hk ⊢
        exact ih hsettled hk

end Growth

end Shelf

end SwarmDB
