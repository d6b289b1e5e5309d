import Mathlib.Data.List.Lex
import Mathlib.Data.List.Nodup
import Mathlib.Order.Lattice

namespace SwarmDB

-- Keys in order, each with a value.
structure OrderedMap (K V : Type) [LinearOrder K] where
  entries : List (K × V)
  ordered : entries.Pairwise fun first second => first.1 < second.1

namespace OrderedMap

section Map

variable {K V : Type} [LinearOrder K] {m : OrderedMap K V} {key : K} {value : V} {entry : K × V}

def empty : OrderedMap K V := ⟨[], .nil⟩

def get (m : OrderedMap K V) (key : K) : Option V := (m.entries.find? fun entry => entry.1 = key).map Prod.snd

def insertEntry (key : K) (value : V) : List (K × V) → List (K × V)
  | [] => [(key, value)]
  | entry :: rest =>
    if key < entry.1 then (key, value) :: entry :: rest
    else if key = entry.1 then (key, value) :: rest
    else entry :: insertEntry key value rest

theorem mem_of_mem_insertEntry {entries : List (K × V)} (h : entry ∈ insertEntry key value entries) :
    entry = (key, value) ∨ entry ∈ entries := by
  induction entries with
  | nil => exact Or.inl (List.mem_singleton.mp h)
  | cons first rest ih =>
      unfold insertEntry at h
      split at h
      · exact List.mem_cons.mp h
      · split at h
        · rcases List.mem_cons.mp h with rfl | hrest
          · exact Or.inl rfl
          · exact Or.inr (List.mem_cons_of_mem _ hrest)
        · rcases List.mem_cons.mp h with rfl | hrest
          · exact Or.inr List.mem_cons_self
          · exact (ih hrest).imp_right (List.mem_cons_of_mem _)

theorem ordered_insertEntry {entries : List (K × V)}
    (h : entries.Pairwise fun first second => first.1 < second.1) :
    (insertEntry key value entries).Pairwise fun first second => first.1 < second.1 := by
  induction entries with
  | nil => exact List.pairwise_singleton _ _
  | cons first rest ih =>
      obtain ⟨hfirst, hrest⟩ := List.pairwise_cons.mp h
      unfold insertEntry
      split
      · rename_i hlt
        refine List.pairwise_cons.mpr ⟨?_, h⟩
        intro other hother
        rcases List.mem_cons.mp hother with rfl | hother
        · exact hlt
        · exact hlt.trans (hfirst other hother)
      · split
        · rename_i heq
          refine List.pairwise_cons.mpr ⟨?_, hrest⟩
          intro other hother
          rw [heq]
          exact hfirst other hother
        · rename_i hlt hne
          refine List.pairwise_cons.mpr ⟨?_, ih hrest⟩
          intro other hother
          rcases mem_of_mem_insertEntry hother with rfl | hother
          · exact lt_of_le_of_ne (not_lt.mp hlt) (Ne.symm hne)
          · exact hfirst other hother

def put (m : OrderedMap K V) (key : K) (value : V) : OrderedMap K V :=
  ⟨insertEntry key value m.entries, ordered_insertEntry m.ordered⟩

def delete (m : OrderedMap K V) (key : K) : OrderedMap K V :=
  ⟨m.entries.filter fun entry => entry.1 ≠ key, m.ordered.filter _⟩

-- An iterator stands for the entries that are still ahead of it, here from the first key that is
-- not below the one that is looked for.
def seek (m : OrderedMap K V) (key : K) : List (K × V) := m.entries.dropWhile fun entry => entry.1 < key

theorem nodup_keys (m : OrderedMap K V) : (m.entries.map Prod.fst).Nodup :=
  List.pairwise_map.mpr (m.ordered.imp fun h => ne_of_lt h)

theorem eq_of_mem {other : K × V} (h : entry ∈ m.entries) (hother : other ∈ m.entries) (hkey : entry.1 = other.1) :
    entry = other :=
  List.inj_on_of_nodup_map m.nodup_keys h hother hkey

theorem get_eq_some : m.get key = some value ↔ (key, value) ∈ m.entries := by
  unfold get
  constructor
  · intro h
    obtain ⟨entry, hfind, rfl⟩ := Option.map_eq_some_iff.mp h
    obtain rfl : entry.1 = key := by simpa using List.find?_some hfind
    exact List.mem_of_find?_eq_some hfind
  · intro h
    have hsome : (m.entries.find? fun entry => entry.1 = key).isSome = true := by
      rw [List.find?_isSome]
      exact ⟨(key, value), h, by simp⟩
    obtain ⟨entry, hfind⟩ := Option.isSome_iff_exists.mp hsome
    have hkey : entry.1 = key := by simpa using List.find?_some hfind
    rw [hfind, eq_of_mem (List.mem_of_find?_eq_some hfind) h hkey]
    rfl

theorem get_empty (key : K) : (empty : OrderedMap K V).get key = none := rfl

theorem get_put (m : OrderedMap K V) (key : K) (value : V) (other : K) :
    (m.put key value).get other = if other = key then some value else m.get other := by
  obtain ⟨entries, hordered⟩ := m
  simp only [get, put]
  clear hordered
  induction entries with
  | nil =>
      by_cases hkey : other = key
      · simp [insertEntry, hkey]
      · simp [insertEntry, hkey, Ne.symm hkey]
  | cons first rest ih =>
      unfold insertEntry
      split
      · by_cases hkey : other = key
        · simp [hkey]
        · simp [hkey, Ne.symm hkey]
      · split
        · rename_i hfirst
          by_cases hkey : other = key
          · simp [hkey]
          · have hskip : ¬first.1 = other := fun h => hkey (h.symm.trans hfirst.symm)
            simp [hkey, Ne.symm hkey, hskip]
        · rename_i hfirst
          by_cases hother : first.1 = other
          · have hkey : other ≠ key := fun h => hfirst (h.symm.trans hother.symm)
            simp [hother, hkey]
          · rw [List.find?_cons_of_neg (by simpa using hother), List.find?_cons_of_neg (by simpa using hother)]
            exact ih

theorem get_delete (m : OrderedMap K V) (key other : K) :
    (m.delete key).get other = if other = key then none else m.get other := by
  unfold get delete
  rw [List.find?_filter]
  by_cases hkey : other = key
  · subst hkey
    rw [if_pos rfl]
    simp
  · rw [if_neg hkey]
    congr 2
    funext entry
    by_cases hentry : entry.1 = other
    · simp [hentry, hkey]
    · simp [hentry]

-- From the key on, as long as the keys satisfy p. If these stand together, they are all there are.
theorem takeWhile_seek (m : OrderedMap K V) (key : K) (p : K → Bool) (hstart : ∀ k, p k = true → ¬k < key)
    (hconvex : ∀ k k', ¬k < key → k < k' → p k' = true → p k = true) :
    (m.seek key).takeWhile (fun entry => p entry.1) = m.entries.filter fun entry => p entry.1 := by
  obtain ⟨entries, hordered⟩ := m
  simp only [seek]
  induction entries with
  | nil => rfl
  | cons first rest ih =>
      obtain ⟨hfirst, hrest⟩ := List.pairwise_cons.mp hordered
      by_cases hbelow : first.1 < key
      · have hnot : ¬p first.1 = true := fun h => hstart _ h hbelow
        rw [List.dropWhile_cons_of_pos (by simpa using hbelow), List.filter_cons, if_neg hnot]
        exact ih hrest
      · rw [List.dropWhile_cons_of_neg (by simpa using hbelow)]
        by_cases hp : p first.1 = true
        · rw [List.takeWhile_cons, List.filter_cons, if_pos hp, if_pos hp, ← ih hrest]
          -- nothing behind the first key is below the one that was looked for
          have hrestAbove : rest.dropWhile (fun entry => entry.1 < key) = rest := by
            cases rest with
            | nil => rfl
            | cons second others =>
                have hlt := (not_lt.mp hbelow).trans_lt (hfirst second List.mem_cons_self)
                exact List.dropWhile_cons_of_neg (by simpa using not_lt_of_gt hlt)
          rw [hrestAbove]
        · rw [List.takeWhile_cons, List.filter_cons, if_neg hp, if_neg hp]
          symm
          rw [List.filter_eq_nil_iff]
          intro other hother hpother
          exact hp (hconvex _ _ hbelow (hfirst other hother) hpother)

end Map

section Beginnings

variable {A : Type} [LinearOrder A]

theorem not_lt_of_begins {start key : List A} (h : start <+: key) : ¬key < start := by
  induction start generalizing key with
  | nil => exact List.not_lt_nil key
  | cons first rest ih =>
      obtain ⟨tail, rfl⟩ := h
      intro hlt
      rw [List.cons_append, List.cons_lt_cons_iff] at hlt
      rcases hlt with hlt | ⟨_, hlt⟩
      · exact lt_irrefl _ hlt
      · exact ih (List.prefix_append rest tail) hlt

-- In the order of words, those with a common beginning stand together.
theorem begins_of_between {start key later : List A} (hstart : ¬key < start) (hlt : key < later)
    (h : start <+: later) : start <+: key := by
  induction start generalizing key later with
  | nil => exact List.nil_prefix
  | cons first rest ih =>
      obtain ⟨tail, rfl⟩ := h
      cases key with
      | nil => exact absurd (List.nil_lt_cons first rest) hstart
      | cons head others =>
          rw [List.cons_append, List.cons_lt_cons_iff] at hlt
          rw [List.cons_lt_cons_iff] at hstart
          obtain ⟨hhead, hothers⟩ := not_or.mp hstart
          rcases hlt with hlt | ⟨rfl, hlt⟩
          · exact absurd hlt hhead
          · have hrest : ¬others < rest := fun h => hothers ⟨rfl, h⟩
            exact List.cons_prefix_cons.mpr ⟨rfl, ih hrest hlt (List.prefix_append rest tail)⟩

variable [DecidableEq A] {V : Type}

theorem takeWhile_seek_begins (m : OrderedMap (List A) V) (start : List A) :
    (m.seek start).takeWhile (fun entry => start.isPrefixOf entry.1) =
      m.entries.filter fun entry => start.isPrefixOf entry.1 := by
  refine m.takeWhile_seek start start.isPrefixOf ?_ ?_
  · intro key h
    exact not_lt_of_begins (List.isPrefixOf_iff_prefix.mp h)
  · intro key later hstart hlt h
    rw [List.isPrefixOf_iff_prefix] at h ⊢
    exact begins_of_between hstart hlt h

end Beginnings

end OrderedMap

end SwarmDB
