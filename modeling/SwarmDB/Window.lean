import Mathlib.Data.Finset.Card
import Mathlib.Data.Finset.Dedup
import SwarmDB.OrderedMap

namespace SwarmDB

section Shed

variable {α : Type} {n : Nat} {l : List α} {x : α}

-- Dropping the first element until no more than n are left.
def shed (n : Nat) : List α → List α
  | [] => []
  | x :: rest => if n < (x :: rest).length then shed n rest else x :: rest

theorem shed_cons_of_lt (h : n < l.length + 1) : shed n (x :: l) = shed n l := by
  rw [shed, if_pos (by simpa using h)]

theorem shed_of_le (h : l.length ≤ n) : shed n l = l := by
  cases l with
  | nil => rfl
  | cons x rest => rw [shed, if_neg (by omega)]

theorem shed_eq_drop (n : Nat) (l : List α) : shed n l = l.drop (l.length - n) := by
  induction l with
  | nil => simp [shed]
  | cons x rest ih =>
      by_cases h : n < rest.length + 1
      · have hcount : (x :: rest).length - n = (rest.length - n) + 1 := by
          rw [List.length_cons]
          omega
        rw [shed_cons_of_lt h, ih, hcount, List.drop_succ_cons]
      · have hcount : (x :: rest).length - n = 0 := by
          rw [List.length_cons]
          omega
        rw [shed_of_le (by rw [List.length_cons]; omega), hcount, List.drop_zero]

theorem shed_sublist (n : Nat) (l : List α) : (shed n l).Sublist l := by
  rw [shed_eq_drop]
  exact List.drop_sublist _ _

theorem shed_length (n : Nat) (l : List α) : (shed n l).length = min n l.length := by
  rw [shed_eq_drop, List.length_drop]
  omega

theorem shed_shed (n : Nat) (l : List α) : shed n (shed n l) = shed n l := by
  apply shed_of_le
  rw [shed_length]
  omega

-- What has been dropped before would be dropped again.
theorem shed_append (n : Nat) (l more : List α) : shed n (shed n l ++ more) = shed n (l ++ more) := by
  induction l with
  | nil => rfl
  | cons first rest ih =>
      by_cases h : n < rest.length + 1
      · have hlonger : n < (rest ++ more).length + 1 := by
          rw [List.length_append]
          omega
        rw [shed_cons_of_lt h, List.cons_append, shed_cons_of_lt hlonger, ih]
      · rw [shed_of_le (l := first :: rest) (by rw [List.length_cons]; omega)]

end Shed

namespace OrderedMap

variable {K V : Type} [LinearOrder K] {m : OrderedMap K V} {n : Nat} {key : K} {value : V}
  {entries : List (K × V)} {reports : List (K × V)}

def trim (n : Nat) (m : OrderedMap K V) : OrderedMap K V :=
  ⟨shed n m.entries, m.ordered.sublist (shed_sublist n m.entries)⟩

section Insertion

theorem insertEntry_below (h : ∀ entry ∈ entries, key < entry.1) :
    insertEntry key value entries = (key, value) :: entries := by
  cases entries with
  | nil => rfl
  | cons first rest =>
      unfold insertEntry
      rw [if_pos (h first List.mem_cons_self)]

theorem insertEntry_length (h : ∀ entry ∈ entries, entry.1 ≠ key) :
    (insertEntry key value entries).length = entries.length + 1 := by
  induction entries with
  | nil => rfl
  | cons first rest ih =>
      have hfirst : ¬key = first.1 := (h first List.mem_cons_self).symm
      unfold insertEntry
      split
      · rfl
      · rw [List.length_cons, ih fun entry hentry => h entry (List.mem_cons_of_mem _ hentry), List.length_cons]

-- A key below all that are left is the first to go.
theorem shed_insertEntry_below (hfull : n ≤ entries.length) (h : ∀ entry ∈ entries, key < entry.1) :
    shed n (insertEntry key value (shed n entries)) = shed n entries := by
  have hbelow : ∀ entry ∈ shed n entries, key < entry.1 :=
    fun entry hentry => h entry ((shed_sublist n entries).mem hentry)
  have hlength := shed_length n entries
  rw [insertEntry_below hbelow, shed_cons_of_lt (by omega), shed_shed]

-- A new key finds its place as if nothing had been forgotten.
theorem shed_insertEntry_new (hordered : entries.Pairwise fun first second => first.1 < second.1)
    (hnew : ∀ entry ∈ entries, entry.1 ≠ key) :
    shed n (insertEntry key value (shed n entries)) = shed n (insertEntry key value entries) := by
  induction entries with
  | nil => rfl
  | cons first rest ih =>
      obtain ⟨hfirst, hrest⟩ := List.pairwise_cons.mp hordered
      have hnew' : ∀ entry ∈ rest, entry.1 ≠ key := fun entry hentry => hnew entry (List.mem_cons_of_mem _ hentry)
      by_cases hlength : n < rest.length + 1
      · rw [shed_cons_of_lt hlength]
        by_cases hlt : key < first.1
        · have hbelow : ∀ entry ∈ rest, key < entry.1 := fun entry hentry => hlt.trans (hfirst entry hentry)
          rw [shed_insertEntry_below (by omega) hbelow, insertEntry, if_pos hlt,
            shed_cons_of_lt (by rw [List.length_cons]; omega), shed_cons_of_lt hlength]
        · have hgrown : (insertEntry key value rest).length = rest.length + 1 := insertEntry_length hnew'
          rw [ih hrest hnew', insertEntry, if_neg hlt, if_neg (hnew first List.mem_cons_self).symm,
            shed_cons_of_lt (by omega)]
      · rw [shed_of_le (l := first :: rest) (by rw [List.length_cons]; omega)]

-- A key that has been forgotten is forgotten at once when it comes back.
theorem shed_insertEntry_forgotten (hordered : entries.Pairwise fun first second => first.1 < second.1)
    (hknown : ∃ entry ∈ entries, entry.1 = key) (hforgotten : ∀ entry ∈ shed n entries, entry.1 ≠ key) :
    shed n (insertEntry key value (shed n entries)) = shed n entries := by
  induction entries with
  | nil =>
      obtain ⟨entry, hentry, _⟩ := hknown
      cases hentry
  | cons first rest ih =>
      obtain ⟨hfirst, hrest⟩ := List.pairwise_cons.mp hordered
      obtain ⟨entry, hentry, hkey⟩ := hknown
      by_cases hlength : n < rest.length + 1
      · rw [shed_cons_of_lt hlength] at hforgotten ⊢
        rcases List.mem_cons.mp hentry with rfl | hentry
        · refine shed_insertEntry_below (by omega) ?_
          rw [← hkey]
          exact hfirst
        · exact ih hrest ⟨entry, hentry, hkey⟩ hforgotten
      · rw [shed_of_le (by rw [List.length_cons]; omega)] at hforgotten
        exact absurd hkey (hforgotten entry hentry)

end Insertion

section Reports

-- The first report of a key counts.
def note (key : K) (value : V) (m : OrderedMap K V) : OrderedMap K V :=
  if (m.get key).isNone then m.put key value else m

-- All that was reported, the earliest first, if nothing were ever forgotten.
def noted (reports : List (K × V)) : OrderedMap K V :=
  reports.foldl (fun m report => m.note report.1 report.2) empty

-- With room for n keys.
def record (n : Nat) (key : K) (value : V) (m : OrderedMap K V) : OrderedMap K V :=
  if (m.get key).isNone then (m.put key value).trim n else m

theorem eq_of_entries {m m' : OrderedMap K V} (h : m.entries = m'.entries) : m = m' := by
  cases m
  cases h
  rfl

theorem get_eq_none : m.get key = none ↔ ∀ entry ∈ m.entries, entry.1 ≠ key := by
  rw [get, Option.map_eq_none_iff, List.find?_eq_none]
  simp

theorem get_note (m : OrderedMap K V) (key : K) (value : V) (other : K) :
    (m.note key value).get other = (m.get other).or (if other = key then some value else none) := by
  unfold note
  cases hget : m.get key with
  | none =>
      simp only [Option.isNone_none, if_true, get_put]
      split
      · rename_i hother
        rw [hother, hget]
        rfl
      · simp
  | some held =>
      simp only [Option.isNone_some, Bool.false_eq_true, if_false]
      split
      · rename_i hother
        rw [hother, hget]
        rfl
      · simp

theorem noted_append (reports : List (K × V)) (report : K × V) :
    noted (reports ++ [report]) = (noted reports).note report.1 report.2 := by
  simp [noted]

theorem get_noted (reports : List (K × V)) (key : K) : (noted reports).get key = reports.lookup key := by
  induction reports using List.reverseRecOn with
  | nil => rfl
  | append_singleton rest report ih =>
      rw [noted_append, get_note, ih, List.lookup_append]
      congr 1
      obtain ⟨reportKey, value⟩ := report
      by_cases hkey : key = reportKey
      · simp [hkey]
      · have hne : (key == reportKey) = false := by simpa using hkey
        simp [List.lookup_cons, hkey, hne]

-- Recording keeps pace with what would be known if nothing were forgotten.
theorem record_entries (h : m.entries = shed n (noted reports).entries) (key : K) (value : V) :
    (m.record n key value).entries = shed n (noted (reports ++ [(key, value)])).entries := by
  have hordered := (noted reports).ordered
  rw [noted_append]
  unfold record note
  cases hget : m.get key with
  | some held =>
      -- what is in the window has been reported
      have hmem : (key, held) ∈ (noted reports).entries := by
        apply (shed_sublist n _).mem
        rw [← h]
        exact get_eq_some.mp hget
      rw [get_eq_some.mpr hmem]
      exact h
  | none =>
      have hforgotten : ∀ entry ∈ shed n (noted reports).entries, entry.1 ≠ key := by
        rw [← h]
        exact get_eq_none.mp hget
      show shed n (insertEntry key value m.entries) = _
      rw [h]
      cases hnoted : (noted reports).get key with
      | none => exact shed_insertEntry_new hordered (get_eq_none.mp hnoted)
      | some held => exact shed_insertEntry_forgotten hordered ⟨_, get_eq_some.mp hnoted, rfl⟩ hforgotten

end Reports

section Largest

def keys (m : OrderedMap K V) : Finset K := (m.entries.map Prod.fst).toFinset

def reportedKeys (reports : List (K × V)) : Finset K := (reports.map Prod.fst).toFinset

-- Fewer than n of the keys are above this one of them.
def Largest (n : Nat) (keys : Finset K) (key : K) : Prop :=
  key ∈ keys ∧ (keys.filter (key < ·)).card < n

-- The map knows the n largest of the keys that were reported, each with the value of its first report.
structure Window (n : Nat) (reports : List (K × V)) (m : OrderedMap K V) : Prop where
  largest : ∀ key, (m.get key).isSome = true ↔ Largest n (reportedKeys reports) key
  first : ∀ key value, m.get key = some value → reports.lookup key = some value

theorem mem_keys : key ∈ m.keys ↔ (m.get key).isSome = true := by
  rw [keys, List.mem_toFinset, Option.isSome_iff_exists]
  simp [get_eq_some]

theorem card_keys (m : OrderedMap K V) : m.keys.card = m.entries.length := by
  rw [keys, List.toFinset_card_of_nodup m.nodup_keys, List.length_map]

theorem lookup_isSome : (reports.lookup key).isSome = true ↔ key ∈ reportedKeys reports := by
  rw [reportedKeys, List.mem_toFinset]
  induction reports with
  | nil => simp
  | cons report rest ih =>
      obtain ⟨reportKey, value⟩ := report
      by_cases hkey : key = reportKey
      · simp [hkey]
      · have hne : (key == reportKey) = false := by simpa using hkey
        rw [List.lookup_cons, hne, List.map_cons, List.mem_cons, ih]
        simp [hkey]

theorem keys_noted (reports : List (K × V)) : (noted reports).keys = reportedKeys reports := by
  ext key
  rw [mem_keys, get_noted, lookup_isSome]

-- Dropping the smallest keys leaves those with few keys above them.
theorem mem_shed (hordered : entries.Pairwise fun first second => first.1 < second.1) {entry : K × V} :
    entry ∈ shed n entries ↔ entry ∈ entries ∧ entries.countP (fun other => entry.1 < other.1) < n := by
  induction entries with
  | nil => simp [shed]
  | cons first rest ih =>
      obtain ⟨hfirst, hrest⟩ := List.pairwise_cons.mp hordered
      have hself : entry = first → rest.countP (fun other => entry.1 < other.1) = rest.length := by
        rintro rfl
        exact List.countP_eq_length.mpr fun other hother => decide_eq_true (hfirst other hother)
      have hcount : entry = first ∨ entry ∈ rest →
          (first :: rest).countP (fun other => entry.1 < other.1) = rest.countP (fun other => entry.1 < other.1) := by
        intro hmem
        rw [List.countP_cons_of_neg]
        rcases hmem with rfl | hmem
        · simp
        · simpa using (hfirst entry hmem).le
      have hbound := List.countP_le_length (p := fun other => decide (entry.1 < other.1)) (l := rest)
      by_cases hlength : n < rest.length + 1
      · rw [shed_cons_of_lt hlength, ih hrest]
        constructor
        · rintro ⟨hmem, hlt⟩
          exact ⟨List.mem_cons_of_mem _ hmem, by rw [hcount (Or.inr hmem)]; exact hlt⟩
        · rintro ⟨hmem, hlt⟩
          rw [hcount (List.mem_cons.mp hmem)] at hlt
          rcases List.mem_cons.mp hmem with heq | hmem
          · have hall := hself heq
            omega
          · exact ⟨hmem, hlt⟩
      · rw [shed_of_le (by rw [List.length_cons]; omega)]
        constructor
        · intro hmem
          refine ⟨hmem, ?_⟩
          rw [hcount (List.mem_cons.mp hmem)]
          omega
        · exact And.left

theorem countP_above (m : OrderedMap K V) (key : K) :
    m.entries.countP (fun other => key < other.1) = (m.keys.filter (key < ·)).card := by
  have hset : m.keys.filter (key < ·) = ((m.entries.map Prod.fst).filter fun other => key < other).toFinset := by
    ext other
    simp [keys]
  rw [hset, List.toFinset_card_of_nodup (m.nodup_keys.filter _), List.filter_map, List.length_map,
    List.countP_eq_length_filter]
  rfl

theorem window_of_entries (h : m.entries = shed n (noted reports).entries) : Window n reports m := by
  have hmem : ∀ key value, m.get key = some value ↔
      (noted reports).get key = some value ∧ ((reportedKeys reports).filter (key < ·)).card < n := by
    intro key value
    rw [get_eq_some, h, mem_shed (noted reports).ordered, countP_above, keys_noted, ← get_eq_some]
  constructor
  · intro key
    rw [Option.isSome_iff_exists, Largest, ← lookup_isSome, Option.isSome_iff_exists]
    simp only [hmem, get_noted]
    exact exists_and_right
  · intro key value hget
    rw [← get_noted]
    exact ((hmem key value).mp hget).1

end Largest

end OrderedMap

end SwarmDB
