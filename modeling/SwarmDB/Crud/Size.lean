import Mathlib.Algebra.GroupWithZero.Nat
import SwarmDB.Crud

namespace SwarmDB

namespace MemStorage

variable {uuid : Uuid} {writes : List (Uuid × Bytes × Write)} {s : MemStorage}

-- The content after these writes, the earliest first.
def after (writes : List (Uuid × Bytes × Write)) : MemStorage :=
  writes.foldl (fun s w => (s.write w.1 w.2.1 w.2.2).2) ∅

def keyCount (uuid : Uuid) (s : MemStorage) : Nat := (s.getKeys uuid).card

def valueBytes (uuid : Uuid) (s : MemStorage) : Nat :=
  ∑ key ∈ s.getKeys uuid, ((s.lookup (uuid, key)).getD []).length

-- The loop of get_size over the values of a database, with counters of size_t.
def countSize (values : List Bytes) : Nat × Nat :=
  values.foldl (fun size value => ((size.1 + 1) % 2 ^ 64, (size.2 + value.length) % 2 ^ 64)) (0, 0)

theorem countSize_eq (values : List Bytes) :
    countSize values = (values.length % 2 ^ 64, (values.map List.length).sum % 2 ^ 64) := by
  induction values using List.reverseRecOn with
  | nil => rfl
  | append_singleton rest value ih =>
      have hstep : countSize (rest ++ [value]) =
          (((countSize rest).1 + 1) % 2 ^ 64, ((countSize rest).2 + value.length) % 2 ^ 64) := by
        simp [countSize]
      rw [hstep, ih]
      simp [Nat.add_mod]

-- In whatever order the keys come.
theorem countSize_getSize {order : List Bytes} (hnodup : order.Nodup) (horder : order.toFinset = s.getKeys uuid) :
    countSize (order.map fun key => (s.lookup (uuid, key)).getD []) =
      ((s.getSize uuid).1 % 2 ^ 64, (s.getSize uuid).2 % 2 ^ 64) := by
  have hcard : order.length = (s.getKeys uuid).card := by
    rw [← horder, List.toFinset_card_of_nodup hnodup]
  have hsum : ((order.map fun key => (s.lookup (uuid, key)).getD []).map List.length).sum =
      ∑ key ∈ s.getKeys uuid, ((s.lookup (uuid, key)).getD []).length := by
    rw [← horder, List.sum_toFinset _ hnodup, List.map_map]
    rfl
  rw [countSize_eq, List.length_map, hcard, hsum]
  rfl

section Hoard

variable {value : Bytes} {n : Nat}

-- The same value under each number below n.
def hoard (value : Bytes) (n : Nat) : List (Uuid × Bytes × Write) :=
  (List.range n).map fun i => ("db", Bytes.decimal i, .create value)

theorem lookup_hoard (hvalue : value.length ≤ maxValueSize) (hn : n ≤ 10 ^ 4) (key : Bytes) :
    (after (hoard value n)).lookup ("db", key) =
      if ∃ i < n, key = Bytes.decimal i then some value else none := by
  induction n generalizing key with
  | zero => simp [hoard, after]
  | succ n ih =>
      have hstep : after (hoard value (n + 1)) =
          ((after (hoard value n)).write "db" (Bytes.decimal n) (.create value)).2 := by
        simp [hoard, after, List.range_succ]
      have hfree : (after (hoard value n)).read "db" (Bytes.decimal n) = none := by
        rw [read, ih (by omega), if_neg]
        rintro ⟨i, hi, heq⟩
        have hsame := Bytes.decimal_injective heq
        omega
      have hlength := Bytes.decimal_length_le (k := 4) (n := n) (by omega) (by omega)
      have hperform : Write.perform (Bytes.decimal n) (.create value) none =
          (.ok, some value) := by
        rw [Write.perform, if_neg (by omega), if_neg (by rw [maxKeySize]; omega)]
      rw [hstep, (write_spec _ _ _ _).2, hfree, hperform, ih (by omega)]
      by_cases hkey : key = Bytes.decimal n
      · rw [if_pos (by rw [hkey]), if_pos ⟨n, by omega, hkey⟩]
      · rw [if_neg (by simpa using hkey)]
        congr 1
        rw [eq_iff_iff]
        constructor
        · rintro ⟨i, hi, rfl⟩
          exact ⟨i, by omega, rfl⟩
        · rintro ⟨i, hi, rfl⟩
          refine ⟨i, ?_, rfl⟩
          have hne : i ≠ n := fun heq => hkey (by rw [heq])
          omega

theorem size_hoard (hvalue : value.length ≤ maxValueSize) (hn : n ≤ 10 ^ 4) :
    (after (hoard value n)).keyCount "db" = n ∧ (after (hoard value n)).valueBytes "db" = n * value.length := by
  have hkeys : (after (hoard value n)).getKeys "db" = (Finset.range n).image Bytes.decimal := by
    ext key
    have hhas := has_eq "db" key (after (hoard value n))
    rw [has, Bool.eq_iff_iff, decide_eq_true_iff, lookup_hoard hvalue hn] at hhas
    rw [hhas, Finset.mem_image]
    split
    · rename_i hmem
      obtain ⟨i, hi, rfl⟩ := hmem
      exact iff_of_true rfl ⟨i, Finset.mem_range.mpr hi, rfl⟩
    · rename_i hnone
      refine iff_of_false (by simp) ?_
      rintro ⟨i, hi, rfl⟩
      exact hnone ⟨i, Finset.mem_range.mp hi, rfl⟩
  have hcard : (after (hoard value n)).keyCount "db" = n := by
    rw [keyCount, hkeys, Finset.card_image_of_injective _ Bytes.decimal_injective, Finset.card_range]
  refine ⟨hcard, ?_⟩
  have hsum := Finset.sum_const_nat (s := (after (hoard value n)).getKeys "db") (m := value.length)
    (f := fun key => (((after (hoard value n)).lookup ("db", key)).getD []).length) (by
    intro key hkey
    rw [hkeys, Finset.mem_image] at hkey
    obtain ⟨i, hi, rfl⟩ := hkey
    rw [lookup_hoard hvalue hn, if_pos ⟨i, Finset.mem_range.mp hi, rfl⟩, Option.getD_some])
  rw [valueBytes, hsum, ← keyCount, hcard]

end Hoard

end MemStorage

-- The handler of raft_crud. It has a response to fill in, whether the client is there or not.
def RaftCrud.handleSize (request : DatabaseMsg) (response : DatabaseResponse) (s : MemStorage) : DatabaseResponse :=
  let size := s.getSize (Crud.dbUuid request)
  { response with body := .size (Crud.toInt32 size.2) (Crud.toInt32 size.1) }

namespace Crud

variable {request : DatabaseMsg} {session : Session} {s : MemStorage}

theorem toInt32_eq_iff (n : Nat) : toInt32 n = n ↔ n < 2 ^ 31 := by
  unfold toInt32
  rw [Int.bmod_def]
  split <;> omega

-- What the counters of size_t lose, the fields of the reply do not keep either.
theorem toInt32_mod (n : Nat) : toInt32 (n % 2 ^ 64) = toInt32 n := by
  unfold toInt32
  rw [Int.bmod_def, Int.bmod_def]
  have hmod : ((n % 2 ^ 64 : Nat) : Int) % (2 ^ 32 : Nat) = (n : Int) % (2 ^ 32 : Nat) := by omega
  rw [hmod]

-- The replies are the same whatever order the keys come in and however far the counters of the loop go.
theorem toInt32_countSize {uuid : Uuid} {order : List Bytes} (hnodup : order.Nodup)
    (horder : order.toFinset = s.getKeys uuid) :
    let size := MemStorage.countSize (order.map fun key => (s.lookup (uuid, key)).getD [])
    toInt32 size.1 = toInt32 (s.getSize uuid).1 ∧ toInt32 size.2 = toInt32 (s.getSize uuid).2 := by
  intro size
  have hsize : size = _ := MemStorage.countSize_getSize hnodup horder
  rw [hsize]
  exact ⟨toInt32_mod _, toInt32_mod _⟩

-- Both replies say how much there is.
structure SizeExact (request : DatabaseMsg) (session : Session) (s : MemStorage) : Prop where
  crud : handleSize request (some session) s =
    { storage := s
      sent := some (session, { header := headerOf request,
                               body := .size (s.valueBytes (dbUuid request)) (s.keyCount (dbUuid request)) }) }
  raftCrud : ∀ response : DatabaseResponse, RaftCrud.handleSize request response s =
    { response with body := .size (s.valueBytes (dbUuid request)) (s.keyCount (dbUuid request)) }

theorem sizeExact_iff (request : DatabaseMsg) (session : Session) (s : MemStorage) :
    SizeExact request session s ↔
      s.keyCount (dbUuid request) < 2 ^ 31 ∧ s.valueBytes (dbUuid request) < 2 ^ 31 := by
  have hsize : s.getSize (dbUuid request) = (s.keyCount (dbUuid request), s.valueBytes (dbUuid request)) := rfl
  rw [← toInt32_eq_iff, ← toInt32_eq_iff]
  constructor
  · intro h
    have hreply := h.raftCrud {}
    simp only [RaftCrud.handleSize, hsize, DatabaseResponse.mk.injEq, ResponseBody.size.injEq, true_and] at hreply
    exact ⟨hreply.2, hreply.1⟩
  · rintro ⟨hkeys, hbytes⟩
    constructor
    · simp only [handleSize, handleQuery, hsize, hkeys, hbytes]
      rfl
    · intro response
      simp only [RaftCrud.handleSize, hsize, hkeys, hbytes]

-- 8389 of the largest values are more bytes than the field can say.
theorem size_not_exact : ¬SizeExact { header := some { dbUuid := "db" }, command := .size } 0
    (MemStorage.after (MemStorage.hoard (List.replicate maxValueSize 0) 8389)) := by
  intro hexact
  obtain ⟨value, hvalue⟩ : ∃ value : Bytes, List.replicate maxValueSize 0 = value := ⟨_, rfl⟩
  have hlength : value.length = maxValueSize := by rw [← hvalue, List.length_replicate]
  rw [hvalue] at hexact
  have hbytes : MemStorage.valueBytes "db" (MemStorage.after (MemStorage.hoard value 8389)) < 2 ^ 31 :=
    ((sizeExact_iff _ _ _).mp hexact).2
  rw [(MemStorage.size_hoard hlength.le (by omega)).2, hlength, maxValueSize] at hbytes
  omega

end Crud

end SwarmDB
