import Mathlib.Algebra.BigOperators.Group.Finset.Basic
import Mathlib.Data.Finmap
import SwarmDB.Bytes
import SwarmDB.PeerAddress

namespace SwarmDB

def maxKeySize : Nat := 4096

def maxValueSize : Nat := 256000

inductive StorageResult
  | ok
  | notFound
  | exists
  | notSaved
  | valueTooLarge
  | keyTooLarge
  deriving DecidableEq, Repr

def StorageResult.number : StorageResult → Nat
  | .ok => 0
  | .notFound => 1
  | .exists => 2
  | .notSaved => 3
  | .valueTooLarge => 4
  | .keyTooLarge => 5

-- What the three calls that write make of the value they find at a place, and what they return.
inductive Write
  | create (value : Bytes)
  | update (value : Bytes)
  | remove

def Write.perform (key : Bytes) : Write → Option Bytes → StorageResult × Option Bytes
  | create value, held =>
    if maxValueSize < value.length then (.valueTooLarge, held)
    else if maxKeySize < key.length then (.keyTooLarge, held)
    else
      match held with
      | some _ => (.exists, held)
      | none => (.ok, some value)
  | update value, held =>
    if maxValueSize < value.length then (.valueTooLarge, held)
    else
      match held with
      | some _ => (.ok, some value)
      | none => (.notFound, none)
  | remove, some _ => (.ok, none)
  | remove, none => (.notFound, none)

section Table

variable {P : Type} [DecidableEq P]

-- Such a call on a table with values at places of any kind.
def Write.apply (place : P) (key : Bytes) (w : Write) (s : Finmap fun _ : P => Bytes) :
    StorageResult × Finmap fun _ : P => Bytes :=
  match w with
  | create value =>
    if maxValueSize < value.length then (.valueTooLarge, s)
    else if maxKeySize < key.length then (.keyTooLarge, s)
    else if (s.lookup place).isSome then (.exists, s)
    else (.ok, s.insert place value)
  | update value =>
    if maxValueSize < value.length then (.valueTooLarge, s)
    else if (s.lookup place).isSome then (.ok, s.insert place value)
    else (.notFound, s)
  | remove => if (s.lookup place).isSome then (.ok, s.erase place) else (.notFound, s)

theorem eq_ite_at {A B : Type} [DecidableEq A] (f : A → B) (a other : A) :
    f other = if other = a then f a else f other := by
  split
  · rename_i hother
    rw [hother]
  · rfl

-- It looks at its place only, and changes nothing else.
theorem Write.apply_spec (place : P) (key : Bytes) (w : Write) (s : Finmap fun _ : P => Bytes) :
    (w.apply place key s).1 = (w.perform key (s.lookup place)).1 ∧
      ∀ other, (w.apply place key s).2.lookup other =
        if other = place then (w.perform key (s.lookup place)).2 else s.lookup other := by
  have hsame : ∀ other, s.lookup other = if other = place then s.lookup place else s.lookup other :=
    eq_ite_at s.lookup place
  have hinsert : ∀ value other, (s.insert place value).lookup other =
      if other = place then some value else s.lookup other := by
    intro value other
    split
    · rename_i hother
      rw [hother]
      exact Finmap.lookup_insert s
    · rename_i hother
      exact Finmap.lookup_insert_of_ne s hother
  have herase : ∀ other, (s.erase place).lookup other = if other = place then none else s.lookup other := by
    intro other
    split
    · rename_i hother
      rw [hother]
      exact Finmap.lookup_erase _ s
    · rename_i hother
      exact Finmap.lookup_erase_ne hother
  cases w with
  | create value =>
      simp only [apply, perform]
      split
      · exact ⟨rfl, hsame⟩
      · split
        · exact ⟨rfl, hsame⟩
        · cases hheld : s.lookup place with
          | none => exact ⟨rfl, hinsert value⟩
          | some held =>
              rw [hheld] at hsame
              exact ⟨rfl, hsame⟩
  | update value =>
      simp only [apply, perform]
      split
      · exact ⟨rfl, hsame⟩
      · cases hheld : s.lookup place with
        | none =>
            rw [hheld] at hsame
            exact ⟨rfl, hsame⟩
        | some held => exact ⟨rfl, hinsert value⟩
  | remove =>
      simp only [apply]
      cases hheld : s.lookup place with
      | none =>
          rw [hheld] at hsame
          exact ⟨rfl, hsame⟩
      | some held => exact ⟨rfl, herase⟩

end Table

-- Records under the uuid of their database and their key. To every call below, a database that has no
-- records left looks like one that was never written to.
abbrev MemStorage := Finmap fun _ : Uuid × Bytes => Bytes

namespace MemStorage

def create (uuid : Uuid) (key value : Bytes) (s : MemStorage) : StorageResult × MemStorage :=
  if maxValueSize < value.length then (.valueTooLarge, s)
  else if maxKeySize < key.length then (.keyTooLarge, s)
  else if (s.lookup (uuid, key)).isSome then (.exists, s)
  else (.ok, s.insert (uuid, key) value)

def read (uuid : Uuid) (key : Bytes) (s : MemStorage) : Option Bytes := s.lookup (uuid, key)

def update (uuid : Uuid) (key value : Bytes) (s : MemStorage) : StorageResult × MemStorage :=
  if maxValueSize < value.length then (.valueTooLarge, s)
  else if (s.lookup (uuid, key)).isSome then (.ok, s.insert (uuid, key) value)
  else (.notFound, s)

def remove (uuid : Uuid) (key : Bytes) (s : MemStorage) : StorageResult × MemStorage :=
  if (s.lookup (uuid, key)).isSome then (.ok, s.erase (uuid, key)) else (.notFound, s)

-- In no particular order.
def getKeys (uuid : Uuid) (s : MemStorage) : Finset Bytes :=
  (s.keys.filter fun place => place.1 = uuid).image Prod.snd

def has (uuid : Uuid) (key : Bytes) (s : MemStorage) : Bool := decide (key ∈ getKeys uuid s)

def getSize (uuid : Uuid) (s : MemStorage) : Nat × Nat :=
  ((getKeys uuid s).card, ∑ key ∈ getKeys uuid s, ((s.lookup (uuid, key)).getD []).length)

variable {uuid : Uuid} {key value : Bytes} {s : MemStorage}

theorem has_eq (uuid : Uuid) (key : Bytes) (s : MemStorage) : s.has uuid key = (s.lookup (uuid, key)).isSome := by
  rw [has, Bool.eq_iff_iff, decide_eq_true_iff, getKeys, Finset.mem_image]
  constructor
  · rintro ⟨⟨owner, other⟩, hmem, rfl⟩
    obtain ⟨hkeys, rfl⟩ := Finset.mem_filter.mp hmem
    exact Finmap.lookup_isSome.mpr (Finmap.mem_keys.mp hkeys)
  · intro hsome
    exact ⟨(uuid, key), Finset.mem_filter.mpr ⟨Finmap.mem_keys.mpr (Finmap.lookup_isSome.mp hsome), rfl⟩, rfl⟩

theorem create_ok (hvalue : value.length ≤ maxValueSize) (hkey : key.length ≤ maxKeySize)
    (hfree : s.lookup (uuid, key) = none) : create uuid key value s = (.ok, s.insert (uuid, key) value) := by
  rw [create, if_neg (Nat.not_lt.mpr hvalue), if_neg (Nat.not_lt.mpr hkey), hfree]
  rfl

-- Whatever a create did not do, it left the storage as it was.
theorem create_cases (uuid : Uuid) (key value : Bytes) (s : MemStorage) :
    (value.length ≤ maxValueSize ∧ s.lookup (uuid, key) = none ∧
        create uuid key value s = (.ok, s.insert (uuid, key) value)) ∨
      ∃ result, result ≠ .ok ∧ create uuid key value s = (result, s) := by
  unfold create
  split
  · exact Or.inr ⟨_, by decide, rfl⟩
  · rename_i hvalue
    split
    · exact Or.inr ⟨_, by decide, rfl⟩
    · split
      · exact Or.inr ⟨_, by decide, rfl⟩
      · rename_i hfree
        exact Or.inl ⟨Nat.not_lt.mp hvalue, by simpa using hfree, rfl⟩

theorem update_ok (hvalue : value.length ≤ maxValueSize) (hhas : (s.lookup (uuid, key)).isSome = true) :
    update uuid key value s = (.ok, s.insert (uuid, key) value) := by
  rw [update, if_neg (Nat.not_lt.mpr hvalue), if_pos hhas]

theorem remove_ok (hhas : (s.lookup (uuid, key)).isSome = true) :
    remove uuid key s = (.ok, s.erase (uuid, key)) := by
  rw [remove, if_pos hhas]

def write (uuid : Uuid) (key : Bytes) (w : Write) (s : MemStorage) : StorageResult × MemStorage :=
  match w with
  | .create value => create uuid key value s
  | .update value => update uuid key value s
  | .remove => remove uuid key s

theorem write_spec (s : MemStorage) (uuid : Uuid) (key : Bytes) (w : Write) :
    (s.write uuid key w).1 = (w.perform key (s.read uuid key)).1 ∧
      ∀ place, (s.write uuid key w).2.lookup place =
        if place = (uuid, key) then (w.perform key (s.read uuid key)).2 else s.lookup place := by
  have happly : s.write uuid key w = w.apply (uuid, key) key s := by
    cases w with
    | create | update | remove => rfl
  rw [happly]
  exact w.apply_spec (uuid, key) key s

end MemStorage

end SwarmDB
