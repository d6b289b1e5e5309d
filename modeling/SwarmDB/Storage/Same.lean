import SwarmDB.Storage.Implementations

namespace SwarmDB

open scoped Rocksdb

inductive StorageCall
  | write (uuid key : Bytes) (w : Write)
  | read (uuid key : Bytes)
  | has (uuid key : Bytes)
  | getKeys (uuid : Bytes)
  | getSize (uuid : Bytes)

def StorageCall.uuid : StorageCall → Bytes
  | .write uuid _ _ => uuid
  | .read uuid _ => uuid
  | .has uuid _ => uuid
  | .getKeys uuid => uuid
  | .getSize uuid => uuid

inductive StorageAnswer
  | result (result : StorageResult)
  | value (value : Option Bytes)
  | found (found : Bool)
  | keys (keys : Finset Bytes)
  | size (keys size : Nat)
  deriving DecidableEq

-- What an implementation answers to a call, and the store it is left with.
def KvStore.call (s : KvStore) : StorageCall → StorageAnswer × KvStore
  | .write uuid key w => (.result (KvStore.write uuid key w s).1, (KvStore.write uuid key w s).2)
  | .read uuid key => (.value (KvStore.read uuid key s), s)
  | .has uuid key => (.found (KvStore.has uuid key s), s)
  | .getKeys uuid => (.keys (KvStore.getKeys uuid s), s)
  | .getSize uuid => (.size (KvStore.getSize uuid s).1 (KvStore.getSize uuid s).2, s)

def Rocksdb.call (db : Rocksdb) : StorageCall → StorageAnswer × Rocksdb
  | .write uuid key w => (.result (Rocksdb.write uuid key w db).1, (Rocksdb.write uuid key w db).2)
  | .read uuid key => (.value (Rocksdb.read uuid key db), db)
  | .has uuid key => (.found (Rocksdb.has uuid key db), db)
  | .getKeys uuid => (.keys (Rocksdb.getKeys uuid db).toFinset, db)
  | .getSize uuid => (.size (Rocksdb.getSize uuid db).1 (Rocksdb.getSize uuid db).2, db)

def KvStore.answers : KvStore → List StorageCall → List StorageAnswer
  | _, [] => []
  | s, call :: calls => (s.call call).1 :: answers (s.call call).2 calls

def Rocksdb.answers : Rocksdb → List StorageCall → List StorageAnswer
  | _, [] => []
  | db, call :: calls => (db.call call).1 :: answers (db.call call).2 calls

-- A place that has no value, while a value at another place has the same key in RocksDB.
def Hidden (s : KvStore) (uuid key : Bytes) : Prop :=
  KvStore.read uuid key s = none ∧
    ∃ other k, (KvStore.read other k s).isSome = true ∧ other ++ k = uuid ++ key

-- Whether a write gets as far as to look for a value.
def Write.looks (key : Bytes) : Write → Prop
  | create value => value.length ≤ maxValueSize ∧ key.length ≤ maxKeySize
  | update value => value.length ≤ maxValueSize
  | remove => True

-- Whether a call comes to a hidden place.
def Clashes (s : KvStore) : StorageCall → Prop
  | .write uuid key w => w.looks key ∧ Hidden s uuid key
  | .read uuid key => Hidden s uuid key
  | .has uuid key => Hidden s uuid key
  | .getKeys uuid => ∃ key, Hidden s uuid key
  | .getSize uuid => ∃ key, Hidden s uuid key

-- No call does, in the states the calls before it lead to.
def ClashFree : KvStore → List StorageCall → Prop
  | _, [] => True
  | s, call :: calls => ¬Clashes s call ∧ ClashFree (s.call call).2 calls

-- The two stores hold the same values, and no two of them at one key of RocksDB.
structure Agrees (s : KvStore) (db : Rocksdb) : Prop where
  kept : ∀ {uuid key value}, KvStore.read uuid key s = some value → db.get (uuid ++ key) = some value
  found : ∀ {flat value}, db.get flat = some value → ∃ uuid key, KvStore.read uuid key s = some value ∧
    uuid ++ key = flat
  apart : ∀ {uuid key other k}, (KvStore.read uuid key s).isSome = true → (KvStore.read other k s).isSome = true →
    other ++ k = uuid ++ key → (other, k) = (uuid, key)

variable {s : KvStore} {db : Rocksdb} {uuid key : Bytes}

theorem agrees_empty : Agrees ∅ OrderedMap.empty where
  kept h := by simp [KvStore.read] at h
  found h := by simp [OrderedMap.get_empty] at h
  apart h := by simp [KvStore.read] at h

theorem Agrees.read_eq (h : Agrees s db) (hhidden : ¬Hidden s uuid key) :
    KvStore.read uuid key s = Rocksdb.read uuid key db := by
  cases hread : KvStore.read uuid key s with
  | some value => exact (h.kept hread).symm
  | none =>
      symm
      rw [Option.eq_none_iff_forall_ne_some]
      intro value hvalue
      obtain ⟨other, k, hother, hflat⟩ := h.found hvalue
      exact hhidden ⟨hread, other, k, by rw [hother]; rfl, hflat⟩

theorem Agrees.exists_of_hidden (h : Agrees s db) (hhidden : Hidden s uuid key) :
    ∃ value, Rocksdb.read uuid key db = some value := by
  obtain ⟨_, other, k, hother, hflat⟩ := hhidden
  obtain ⟨value, hvalue⟩ := Option.isSome_iff_exists.mp hother
  refine ⟨value, ?_⟩
  have hkept := h.kept hvalue
  rwa [hflat] at hkept

theorem Agrees.read_eq_iff (h : Agrees s db) :
    KvStore.read uuid key s = Rocksdb.read uuid key db ↔ ¬Hidden s uuid key := by
  refine ⟨?_, h.read_eq⟩
  intro heq hhidden
  obtain ⟨value, hvalue⟩ := h.exists_of_hidden hhidden
  rw [hhidden.1, hvalue] at heq
  cases heq

theorem Agrees.isSome_eq_iff (h : Agrees s db) :
    (KvStore.read uuid key s).isSome = (Rocksdb.read uuid key db).isSome ↔ ¬Hidden s uuid key := by
  refine ⟨?_, fun hhidden => congrArg Option.isSome (h.read_eq hhidden)⟩
  intro heq hhidden
  obtain ⟨value, hvalue⟩ := h.exists_of_hidden hhidden
  rw [hhidden.1, hvalue] at heq
  cases heq

theorem Write.perform_of_not_looks {w : Write} (hlooks : ¬w.looks key) (held other : Option Bytes) :
    (w.perform key held).1 = (w.perform key other).1 ∧ (w.perform key held).2 = held := by
  cases w with
  | create value =>
      simp only [looks, not_and_or, Nat.not_le] at hlooks
      simp only [perform]
      by_cases hvalue : maxValueSize < value.length
      · simp [hvalue]
      · have hkey : maxKeySize < key.length := hlooks.resolve_left hvalue
        simp [hvalue, hkey]
  | update value =>
      simp only [looks, Nat.not_le] at hlooks
      simp [perform, hlooks]
  | remove => exact absurd trivial hlooks

theorem Write.perform_none_ne {w : Write} (hlooks : w.looks key) (value : Bytes) :
    (w.perform key none).1 ≠ (w.perform key (some value)).1 := by
  cases w with
  | create new =>
      obtain ⟨hvalue, hkey⟩ := hlooks
      simp [perform, Nat.not_lt.mpr hvalue, Nat.not_lt.mpr hkey]
  | update new =>
      have hvalue : new.length ≤ maxValueSize := hlooks
      simp [perform, Nat.not_lt.mpr hvalue]
  | remove => simp [perform]

-- A database lists the same keys in both stores, when none of its places is hidden.
theorem Agrees.getKeys_eq_iff (h : Agrees s db) :
    KvStore.getKeys uuid s = (Rocksdb.getKeys uuid db).toFinset ↔ ¬∃ key, Hidden s uuid key := by
  constructor
  · rintro heq ⟨key, hhidden⟩
    obtain ⟨value, hvalue⟩ := h.exists_of_hidden hhidden
    have hmem : key ∈ (Rocksdb.getKeys uuid db).toFinset := by
      rw [List.mem_toFinset, Rocksdb.mem_getKeys, hvalue]
      rfl
    rw [← heq, KvStore.mem_getKeys, hhidden.1] at hmem
    cases hmem
  · intro hhidden
    ext key
    have hread := h.read_eq fun hkey => hhidden ⟨key, hkey⟩
    rw [KvStore.mem_getKeys, List.mem_toFinset, Rocksdb.mem_getKeys, hread]

theorem Agrees.getKeys_subset (h : Agrees s db) : KvStore.getKeys uuid s ⊆ (Rocksdb.getKeys uuid db).toFinset := by
  intro key hkey
  obtain ⟨value, hvalue⟩ := Option.isSome_iff_exists.mp ((KvStore.mem_getKeys uuid key s).mp hkey)
  rw [List.mem_toFinset, Rocksdb.mem_getKeys, Rocksdb.read, Rocksdb.generateKey, h.kept hvalue]
  rfl

theorem Agrees.getSize_eq_iff (h : Agrees s db) :
    KvStore.getSize uuid s = Rocksdb.getSize uuid db ↔ ¬∃ key, Hidden s uuid key := by
  rw [KvStore.getSize_eq, Rocksdb.getSize_eq, ← h.getKeys_eq_iff]
  constructor
  · intro heq
    exact Finset.eq_of_subset_of_card_le h.getKeys_subset (Prod.ext_iff.mp heq).1.ge
  · intro hkeys
    have hhidden := h.getKeys_eq_iff.mp hkeys
    rw [← hkeys]
    refine congrArg _ (Finset.sum_congr rfl ?_)
    intro key _
    rw [h.read_eq fun hkey => hhidden ⟨key, hkey⟩]

-- A write is answered alike exactly when it does not come to a hidden place.
theorem Agrees.write_eq_iff (h : Agrees s db) (w : Write) :
    (KvStore.write uuid key w s).1 = (Rocksdb.write uuid key w db).1 ↔ ¬(w.looks key ∧ Hidden s uuid key) := by
  rw [(KvStore.write_spec uuid key w s).1, (Rocksdb.write_spec uuid key w db).1]
  constructor
  · rintro heq ⟨hlooks, hhidden⟩
    obtain ⟨value, hvalue⟩ := h.exists_of_hidden hhidden
    rw [hhidden.1, hvalue] at heq
    exact Write.perform_none_ne hlooks value heq
  · intro hclash
    by_cases hlooks : w.looks key
    · rw [h.read_eq fun hhidden => hclash ⟨hlooks, hhidden⟩]
    · exact (Write.perform_of_not_looks hlooks _ _).1

-- Writing one value, or none, to a place that is not hidden and to its key.
theorem Agrees.set {s' : KvStore} {db' : Rocksdb} {held : Option Bytes} (h : Agrees s db)
    (hhidden : ¬Hidden s uuid key)
    (hread : ∀ other k, KvStore.read other k s' = if (other, k) = (uuid, key) then held else KvStore.read other k s)
    (hget : ∀ flat, db'.get flat = if flat = uuid ++ key then held else db.get flat) : Agrees s' db' := by
  have hplace : ∀ {other k}, (KvStore.read other k s).isSome = true → other ++ k = uuid ++ key →
      (other, k) = (uuid, key) := by
    intro other k hother hflat
    cases hheld : KvStore.read uuid key s with
    | none => exact absurd ⟨hheld, other, k, hother, hflat⟩ hhidden
    | some value => exact h.apart (by rw [hheld]; rfl) hother hflat
  constructor
  case kept =>
    intro other k value hvalue
    rw [hread] at hvalue
    rw [hget]
    split at hvalue
    case isTrue hsame =>
      obtain ⟨rfl, rfl⟩ := Prod.mk.inj hsame
      rw [if_pos rfl, hvalue]
    case isFalse hother =>
      rw [if_neg fun hflat => hother (hplace (by rw [hvalue]; rfl) hflat)]
      exact h.kept hvalue
  case found =>
    intro flat value hvalue
    rw [hget] at hvalue
    split at hvalue
    case isTrue hsame => exact ⟨uuid, key, by rw [hread, if_pos rfl, hvalue], hsame.symm⟩
    case isFalse hother =>
      obtain ⟨other, k, hk, rfl⟩ := h.found hvalue
      refine ⟨other, k, ?_, rfl⟩
      rw [hread, if_neg, hk]
      intro hsame
      obtain ⟨rfl, rfl⟩ := Prod.mk.inj hsame
      exact hother rfl
  case apart =>
    intro first k second k' hfirst hsecond hflat
    rw [hread] at hfirst hsecond
    split at hfirst
    case isTrue hsame =>
      obtain ⟨rfl, rfl⟩ := Prod.mk.inj hsame
      split at hsecond
      case isTrue hsame' => exact hsame'
      case isFalse => exact hplace hsecond hflat
    case isFalse hother =>
      split at hsecond
      case isTrue hsame' =>
        obtain ⟨rfl, rfl⟩ := Prod.mk.inj hsame'
        exact (hplace hfirst hflat.symm).symm
      case isFalse => exact h.apart hfirst hsecond hflat

-- And then the two stores go on agreeing.
theorem Agrees.write (h : Agrees s db) {w : Write} (hclash : ¬(w.looks key ∧ Hidden s uuid key)) :
    Agrees (KvStore.write uuid key w s).2 (Rocksdb.write uuid key w db).2 := by
  obtain ⟨-, hread⟩ := KvStore.write_spec uuid key w s
  obtain ⟨-, hget⟩ := Rocksdb.write_spec uuid key w db
  by_cases hlooks : w.looks key
  · have hhidden : ¬Hidden s uuid key := fun hhidden => hclash ⟨hlooks, hhidden⟩
    rw [h.read_eq hhidden] at hread
    exact h.set hhidden hread hget
  · have hread' : ∀ other k, KvStore.read other k (KvStore.write uuid key w s).2 = KvStore.read other k s := by
      intro other k
      rw [hread, (Write.perform_of_not_looks hlooks _ none).2]
      exact (KvStore.read_same uuid key s other k).symm
    have hget' : ∀ flat, (Rocksdb.write uuid key w db).2.get flat = db.get flat := by
      intro flat
      rw [hget, (Write.perform_of_not_looks hlooks _ none).2]
      exact (eq_ite_at db.get (uuid ++ key) flat).symm
    constructor
    case kept =>
      intro other k value hvalue
      rw [hread'] at hvalue
      rw [hget']
      exact h.kept hvalue
    case found =>
      intro flat value hvalue
      rw [hget'] at hvalue
      obtain ⟨other, k, hk, hflat⟩ := h.found hvalue
      exact ⟨other, k, by rw [hread', hk], hflat⟩
    case apart =>
      intro first k second k' hfirst hsecond hflat
      rw [hread'] at hfirst hsecond
      exact h.apart hfirst hsecond hflat

-- One call: the answers are the same exactly when it does not clash, and then the stores agree again.
theorem Agrees.call (h : Agrees s db) (call : StorageCall) :
    ((s.call call).1 = (db.call call).1 ↔ ¬Clashes s call) ∧
      (¬Clashes s call → Agrees (s.call call).2 (db.call call).2) := by
  cases call with
  | write uuid key w =>
      refine ⟨?_, h.write⟩
      rw [KvStore.call, Rocksdb.call, StorageAnswer.result.injEq]
      exact h.write_eq_iff w
  | read uuid key =>
      refine ⟨?_, fun _ => h⟩
      rw [KvStore.call, Rocksdb.call, StorageAnswer.value.injEq]
      exact h.read_eq_iff
  | has uuid key =>
      refine ⟨?_, fun _ => h⟩
      rw [KvStore.call, Rocksdb.call, StorageAnswer.found.injEq, KvStore.has_eq, Rocksdb.has_eq]
      exact h.isSome_eq_iff
  | getKeys uuid =>
      refine ⟨?_, fun _ => h⟩
      rw [KvStore.call, Rocksdb.call, StorageAnswer.keys.injEq]
      exact h.getKeys_eq_iff
  | getSize uuid =>
      refine ⟨?_, fun _ => h⟩
      rw [KvStore.call, Rocksdb.call, StorageAnswer.size.injEq, ← Prod.ext_iff]
      exact h.getSize_eq_iff

theorem Agrees.answers_eq_iff (h : Agrees s db) (calls : List StorageCall) :
    s.answers calls = db.answers calls ↔ ClashFree s calls := by
  induction calls generalizing s db with
  | nil => exact iff_of_true rfl trivial
  | cons call calls ih =>
      obtain ⟨hanswer, hagrees⟩ := h.call call
      rw [KvStore.answers, Rocksdb.answers, ClashFree, List.cons.injEq, hanswer]
      exact and_congr_right fun hclash => ih (hagrees hclash)

-- rocksdb_storage and mem_storage give the same answers exactly to the calls that come to no hidden place.
theorem answers_mem_eq_rocksdb_iff (calls : List StorageCall) :
    KvStore.answers ∅ calls = Rocksdb.answers OrderedMap.empty calls ↔ ClashFree ∅ calls :=
  agrees_empty.answers_eq_iff calls

-- Database "a" has a value for "bc". RocksDB takes it for the value of "c" in database "ab".
theorem answers_mem_ne_rocksdb : ¬∀ calls : List StorageCall,
    KvStore.answers ∅ calls = Rocksdb.answers OrderedMap.empty calls := by
  intro hsame
  have hcalls := hsame [.write [97] [98, 99] (.create [1]), .read [97, 98] [99]]
  revert hcalls
  decide +kernel

-- Of two uuids whose places have one key in RocksDB, one begins the other.
theorem hidden_apart {uuids : Set Bytes}
    (hapart : ∀ first ∈ uuids, ∀ second ∈ uuids, first <+: second → first = second)
    (hused : ∀ other k, (KvStore.read other k s).isSome = true → other ∈ uuids) (huuid : uuid ∈ uuids) :
    ¬Hidden s uuid key := by
  rintro ⟨hnone, other, k, hother, hflat⟩
  have hmem := hused other k hother
  have hsame : other = uuid := by
    rcases List.append_eq_append_iff.mp hflat with ⟨rest, hrest, _⟩ | ⟨rest, hrest, _⟩
    · exact hapart other hmem uuid huuid ⟨rest, hrest.symm⟩
    · exact (hapart uuid huuid other hmem ⟨rest, hrest.symm⟩).symm
  subst hsame
  obtain rfl : k = key := List.append_cancel_left hflat
  rw [hnone] at hother
  cases hother

-- As long as no database's uuid begins another's, nothing clashes.
theorem clashFree_of_apart {uuids : Set Bytes}
    (hapart : ∀ first ∈ uuids, ∀ second ∈ uuids, first <+: second → first = second)
    (calls : List StorageCall) (hcalls : ∀ call ∈ calls, call.uuid ∈ uuids)
    (hused : ∀ other k, (KvStore.read other k s).isSome = true → other ∈ uuids) : ClashFree s calls := by
  induction calls generalizing s with
  | nil => exact trivial
  | cons call calls ih =>
      have huuid : call.uuid ∈ uuids := hcalls call List.mem_cons_self
      have hhidden : ∀ key, ¬Hidden s call.uuid key := fun _ => hidden_apart hapart hused huuid
      refine ⟨?_, ih (fun other hother => hcalls other (List.mem_cons_of_mem _ hother)) ?_⟩
      · cases call with
        | write uuid key w => exact fun hclash => hhidden key hclash.2
        | read uuid key => exact hhidden key
        | has uuid key => exact hhidden key
        | getKeys uuid => exact fun ⟨key, hclash⟩ => hhidden key hclash
        | getSize uuid => exact fun ⟨key, hclash⟩ => hhidden key hclash
      · cases call with
        | write uuid key w =>
            intro other k hsome
            rw [KvStore.call, (KvStore.write_spec uuid key w s).2 other k] at hsome
            split at hsome
            case isTrue hsame =>
              obtain ⟨rfl, rfl⟩ := Prod.mk.inj hsame
              exact huuid
            case isFalse => exact hused other k hsome
        | read | has | getKeys | getSize => exact hused

end SwarmDB
