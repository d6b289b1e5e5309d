import Mathlib.Algebra.GroupWithZero.Nat
import SwarmDB.OrderedMap
import SwarmDB.StorageBase

namespace SwarmDB

-- The kv_store of mem_storage: the databases under their uuids, each with its records.
abbrev KvStore := Finmap fun _ : Bytes => Finmap fun _ : Bytes => Bytes

namespace KvStore

def create (uuid key value : Bytes) (s : KvStore) : StorageResult × KvStore :=
  if maxValueSize < value.length then (.valueTooLarge, s)
  else if maxKeySize < key.length then (.keyTooLarge, s)
  else
    let innerDb := (s.lookup uuid).getD ∅
    if (innerDb.lookup key).isSome then (.exists, s) else (.ok, s.insert uuid (innerDb.insert key value))

def read (uuid key : Bytes) (s : KvStore) : Option Bytes :=
  match s.lookup uuid with
  | none => none
  | some innerDb => innerDb.lookup key

def update (uuid key value : Bytes) (s : KvStore) : StorageResult × KvStore :=
  if maxValueSize < value.length then (.valueTooLarge, s)
  else
    match s.lookup uuid with
    | none => (.notFound, s)
    | some innerDb =>
      if (innerDb.lookup key).isSome then (.ok, s.insert uuid (innerDb.insert key value)) else (.notFound, s)

def remove (uuid key : Bytes) (s : KvStore) : StorageResult × KvStore :=
  match s.lookup uuid with
  | none => (.notFound, s)
  | some innerDb =>
    if (innerDb.lookup key).isSome then (.ok, s.insert uuid (innerDb.erase key)) else (.notFound, s)

-- In no particular order.
def getKeys (uuid : Bytes) (s : KvStore) : Finset Bytes :=
  match s.lookup uuid with
  | none => ∅
  | some innerDb => innerDb.keys

def has (uuid key : Bytes) (s : KvStore) : Bool := decide (key ∈ getKeys uuid s)

def getSize (uuid : Bytes) (s : KvStore) : Nat × Nat :=
  match s.lookup uuid with
  | none => (0, 0)
  | some innerDb => (innerDb.keys.card, ∑ key ∈ innerDb.keys, ((innerDb.lookup key).getD []).length)

def write (uuid key : Bytes) : Write → KvStore → StorageResult × KvStore
  | .create value => create uuid key value
  | .update value => update uuid key value
  | .remove => remove uuid key

theorem read_insert (s : KvStore) (uuid : Bytes) (innerDb : Finmap fun _ : Bytes => Bytes) (other key : Bytes) :
    read other key (s.insert uuid innerDb) = if other = uuid then innerDb.lookup key else read other key s := by
  unfold read
  by_cases huuid : other = uuid
  · subst huuid
    rw [Finmap.lookup_insert, if_pos rfl]
  · rw [Finmap.lookup_insert_of_ne s huuid, if_neg huuid]

theorem lookup_innerDb (uuid key : Bytes) (s : KvStore) :
    ((s.lookup uuid).getD ∅).lookup key = read uuid key s := by
  unfold read
  cases s.lookup uuid with
  | none => exact Finmap.lookup_empty key
  | some innerDb => rfl

theorem read_put (uuid key value : Bytes) (s : KvStore) (other k : Bytes) :
    read other k (s.insert uuid (((s.lookup uuid).getD ∅).insert key value)) =
      if (other, k) = (uuid, key) then some value else read other k s := by
  rw [read_insert]
  by_cases huuid : other = uuid
  · subst huuid
    by_cases hkey : k = key
    · subst hkey
      simp [Finmap.lookup_insert]
    · rw [if_pos rfl, Finmap.lookup_insert_of_ne _ hkey, lookup_innerDb]
      simp [hkey]
  · simp [huuid]

theorem read_erase (uuid key : Bytes) (s : KvStore) (other k : Bytes) :
    read other k (s.insert uuid (((s.lookup uuid).getD ∅).erase key)) =
      if (other, k) = (uuid, key) then none else read other k s := by
  rw [read_insert]
  by_cases huuid : other = uuid
  · subst huuid
    by_cases hkey : k = key
    · subst hkey
      simp [Finmap.lookup_erase]
    · rw [if_pos rfl, Finmap.lookup_erase_ne hkey, lookup_innerDb]
      simp [hkey]
  · simp [huuid]

theorem read_same (uuid key : Bytes) (s : KvStore) (other k : Bytes) :
    read other k s = if (other, k) = (uuid, key) then read uuid key s else read other k s :=
  eq_ite_at (fun place : Bytes × Bytes => read place.1 place.2 s) (uuid, key) (other, k)

-- A call that writes looks at its place only, and changes nothing else.
theorem write_spec (uuid key : Bytes) (w : Write) (s : KvStore) :
    (write uuid key w s).1 = (w.perform key (read uuid key s)).1 ∧
      ∀ other k, read other k (write uuid key w s).2 =
        if (other, k) = (uuid, key) then (w.perform key (read uuid key s)).2 else read other k s := by
  cases w with
  | create value =>
      simp only [write, create, Write.perform, lookup_innerDb]
      split
      · exact ⟨rfl, read_same uuid key s⟩
      · split
        · exact ⟨rfl, read_same uuid key s⟩
        · have hsame := read_same uuid key s
          cases hheld : read uuid key s with
          | none => exact ⟨rfl, read_put uuid key value s⟩
          | some held =>
              rw [hheld] at hsame
              exact ⟨rfl, hsame⟩
  | update value =>
      simp only [write, update, Write.perform]
      split
      · exact ⟨rfl, read_same uuid key s⟩
      · have hsame := read_same uuid key s
        have hput := read_put uuid key value s
        cases hdb : s.lookup uuid with
        | none =>
            have hnone : read uuid key s = none := by simp [read, hdb]
            rw [hnone] at hsame ⊢
            exact ⟨rfl, hsame⟩
        | some innerDb =>
            have hread : read uuid key s = innerDb.lookup key := by simp [read, hdb]
            rw [hdb] at hput
            rw [hread] at hsame ⊢
            dsimp only
            cases hheld : innerDb.lookup key with
            | none =>
                rw [hheld] at hsame
                exact ⟨rfl, hsame⟩
            | some held => exact ⟨rfl, hput⟩
  | remove =>
      simp only [write, remove]
      have hsame := read_same uuid key s
      have herase := read_erase uuid key s
      cases hdb : s.lookup uuid with
      | none =>
          have hnone : read uuid key s = none := by simp [read, hdb]
          rw [hnone] at hsame ⊢
          exact ⟨rfl, hsame⟩
      | some innerDb =>
          have hread : read uuid key s = innerDb.lookup key := by simp [read, hdb]
          rw [hdb] at herase
          rw [hread] at hsame ⊢
          dsimp only
          cases hheld : innerDb.lookup key with
          | none =>
              rw [hheld] at hsame
              exact ⟨rfl, hsame⟩
          | some held => exact ⟨rfl, herase⟩

theorem mem_getKeys (uuid key : Bytes) (s : KvStore) : key ∈ getKeys uuid s ↔ (read uuid key s).isSome = true := by
  unfold getKeys read
  cases s.lookup uuid with
  | none => simp
  | some innerDb => simp [Finmap.mem_keys, Finmap.lookup_isSome]

theorem has_eq (uuid key : Bytes) (s : KvStore) : has uuid key s = (read uuid key s).isSome := by
  rw [has, Bool.eq_iff_iff, decide_eq_true_iff]
  exact mem_getKeys uuid key s

theorem getSize_eq (uuid : Bytes) (s : KvStore) :
    getSize uuid s = ((getKeys uuid s).card, ∑ key ∈ getKeys uuid s, ((read uuid key s).getD []).length) := by
  unfold getSize getKeys read
  cases s.lookup uuid with
  | none => rfl
  | some innerDb => rfl

-- The storage with one map for all databases is the same, as far as uuids are texts.
def Flattens (s : KvStore) (flat : MemStorage) : Prop :=
  ∀ uuid key, read (Bytes.ofString uuid) key s = flat.read uuid key

theorem Flattens.write {s : KvStore} {flat : MemStorage} (h : Flattens s flat) (uuid : Uuid) (key : Bytes)
    (w : Write) : (write (Bytes.ofString uuid) key w s).1 = (flat.write uuid key w).1 ∧
      Flattens (KvStore.write (Bytes.ofString uuid) key w s).2 (flat.write uuid key w).2 := by
  obtain ⟨hresult, hread⟩ := write_spec (Bytes.ofString uuid) key w s
  obtain ⟨hresult', hread'⟩ := flat.write_spec uuid key w
  refine ⟨?_, ?_⟩
  · rw [hresult, hresult', h uuid key]
  · intro other k
    refine (hread _ k).trans (Eq.symm ((hread' (other, k)).trans ?_))
    rw [h uuid key, h other k]
    simp [Bytes.ofString_injective.eq_iff, MemStorage.read]

end KvStore

namespace Rocksdb

-- RocksDB compares keys byte by byte.
scoped instance byteOrder : LinearOrder UInt8 where
  le_refl := UInt8.le_refl
  le_trans _ _ _ := UInt8.le_trans
  lt_iff_le_not_ge first second := by
    rw [UInt8.not_le]
    exact ⟨fun h => ⟨UInt8.le_of_lt h, h⟩, fun h => h.2⟩
  le_antisymm _ _ := UInt8.le_antisymm
  le_total := UInt8.le_total
  toDecidableLE := inferInstance
  toDecidableLT := inferInstance
  toDecidableEq := inferInstance

end Rocksdb

open scoped Rocksdb in
-- Put and Delete succeed.
abbrev Rocksdb := OrderedMap Bytes Bytes

namespace Rocksdb

def generateKey (uuid key : Bytes) : Bytes := uuid ++ key

-- The loop of an iterator from Seek(uuid) on, as long as the keys start with the uuid.
def scan (uuid : Bytes) (db : Rocksdb) : List (Bytes × Bytes) :=
  (db.seek uuid).takeWhile fun entry => uuid.isPrefixOf entry.1

def has (uuid key : Bytes) (db : Rocksdb) : Bool :=
  (scan uuid db).any fun entry => entry.1 == generateKey uuid key

def create (uuid key value : Bytes) (db : Rocksdb) : StorageResult × Rocksdb :=
  if maxValueSize < value.length then (.valueTooLarge, db)
  else if maxKeySize < key.length then (.keyTooLarge, db)
  else if has uuid key db then (.exists, db)
  else (.ok, db.put (generateKey uuid key) value)

def read (uuid key : Bytes) (db : Rocksdb) : Option Bytes := db.get (generateKey uuid key)

def update (uuid key value : Bytes) (db : Rocksdb) : StorageResult × Rocksdb :=
  if maxValueSize < value.length then (.valueTooLarge, db)
  else if has uuid key db then (.ok, db.put (generateKey uuid key) value)
  else (.notFound, db)

def remove (uuid key : Bytes) (db : Rocksdb) : StorageResult × Rocksdb :=
  if has uuid key db then (.ok, db.delete (generateKey uuid key)) else (.notFound, db)

def getKeys (uuid : Bytes) (db : Rocksdb) : List Bytes :=
  (scan uuid db).map fun entry => entry.1.drop uuid.length

def getSize (uuid : Bytes) (db : Rocksdb) : Nat × Nat :=
  ((scan uuid db).length, ((scan uuid db).map fun entry => entry.2.length).sum)

def write (uuid key : Bytes) : Write → Rocksdb → StorageResult × Rocksdb
  | .create value => create uuid key value
  | .update value => update uuid key value
  | .remove => remove uuid key

theorem scan_eq (uuid : Bytes) (db : Rocksdb) :
    scan uuid db = db.entries.filter fun entry => uuid.isPrefixOf entry.1 :=
  db.takeWhile_seek_begins uuid

theorem mem_scan {uuid : Bytes} {db : Rocksdb} {entry : Bytes × Bytes} :
    entry ∈ scan uuid db ↔ entry ∈ db.entries ∧ uuid <+: entry.1 := by
  rw [scan_eq, List.mem_filter, List.isPrefixOf_iff_prefix]

-- The loop finds what a direct lookup finds.
theorem has_eq (uuid key : Bytes) (db : Rocksdb) : has uuid key db = (read uuid key db).isSome := by
  rw [Bool.eq_iff_iff, has, List.any_eq_true, Option.isSome_iff_exists]
  constructor
  · rintro ⟨⟨flat, value⟩, hscan, hkey⟩
    obtain rfl : flat = generateKey uuid key := by simpa using hkey
    exact ⟨value, OrderedMap.get_eq_some.mpr (mem_scan.mp hscan).1⟩
  · rintro ⟨value, hvalue⟩
    refine ⟨(generateKey uuid key, value), mem_scan.mpr ⟨?_, ?_⟩, by simp⟩
    · exact OrderedMap.get_eq_some.mp hvalue
    · exact List.prefix_append uuid key

-- A call that writes looks at its place only, but that place may belong to other databases too.
theorem write_spec (uuid key : Bytes) (w : Write) (db : Rocksdb) :
    (write uuid key w db).1 = (w.perform key (read uuid key db)).1 ∧
      ∀ flat, (write uuid key w db).2.get flat =
        if flat = uuid ++ key then (w.perform key (read uuid key db)).2 else db.get flat := by
  have hsame : ∀ flat, db.get flat = if flat = uuid ++ key then read uuid key db else db.get flat :=
    eq_ite_at db.get (uuid ++ key)
  have hput : ∀ value flat, (db.put (uuid ++ key) value).get flat =
      if flat = uuid ++ key then some value else db.get flat := by
    intro value flat
    rw [db.get_put]
    congr
  have hdelete : ∀ flat, (db.delete (uuid ++ key)).get flat =
      if flat = uuid ++ key then none else db.get flat := by
    intro flat
    rw [db.get_delete]
    congr
  cases w with
  | create value =>
      simp only [write, create, Write.perform, has_eq]
      split
      · exact ⟨rfl, hsame⟩
      · split
        · exact ⟨rfl, hsame⟩
        · cases hheld : read uuid key db with
          | none => exact ⟨rfl, hput value⟩
          | some held =>
              rw [hheld] at hsame
              exact ⟨rfl, hsame⟩
  | update value =>
      simp only [write, update, Write.perform, has_eq]
      split
      · exact ⟨rfl, hsame⟩
      · cases hheld : read uuid key db with
        | none =>
            rw [hheld] at hsame
            exact ⟨rfl, hsame⟩
        | some held => exact ⟨rfl, hput value⟩
  | remove =>
      simp only [write, remove, has_eq]
      cases hheld : read uuid key db with
      | none =>
          rw [hheld] at hsame
          exact ⟨rfl, hsame⟩
      | some held => exact ⟨rfl, hdelete⟩

theorem mem_getKeys (uuid key : Bytes) (db : Rocksdb) :
    key ∈ getKeys uuid db ↔ (read uuid key db).isSome = true := by
  rw [getKeys, List.mem_map, Option.isSome_iff_exists]
  constructor
  · rintro ⟨⟨flat, value⟩, hscan, rfl⟩
    obtain ⟨hmem, rest, rfl⟩ := mem_scan.mp hscan
    refine ⟨value, ?_⟩
    simpa [read, generateKey] using OrderedMap.get_eq_some.mpr hmem
  · rintro ⟨value, hvalue⟩
    refine ⟨(uuid ++ key, value), mem_scan.mpr ⟨OrderedMap.get_eq_some.mp hvalue, List.prefix_append uuid key⟩, ?_⟩
    simp

theorem nodup_getKeys (uuid : Bytes) (db : Rocksdb) : (getKeys uuid db).Nodup := by
  have hkeys : ((scan uuid db).map Prod.fst).Nodup := by
    rw [scan_eq]
    exact db.nodup_keys.sublist (List.filter_sublist.map Prod.fst)
  unfold getKeys
  refine List.Nodup.map_on ?_ (List.Nodup.of_map _ hkeys)
  intro entry hentry other hother hrest
  obtain ⟨hmem, rest, hflat⟩ := mem_scan.mp hentry
  obtain ⟨hmem', rest', hflat'⟩ := mem_scan.mp hother
  apply OrderedMap.eq_of_mem hmem hmem'
  rw [← hflat, ← hflat', List.drop_left, List.drop_left] at hrest
  rw [← hflat, ← hflat', hrest]

theorem getSize_eq (uuid : Bytes) (db : Rocksdb) :
    getSize uuid db = ((getKeys uuid db).toFinset.card,
      ∑ key ∈ (getKeys uuid db).toFinset, ((read uuid key db).getD []).length) := by
  have hnodup := nodup_getKeys uuid db
  refine Prod.ext ?_ ?_
  · rw [List.toFinset_card_of_nodup hnodup, getKeys, List.length_map]
    rfl
  · rw [List.sum_toFinset _ hnodup, getKeys, List.map_map]
    refine congrArg List.sum (List.map_congr_left ?_)
    intro entry hentry
    obtain ⟨hmem, rest, hflat⟩ := mem_scan.mp hentry
    have hread : read uuid (entry.1.drop uuid.length) db = some entry.2 := by
      rw [← hflat, List.drop_left, read, generateKey, hflat]
      exact OrderedMap.get_eq_some.mpr hmem
    simp [hread]

-- The storage without an order of its keys is the same, as far as uuids are texts.
def Tabulates (db : Rocksdb) (flat : RocksdbStorage) : Prop := ∀ key, db.get key = flat.lookup key

theorem Tabulates.write {db : Rocksdb} {flat : RocksdbStorage} (h : Tabulates db flat) (uuid : Uuid) (key : Bytes)
    (w : Write) : (write (Bytes.ofString uuid) key w db).1 = (flat.write uuid key w).1 ∧
      Tabulates (Rocksdb.write (Bytes.ofString uuid) key w db).2 (flat.write uuid key w).2 := by
  obtain ⟨hresult, hget⟩ := write_spec (Bytes.ofString uuid) key w db
  obtain ⟨hresult', hlookup⟩ := flat.write_spec uuid key w
  have hheld : read (Bytes.ofString uuid) key db = flat.lookup (RocksdbStorage.generateKey uuid key) :=
    h (Bytes.ofString uuid ++ key)
  refine ⟨?_, ?_⟩
  · rw [hresult, hresult', hheld]
  · intro place
    rw [hget, hlookup, hheld, h place]
    rfl

end Rocksdb

end SwarmDB
