import SwarmDB.Storage

namespace SwarmDB

-- A kind of storage: what a process finds when it opens it for the first time, what it finds of the
-- contents a process before it had, and the operations that write.
structure StorageBase (S : Type) where
  opened : S
  reopened : S → S
  create : Uuid → Bytes → Bytes → S → StorageResult × S
  update : Uuid → Bytes → Bytes → S → StorageResult × S
  remove : Uuid → Bytes → S → StorageResult × S

-- Nothing of it is left when the process ends.
def memStorage : StorageBase MemStorage where
  opened := ∅
  reopened _ := ∅
  create := MemStorage.create
  update := MemStorage.update
  remove := MemStorage.remove

-- One table for all databases, which the database itself keeps. Its calls are taken to succeed.
abbrev RocksdbStorage := Finmap fun _ : Bytes => Bytes

namespace RocksdbStorage

def generateKey (uuid : Uuid) (key : Bytes) : Bytes := Bytes.ofString uuid ++ key

def create (uuid : Uuid) (key value : Bytes) (s : RocksdbStorage) : StorageResult × RocksdbStorage :=
  if maxValueSize < value.length then (.valueTooLarge, s)
  else if maxKeySize < key.length then (.keyTooLarge, s)
  else if (s.lookup (generateKey uuid key)).isSome then (.exists, s)
  else (.ok, s.insert (generateKey uuid key) value)

def update (uuid : Uuid) (key value : Bytes) (s : RocksdbStorage) : StorageResult × RocksdbStorage :=
  if maxValueSize < value.length then (.valueTooLarge, s)
  else if (s.lookup (generateKey uuid key)).isSome then (.ok, s.insert (generateKey uuid key) value)
  else (.notFound, s)

def remove (uuid : Uuid) (key : Bytes) (s : RocksdbStorage) : StorageResult × RocksdbStorage :=
  if (s.lookup (generateKey uuid key)).isSome then (.ok, s.erase (generateKey uuid key)) else (.notFound, s)

def write (uuid : Uuid) (key : Bytes) (w : Write) (s : RocksdbStorage) : StorageResult × RocksdbStorage :=
  match w with
  | .create value => create uuid key value s
  | .update value => update uuid key value s
  | .remove => remove uuid key s

theorem write_spec (s : RocksdbStorage) (uuid : Uuid) (key : Bytes) (w : Write) :
    (s.write uuid key w).1 = (w.perform key (s.lookup (generateKey uuid key))).1 ∧
      ∀ place, (s.write uuid key w).2.lookup place =
        if place = generateKey uuid key then (w.perform key (s.lookup (generateKey uuid key))).2
        else s.lookup place := by
  have happly : s.write uuid key w = w.apply (generateKey uuid key) key s := by
    cases w with
    | create | update | remove => rfl
  rw [happly]
  exact w.apply_spec (generateKey uuid key) key s

end RocksdbStorage

def rocksdbStorage : StorageBase RocksdbStorage where
  opened := ∅
  reopened s := s
  create := RocksdbStorage.create
  update := RocksdbStorage.update
  remove := RocksdbStorage.remove

end SwarmDB
