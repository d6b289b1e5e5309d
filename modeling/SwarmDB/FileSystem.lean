import Mathlib.Logic.Function.Basic
import SwarmDB.Bytes

namespace SwarmDB

-- A path names a file or nothing. Removing the path does not touch the file: whoever has it
-- open goes on writing to it. A new file gets a number that no path has ever had.
structure FileSystem (P : Type) where
  node : P → Option Nat
  content : Nat → Bytes
  fresh : Nat
  bounded : ∀ path file, node path = some file → file < fresh

namespace FileSystem

variable {P : Type}

def read (disk : FileSystem P) (path : P) : Option Bytes := (disk.node path).map disk.content

def append (disk : FileSystem P) (file : Nat) (bytes : Bytes) : FileSystem P :=
  { disk with content := Function.update disk.content file (disk.content file ++ bytes) }

variable [DecidableEq P]

def remove (disk : FileSystem P) (path : P) : FileSystem P where
  node := Function.update disk.node path none
  content := disk.content
  fresh := disk.fresh
  bounded := by
    intro other file h
    by_cases hpath : other = path
    · subst hpath
      simp at h
    · rw [Function.update_of_ne hpath] at h
      exact disk.bounded other file h

def create (disk : FileSystem P) (path : P) : FileSystem P where
  node := Function.update disk.node path (some disk.fresh)
  content := Function.update disk.content disk.fresh []
  fresh := disk.fresh + 1
  bounded := by
    intro other file h
    by_cases hpath : other = path
    · subst hpath
      have hfile : disk.fresh = file := by simpa using h
      omega
    · rw [Function.update_of_ne hpath] at h
      have hold := disk.bounded other file h
      omega

-- Opening for append, which creates a file that is missing.
def openAppend (disk : FileSystem P) (path : P) : Nat × FileSystem P :=
  match disk.node path with
  | some file => (file, disk)
  | none => (disk.fresh, disk.create path)

variable {disk : FileSystem P} {path : P} {file : Nat}

omit [DecidableEq P] in
@[simp] theorem append_node (bytes : Bytes) : (disk.append file bytes).node = disk.node := rfl

omit [DecidableEq P] in
@[simp] theorem append_content (bytes : Bytes) :
    (disk.append file bytes).content file = disk.content file ++ bytes := by
  simp [append]

@[simp] theorem remove_node : (disk.remove path).node path = none := by
  simp [remove]

omit [DecidableEq P] in
theorem read_of_node (h : disk.node path = some file) : disk.read path = some (disk.content file) := by
  simp [read, h]

omit [DecidableEq P] in
theorem node_of_read {bytes : Bytes} (h : disk.read path = some bytes) :
    ∃ file, disk.node path = some file ∧ disk.content file = bytes :=
  Option.map_eq_some_iff.mp h

-- What was opened for append is what the path names.
theorem openAppend_node : (disk.openAppend path).2.node path = some (disk.openAppend path).1 := by
  unfold openAppend
  cases hnode : disk.node path with
  | some held => simpa using hnode
  | none => simp [create]

theorem openAppend_content :
    (disk.openAppend path).2.content (disk.openAppend path).1 = (disk.read path).getD [] := by
  unfold openAppend read
  cases hnode : disk.node path with
  | some held => rfl
  | none => simp [create]

end FileSystem

end SwarmDB
