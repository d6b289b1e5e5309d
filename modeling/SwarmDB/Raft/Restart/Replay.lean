import SwarmDB.Cell
import SwarmDB.Raft.Restart.Storage

namespace SwarmDB.Raft

open Bytes

section StartUp

variable {S : Type} {base : StorageBase S} {parse : String → Option BznMsg} {entries : List LogEntry}

-- The messages of all entries, given to the commit handler one after the other.
def commitAll (base : StorageBase S) (parse : String → Option BznMsg) (entries : List LogEntry) (s : S) : S :=
  entries.foldl (fun s entry => commitHandler base parse entry.msg s) s

theorem commitAll_eq_applied (h : ∀ entry ∈ entries, entry.Labelled) (s : S) :
    commitAll base parse entries s = applied base parse s entries := by
  unfold commitAll applied
  apply List.foldl_ext
  intro s entry hentry
  exact commitHandler_eq (h entry hentry) s

theorem initializeStorageFromLog_eq_commitAll (base : StorageBase S) (parse : String → Option BznMsg)
    (log : RaftLog) (h : ∀ entry ∈ log.entries, entry.Labelled) :
    initializeStorageFromLog base parse log base.opened = commitAll base parse log.entries base.opened := by
  rw [initializeStorageFromLog_eq h, commitAll_eq_applied h]

def updateK : DatabaseMsg := { header := some ⟨"db", 1⟩, command := .update "k" [119] }

def deleteK : DatabaseMsg := { header := some ⟨"db", 1⟩, command := .delete "k" }

def updateKText : String := "UhAKBgoCZGIQASIGCgFrEgF3"

def deleteKText : String := "Ug0KBgoCZGIQASoDCgFr"

def parseCycle (text : String) : Option BznMsg :=
  if text = updateKText then some (.db updateK) else if text = deleteKText then some (.db deleteK) else parseK text

-- The record k comes, changes, goes and comes again. The last text is no request.
def cycleLog : RaftLog where
  entries := [createDatFile threePeers, ⟨.database, 1, 1, .database createKText⟩,
    ⟨.database, 2, 1, .database updateKText⟩, ⟨.database, 3, 1, .database deleteKText⟩,
    ⟨.database, 4, 1, .database createKText⟩, ⟨.database, 5, 1, .database "?"⟩]
  entries_ne := by simp

theorem cycleLog_labelled : ∀ entry ∈ cycleLog.entries, entry.Labelled := by
  have htext : ∀ index text, LogEntry.Labelled ⟨.database, index, 1, .database text⟩ :=
    fun index text => labelled_copy (.database text) index 1
  intro entry hentry
  simp only [cycleLog, List.mem_cons, List.not_mem_nil, or_false] at hentry
  rcases hentry with rfl | rfl | rfl | rfl | rfl | rfl
  · exact .of_ne (by simp [createDatFile]) (by simp [createDatFile])
  · exact htext 1 createKText
  · exact htext 2 updateKText
  · exact htext 3 deleteKText
  · exact htext 4 createKText
  · exact htext 5 "?"

theorem initializeStorageFromLog_eq_commitAll_cycle :
    initializeStorageFromLog memStorage parseCycle cycleLog ∅ =
        commitAll memStorage parseCycle cycleLog.entries ∅ ∧
      (commitAll memStorage parseCycle cycleLog.entries ∅).lookup ("db", ofString "k") = some [118] :=
  ⟨initializeStorageFromLog_eq_commitAll memStorage parseCycle cycleLog cycleLog_labelled, by decide +kernel⟩

end StartUp

section Again

variable {parse : String → Option BznMsg} {request : DatabaseMsg} {place : Uuid × Bytes}
  {entries : List LogEntry}

-- The request that an entry brings to the commit handlers.
def requestIn (parse : String → Option BznMsg) (entry : LogEntry) : Option DatabaseMsg :=
  match entry.msg with
  | .database text =>
    match parse text with
    | some (.db request) => some request
    | some .unset | some (.json _) | none => none
  | _ => none

-- The database and the key that a request writes to.
def placeOf (request : DatabaseMsg) : Option (Uuid × Bytes) :=
  match request.command with
  | .create key _ | .update key _ | .delete key => some (Crud.dbUuid request, ofString key)
  | _ => none

def Creates (request : DatabaseMsg) : Prop :=
  ∃ key value, request.command = .create key value ∧ (ofString key).length ≤ maxKeySize ∧
    value.length ≤ maxValueSize

-- The first entry that touches a place is a create within the limits.
def CreatesFirst (parse : String → Option BznMsg) (entries : List LogEntry) : Prop :=
  ∀ place request, (entries.filterMap (requestIn parse)).find? (fun other => placeOf other = some place) =
    some request → Creates request

-- What a request does at a place. A value or key that is too large does nothing.
def cellOp (place : Uuid × Bytes) (request : DatabaseMsg) : Option (CellOp Bytes) :=
  match request.command with
  | .create key value =>
    if (Crud.dbUuid request, ofString key) = place ∧ value.length ≤ maxValueSize ∧
      (ofString key).length ≤ maxKeySize then some (.create value) else none
  | .update key value =>
    if (Crud.dbUuid request, ofString key) = place ∧ value.length ≤ maxValueSize then some (.update value)
    else none
  | .delete key => if (Crud.dbUuid request, ofString key) = place then some .remove else none
  | _ => none

-- At the place of a request, the storage does what the cell there does.
theorem lookup_write (uuid : Uuid) (key : Bytes) (w : Write) (s : MemStorage) (place : Uuid × Bytes) :
    (s.write uuid key w).2.lookup place =
      if (uuid, key) = place then (w.perform key (s.lookup place)).2 else s.lookup place := by
  rw [(s.write_spec uuid key w).2 place]
  by_cases hplace : (uuid, key) = place
  · subst hplace
    rw [if_pos rfl, if_pos rfl]
    rfl
  · rw [if_neg hplace, if_neg (Ne.symm hplace)]

theorem perform_create (key value : Bytes) (held : Option Bytes) :
    ((Write.create value).perform key held).2 =
      if value.length ≤ maxValueSize ∧ key.length ≤ maxKeySize then (CellOp.create value).perform held
      else held := by
  simp only [Write.perform]
  split
  · rename_i hvalue
    rw [if_neg fun h => Nat.not_le.mpr hvalue h.1]
  · rename_i hvalue
    split
    · rename_i hkey
      rw [if_neg fun h => Nat.not_le.mpr hkey h.2]
    · rename_i hkey
      rw [if_pos ⟨Nat.not_lt.mp hvalue, Nat.not_lt.mp hkey⟩]
      cases held with
      | none => rfl
      | some _ => rfl

theorem perform_update (key value : Bytes) (held : Option Bytes) :
    ((Write.update value).perform key held).2 =
      if value.length ≤ maxValueSize then (CellOp.update value).perform held else held := by
  simp only [Write.perform]
  split
  · rename_i hvalue
    rw [if_neg (Nat.not_le.mpr hvalue)]
  · rename_i hvalue
    rw [if_pos (Nat.not_lt.mp hvalue)]
    cases held with
    | none => rfl
    | some _ => rfl

theorem perform_remove (key : Bytes) (held : Option Bytes) :
    (Write.remove.perform key held).2 = CellOp.remove.perform held := by
  cases held with
  | none => rfl
  | some _ => rfl

theorem lookup_commitHandler (parse : String → Option BznMsg) (entry : LogEntry) (s : MemStorage)
    (place : Uuid × Bytes) :
    (commitHandler memStorage parse entry.msg s).lookup place =
      CellOp.performAll ((requestIn parse entry).bind (cellOp place)).toList (s.lookup place) := by
  unfold commitHandler requestIn
  cases entry.msg with
  | null | singleQuorum _ | jointQuorum _ _ | other _ => rfl
  | database text =>
      dsimp only
      cases parse text with
      | none => rfl
      | some msg =>
          cases msg with
          | unset | json _ => rfl
          | db request =>
              simp only [Option.bind_some, cellOp]
              cases request.command with
              | create key value =>
                  apply (lookup_write _ _ (.create value) s place).trans
                  rw [perform_create, ← ite_and]
                  dsimp only
                  split
                  · rfl
                  · rfl
              | update key value =>
                  apply (lookup_write _ _ (.update value) s place).trans
                  rw [perform_update, ← ite_and]
                  dsimp only
                  split
                  · rfl
                  · rfl
              | delete key =>
                  apply (lookup_write _ _ .remove s place).trans
                  rw [perform_remove]
                  dsimp only
                  split
                  · rfl
                  · rfl
              | unset | read _ | has _ | keys | size | subscribe _ | unsubscribe _ _ => rfl

-- What the entries do at one place, in order.
def cellOps (parse : String → Option BznMsg) (entries : List LogEntry) (place : Uuid × Bytes) :
    List (CellOp Bytes) :=
  (entries.filterMap (requestIn parse)).filterMap (cellOp place)

theorem lookup_commitAll (parse : String → Option BznMsg) (entries : List LogEntry) (s : MemStorage)
    (place : Uuid × Bytes) :
    (commitAll memStorage parse entries s).lookup place =
      CellOp.performAll (cellOps parse entries place) (s.lookup place) := by
  induction entries generalizing s with
  | nil => rfl
  | cons entry rest ih =>
      have hrest : (commitAll memStorage parse (entry :: rest) s).lookup place = _ :=
        ih (commitHandler memStorage parse entry.msg s)
      rw [hrest, lookup_commitHandler]
      unfold cellOps
      rw [List.filterMap_filterMap, List.filterMap_filterMap, List.filterMap_cons]
      cases (requestIn parse entry).bind (cellOp place) with
      | none => rfl
      | some op => rfl

theorem cellOp_create (hplace : placeOf request = some place) (hcreates : Creates request) :
    ∃ value, cellOp place request = some (.create value) := by
  obtain ⟨key, value, hcommand, hkey, hvalue⟩ := hcreates
  simp only [placeOf, hcommand, Option.some.injEq] at hplace
  exact ⟨value, by simp [cellOp, hplace, hcommand, hkey, hvalue]⟩

theorem cellOp_elsewhere (hplace : placeOf request ≠ some place) : cellOp place request = none := by
  unfold placeOf at hplace
  unfold cellOp
  cases hcommand : request.command with
  | create key value | update key value | delete key =>
      simp only [hcommand, ne_eq, Option.some.injEq] at hplace
      simp [hplace]
  | unset | read _ | has _ | keys | size | subscribe _ | unsubscribe _ _ => rfl

-- Requests for other places do nothing at this one.
theorem head_cellOps {requests : List DatabaseMsg}
    (h : ∀ request, requests.find? (fun other => placeOf other = some place) = some request → Creates request) :
    ∀ op ∈ (requests.filterMap (cellOp place)).head?, ∃ value, op = .create value := by
  induction requests with
  | nil => simp
  | cons request rest ih =>
      by_cases hplace : placeOf request = some place
      · obtain ⟨value, hop⟩ := cellOp_create hplace (h request (by simp [hplace]))
        intro op hmem
        simp only [List.filterMap_cons, hop, List.head?_cons, Option.mem_def, Option.some.injEq] at hmem
        exact ⟨value, hmem.symm⟩
      · rw [List.filterMap_cons_none (cellOp_elsewhere hplace)]
        apply ih
        intro other hfind
        apply h
        simpa [hplace] using hfind

theorem commitAll_initializeStorageFromLog (parse : String → Option BznMsg) (log : RaftLog)
    (hlabelled : ∀ entry ∈ log.entries, entry.Labelled) (hfirst : CreatesFirst parse log.entries) :
    commitAll memStorage parse log.entries (initializeStorageFromLog memStorage parse log ∅) =
      initializeStorageFromLog memStorage parse log ∅ := by
  have hmade : initializeStorageFromLog memStorage parse log ∅ = commitAll memStorage parse log.entries ∅ := by
    rw [initializeStorageFromLog_eq hlabelled, commitAll_eq_applied hlabelled]
  rw [hmade]
  apply Finmap.ext_lookup
  intro place
  rw [lookup_commitAll, lookup_commitAll, Finmap.lookup_empty]
  exact CellOp.performAll_again (head_cellOps (hfirst place))

theorem cycleLog_createsFirst : CreatesFirst parseCycle cycleLog.entries := by
  intro place request hfind
  have hrequests : cycleLog.entries.filterMap (requestIn parseCycle) = [createK, updateK, deleteK, createK] := by
    decide +kernel
  have hplaces : [createK, updateK, deleteK, createK].map placeOf =
      List.replicate 4 (some ("db", ofString "k")) := by decide +kernel
  have htouched := List.find?_some hfind
  obtain rfl : place = ("db", ofString "k") := by
    have hmem := List.mem_map_of_mem (f := placeOf) (List.mem_of_find?_eq_some hfind)
    rw [hrequests, hplaces, List.mem_replicate, of_decide_eq_true htouched] at hmem
    exact Option.some.inj hmem.2
  have hfirst : (cycleLog.entries.filterMap (requestIn parseCycle)).find?
      (fun other => placeOf other = some ("db", ofString "k")) = some createK := by decide +kernel
  obtain rfl := Option.some.inj (hfind.symm.trans hfirst)
  exact ⟨"k", [118], rfl, by decide +kernel, by decide +kernel⟩

theorem commitAll_initializeStorageFromLog_cycle :
    (initializeStorageFromLog memStorage parseCycle cycleLog ∅).lookup ("db", ofString "k") = some [118] ∧
      commitAll memStorage parseCycle cycleLog.entries (initializeStorageFromLog memStorage parseCycle cycleLog ∅) =
        initializeStorageFromLog memStorage parseCycle cycleLog ∅ :=
  ⟨by decide +kernel,
    commitAll_initializeStorageFromLog parseCycle cycleLog cycleLog_labelled cycleLog_createsFirst⟩

end Again

end SwarmDB.Raft
