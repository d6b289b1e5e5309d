import SwarmDB.Crud
import SwarmDB.Raft.Restart
import SwarmDB.StorageBase

namespace SwarmDB.Raft

open ReplicatedLog

-- The storage, and the reading of a text: decoding the base64 and parsing the protobuf in it.
variable {S : Type} (base : StorageBase S) (parse : String → Option BznMsg)

section Writes

-- The three handlers tell whether the subscribers are to hear of it.
def commitWrite (result : StorageResult × S) : Bool × S := (decide (result.1 = .ok), result.2)

def commitCreate (request : DatabaseMsg) (key : String) (value : Bytes) (s : S) : Bool × S :=
  commitWrite (base.create (Crud.dbUuid request) (Bytes.ofString key) value s)

def commitUpdate (request : DatabaseMsg) (key : String) (value : Bytes) (s : S) : Bool × S :=
  commitWrite (base.update (Crud.dbUuid request) (Bytes.ofString key) value s)

def commitDelete (request : DatabaseMsg) (key : String) (s : S) : Bool × S :=
  commitWrite (base.remove (Crud.dbUuid request) (Bytes.ofString key) s)

-- The commit handler of raft_crud, as far as the storage is concerned.
def commitHandler (msg : JsonMessage) (s : S) : S :=
  match msg with
  | .database text =>
    match parse text with
    | some (.db request) =>
      match request.command with
      | .create key value => (commitCreate base request key value s).2
      | .update key value => (commitUpdate base request key value s).2
      | .delete key => (commitDelete base request key s).2
      | _ => s
    | some .unset | some (.json _) | none => s
  | _ => s

-- The text of a message that has none reads as an empty one.
def textOf : JsonMessage → String
  | .database text => text
  | _ => ""

def initializeStorageFromLog (log : RaftLog) (s : S) : S :=
  log.entries.foldl (fun s entry =>
    if entry.entryType = .database then
      match parse (textOf entry.msg) with
      | none => s
      | some msg =>
        match msg.dbOf.command with
        | .create key value => (base.create (Crud.dbUuid msg.dbOf) (Bytes.ofString key) value s).2
        | .update key value => (base.update (Crud.dbUuid msg.dbOf) (Bytes.ofString key) value s).2
        | .delete key => (base.remove (Crud.dbUuid msg.dbOf) (Bytes.ofString key) s).2
        | _ => s
    else s) s

end Writes

-- A swarm with the storages of its nodes, and every call of a commit handler so far.
structure Cluster (S : Type) where
  swarm : Swarm
  storage : Uuid → S
  committed : List (Nat × JsonMessage)

def Effect.committed : Effect → Option (Nat × JsonMessage)
  | .commit index msg => some (index, msg)
  | _ => none

namespace Cluster

def act (env : Env) (c : Cluster S) (a : Action) : Cluster S :=
  let calls := (c.swarm.outcome env a).effects.filterMap Effect.committed
  { swarm := c.swarm.act env a
    storage := fun n =>
      if n = a.uuid then calls.foldl (fun s call => commitHandler base parse call.2 s) (c.storage n)
      else c.storage n
    committed := c.committed ++ calls }

-- main constructs the node and the storage and then initializes the one from the other.
def handle (env : Env) (c : Cluster S) : Event → Cluster S
  | .act a => c.act base parse env a
  | .restart uuid peers enableAudit enablePeerValidation signedKey =>
    { c with
      swarm := c.swarm.restart uuid peers enableAudit enablePeerValidation signedKey
      storage := fun n =>
        if n = uuid then
          initializeStorageFromLog base parse (c.swarm.nodes n).log (base.reopened (c.storage n))
        else c.storage n }

end Cluster

def cluster (env : Env) (first : LogEntry) : Machine (Cluster S) Event where
  init c := (restarting env first).init c.swarm ∧ c.committed = [] ∧
    ∀ n, c.storage n = initializeStorageFromLog base parse (startLog first) base.opened
  enabled c event := c.swarm.Admits event
  next c event := c.handle base parse env event

instance (env : Env) (first : LogEntry) (c : Cluster S) (event : Event) :
    Decidable ((cluster base parse env first).enabled c event) :=
  inferInstanceAs (Decidable (c.swarm.Admits event))

section Contents

-- What the database entries among these make of a storage.
def applied (s : S) (entries : List LogEntry) : S :=
  entries.foldl (fun s entry =>
    if entry.entryType = .database then commitHandler base parse entry.msg s else s) s

def contents (entries : List LogEntry) : S := applied base parse base.opened entries

-- Committed by some node of the swarm. The first entry counts as committed from the start.
def CommittedBelow (committed : List (Nat × JsonMessage)) (entries : List LogEntry) (k : Nat) : Prop :=
  ∀ i entry, 0 < i → i < k → entries[i]? = some entry → (i, entry.msg) ∈ committed

-- The storage holds what a committed beginning of the log makes of an empty one.
def Reflects (c : Cluster S) (n : Uuid) : Prop :=
  ∃ k, k ≤ (c.swarm.nodes n).log.size ∧
    CommittedBelow c.committed (c.swarm.nodes n).log.entries k ∧
    c.storage n = contents base parse ((c.swarm.nodes n).log.entries.take k)

-- Behind what the swarm has committed the log has no database entry.
def NothingPending (committed : List (Nat × JsonMessage)) (entries : List LogEntry) : Prop :=
  ∃ k, CommittedBelow committed entries k ∧ ∀ entry ∈ entries.drop k, entry.entryType ≠ .database

-- Where an entry has been applied, now or earlier, it changes nothing when it is applied again, or it brings
-- back what there was right after it.
def Repeatable (entries : List LogEntry) : Prop :=
  ∀ k ≤ entries.length, ∀ i < k, ∀ entry ∈ entries[i]?,
    let again := applied base parse (contents base parse (entries.take k)) [entry]
    again = contents base parse (entries.take k) ∨ again = contents base parse (entries.take (i + 1))

instance [DecidableEq S] (entries : List LogEntry) : Decidable (Repeatable base parse entries) :=
  inferInstanceAs (Decidable (∀ k ≤ entries.length, _))

-- What has to hold when a node starts again. Of the storage, everything is left or nothing.
structure Recoverable (c : Cluster S) (n : Uuid) : Prop where
  settled : NothingPending c.committed (c.swarm.nodes n).log.entries
  repeatable : Repeatable base parse (c.swarm.nodes n).log.entries
  left : base.reopened (c.storage n) = base.opened ∨ base.reopened (c.storage n) = c.storage n

def Restores (c : Cluster S) : Event → Prop
  | .act _ => True
  | .restart uuid .. => Recoverable base parse c uuid

end Contents

section Labels

-- The entries of type database are those whose message is a text.
def LogEntry.Labelled (entry : LogEntry) : Prop :=
  entry.entryType = .database ↔ ∃ text, entry.msg = .database text

theorem LogEntry.Labelled.of_ne {entry : LogEntry} (htype : entry.entryType ≠ .database)
    (hmsg : ∀ text, entry.msg ≠ .database text) : entry.Labelled :=
  ⟨fun h => absurd h htype, fun ⟨text, h⟩ => absurd h (hmsg text)⟩

theorem labelled_copy (msg : JsonMessage) (index term : Nat) :
    LogEntry.Labelled ⟨deduceTypeFromMessage msg, index, term, msg⟩ := by
  cases msg with
  | database text => exact ⟨fun _ => ⟨text, rfl⟩, fun _ => rfl⟩
  | null | other _ => exact .of_ne (by simp [deduceTypeFromMessage]) (by simp)
  | singleQuorum peers => cases peers <;> exact .of_ne (by simp [deduceTypeFromMessage]) (by simp)
  | jointQuorum old new => cases new <;> exact .of_ne (by simp [deduceTypeFromMessage]) (by simp)

theorem step_labelled {env : Env} {node : Node} {input : Input}
    (h : ∀ entry ∈ node.log.entries, entry.Labelled)
    (hrequest : ∀ msg entryType, input = .appendLog msg entryType →
      entryType = .database ∧ ∃ text, msg = .database text) :
    ∀ entry ∈ (node.step env input).node.log.entries, entry.Labelled := by
  apply Node.step_entries (P := LogEntry.Labelled)
  · intro msg entryType index term hinput
    obtain ⟨rfl, text, rfl⟩ := hrequest msg entryType hinput
    exact ⟨fun _ => ⟨text, rfl⟩, fun _ => rfl⟩
  · intro last old new index term _ _ _ _
    exact .of_ne (by simp) (by simp)
  · intro entry msg index term _ _ hmsg
    unfold createSingleQuorumFromJointQuorum at hmsg
    cases hlists : entry.msg.oldAndNew with
    | error e => simp [hlists, Except.map] at hmsg
    | ok lists =>
        obtain rfl : JsonMessage.singleQuorum lists.2 = msg := by simpa [hlists, Except.map] using hmsg
        exact .of_ne (by simp) (by simp)
  · intro msg index term _
    exact labelled_copy msg index term
  · exact h

variable {base parse}

-- The two ways into the storage agree on such entries.
theorem commitHandler_eq {entry : LogEntry} (h : entry.Labelled) (s : S) :
    commitHandler base parse entry.msg s =
      if entry.entryType = .database then commitHandler base parse entry.msg s else s := by
  split
  · rfl
  · rename_i htype
    have hmsg : ∀ text, entry.msg ≠ .database text := fun text hmsg => htype (h.mpr ⟨text, hmsg⟩)
    unfold commitHandler
    split
    · rename_i text hform
      exact absurd hform (hmsg text)
    · rfl

theorem initializeStorageFromLog_eq {log : RaftLog} (h : ∀ entry ∈ log.entries, entry.Labelled) (s : S) :
    initializeStorageFromLog base parse log s = applied base parse s log.entries := by
  unfold initializeStorageFromLog applied
  apply List.foldl_ext
  intro s entry hentry
  split
  · rename_i htype
    obtain ⟨text, hform⟩ := (h entry hentry).mp htype
    rw [hform]
    unfold commitHandler textOf
    dsimp only
    cases parse text with
    | none => rfl
    | some msg =>
        cases msg with
        | unset | json _ => rfl
        | db request => rfl
  · rfl

end Labels

section Stored

variable {base parse} {committed : List (Nat × JsonMessage)} {entries more : List LogEntry} {k commitIndex : Nat}
  {s : S}

theorem CommittedBelow.mono (h : CommittedBelow committed entries k) {later : List (Nat × JsonMessage)}
    (hmore : committed ⊆ later) : CommittedBelow later entries k :=
  fun i entry hpos hlt hentry => hmore (h i entry hpos hlt hentry)

theorem applied_append (s : S) (entries more : List LogEntry) :
    applied base parse s (entries ++ more) = applied base parse (applied base parse s entries) more :=
  List.foldl_append

theorem applied_plain (s : S) (h : ∀ entry ∈ entries, entry.entryType ≠ .database) :
    applied base parse s entries = s := by
  induction entries generalizing s with
  | nil => rfl
  | cons entry rest ih =>
      unfold applied
      rw [List.foldl_cons, if_neg (h entry List.mem_cons_self)]
      exact ih s fun other hother => h other (List.mem_cons_of_mem _ hother)

-- Entries that are not for the database can be left off the end.
theorem contents_take_min (h : ∀ entry ∈ entries.drop k, entry.entryType ≠ .database) (m : Nat) :
    contents base parse (entries.take m) = contents base parse (entries.take (min k m)) := by
  have hsplit : entries.take m = entries.take (min k m) ++ (entries.drop k).take (m - k) := by
    rw [← List.take_take, ← List.drop_take]
    exact (List.take_append_drop k (entries.take m)).symm
  unfold contents
  rw [hsplit, applied_append, applied_plain]
  intro entry hentry
  exact h entry (List.mem_of_mem_take hentry)

theorem contents_succ {i : Nat} {entry : LogEntry} (hentry : entries[i]? = some entry) :
    contents base parse (entries.take (i + 1)) = applied base parse (contents base parse (entries.take i)) [entry] := by
  unfold contents
  rw [List.take_add_one, hentry, applied_append]
  rfl

-- Applying a beginning once more changes nothing, or leads back to where it led the first time.
theorem Repeatable.again (h : Repeatable base parse entries) (hle : k ≤ entries.length) {i : Nat} (hi : i ≤ k) :
    let again := applied base parse (contents base parse (entries.take k)) (entries.take i)
    again = contents base parse (entries.take k) ∨ again = contents base parse (entries.take i) := by
  intro again
  induction i with
  | zero =>
      left
      simp only [again, List.take_zero]
      rfl
  | succ i ih =>
      have hentry : entries[i]? = some entries[i] := List.getElem?_eq_getElem (by omega)
      have hagain : again = applied base parse
          (applied base parse (contents base parse (entries.take k)) (entries.take i)) [entries[i]] := by
        rw [← applied_append, List.take_append_getElem]
      rcases ih (by omega) with hsame | hback
      · rw [hagain, hsame]
        exact h k hle i (by omega) entries[i] hentry
      · right
        rw [hagain, hback, contents_succ hentry]

-- The log brings a storage that holds a beginning of it to where it brings an empty one.
theorem Repeatable.restore (h : Repeatable base parse entries) (hle : k ≤ entries.length) :
    applied base parse (contents base parse (entries.take k)) entries = contents base parse entries := by
  calc
    applied base parse (contents base parse (entries.take k)) entries =
        applied base parse (applied base parse (contents base parse (entries.take k)) (entries.take k))
          (entries.drop k) := by rw [← applied_append, List.take_append_drop]
    _ = applied base parse (contents base parse (entries.take k)) (entries.drop k) := by
        rw [or_self_iff.mp (h.again hle (le_refl k))]
    _ = contents base parse entries := by
        unfold contents
        rw [← applied_append, List.take_append_drop]

theorem NothingPending.mono (h : NothingPending committed entries) {later : List (Nat × JsonMessage)}
    (hmore : committed ⊆ later) : NothingPending later entries := by
  obtain ⟨k, hbelow, hplain⟩ := h
  exact ⟨k, hbelow.mono hmore, hplain⟩

-- The storage holds the entries that are committed, or those of a log from which it was restored, as long
-- as the node has not committed these again.
def Stored (base : StorageBase S) (parse : String → Option BznMsg) (committed : List (Nat × JsonMessage))
    (entries : List LogEntry) (commitIndex : Nat) (s : S) : Prop :=
  s = contents base parse (entries.take commitIndex) ∨
    ∃ restored, restored <+: entries ∧ commitIndex ≤ restored.length ∧ NothingPending committed restored ∧
      Repeatable base parse restored ∧ s = contents base parse restored

theorem Stored.mono (h : Stored base parse committed entries commitIndex s)
    {later : List (Nat × JsonMessage)} (hmore : committed ⊆ later) :
    Stored base parse later entries commitIndex s := by
  rcases h with hcontents | ⟨restored, hbegins, hle, hsettled, hrepeatable, hstored⟩
  · exact Or.inl hcontents
  · exact Or.inr ⟨restored, hbegins, hle, hsettled.mono hmore, hrepeatable, hstored⟩

theorem Stored.grow (h : Stored base parse committed entries commitIndex s) (hgrown : entries <+: more)
    (hle : commitIndex ≤ entries.length) : Stored base parse committed more commitIndex s := by
  rcases h with hcontents | ⟨restored, hbegins, hinside, hrestored⟩
  · left
    rw [take_of_grown hgrown hle]
    exact hcontents
  · exact Or.inr ⟨restored, hbegins.trans hgrown, hinside, hrestored⟩

-- One more entry is committed.
theorem Stored.commit (h : Stored base parse committed entries commitIndex s)
    {entry : LogEntry} (hentry : entries[commitIndex]? = some entry) :
    Stored base parse committed entries (commitIndex + 1) (applied base parse s [entry]) := by
  rcases h with rfl | ⟨restored, hbegins, hle, hsettled, hrepeatable, rfl⟩
  · left
    rw [contents_succ hentry]
  · by_cases hinside : commitIndex < restored.length
    · -- the storage has the entry already
      have hheld : restored[commitIndex]? = some entry :=
        (getElem?_of_take_eq (take_of_grown hbegins (le_refl _)).symm hinside).trans hentry
      have hagain := hrepeatable restored.length (le_refl _) commitIndex hinside entry hheld
      rw [List.take_length] at hagain
      rcases hagain with hsame | hback
      · exact Or.inr ⟨restored, hbegins, hinside, hsettled, hrepeatable, hsame⟩
      · left
        rw [hback, take_of_grown hbegins hinside]
    · left
      obtain rfl : commitIndex = restored.length := by omega
      rw [contents_succ hentry, take_of_grown hbegins (le_refl _), List.take_length]

theorem Stored.commits (h : Stored base parse committed entries commitIndex s) {count : Nat}
    (hinside : commitIndex + count ≤ entries.length) :
    Stored base parse committed entries (commitIndex + count)
      (applied base parse s ((entries.drop commitIndex).take count)) := by
  induction count with
  | zero => simpa [applied] using h
  | succ count ih =>
      have hlt : commitIndex + count < entries.length := by omega
      have hentry : entries[commitIndex + count]? = some entries[commitIndex + count] :=
        List.getElem?_eq_getElem hlt
      have hlast : (entries.drop commitIndex).take (count + 1) =
          (entries.drop commitIndex).take count ++ [entries[commitIndex + count]] := by
        rw [List.take_add_one, List.getElem?_drop, hentry]
        rfl
      rw [hlast, applied_append]
      exact (ih (by omega)).commit hentry

end Stored

section Calls

variable {base parse}

theorem filterMap_committed (effects : List Effect) :
    effects.filterMap Effect.committed = (effects.filter Effect.isCommit).filterMap Effect.committed := by
  rw [List.filterMap_filter]
  apply List.filterMap_congr
  intro effect _
  cases effect <;> rfl

theorem committed_commitEffects (first : Nat) (entries : List LogEntry) :
    (Node.commitEffects first entries).filterMap Effect.committed =
      (entries.zipIdx first).map fun entry => (entry.2, entry.1.msg) := by
  unfold Node.commitEffects
  rw [List.filterMap_map]
  exact congrFun List.filterMap_eq_map _

-- The calls for a piece of the log apply its database entries.
theorem foldl_calls (first : Nat) {entries : List LogEntry} (h : ∀ entry ∈ entries, entry.Labelled) (s : S) :
    ((Node.commitEffects first entries).filterMap Effect.committed).foldl
      (fun s call => commitHandler base parse call.2 s) s = applied base parse s entries := by
  rw [committed_commitEffects, List.foldl_map]
  have hfst : (entries.zipIdx first).foldl (fun s entry => commitHandler base parse entry.1.msg s) s =
      ((entries.zipIdx first).map Prod.fst).foldl (fun s entry => commitHandler base parse entry.msg s) s := by
    rw [List.foldl_map]
  rw [hfst, List.zipIdx_map_fst]
  unfold applied
  apply List.foldl_ext
  intro s entry hentry
  exact commitHandler_eq (h entry hentry) s

theorem mem_calls (first : Nat) {i : Nat} {entries : List LogEntry} {entry : LogEntry}
    (h : entries[i]? = some entry) :
    (first + i, entry.msg) ∈ (Node.commitEffects first entries).filterMap Effect.committed := by
  rw [committed_commitEffects]
  apply List.mem_map.mpr
  refine ⟨(entry, first + i), ?_, rfl⟩
  apply List.mem_of_getElem? (i := i)
  rw [List.getElem?_zipIdx, h]
  rfl

end Calls

section Run

variable {base parse} {env : Env} {first : LogEntry} {past : List (Cluster S × Event)} {c : Cluster S} {a : Action}

-- What is true of a node and its storage at every point.
structure Tracks (base : StorageBase S) (parse : String → Option BznMsg) (c : Cluster S) (n : Uuid) : Prop where
  labelled : ∀ entry ∈ (c.swarm.nodes n).log.entries, entry.Labelled
  inside : (c.swarm.nodes n).commitIndex ≤ (c.swarm.nodes n).log.size
  own : CommittedBelow c.committed (c.swarm.nodes n).log.entries (c.swarm.nodes n).commitIndex
  stored : Stored base parse c.committed (c.swarm.nodes n).log.entries (c.swarm.nodes n).commitIndex
    (c.storage n)

theorem Tracks.reflects {n : Uuid} (h : Tracks base parse c n) : Reflects base parse c n := by
  rcases h.stored with hcontents | ⟨restored, hbegins, hle, ⟨k, hbelow, hplain⟩, _, hstored⟩
  · exact ⟨_, h.inside, h.own, hcontents⟩
  · -- the restored log, as far as it is committed
    have hinside : min k restored.length ≤ restored.length := Nat.min_le_right _ _
    refine ⟨min k restored.length, hinside.trans hbegins.length_le, ?_, ?_⟩
    · intro i entry hpos hlt hentry
      apply hbelow i entry hpos (by omega)
      rw [← hentry]
      exact getElem?_of_take_eq (take_of_grown hbegins (le_refl _)).symm (by omega)
    · rw [take_of_grown hbegins hinside, hstored, ← contents_take_min hplain, List.take_length]

theorem Tracks.other {n : Uuid} (h : Tracks base parse c n) {next : Cluster S}
    (hnode : next.swarm.nodes n = c.swarm.nodes n) (hstorage : next.storage n = c.storage n)
    (hcommitted : c.committed ⊆ next.committed) : Tracks base parse next n := by
  constructor
  · rw [hnode]
    exact h.labelled
  · rw [hnode]
    exact h.inside
  · rw [hnode]
    exact h.own.mono hcommitted
  · rw [hnode, hstorage]
    exact h.stored.mono hcommitted

theorem Tracks.act (h : Tracks base parse c a.uuid) : Tracks base parse (c.act base parse env a) a.uuid := by
  have hnode : (c.act base parse env a).swarm.nodes a.uuid = ((c.swarm.nodes a.uuid).step env a.input).node :=
    Swarm.act_nodes_self
  have hgrown := Node.step_log_grows env (c.swarm.nodes a.uuid) a.input
  obtain ⟨count, hcommits⟩ := (Node.step_move env (c.swarm.nodes a.uuid) a.input).commits
  have hlabelled : ∀ entry ∈ ((c.swarm.nodes a.uuid).step env a.input).node.log.entries, entry.Labelled :=
    step_labelled h.labelled fun msg entryType hinput => request_of_input a hinput
  have hinside : (c.swarm.nodes a.uuid).commitIndex + count ≤
      ((c.swarm.nodes a.uuid).step env a.input).node.log.size := by
    rcases Nat.eq_zero_or_pos count with rfl | hpos
    · exact h.inside.trans hgrown.length_le
    · exact hcommits.inside hpos
  -- the calls are those for the entries from the old commit index on
  have hcalls : (c.swarm.outcome env a).effects.filterMap Effect.committed =
      (Node.commitEffects (c.swarm.nodes a.uuid).commitIndex
        ((((c.swarm.nodes a.uuid).step env a.input).node.log.entries.drop
          (c.swarm.nodes a.uuid).commitIndex).take count)).filterMap Effect.committed := by
    rw [filterMap_committed]
    exact congrArg (List.filterMap Effect.committed) hcommits.effects_eq
  have hcommitted : c.committed ⊆ (c.act base parse env a).committed := List.subset_append_left _ _
  constructor
  · rw [hnode]
    exact hlabelled
  · rw [hnode, hcommits.index_eq]
    exact hinside
  · rw [hnode, hcommits.index_eq]
    intro i entry hpos hlt hentry
    by_cases hold : i < (c.swarm.nodes a.uuid).commitIndex
    · apply hcommitted
      apply h.own i entry hpos hold
      rw [← hentry]
      exact getElem?_of_take_eq (take_of_grown hgrown h.inside).symm hold
    · have hslice : ((((c.swarm.nodes a.uuid).step env a.input).node.log.entries.drop
          (c.swarm.nodes a.uuid).commitIndex).take count)[i - (c.swarm.nodes a.uuid).commitIndex]? =
            some entry := by
        rw [List.getElem?_take_of_lt (by omega), List.getElem?_drop, Nat.add_sub_of_le (by omega)]
        exact hentry
      have hcall := mem_calls (c.swarm.nodes a.uuid).commitIndex hslice
      rw [Nat.add_sub_of_le (by omega), ← hcalls] at hcall
      exact List.mem_append_right _ hcall
  · have hstorage : (c.act base parse env a).storage a.uuid =
        applied base parse (c.storage a.uuid) ((((c.swarm.nodes a.uuid).step env a.input).node.log.entries.drop
          (c.swarm.nodes a.uuid).commitIndex).take count) := by
      unfold Cluster.act
      dsimp only
      rw [if_pos rfl, hcalls]
      apply foldl_calls
      intro entry hentry
      exact hlabelled entry (List.mem_of_mem_drop (List.mem_of_mem_take hentry))
    rw [hnode, hstorage, hcommits.index_eq]
    exact ((h.stored.grow hgrown h.inside).commits hinside).mono hcommitted

theorem Tracks.restart {n : Uuid} (h : Tracks base parse c n) (hrecoverable : Recoverable base parse c n)
    (env : Env) (peers : List PeerAddress) (enableAudit enablePeerValidation : Bool) (signedKey : String) :
    Tracks base parse
      (c.handle base parse env (.restart n peers enableAudit enablePeerValidation signedKey)) n := by
  have hnode : (c.swarm.restart n peers enableAudit enablePeerValidation signedKey).nodes n =
      Node.construct n peers enableAudit enablePeerValidation signedKey (c.swarm.nodes n).log := by
    simp [Swarm.restart]
  constructor
  · show ∀ entry ∈ ((c.swarm.restart n peers enableAudit enablePeerValidation signedKey).nodes n).log.entries, _
    rw [hnode]
    exact h.labelled
  · show ((c.swarm.restart n peers enableAudit enablePeerValidation signedKey).nodes n).commitIndex ≤
      ((c.swarm.restart n peers enableAudit enablePeerValidation signedKey).nodes n).log.size
    rw [hnode]
    exact (c.swarm.nodes n).log.size_pos
  · show CommittedBelow c.committed _
      ((c.swarm.restart n peers enableAudit enablePeerValidation signedKey).nodes n).commitIndex
    rw [hnode]
    intro i entry hpos hlt
    have hone : i < 1 := hlt
    omega
  · have hstorage : (c.handle base parse env
        (.restart n peers enableAudit enablePeerValidation signedKey)).storage n =
          contents base parse (c.swarm.nodes n).log.entries := by
      unfold Cluster.handle
      dsimp only
      rw [if_pos rfl, initializeStorageFromLog_eq h.labelled]
      rcases hrecoverable.left with hnothing | heverything
      · rw [hnothing]
        rfl
      · obtain ⟨k, hle, _, hstorage⟩ := h.reflects
        rw [heverything, hstorage, hrecoverable.repeatable.restore hle]
    rw [hstorage]
    show Stored base parse c.committed
      ((c.swarm.restart n peers enableAudit enablePeerValidation signedKey).nodes n).log.entries
      ((c.swarm.restart n peers enableAudit enablePeerValidation signedKey).nodes n).commitIndex _
    rw [hnode]
    right
    exact ⟨(c.swarm.nodes n).log.entries, List.prefix_rfl, (c.swarm.nodes n).log.size_pos,
      hrecoverable.settled, hrecoverable.repeatable, rfl⟩

theorem tracks_of_run (hfirst : first.Labelled)
    (run : ((cluster base parse env first).guard (Restores base parse)).Run past c) (n : Uuid) :
    Tracks base parse c n := by
  induction run generalizing n with
  | @start c hinit =>
      obtain ⟨hswarm, _, hstorage⟩ := hinit
      obtain ⟨peers, enableAudit, enablePeerValidation, signedKey, hnode⟩ := hswarm.2 n
      have hlabelled : ∀ entry ∈ (startLog first).entries, entry.Labelled := by
        intro entry hentry
        rw [List.mem_singleton.mp hentry]
        exact hfirst
      constructor
      · rw [hnode]
        exact hlabelled
      · rw [hnode]
        exact le_refl _
      · rw [hnode]
        intro i entry hpos hlt
        have hone : i < 1 := hlt
        omega
      · rw [hnode, hstorage n, initializeStorageFromLog_eq hlabelled]
        exact Or.inl rfl
  | @step past c event run henabled ih =>
      cases event with
      | act a =>
          show Tracks base parse (c.act base parse env a) n
          by_cases hn : n = a.uuid
          · subst hn
            exact (ih a.uuid).act
          · refine (ih n).other (Swarm.act_nodes_other hn) ?_ (List.subset_append_left _ _)
            simp [Cluster.act, hn]
      | restart uuid peers enableAudit enablePeerValidation signedKey =>
          by_cases hn : n = uuid
          · subst hn
            exact (ih n).restart henabled.2 env peers enableAudit enablePeerValidation signedKey
          · refine (ih n).other ?_ ?_ (List.Subset.refl _)
            · simp [cluster, Machine.guard, Cluster.handle, Swarm.restart, hn]
            · simp [cluster, Machine.guard, Cluster.handle, hn]

theorem reflects_of_run {peers : List PeerAddress}
    (run : ((cluster base parse env (createDatFile peers)).guard (Restores base parse)).Run past c) (n : Uuid) :
    Reflects base parse c n := by
  have hfirst : (createDatFile peers).Labelled := .of_ne (by simp [createDatFile]) (by simp [createDatFile])
  exact (tracks_of_run hfirst run n).reflects

-- A request to create the record k with the value v in the database db, and its text.
def createK : DatabaseMsg := { header := some ⟨"db", 1⟩, command := .create "k" [118] }

def createKText : String := "UhAKBgoCZGIQARIGCgFrEgF2"

def parseK (text : String) : Option BznMsg := if text = createKText then some (.db createK) else none

def threeCluster : Machine (Cluster MemStorage) Event :=
  cluster memStorage parseK openEnv (createDatFile threePeers)

instance (c : Cluster MemStorage) (event : Event) : Decidable (threeCluster.enabled c event) :=
  inferInstanceAs (Decidable (c.swarm.Admits event))

def freshCluster : Cluster MemStorage := ⟨freshSwarm, fun _ => ∅, []⟩

theorem threeCluster_start : threeCluster.init freshCluster :=
  ⟨⟨rfl, fun _ => ⟨_, _, _, _, rfl⟩⟩, rfl, fun _ => rfl⟩

-- A appends the request and, with the help of C, commits it.
def oneRequest : List Action := firstLeader ++
  [Action.appendLog "A" createKText, .heartbeatTimeout "A" false,
    .pass "A" "C" (createAppendEntriesRequest "A" 1 1 0 0 1 (.database createKText)),
    .pass "C" "A" (createAppendEntriesResponse "C" 1 true 2)]

def oneRecord : Cluster MemStorage := (threeCluster.replay [] freshCluster (oneRequest.map .act)).2

theorem run_of_actions (actions : List Action)
    (hadmits : threeCluster.Admits freshCluster (actions.map .act)) :
    (threeCluster.guard (Restores memStorage parseK)).Run
      (threeCluster.replay [] freshCluster (actions.map .act)).1
      (threeCluster.replay [] freshCluster (actions.map .act)).2 := by
  refine ((Machine.Run.start threeCluster_start).replay _ hadmits).guard_of ?_
  intro step hstep
  have hmem := List.mem_map_of_mem (f := Prod.snd) hstep
  rw [Machine.replay_actions, List.map_nil, List.append_nil, List.mem_reverse] at hmem
  obtain ⟨a, _, ha⟩ := List.mem_map.mp hmem
  rw [← ha]
  trivial

theorem oneRecord_recoverable : Recoverable memStorage parseK oneRecord "A" := by
  refine ⟨⟨2, ?_, by decide +kernel⟩, by decide +kernel, Or.inl rfl⟩
  · intro i entry hpos hlt hentry
    obtain rfl : i = 1 := by omega
    have hsecond : (oneRecord.swarm.nodes "A").log.entries[1]? =
        some ⟨.database, 1, 1, .database createKText⟩ := by decide +kernel
    rw [hsecond, Option.some.injEq] at hentry
    rw [← hentry]
    decide +kernel

theorem reflects_of_run_record :
    let next := oneRecord.handle memStorage parseK openEnv (.restart "A" threePeers false false "")
    (next.storage "A").lookup ("db", Bytes.ofString "k") = some [118] ∧
      Reflects memStorage parseK next "A" := by
  have hrun := run_of_actions oneRequest (by decide +kernel)
  have hrestart : (threeCluster.guard (Restores memStorage parseK)).enabled oneRecord
      (.restart "A" threePeers false false "") := ⟨trivial, oneRecord_recoverable⟩
  exact ⟨by decide +kernel, reflects_of_run (.step hrun hrestart) "A"⟩

-- A appends the request, and stops before anyone hears of it.
def lostRequest : List Event :=
  (firstLeader ++ [Action.appendLog "A" createKText]).map .act ++ [.restart "A" threePeers false false ""]

theorem reflects_broken : ¬∀ (env : Env) (peers : List PeerAddress) (past : List (Cluster MemStorage × Event))
    (c : Cluster MemStorage), (cluster memStorage parseK env (createDatFile peers)).Run past c →
      ∀ n, Reflects memStorage parseK c n := by
  intro h
  obtain ⟨k, hk, hcommitted, hstorage⟩ := h openEnv threePeers _ _
    ((Machine.Run.start threeCluster_start).replay lostRequest (by decide +kernel)) "A"
  have hsize : ((threeCluster.replay [] freshCluster lostRequest).2.swarm.nodes "A").log.size = 2 := by
    decide +kernel
  have hrecord : ((threeCluster.replay [] freshCluster lostRequest).2.storage "A").lookup
      ("db", Bytes.ofString "k") = some [118] := by decide +kernel
  have hnone : (threeCluster.replay [] freshCluster lostRequest).2.committed = [] := by decide +kernel
  change k ≤ ((threeCluster.replay [] freshCluster lostRequest).2.swarm.nodes "A").log.size at hk
  change CommittedBelow (threeCluster.replay [] freshCluster lostRequest).2.committed _ _ at hcommitted
  change (threeCluster.replay [] freshCluster lostRequest).2.storage "A" = _ at hstorage
  rw [hsize] at hk
  rw [hnone] at hcommitted
  rw [hstorage] at hrecord
  -- the request was not committed, so the beginning ends before it
  by_cases hbefore : k ≤ 1
  · obtain rfl | rfl : k = 0 ∨ k = 1 := by omega
    · exact absurd hrecord (by decide +kernel)
    · exact absurd hrecord (by decide +kernel)
  · have hsecond : ((threeCluster.replay [] freshCluster lostRequest).2.swarm.nodes "A").log.entries[1]? =
        some ⟨.database, 1, 1, .database createKText⟩ := by decide +kernel
    exact absurd (hcommitted 1 _ (by decide) (by omega) hsecond) List.not_mem_nil

end Run

end SwarmDB.Raft
