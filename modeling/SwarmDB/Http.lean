import SwarmDB.Raft.Crud
import SwarmDB.Raft.Node.Move

namespace SwarmDB.Http

open Raft

inductive Verb
  | get
  | post
  | other
  deriving DecidableEq, Repr

inductive Status
  | ok
  | temporaryRedirect
  | badRequest
  deriving DecidableEq, Repr

structure Response where
  status : Status := .ok
  location : Option String := none
  body : Bytes := []
  deriving DecidableEq, Repr

def ack : Bytes := Bytes.ofString "ack"

def err : Bytes := Bytes.ofString "err"

-- A redirect needs a leader that is known.
def formatHttpResponse (target : String) : CrudResponse → Response
  | .redirect leader =>
    if leader.host ≠ "" then
      { status := .temporaryRedirect,
        location := some ("http://" ++ leader.host ++ ":" ++ toString leader.httpPort ++ target) }
    else { body := err }
  | .read _ value => { body := ack ++ value }
  | .error _ => { body := err }
  | .unset => { body := ack }

def createReq : String := "create"
def readReq : String := "read"
def updateReq : String := "update"
def deleteReq : String := "delete"

-- The message for the log: the request in base64.
def requestOf (uuid : Uuid) (command : DatabaseCommand) : CrudRequest where
  dbUuid := uuid
  text :=
    String.ofList (Base64.encode (BznMsg.serialize (.db { header := some { dbUuid := uuid }, command := command })))

section Connection

variable (node : Node) (storage : StorageView) (target : String)

-- What comes of a request: an exception, or the node and the response.
abbrev Outcome := Except Exception (Node × Response)

def answer (handled : Except Exception (Node × CrudResponse)) : Outcome :=
  handled.map fun result => (result.1, formatHttpResponse target result.2)

def badRequest : Outcome := .ok (node, { status := .badRequest })

def handleGet (request uuid key : String) : Outcome :=
  if request = readReq then answer target (node.handleRead storage ⟨uuid, ""⟩ key) else badRequest node

def handlePost (request uuid key : String) (body : Bytes) : Outcome :=
  if request = createReq then
    answer target (node.handleCreate storage (requestOf uuid (.create key body)) key body)
  else if request = updateReq then
    answer target (node.handleUpdate storage (requestOf uuid (.update key body)) key body)
  else if request = deleteReq then
    answer target (node.handleDelete storage (requestOf uuid (.delete key)) key)
  else badRequest node

-- The target has three levels: the request, the database and the key.
def doReadRequest (verb : Verb) (body : Bytes) : Outcome :=
  match (target.toList.splitOn '/').map String.ofList, verb with
  | [_, request, uuid, key], .get => handleGet node storage target request uuid key
  | [_, request, uuid, key], .post => handlePost node storage target request uuid key body
  | _, _ => badRequest node

end Connection

section Acknowledgement

-- The three requests that write.
inductive Post
  | create
  | update
  | delete
  deriving DecidableEq, Repr

namespace Post

def name : Post → String
  | create => createReq
  | update => updateReq
  | delete => deleteReq

def command (key : String) (body : Bytes) : Post → DatabaseCommand
  | create => .create key body
  | update => .update key body
  | delete => .delete key

end Post

variable {node : Node} {storage : StorageView} {target : String} {post : Post} {uuid key : String} {body : Bytes}

-- The node has put the request at the end of its log.
def Appended (node : Node) (text : String) (next : Node) : Prop :=
  next.log = node.log.leaderAppendEntry ⟨.database, node.log.size, node.currentTerm, .database text⟩

-- The response sends the client to the leader the node knows of.
def Redirects (node : Node) (target : String) (response : Response) : Prop :=
  ∃ leader, node.getLeaderUnsafe = .ok leader ∧ leader.host ≠ "" ∧
    response = formatHttpResponse target (.redirect leader)

-- An ack means that the request was appended, and without that the response is err or a redirect.
def Honest (node : Node) (target text : String) (outcome : Outcome) : Prop :=
  ∃ next response, outcome = .ok (next, response) ∧ (ack <+: response.body → Appended node text next) ∧
    (¬Appended node text next → response = { body := err } ∨ Redirects node target response)

-- A create that only a leader can do, and another node acknowledges.
def AcksUnwritten (node : Node) (storage : StorageView) (post : Post) (uuid key : String) (body : Bytes) : Prop :=
  post = .create ∧ node.currentState ≠ .leader ∧ body.length ≤ maxValueSize ∧
    (Bytes.ofString key).length ≤ maxKeySize ∧ storage.has uuid (Bytes.ofString key) = false

-- The leader is looked up in a log that does not say who the peers are.
def AsksInVain (node : Node) (storage : StorageView) (post : Post) (uuid key : String) (body : Bytes) : Prop :=
  node.currentState ≠ .leader ∧
    (post = .delete ∨
      post = .update ∧ body.length ≤ maxValueSize ∧ storage.has uuid (Bytes.ofString key) = true) ∧
    ∃ e, getAllPeers node.log = .error e

theorem not_ack_err : ¬ack <+: err := by decide +kernel

theorem not_ack_nil : ¬ack <+: [] := by decide +kernel

theorem honest_error {text message : String} : Honest node target text (answer target (.ok (node, .error message))) :=
  ⟨node, { body := err }, rfl, fun hack => absurd hack not_ack_err, fun _ => Or.inl rfl⟩

theorem honest_appended {text : String} (hleader : node.currentState = .leader) :
    Honest node target text (answer target (.ok (node.appendLog (.database text) .database, .unset))) := by
  have happended : Appended node text (node.appendLog (.database text) .database) := by
    simp [Appended, Node.appendLog, Node.appendLogUnsafe, hleader]
  exact ⟨_, _, rfl, fun _ => happended, fun hnot => absurd happended hnot⟩

theorem leaderAppendEntry_ne (log : RaftLog) (entry : LogEntry) : log ≠ log.leaderAppendEntry entry := by
  intro hsame
  have hlength := congrArg RaftLog.size hsame
  simp [RaftLog.size, RaftLog.leaderAppendEntry] at hlength

theorem not_honest_unset {text : String} : ¬Honest node target text (answer target (.ok (node, .unset))) := by
  rintro ⟨next, response, houtcome, hack, _⟩
  obtain ⟨rfl, rfl⟩ := Prod.mk.inj (Except.ok.inj houtcome)
  exact leaderAppendEntry_ne _ _ (hack (List.prefix_refl ack))

theorem honest_leaderInfo_iff {text : String} :
    Honest node target text (answer target node.setLeaderInfo) ↔ ¬∃ e, getAllPeers node.log = .error e := by
  unfold Node.setLeaderInfo
  cases hpeers : getAllPeers node.log with
  | error e =>
      have hleader : node.getLeaderUnsafe = .error e := by simp [Node.getLeaderUnsafe, hpeers, Except.map]
      rw [hleader]
      refine iff_of_false ?_ (by simp)
      rintro ⟨next, response, houtcome, _⟩
      cases houtcome
  | ok peers =>
      obtain ⟨leader, hleader⟩ : ∃ leader, node.getLeaderUnsafe = .ok leader := by
        simp [Node.getLeaderUnsafe, hpeers, Except.map]
      rw [hleader]
      refine iff_of_true ⟨node, formatHttpResponse target (.redirect leader), rfl, ?_, ?_⟩ (by simp)
      · intro hack
        exfalso
        revert hack
        simp only [formatHttpResponse]
        split
        · exact not_ack_nil
        · exact not_ack_err
      · intro _
        by_cases hhost : leader.host = ""
        · exact Or.inl (by simp [formatHttpResponse, hhost])
        · exact Or.inr ⟨leader, hleader, hhost, rfl⟩

theorem not_honest_create (hother : node.currentState ≠ .leader) (hvalue : body.length ≤ maxValueSize)
    (hkey : (Bytes.ofString key).length ≤ maxKeySize) (hhas : storage.has uuid (Bytes.ofString key) = false) :
    ¬Honest node target (requestOf uuid (.create key body)).text
      (answer target (node.handleCreate storage (requestOf uuid (.create key body)) key body)) := by
  have hunset : node.handleCreate storage (requestOf uuid (.create key body)) key body = .ok (node, .unset) := by
    unfold Node.handleCreate
    rw [if_neg (Nat.not_lt.mpr hvalue), if_neg (Nat.not_lt.mpr hkey), if_neg, if_neg hother]
    simp [requestOf, hhas]
  rw [hunset]
  exact not_honest_unset

-- A node other than the leader has no reason to refuse such a create, and acknowledges it.
theorem honest_create_iff : Honest node target (requestOf uuid (.create key body)).text
      (answer target (node.handleCreate storage (requestOf uuid (.create key body)) key body)) ↔
    ¬AcksUnwritten node storage .create uuid key body := by
  by_cases hacks : AcksUnwritten node storage .create uuid key body
  · obtain ⟨_, hother, hvalue, hkey, hhas⟩ := hacks
    exact iff_of_false (not_honest_create hother hvalue hkey hhas)
      (not_not_intro ⟨rfl, hother, hvalue, hkey, hhas⟩)
  · refine iff_of_true ?_ hacks
    unfold Node.handleCreate
    split
    · exact honest_error
    · rename_i hvalue
      split
      · exact honest_error
      · rename_i hkey
        split
        · exact honest_error
        · rename_i hhas
          split
          · rename_i hleader
            exact honest_appended hleader
          · rename_i hother
            refine absurd ⟨rfl, hother, Nat.not_lt.mp hvalue, Nat.not_lt.mp hkey, ?_⟩ hacks
            exact Bool.eq_false_of_not_eq_true hhas

-- An update looks the leader up only when there is something to update.
theorem honest_update_iff : Honest node target (requestOf uuid (.update key body)).text
      (answer target (node.handleUpdate storage (requestOf uuid (.update key body)) key body)) ↔
    ¬AsksInVain node storage .update uuid key body := by
  unfold Node.handleUpdate
  split
  · rename_i hvalue
    apply iff_of_true honest_error
    rintro ⟨_, hpost | ⟨_, hfits, _⟩, _⟩
    · cases hpost
    · exact absurd hfits (Nat.not_le.mpr hvalue)
  · rename_i hvalue
    split
    · rename_i hhas
      apply iff_of_true honest_error
      rintro ⟨_, hpost | ⟨_, _, hfound⟩, _⟩
      · cases hpost
      · exact Bool.false_ne_true (hhas.symm.trans hfound)
    · rename_i hhas
      split
      · rename_i hleader
        exact iff_of_true (honest_appended hleader) fun hasks => hasks.1 hleader
      · rename_i hother
        rw [honest_leaderInfo_iff, not_iff_not]
        constructor
        · intro herror
          exact ⟨hother, Or.inr ⟨rfl, Nat.not_lt.mp hvalue, Bool.eq_true_of_not_eq_false hhas⟩, herror⟩
        · exact fun hasks => hasks.2.2

theorem honest_delete_iff : Honest node target (requestOf uuid (.delete key)).text
      (answer target (node.handleDelete storage (requestOf uuid (.delete key)) key)) ↔
    ¬AsksInVain node storage .delete uuid key body := by
  unfold Node.handleDelete
  split
  · rename_i hother
    rw [honest_leaderInfo_iff, not_iff_not]
    exact ⟨fun herror => ⟨hother, Or.inl rfl, herror⟩, fun hasks => hasks.2.2⟩
  · rename_i hstate
    have hleader : node.currentState = .leader := by simpa using hstate
    split
    · exact iff_of_true (honest_appended hleader) fun hasks => hasks.1 hleader
    · exact iff_of_true honest_error fun hasks => hasks.1 hleader

-- An HTTP acknowledgement is honest except for a create that a node other than the leader has no reason
-- to refuse, as long as the leader is known where it is looked up.
theorem honest_post_iff (node : Node) (storage : StorageView) (target : String) (post : Post) (uuid key : String)
    (body : Bytes) :
    Honest node target (requestOf uuid (post.command key body)).text
        (handlePost node storage target post.name uuid key body) ↔
      ¬AcksUnwritten node storage post uuid key body ∧ ¬AsksInVain node storage post uuid key body := by
  cases post with
  | create =>
      have hvain : ¬AsksInVain node storage .create uuid key body := by
        rintro ⟨_, hpost | ⟨hpost, _⟩, _⟩
        · cases hpost
        · cases hpost
      rw [and_iff_left hvain]
      exact honest_create_iff
  | update =>
      have hacks : ¬AcksUnwritten node storage .update uuid key body := fun hacks => by cases hacks.1
      rw [and_iff_right hacks]
      exact honest_update_iff
  | delete =>
      have hacks : ¬AcksUnwritten node storage .delete uuid key body := fun hacks => by cases hacks.1
      rw [and_iff_right hacks]
      exact honest_delete_iff

-- A follower acknowledges a create of its empty storage, and nobody gets to hear of it.
theorem honest_post_broken : ¬∀ (node : Node) (storage : StorageView) (target : String) (post : Post)
    (uuid key : String) (body : Bytes),
    Honest node target (requestOf uuid (post.command key body)).text
      (handlePost node storage target post.name uuid key body) := by
  intro hall
  refine not_honest_create ?_ ?_ ?_ ?_ (hall (freshNode "B") (KvStore.view ∅) "/create/db/k" .create "db" "k" [118])
  · decide
  · decide
  · decide +kernel
  · decide +kernel

end Acknowledgement

end SwarmDB.Http
