import SwarmDB.Http
import SwarmDB.SubscriptionManager

namespace SwarmDB

-- What raft_crud asks a storage.
structure StorageReader (S : Type) where
  has : Uuid → Bytes → S → Bool
  read : Uuid → Bytes → S → Option Bytes
  getKeys : Uuid → S → Finset Bytes
  getSize : Uuid → S → Nat × Nat

def memReader : StorageReader MemStorage where
  has := MemStorage.has
  read := MemStorage.read
  getKeys := MemStorage.getKeys
  getSize := MemStorage.getSize

def StorageReader.view {S : Type} (reader : StorageReader S) (s : S) : StorageView where
  has uuid key := reader.has uuid key s
  read uuid key := reader.read uuid key s

-- One commit after the other.
def SubscriptionHub.commits {S : Type} (base : StorageBase S) (parse : String → Option BznMsg) :
    List Raft.JsonMessage → SubscriptionHub S → Reaction S
  | [], hub => { hub := hub }
  | msg :: rest, hub =>
    let first := commit base parse msg hub
    let more := commits base parse rest first.hub
    { hub := more.hub, datagrams := first.datagrams ++ more.datagrams }

namespace Raft

def msgInvalidCrudCommand : String := "INVALID_CRUD"
def msgInvalidArguments : String := "INVALID_ARGUMENTS"
def msgElectionInProgress : String := "ELECTION_IN_PROGRESS"

-- The oneof of a response, as far as raft_crud fills it in. The two numbers of a size are 32-bit.
inductive CrudAnswer
  | plain (response : CrudResponse)
  | keys (keys : Finset Bytes)
  | has (key : String) (has : Bool)
  | size (keys bytes : Int)
  deriving DecidableEq

structure RaftCrudResponse where
  header : DatabaseHeader := {}
  body : CrudAnswer
  deriving DecidableEq

structure Sent where
  session : Session
  response : RaftCrudResponse
  endSession : Bool
  deriving DecidableEq

-- A node with what its raft_crud holds: the storage, and the subscriptions.
structure Daemon (S : Type) where
  node : Node
  hub : SubscriptionHub S

-- What comes of a client's message. After an exception nothing is sent.
structure Served (S : Type) where
  daemon : Daemon S
  sent : Option Sent := none
  thrown : Option Exception := none

namespace Daemon

variable {S : Type} (reader : StorageReader S) (parse : String → Option BznMsg) (d : Daemon S)

def view : StorageView := reader.view d.hub.storage

def handleGetKeys (request : DatabaseMsg) : CrudAnswer := .keys (reader.getKeys (Crud.dbUuid request) d.hub.storage)

def handleHas (request : DatabaseMsg) (key : String) : CrudAnswer :=
  .has key (reader.has (Crud.dbUuid request) (Bytes.ofString key) d.hub.storage)

def handleSize (request : DatabaseMsg) : CrudAnswer :=
  let size := reader.getSize (Crud.dbUuid request) d.hub.storage
  .size (Crud.toInt32 size.1) (Crud.toInt32 size.2)

def plain (handled : Except Exception (Node × CrudResponse)) : Except Exception (Node × CrudAnswer) :=
  handled.map fun result => (result.1, .plain result.2)

-- The handler for a command, and what it makes of the request. A text comes along for the log.
def commandHandlers (text : String) (request : DatabaseMsg) : Option (Except Exception (Node × CrudAnswer)) :=
  match request.command with
  | .create key value =>
    some (plain (d.node.handleCreate (d.view reader) ⟨Crud.dbUuid request, text⟩ key value))
  | .read key => some (plain (d.node.handleRead (d.view reader) ⟨Crud.dbUuid request, text⟩ key))
  | .update key value =>
    some (plain (d.node.handleUpdate (d.view reader) ⟨Crud.dbUuid request, text⟩ key value))
  | .delete key => some (plain (d.node.handleDelete (d.view reader) ⟨Crud.dbUuid request, text⟩ key))
  | .keys => some (.ok (d.node, d.handleGetKeys reader request))
  | .has key => some (.ok (d.node, d.handleHas reader request key))
  | .size => some (.ok (d.node, d.handleSize reader request))
  | .unset | .subscribe _ | .unsubscribe .. => none

def doLeaderTasks (text : String) (request : DatabaseMsg) : Except Exception (Node × CrudAnswer) :=
  (d.commandHandlers reader text request).getD (.ok (d.node, .plain .unset))

def doCandidateTasks : Except Exception (Node × CrudAnswer) :=
  .ok (d.node, .plain (.error msgElectionInProgress))

def doFollowerTasks (text : String) (request : DatabaseMsg) : Except Exception (Node × CrudAnswer) :=
  match request.command with
  | .read _ | .keys | .has _ | .size =>
    (d.commandHandlers reader text request).getD (.ok (d.node, .plain .unset))
  | .unset | .create .. | .update .. | .delete _ | .subscribe _ | .unsubscribe .. => plain d.node.setLeaderInfo

def subscriptionAnswer (error : Option String) : CrudAnswer := .plain ((error.map .error).getD .unset)

def doRaftTaskRouting (text : String) (request : DatabaseMsg) (session : Session) :
    Except Exception (Daemon S × CrudAnswer) :=
  let onNode := Except.map fun result : Node × CrudAnswer => ({ d with node := result.1 }, result.2)
  match request.command with
  | .subscribe key =>
    let answer := SubscriptionManager.subscribe (Crud.dbUuid request) key (Crud.headerOf request).transactionId
      session d.hub.subscribers
    .ok ({ d with hub := { d.hub with subscribers := answer.2 } }, subscriptionAnswer answer.1)
  | .unsubscribe key transactionId =>
    let answer := SubscriptionManager.unsubscribe (Crud.dbUuid request) key transactionId session d.hub.subscribers
    .ok ({ d with hub := { d.hub with subscribers := answer.2 } }, subscriptionAnswer answer.1)
  | .unset | .create .. | .read _ | .update .. | .delete _ | .has _ | .keys | .size =>
    match d.node.currentState with
    | .leader => onNode (d.doLeaderTasks reader text request)
    | .candidate => onNode d.doCandidateTasks
    | .follower => onNode (d.doFollowerTasks reader text request)

def refuse (session : Session) (message : String) : Served S :=
  { daemon := d, sent := some ⟨session, { body := .plain (.error message) }, true⟩ }

-- The text is that of the member msg, if there is one.
def handleWsCrudMessages (session : Session) (message : Option String) : Served S :=
  match message with
  | none => d.refuse session msgInvalidCrudCommand
  | some text =>
    match parse text with
    | none => d.refuse session msgInvalidCrudCommand
    | some .unset | some (.json _) => d.refuse session msgInvalidArguments
    | some (.db request) =>
      match d.doRaftTaskRouting reader text request session with
      | .error e => { daemon := d, thrown := some e }
      | .ok (daemon, body) =>
        { daemon := daemon, sent := some ⟨session, { header := Crud.headerOf request, body := body }, false⟩ }

-- An http request, which goes to the same handlers.
def doReadRequest (verb : Http.Verb) (target : String) (body : Bytes) : Daemon S × Option Http.Response :=
  match Http.doReadRequest d.node (d.view reader) target verb body with
  | .error _ => (d, none)
  | .ok (node, response) => ({ d with node := node }, some response)

-- A step of the node, with the calls of the commit handler in it.
def step (base : StorageBase S) (env : Env) (input : Input) : Daemon S × List Datagram :=
  let outcome := d.node.step env input
  let reaction := d.hub.commits base parse ((outcome.effects.filterMap Effect.committed).map Prod.snd)
  (⟨outcome.node, reaction.hub⟩, reaction.datagrams)

end Daemon

section Submission

variable {S : Type} {reader : StorageReader S} {parse : String → Option BznMsg} {d : Daemon S} {node node' : Node}
  {view : StorageView} {uuid : Uuid} {text : String}

-- What a leader lets into its log.
def Admits (view : StorageView) (uuid : Uuid) : DatabaseCommand → Prop
  | .create key value => value.length ≤ maxValueSize ∧ (Bytes.ofString key).length ≤ maxKeySize ∧
    view.has uuid (Bytes.ofString key) = false
  | .update key value => value.length ≤ maxValueSize ∧ view.has uuid (Bytes.ofString key) = true
  | .delete key => view.has uuid (Bytes.ofString key) = true
  | .unset | .read _ | .has _ | .keys | .size | .subscribe _ | .unsubscribe .. => False

-- A leader has put the text at the end of its log.
structure Submits (node : Node) (text : String) (node' : Node) : Prop where
  leads : node.currentState = .leader
  node_eq : node' = node.appendLog (.database text) .database

theorem setLeaderInfo_node {response : CrudResponse} (h : node.setLeaderInfo = .ok (node', response)) :
    node' = node := by
  unfold Node.setLeaderInfo at h
  cases hleader : node.getLeaderUnsafe with
  | error e => simp [hleader, Except.map] at h
  | ok leader =>
      simp only [hleader, Except.map, Except.ok.injEq, Prod.mk.injEq] at h
      exact h.1.symm

theorem handleCreate_cases {key : String} {value : Bytes} {response : CrudResponse}
    (h : node.handleCreate view ⟨uuid, text⟩ key value = .ok (node', response)) :
    node' = node ∨ Submits node text node' ∧ Admits view uuid (.create key value) := by
  unfold Node.handleCreate at h
  split at h
  · exact Or.inl (Prod.mk.inj (Except.ok.inj h)).1.symm
  · rename_i hvalue
    split at h
    · exact Or.inl (Prod.mk.inj (Except.ok.inj h)).1.symm
    · rename_i hkey
      split at h
      · exact Or.inl (Prod.mk.inj (Except.ok.inj h)).1.symm
      · rename_i hhas
        split at h
        · rename_i hleader
          exact Or.inr ⟨⟨hleader, (Prod.mk.inj (Except.ok.inj h)).1.symm⟩, Nat.not_lt.mp hvalue,
            Nat.not_lt.mp hkey, Bool.eq_false_iff.mpr hhas⟩
        · exact Or.inl (Prod.mk.inj (Except.ok.inj h)).1.symm

theorem handleRead_node {key : String} {response : CrudResponse}
    (h : node.handleRead view ⟨uuid, text⟩ key = .ok (node', response)) : node' = node := by
  unfold Node.handleRead at h
  split at h
  · exact (Prod.mk.inj (Except.ok.inj h)).1.symm
  · split at h
    · exact (Prod.mk.inj (Except.ok.inj h)).1.symm
    · exact setLeaderInfo_node h

theorem handleUpdate_cases {key : String} {value : Bytes} {response : CrudResponse}
    (h : node.handleUpdate view ⟨uuid, text⟩ key value = .ok (node', response)) :
    node' = node ∨ Submits node text node' ∧ Admits view uuid (.update key value) := by
  unfold Node.handleUpdate at h
  split at h
  · exact Or.inl (Prod.mk.inj (Except.ok.inj h)).1.symm
  · rename_i hvalue
    split at h
    · exact Or.inl (Prod.mk.inj (Except.ok.inj h)).1.symm
    · rename_i hhas
      split at h
      · rename_i hleader
        exact Or.inr ⟨⟨hleader, (Prod.mk.inj (Except.ok.inj h)).1.symm⟩, Nat.not_lt.mp hvalue,
          (Bool.not_eq_false _).mp hhas⟩
      · exact Or.inl (setLeaderInfo_node h)

theorem handleDelete_cases {key : String} {response : CrudResponse}
    (h : node.handleDelete view ⟨uuid, text⟩ key = .ok (node', response)) :
    node' = node ∨ Submits node text node' ∧ Admits view uuid (.delete key) := by
  unfold Node.handleDelete at h
  split at h
  · exact Or.inl (setLeaderInfo_node h)
  · rename_i hleader
    split at h
    · rename_i hhas
      exact Or.inr ⟨⟨not_not.mp hleader, (Prod.mk.inj (Except.ok.inj h)).1.symm⟩, hhas⟩
    · exact Or.inl (Prod.mk.inj (Except.ok.inj h)).1.symm

theorem plain_ok {handled : Except Exception (Node × CrudResponse)} {body : CrudAnswer}
    (h : Daemon.plain handled = .ok (node', body)) :
    ∃ response, handled = .ok (node', response) ∧ body = .plain response := by
  unfold Daemon.plain at h
  cases handled with
  | error e => cases h
  | ok result =>
      simp only [Except.map, Except.ok.injEq, Prod.mk.injEq] at h
      exact ⟨result.2, by rw [← h.1], h.2.symm⟩

-- A call leaves the node alone, or submits a request that is admitted.
def Lets (view : StorageView) (node : Node) (text : String) (request : DatabaseMsg) (node' : Node) : Prop :=
  node' = node ∨ Submits node text node' ∧ Admits view (Crud.dbUuid request) request.command

theorem commandHandlers_lets {request : DatabaseMsg} {body : CrudAnswer}
    (h : d.commandHandlers reader text request = some (.ok (node', body))) :
    Lets (d.view reader) d.node text request node' := by
  unfold Daemon.commandHandlers at h
  unfold Lets
  cases hcommand : request.command with
  | create key value =>
      rw [hcommand] at h
      obtain ⟨_, hhandled, _⟩ := plain_ok (Option.some.inj h)
      exact handleCreate_cases hhandled
  | read key =>
      rw [hcommand] at h
      obtain ⟨_, hhandled, _⟩ := plain_ok (Option.some.inj h)
      exact Or.inl (handleRead_node hhandled)
  | update key value =>
      rw [hcommand] at h
      obtain ⟨_, hhandled, _⟩ := plain_ok (Option.some.inj h)
      exact handleUpdate_cases hhandled
  | delete key =>
      rw [hcommand] at h
      obtain ⟨_, hhandled, _⟩ := plain_ok (Option.some.inj h)
      exact handleDelete_cases hhandled
  | keys | has _ | size =>
      rw [hcommand] at h
      exact Or.inl (Prod.mk.inj (Except.ok.inj (Option.some.inj h))).1.symm
  | unset | subscribe _ | unsubscribe _ _ =>
      rw [hcommand] at h
      cases h

theorem getD_lets {request : DatabaseMsg} {body : CrudAnswer}
    (h : (d.commandHandlers reader text request).getD (.ok (d.node, .plain .unset)) = .ok (node', body)) :
    Lets (d.view reader) d.node text request node' := by
  cases hhandler : d.commandHandlers reader text request with
  | none =>
      rw [hhandler] at h
      exact Or.inl (Prod.mk.inj (Except.ok.inj h)).1.symm
  | some handled =>
      rw [hhandler, Option.getD_some] at h
      rw [h] at hhandler
      exact commandHandlers_lets hhandler

theorem doFollowerTasks_lets {request : DatabaseMsg} {body : CrudAnswer}
    (h : d.doFollowerTasks reader text request = .ok (node', body)) :
    Lets (d.view reader) d.node text request node' := by
  unfold Daemon.doFollowerTasks at h
  split at h
  all_goals first
    | exact getD_lets h
    | obtain ⟨_, hleader, _⟩ := plain_ok h
      exact Or.inl (setLeaderInfo_node hleader)

-- Everything but a subscription leaves the storage and the subscriptions alone. Nothing but an admitted
-- request gets into the log.
theorem doRaftTaskRouting_lets {request : DatabaseMsg} {session : Session} {daemon : Daemon S} {body : CrudAnswer}
    (h : d.doRaftTaskRouting reader text request session = .ok (daemon, body)) :
    daemon.hub.storage = d.hub.storage ∧ daemon.hub.closed = d.hub.closed ∧
      Lets (d.view reader) d.node text request daemon.node := by
  have hnode : ∀ handled : Except Exception (Node × CrudAnswer),
      (∀ node body, handled = .ok (node, body) → Lets (d.view reader) d.node text request node) →
      handled.map (fun result => ({ d with node := result.1 }, result.2)) = .ok (daemon, body) →
        daemon.hub.storage = d.hub.storage ∧ daemon.hub.closed = d.hub.closed ∧
          Lets (d.view reader) d.node text request daemon.node := by
    intro handled hlets hmap
    cases handled with
    | error e => cases hmap
    | ok result =>
        obtain ⟨rfl, _⟩ := Prod.mk.inj (Except.ok.inj hmap)
        exact ⟨rfl, rfl, hlets _ _ rfl⟩
  unfold Daemon.doRaftTaskRouting at h
  split at h
  · obtain ⟨rfl, _⟩ := Prod.mk.inj (Except.ok.inj h)
    exact ⟨rfl, rfl, Or.inl rfl⟩
  · obtain ⟨rfl, _⟩ := Prod.mk.inj (Except.ok.inj h)
    exact ⟨rfl, rfl, Or.inl rfl⟩
  all_goals
    split at h
    · exact hnode _ (fun _ _ => getD_lets) h
    · exact hnode _ (fun _ _ hcandidate => Or.inl (Prod.mk.inj (Except.ok.inj hcandidate)).1.symm) h
    · exact hnode _ (fun _ _ => doFollowerTasks_lets) h

-- A client's message at most puts its own text into the log.
theorem handleWsCrudMessages_cases (reader : StorageReader S) (parse : String → Option BznMsg) (d : Daemon S)
    (session : Session) (message : Option String) {daemon : Daemon S}
    (h : (d.handleWsCrudMessages reader parse session message).daemon = daemon) :
    daemon.hub.storage = d.hub.storage ∧ daemon.hub.closed = d.hub.closed ∧
      (daemon.node = d.node ∨ ∃ text request, message = some text ∧ parse text = some (.db request) ∧
        Submits d.node text daemon.node ∧ Admits (d.view reader) (Crud.dbUuid request) request.command) := by
  have hsame : d = daemon → daemon.hub.storage = d.hub.storage ∧ daemon.hub.closed = d.hub.closed ∧
      (daemon.node = d.node ∨ ∃ text request, message = some text ∧ parse text = some (.db request) ∧
        Submits d.node text daemon.node ∧ Admits (d.view reader) (Crud.dbUuid request) request.command) := by
    rintro rfl
    exact ⟨rfl, rfl, Or.inl rfl⟩
  cases message with
  | none => exact hsame h
  | some text =>
      simp only [Daemon.handleWsCrudMessages] at h
      cases hparse : parse text with
      | none =>
          rw [hparse] at h
          exact hsame h
      | some msg =>
          cases msg with
          | unset | json _ =>
              rw [hparse] at h
              exact hsame h
          | db request =>
              simp only [hparse] at h
              cases hrouted : d.doRaftTaskRouting reader text request session with
              | error e =>
                  rw [hrouted] at h
                  exact hsame h
              | ok result =>
                  rw [hrouted] at h
                  obtain rfl : result.1 = daemon := h
                  obtain ⟨hstorage, hclosed, hlets⟩ := doRaftTaskRouting_lets hrouted
                  refine ⟨hstorage, hclosed, ?_⟩
                  rcases hlets with hnode | ⟨hsubmits, hadmits⟩
                  · exact Or.inl hnode
                  · exact Or.inr ⟨text, request, rfl, hparse, hsubmits, hadmits⟩

-- The request that an http client makes with a post, and its text.
def httpPost (verb : Http.Verb) (target : String) (body : Bytes) : Option DatabaseMsg :=
  match (target.toList.splitOn '/').map String.ofList, verb with
  | [_, request, uuid, key], .post =>
    let post := fun command => some { header := some { dbUuid := uuid }, command := command }
    if request = Http.createReq then post (.create key body)
    else if request = Http.updateReq then post (.update key body)
    else if request = Http.deleteReq then post (.delete key)
    else none
  | _, _ => none

def httpText (request : DatabaseMsg) : String :=
  String.ofList (Base64.encode (BznMsg.serialize (.db request)))

theorem answer_ok {target : String} {handled : Except Exception (Node × CrudResponse)} {response : Http.Response}
    (h : Http.answer target handled = .ok (node', response)) : ∃ body, handled = .ok (node', body) := by
  unfold Http.answer at h
  cases handled with
  | error e => cases h
  | ok result =>
      simp only [Except.map, Except.ok.injEq, Prod.mk.injEq] at h
      exact ⟨result.2, by rw [← h.1]⟩

theorem doReadRequest_lets {target : String} {verb : Http.Verb} {body : Bytes} {response : Http.Response}
    (h : Http.doReadRequest node view target verb body = .ok (node', response)) :
    node' = node ∨ ∃ request, httpPost verb target body = some request ∧ Submits node (httpText request) node' ∧
      Admits view (Crud.dbUuid request) request.command := by
  have hsame : Http.badRequest node = .ok (node', response) → node' = node :=
    fun hbad => (Prod.mk.inj (Except.ok.inj hbad)).1.symm
  unfold Http.doReadRequest at h
  split at h
  · unfold Http.handleGet at h
    split at h
    · obtain ⟨_, hread⟩ := answer_ok h
      exact Or.inl (handleRead_node hread)
    · exact Or.inl (hsame h)
  · rename_i request uuid key hlevels
    unfold Http.handlePost at h
    unfold httpPost
    rw [hlevels]
    split at h
    · rename_i hrequest
      obtain ⟨_, hcreate⟩ := answer_ok h
      rcases handleCreate_cases hcreate with hnode | ⟨hsubmits, hadmits⟩
      · exact Or.inl hnode
      · exact Or.inr ⟨_, by simp only [if_pos hrequest], hsubmits, hadmits⟩
    · rename_i hcreate
      split at h
      · rename_i hrequest
        obtain ⟨_, hupdate⟩ := answer_ok h
        rcases handleUpdate_cases hupdate with hnode | ⟨hsubmits, hadmits⟩
        · exact Or.inl hnode
        · exact Or.inr ⟨_, by simp only [if_neg hcreate, if_pos hrequest], hsubmits, hadmits⟩
      · rename_i hupdate
        split at h
        · rename_i hrequest
          obtain ⟨_, hdelete⟩ := answer_ok h
          rcases handleDelete_cases hdelete with hnode | ⟨hsubmits, hadmits⟩
          · exact Or.inl hnode
          · exact Or.inr ⟨_, by simp only [if_neg hcreate, if_neg hupdate, if_pos hrequest], hsubmits, hadmits⟩
        · exact Or.inl (hsame h)
  · exact Or.inl (hsame h)

-- So does an http request.
theorem doReadRequest_cases (reader : StorageReader S) (d : Daemon S) (verb : Http.Verb) (target : String)
    (body : Bytes) {daemon : Daemon S} (h : (d.doReadRequest reader verb target body).1 = daemon) :
    daemon.hub = d.hub ∧ (daemon.node = d.node ∨ ∃ request, httpPost verb target body = some request ∧
      Submits d.node (httpText request) daemon.node ∧
        Admits (d.view reader) (Crud.dbUuid request) request.command) := by
  unfold Daemon.doReadRequest at h
  cases hhttp : Http.doReadRequest d.node (d.view reader) target verb body with
  | error e =>
      rw [hhttp] at h
      obtain rfl : d = daemon := h
      exact ⟨rfl, Or.inl rfl⟩
  | ok result =>
      rw [hhttp] at h
      obtain rfl : { d with node := result.1 } = daemon := h
      exact ⟨rfl, doReadRequest_lets hhttp⟩

end Submission

section Answers

variable {S : Type} {reader : StorageReader S} {parse : String → Option BznMsg} {d : Daemon S} {node' : Node}
  {text : String} {request : DatabaseMsg} {body : CrudAnswer}

-- What an answer says about the records is so in this storage.
def Shows (reader : StorageReader S) (s : S) (request : DatabaseMsg) : CrudAnswer → Prop
  | .plain (.read key value) =>
    request.command = .read key ∧ reader.read (Crud.dbUuid request) (Bytes.ofString key) s = some value
  | .plain (.error message) => message = msgRecordNotFound → ∀ key, request.command = .read key →
    reader.read (Crud.dbUuid request) (Bytes.ofString key) s = none
  | .keys keys => keys = reader.getKeys (Crud.dbUuid request) s
  | .has key has => has = reader.has (Crud.dbUuid request) (Bytes.ofString key) s
  | .size keys bytes => (keys, bytes) = ((reader.getSize (Crud.dbUuid request) s).map Crud.toInt32 Crud.toInt32)
  | .plain .unset | .plain (.redirect _) => True

theorem shows_unread {response : CrudResponse} (hread : ∀ key, request.command ≠ .read key)
    (hresponse : ∀ key value, response ≠ .read key value) (s : S) : Shows reader s request (.plain response) := by
  cases response with
  | unset | redirect _ => trivial
  | read key value => exact absurd rfl (hresponse key value)
  | error message => exact fun _ key hcommand => absurd hcommand (hread key)

theorem setLeaderInfo_redirects {node : Node} {response : CrudResponse}
    (h : node.setLeaderInfo = .ok (node', response)) : ∃ leader, response = .redirect leader := by
  unfold Node.setLeaderInfo at h
  cases hleader : node.getLeaderUnsafe with
  | error e => simp [hleader, Except.map] at h
  | ok leader =>
      simp only [hleader, Except.map, Except.ok.injEq, Prod.mk.injEq] at h
      exact ⟨leader, h.2.symm⟩

theorem handleCreate_unread {node : Node} {view : StorageView} {uuid : Uuid} {key : String} {value : Bytes}
    {response : CrudResponse} (h : node.handleCreate view ⟨uuid, text⟩ key value = .ok (node', response)) :
    ∀ key value, response ≠ .read key value := by
  rintro _ _ rfl
  unfold Node.handleCreate at h
  split at h
  · cases h
  · split at h
    · cases h
    · split at h
      · cases h
      · split at h <;> cases h

theorem handleUpdate_unread {node : Node} {view : StorageView} {uuid : Uuid} {key : String} {value : Bytes}
    {response : CrudResponse} (h : node.handleUpdate view ⟨uuid, text⟩ key value = .ok (node', response)) :
    ∀ key value, response ≠ .read key value := by
  rintro _ _ rfl
  unfold Node.handleUpdate at h
  split at h
  · cases h
  · split at h
    · cases h
    · split at h
      · cases h
      · obtain ⟨leader, hredirect⟩ := setLeaderInfo_redirects h
        cases hredirect

theorem handleDelete_unread {node : Node} {view : StorageView} {uuid : Uuid} {key : String}
    {response : CrudResponse} (h : node.handleDelete view ⟨uuid, text⟩ key = .ok (node', response)) :
    ∀ key value, response ≠ .read key value := by
  rintro _ _ rfl
  unfold Node.handleDelete at h
  split at h
  · obtain ⟨leader, hredirect⟩ := setLeaderInfo_redirects h
    cases hredirect
  · split at h <;> cases h

theorem handleRead_shows {key : String} {response : CrudResponse} (hcommand : request.command = .read key)
    (h : d.node.handleRead (d.view reader) ⟨Crud.dbUuid request, text⟩ key = .ok (node', response)) :
    Shows reader d.hub.storage request (.plain response) := by
  unfold Node.handleRead at h
  split at h
  · rename_i value hfound
    obtain rfl : CrudResponse.read key value = response := (Prod.mk.inj (Except.ok.inj h)).2
    exact ⟨hcommand, hfound⟩
  · rename_i hmissing
    split at h
    · obtain rfl : CrudResponse.error msgRecordNotFound = response := (Prod.mk.inj (Except.ok.inj h)).2
      intro _ other hother
      obtain rfl : key = other := DatabaseCommand.read.inj (hcommand.symm.trans hother)
      exact hmissing
    · obtain ⟨leader, rfl⟩ := setLeaderInfo_redirects h
      trivial

theorem commandHandlers_shows (h : d.commandHandlers reader text request = some (.ok (node', body))) :
    Shows reader d.hub.storage request body := by
  unfold Daemon.commandHandlers at h
  cases hcommand : request.command with
  | create key value =>
      rw [hcommand] at h
      obtain ⟨_, hhandled, rfl⟩ := plain_ok (Option.some.inj h)
      exact shows_unread (by simp [hcommand]) (handleCreate_unread hhandled) _
  | read key =>
      rw [hcommand] at h
      obtain ⟨_, hhandled, rfl⟩ := plain_ok (Option.some.inj h)
      exact handleRead_shows hcommand hhandled
  | update key value =>
      rw [hcommand] at h
      obtain ⟨_, hhandled, rfl⟩ := plain_ok (Option.some.inj h)
      exact shows_unread (by simp [hcommand]) (handleUpdate_unread hhandled) _
  | delete key =>
      rw [hcommand] at h
      obtain ⟨_, hhandled, rfl⟩ := plain_ok (Option.some.inj h)
      exact shows_unread (by simp [hcommand]) (handleDelete_unread hhandled) _
  | keys | has _ | size =>
      rw [hcommand] at h
      obtain rfl := (Prod.mk.inj (Except.ok.inj (Option.some.inj h))).2
      rfl
  | unset | subscribe _ | unsubscribe _ _ =>
      rw [hcommand] at h
      cases h

theorem getD_shows
    (h : (d.commandHandlers reader text request).getD (.ok (d.node, .plain .unset)) = .ok (node', body)) :
    Shows reader d.hub.storage request body := by
  cases hhandler : d.commandHandlers reader text request with
  | none =>
      rw [hhandler] at h
      obtain rfl := (Prod.mk.inj (Except.ok.inj h)).2
      trivial
  | some handled =>
      rw [hhandler, Option.getD_some] at h
      rw [h] at hhandler
      exact commandHandlers_shows hhandler

theorem doFollowerTasks_shows (h : d.doFollowerTasks reader text request = .ok (node', body)) :
    Shows reader d.hub.storage request body := by
  unfold Daemon.doFollowerTasks at h
  split at h
  all_goals first
    | exact getD_shows h
    | obtain ⟨_, hleader, rfl⟩ := plain_ok h
      obtain ⟨leader, rfl⟩ := setLeaderInfo_redirects hleader
      trivial

theorem doCandidateTasks_shows (h : d.doCandidateTasks = .ok (node', body)) :
    Shows reader d.hub.storage request body := by
  obtain rfl : CrudAnswer.plain (.error msgElectionInProgress) = body := (Prod.mk.inj (Except.ok.inj h)).2
  intro hmessage
  exact absurd hmessage (by decide)

theorem subscriptionAnswer_shows {error : Option String} (hread : ∀ key, request.command ≠ .read key) (s : S) :
    Shows reader s request (Daemon.subscriptionAnswer error) := by
  refine shows_unread hread ?_ s
  cases error with
  | none => simp
  | some message => simp

theorem doRaftTaskRouting_shows {session : Session} {daemon : Daemon S}
    (h : d.doRaftTaskRouting reader text request session = .ok (daemon, body)) :
    Shows reader d.hub.storage request body := by
  have hnode : ∀ handled : Except Exception (Node × CrudAnswer),
      (∀ node body, handled = .ok (node, body) → Shows reader d.hub.storage request body) →
      handled.map (fun result => ({ d with node := result.1 }, result.2)) = .ok (daemon, body) →
        Shows reader d.hub.storage request body := by
    intro handled hshows hmap
    cases handled with
    | error e => cases hmap
    | ok result =>
        obtain ⟨_, rfl⟩ := Prod.mk.inj (Except.ok.inj hmap)
        exact hshows _ _ rfl
  unfold Daemon.doRaftTaskRouting at h
  split at h
  · rename_i hcommand
    obtain ⟨_, rfl⟩ := Prod.mk.inj (Except.ok.inj h)
    exact subscriptionAnswer_shows (by simp [hcommand]) _
  · rename_i hcommand
    obtain ⟨_, rfl⟩ := Prod.mk.inj (Except.ok.inj h)
    exact subscriptionAnswer_shows (by simp [hcommand]) _
  all_goals
    split at h
    · exact hnode _ (fun _ _ => getD_shows) h
    · exact hnode _ (fun _ _ => doCandidateTasks_shows) h
    · exact hnode _ (fun _ _ => doFollowerTasks_shows) h

-- What a client is sent for a request comes from the storage as it is.
theorem sent_shows {session : Session} {sent : Sent} (hparse : parse text = some (.db request))
    (h : (d.handleWsCrudMessages reader parse session (some text)).sent = some sent) :
    sent.session = session ∧ Shows reader d.hub.storage request sent.response.body := by
  simp only [Daemon.handleWsCrudMessages, hparse] at h
  cases hrouted : d.doRaftTaskRouting reader text request session with
  | error e =>
      rw [hrouted] at h
      cases h
  | ok result =>
      rw [hrouted] at h
      obtain rfl := Option.some.inj h
      exact ⟨rfl, doRaftTaskRouting_shows hrouted⟩

end Answers

end Raft

end SwarmDB
