import SwarmDB.Machine
import SwarmDB.Nest
import SwarmDB.Raft.Restart.Storage

namespace SwarmDB

-- The subscriptions of a session under their transaction ids, each with a weak pointer to the session. A
-- node counts its sessions to give them their ids, so that a session is its id here.
abbrev Transactions := Assoc Nat Session
abbrev Sessions := Assoc Nat Transactions
abbrev Keys := Assoc String Sessions
abbrev Subscribers := Assoc Uuid Keys

def Session.getSessionId (session : Session) : Nat := session

inductive OperationType
  | update
  | delete
  deriving DecidableEq, Repr

-- The response that a subscriber is sent, with the data of its header.
structure SubscriptionUpdate where
  dbUuid : Uuid
  transactionId : Nat
  key : String
  value : Bytes
  operation : OperationType
  deriving DecidableEq, Repr

structure Datagram where
  session : Session
  response : SubscriptionUpdate
  deriving DecidableEq, Repr

namespace SubscriptionManager

def msgInvalidUuid : String := "INVALID_UUID"
def msgInvalidKey : String := "INVALID_KEY"
def msgInvalidSub : String := "INVALID_SUB"
def msgDuplicateSub : String := "DUPLICATE_SUB"

section Calls

variable (uuid : Uuid) (key : String) (transactionId : Nat) (session : Session)

-- The assignment at the end of a row of operator[].
def add (subscribers : Subscribers) : Subscribers :=
  subscribers.alter uuid ∅ (Assoc.alter key ∅ (Assoc.alter session.getSessionId ∅
    (AList.insert transactionId session)))

def drop (subscribers : Subscribers) : Subscribers :=
  subscribers.alter uuid ∅ (Assoc.alter key ∅ (Assoc.alter session.getSessionId ∅ (AList.erase transactionId)))

-- The text of the error, if one is set.
def subscribe (subscribers : Subscribers) : Option String × Subscribers :=
  let added := (none, add uuid key transactionId session subscribers)
  match subscribers.lookup uuid with
  | none => added
  | some keys =>
    match keys.lookup key with
    | none => added
    | some sessions =>
      match sessions.lookup session.getSessionId with
      | none => added
      | some transactions =>
        if (transactions.lookup transactionId).isNone then added else (some msgDuplicateSub, subscribers)

def unsubscribe (subscribers : Subscribers) : Option String × Subscribers :=
  match subscribers.lookup uuid with
  | none => (some msgInvalidUuid, subscribers)
  | some keys =>
    match keys.lookup key with
    | none => (some msgInvalidKey, subscribers)
    | some sessions =>
      match sessions.lookup session.getSessionId with
      | none => (some msgInvalidSub, subscribers)
      | some transactions =>
        if (transactions.lookup transactionId).isSome then (none, drop uuid key transactionId session subscribers)
        else (some msgInvalidSub, subscribers)

end Calls

variable (alive : Session → Bool)

def notifySessions (uuid : Uuid) (operation : OperationType) (key : String) (value : Bytes)
    (subscribers : Subscribers) : List Datagram :=
  match subscribers.lookup uuid with
  | none => []
  | some keys =>
    match keys.lookup key with
    | none => []
    | some sessions =>
      sessions.entries.flatMap fun held => held.2.entries.filterMap fun subscription =>
        if alive subscription.2 then
          some { session := subscription.2
                 response := { dbUuid := uuid, transactionId := subscription.1, key := key, value := value,
                               operation := operation } }
        else none

def inspectCommit (msg : DatabaseMsg) (subscribers : Subscribers) : List Datagram :=
  match msg.command with
  | .create key value => notifySessions alive (Crud.dbUuid msg) .update key value subscribers
  | .update key value => notifySessions alive (Crud.dbUuid msg) .update key value subscribers
  | .delete key => notifySessions alive (Crud.dbUuid msg) .delete key [] subscribers
  | .unset | .read _ | .has _ | .keys | .size | .subscribe _ | .unsubscribe .. => []

def purgeClosedSessions (canceled : Bool) (subscribers : Subscribers) : Subscribers :=
  if canceled then subscribers
  else
    subscribers.sweepInner (Assoc.sweepInner (Assoc.sweepInner (Assoc.sweep fun session =>
      if alive session then some session else none)))

end SubscriptionManager

-- The manager, the sessions that are gone and the storage of the node.
structure SubscriptionHub (S : Type) where
  subscribers : Subscribers
  closed : Finset Session
  storage : S

inductive HubEvent
  | subscribe (uuid : Uuid) (key : String) (transactionId : Nat) (session : Session)
  | unsubscribe (uuid : Uuid) (key : String) (transactionId : Nat) (session : Session)
  | purge (canceled : Bool)
  | close (session : Session)
  | commit (msg : Raft.JsonMessage)
  deriving DecidableEq, Repr

-- What the caller of an event gets to see, and what is sent.
structure Reaction (S : Type) where
  hub : SubscriptionHub S
  error : Option String := none
  datagrams : List Datagram := []

namespace SubscriptionHub

variable {S : Type} (base : StorageBase S) (parse : String → Option BznMsg)

def alive (hub : SubscriptionHub S) (session : Session) : Bool := decide (session ∉ hub.closed)

-- The handler that raft_crud has registered for a request.
def commitHandlers (request : DatabaseMsg) (s : S) : Option (Bool × S) :=
  match request.command with
  | .create key value => some (Raft.commitCreate base request key value s)
  | .update key value => some (Raft.commitUpdate base request key value s)
  | .delete key => some (Raft.commitDelete base request key s)
  | .unset | .read _ | .has _ | .keys | .size | .subscribe _ | .unsubscribe .. => none

-- The commit handler of raft_crud. The subscribers hear of what the storage has taken.
def commit (msg : Raft.JsonMessage) (hub : SubscriptionHub S) : Reaction S :=
  match msg with
  | .database text =>
    match parse text with
    | some (.db request) =>
      match commitHandlers base request hub.storage with
      | some (true, storage) =>
        { hub := { hub with storage := storage }
          datagrams := SubscriptionManager.inspectCommit hub.alive request hub.subscribers }
      | some (false, storage) => { hub := { hub with storage := storage } }
      | none => { hub := hub }
    | some .unset | some (.json _) | none => { hub := hub }
  | .null | .singleQuorum _ | .jointQuorum .. | .other _ => { hub := hub }

def react (hub : SubscriptionHub S) : HubEvent → Reaction S
  | .subscribe uuid key transactionId session =>
    let answer := SubscriptionManager.subscribe uuid key transactionId session hub.subscribers
    { hub := { hub with subscribers := answer.2 }, error := answer.1 }
  | .unsubscribe uuid key transactionId session =>
    let answer := SubscriptionManager.unsubscribe uuid key transactionId session hub.subscribers
    { hub := { hub with subscribers := answer.2 }, error := answer.1 }
  | .purge canceled =>
    { hub := { hub with subscribers := SubscriptionManager.purgeClosedSessions hub.alive canceled hub.subscribers } }
  | .close session => { hub := { hub with closed := insert session hub.closed } }
  | .commit msg => commit base parse msg hub

def machine : Machine (SubscriptionHub S) HubEvent where
  init hub := hub.subscribers = ∅ ∧ hub.closed = ∅
  enabled _ _ := True
  next hub event := (hub.react base parse event).hub

-- To the storage it is the commit handler that replays the log.
theorem commit_storage (msg : Raft.JsonMessage) (hub : SubscriptionHub S) :
    (commit base parse msg hub).hub.storage = Raft.commitHandler base parse msg hub.storage := by
  unfold commit Raft.commitHandler commitHandlers
  cases msg with
  | null | singleQuorum _ | jointQuorum _ _ | other _ => rfl
  | database text =>
      dsimp only
      cases parse text with
      | none => rfl
      | some wrapped =>
          cases wrapped with
          | unset | json _ => rfl
          | db request =>
              dsimp only
              cases hcommand : request.command with
              | unset | read _ | has _ | keys | size | subscribe _ | unsubscribe _ _ => rfl
              | create key value =>
                  dsimp only
                  rcases Raft.commitCreate base request key value hub.storage with ⟨_ | _, storage⟩ <;> rfl
              | update key value =>
                  dsimp only
                  rcases Raft.commitUpdate base request key value hub.storage with ⟨_ | _, storage⟩ <;> rfl
              | delete key =>
                  dsimp only
                  rcases Raft.commitDelete base request key hub.storage with ⟨_ | _, storage⟩ <;> rfl

end SubscriptionHub

end SwarmDB
