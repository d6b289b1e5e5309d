import SwarmDB.Crud
import SwarmDB.Handler
import SwarmDB.Machine
import SwarmDB.Pbft.Serialization

namespace SwarmDB.Pbft

open Bytes

inductive ServiceException
  | runtimeError (message : String)
  | badLexicalCast
  deriving DecidableEq, Repr

-- What the service does to the outside, one call at a time: writes to the unstable storage, requests
-- handed to crud, and the execute handler posted to the io context. The sequence number of an
-- execution is only kept for the record.
inductive ServiceEffect
  | create (key value : Bytes)
  | update (key value : Bytes)
  | remove (key : Bytes)
  | execute (sequence : Nat) (request : DatabaseMsg) (session : Option Session)
  | post (request : Request) (sequence : Nat)
  deriving DecidableEq

-- The storages belong to somebody else but are written to by nobody else. A session that awaits its
-- response is a weak pointer, which may have been empty from the start.
structure Service where
  uuid : Uuid
  nextRequestSequence : Nat := 1
  sessionsAwaitingResponse : Nat → Option (Option Session) := fun _ => none
  unstable : MemStorage
  database : MemStorage

abbrev ServiceCall := Handler Service ServiceEffect ServiceException

def nextRequestSequenceKey : Bytes := ofString "next_request_sequence"

def Request.operationOf (request : Request) : DatabaseMsg :=
  match request.body with
  | .operation msg => msg
  | .unset | .config _ => {}

namespace Service

def unstableCreate (key value : Bytes) : ServiceCall StorageResult := fun s =>
  let done := s.unstable.create s.uuid key value
  ⟨{ s with unstable := done.2 }, [.create key value], .ok done.1⟩

def unstableUpdate (key value : Bytes) : ServiceCall StorageResult := fun s =>
  let done := s.unstable.update s.uuid key value
  ⟨{ s with unstable := done.2 }, [.update key value], .ok done.1⟩

def unstableRemove (key : Bytes) : ServiceCall StorageResult := fun s =>
  let done := s.unstable.remove s.uuid key
  ⟨{ s with unstable := done.2 }, [.remove key], .ok done.1⟩

def crudHandleRequest (sequence : Nat) (request : DatabaseMsg) (session : Option Session) : ServiceCall Unit :=
  fun s => ⟨{ s with database := (Crud.handleRequest request session s.database).storage },
    [.execute sequence request session], .ok ()⟩

-- A save that fails is only logged.
def saveNextRequestSequence : ServiceCall Unit := do
  let next ← Handler.reads Service.nextRequestSequence
  let _ ← unstableUpdate nextRequestSequenceKey (decimal next)
  return ()

def loadNextRequestSequence : ServiceCall Unit := do
  match ← Handler.reads fun s => s.unstable.read s.uuid nextRequestSequenceKey with
  | some value =>
    match lexicalCast value with
    | some next => Handler.updates fun s => { s with nextRequestSequence := next }
    | none => Handler.throws .badLexicalCast
  | none =>
    let next ← Handler.reads Service.nextRequestSequence
    match ← unstableCreate nextRequestSequenceKey (decimal next) with
    | .ok => return ()
    | _ => Handler.throws (.runtimeError "Failed to create: next_request_sequence")

def construct (uuid : Uuid) (unstable database : MemStorage) : Outcome Service ServiceEffect ServiceException Unit :=
  loadNextRequestSequence { uuid := uuid, unstable := unstable, database := database }

section Operations

-- ParseFromString of a request, and which sessions are still there.
variable (parse : Bytes → Option Request) (locks : Nat → Bool)

def awaitingSession (s : Service) (sequence : Nat) : Option Session :=
  match s.sessionsAwaitingResponse sequence with
  | some session => if locks sequence then session else none
  | none => none

-- The body of the loop in process_awaiting_operations.
def executeNext : ServiceCall Unit := do
  let next ← Handler.reads Service.nextRequestSequence
  match ← Handler.reads fun s => s.unstable.read s.uuid (decimal next) with
  | none => Handler.throws (.runtimeError "Failed to store pbft request!")
  | some bytes =>
    match parse bytes with
    | none => Handler.throws (.runtimeError "Failed to create pbft_request from database read!")
    | some request =>
      let session ← Handler.reads fun s => awaitingSession locks s next
      crudHandleRequest next request.operationOf session
      Handler.emits (.post request next)
      match ← unstableRemove (decimal next) with
      | .ok =>
        Handler.updates fun s => { s with nextRequestSequence := (next + 1) % 2 ^ 64 }
        saveNextRequestSequence
      | result => Handler.throws (.runtimeError
          ("Failed to remove pbft_request from database! (" ++ toString result.number ++ ")"))

def drain : Nat → ServiceCall Unit
  | 0 => pure ()
  | turns + 1 => do
    if ← Handler.reads fun s => s.unstable.has s.uuid (decimal s.nextRequestSequence) then
      executeNext parse locks
      drain turns
    else return ()

-- Every turn of the loop takes a record away, so there are at most as many as there are records.
def processAwaitingOperations : ServiceCall Unit := do
  let records ← Handler.reads fun s => s.unstable.keys.card
  drain parse locks records

def applyOperation (sequence : Nat) (request : Request) (session : Option Session) : ServiceCall Unit := do
  match ← unstableCreate (decimal sequence) request.serialize with
  | .ok =>
    Handler.updates fun s =>
      { s with sessionsAwaitingResponse := Function.update s.sessionsAwaitingResponse sequence (some session) }
    processAwaitingOperations parse locks
  | result => Handler.throws (.runtimeError
      ("Failed to store pbft request! (" ++ toString result.number ++ ")"))

end Operations

end Service

-- A call of apply_operation for one of the requests that the swarm has agreed on, with the sessions
-- that are there in the meantime.
structure Application where
  sequence : Nat
  session : Option Session
  locks : Nat → Bool

def Application.handler (parse : Bytes → Option Request) (requests : Nat → Request) (call : Application) :
    ServiceCall Unit :=
  Service.applyOperation parse call.locks call.sequence (requests call.sequence) call.session

-- A service from a start on.
def serving (parse : Bytes → Option Request) (requests : Nat → Request) (start : Service) :
    Machine Service Application where
  init s := s = start
  enabled _ _ := True
  next s call := (call.handler parse requests s).state

-- The first start, over an unstable storage of its own.
def freshService (uuid : Uuid) (database : MemStorage) : Service := (Service.construct uuid ∅ database).state

-- Everything the service did, the earliest first.
def performed (parse : Bytes → Option Request) (requests : Nat → Request) :
    List (Service × Application) → List ServiceEffect
  | [] => []
  | (s, call) :: past => performed parse requests past ++ (call.handler parse requests s).effects

-- The requests that crud was called with, and their sequence numbers, in order.
def ServiceEffect.executed : ServiceEffect → Option DatabaseMsg
  | execute _ request _ => some request
  | create .. | update .. | remove _ | post .. => none

def ServiceEffect.sequence : ServiceEffect → Option Nat
  | execute sequence _ _ => some sequence
  | create .. | update .. | remove _ | post .. => none

def executedIn (es : List ServiceEffect) : List DatabaseMsg := es.filterMap ServiceEffect.executed

def sequencesIn (es : List ServiceEffect) : List Nat := es.filterMap ServiceEffect.sequence

@[simp] theorem executedIn_append (es fs : List ServiceEffect) :
    executedIn (es ++ fs) = executedIn es ++ executedIn fs := List.filterMap_append

@[simp] theorem sequencesIn_append (es fs : List ServiceEffect) :
    sequencesIn (es ++ fs) = sequencesIn es ++ sequencesIn fs := List.filterMap_append

end SwarmDB.Pbft
