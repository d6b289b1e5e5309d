import Mathlib.Algebra.Group.Int.Defs
import SwarmDB.Database
import SwarmDB.Storage

namespace SwarmDB

-- The oneof of a response, as far as crud fills it in. The two numbers of a size are 32-bit.
inductive ResponseBody
  | unset
  | read (key : String) (value : Bytes)
  | keys (keys : Finset Bytes)
  | size (bytes keys : Int)
  | error (message : String)
  deriving DecidableEq

structure DatabaseResponse where
  header : DatabaseHeader := {}
  body : ResponseBody := .unset
  deriving DecidableEq

-- A client's connection.
abbrev Session := Nat

-- What a call of crud leaves behind: the storage, and the answer to the session.
structure Handled where
  storage : MemStorage
  sent : Option (Session × DatabaseResponse) := none
  deriving DecidableEq

namespace Crud

def toInt32 (n : Nat) : Int := Int.bmod n (2 ^ 32)

-- A message without a header reads as one with the default header.
def headerOf (request : DatabaseMsg) : DatabaseHeader := request.header.getD {}

def dbUuid (request : DatabaseMsg) : Uuid := (headerOf request).dbUuid

def errorMessage : StorageResult → Option String
  | .ok | .notSaved => none
  | .valueTooLarge => some "VALUE_SIZE_TOO_LARGE"
  | .keyTooLarge => some "KEY_SIZE_TOO_LARGE"
  | .exists => some "RECORD_EXISTS"
  | .notFound => some "RECORD_NOT_FOUND"

def sendResponse (request : DatabaseMsg) (result : StorageResult) (body : ResponseBody) (session : Session) :
    Session × DatabaseResponse :=
  (session, { header := headerOf request, body := ((errorMessage result).map .error).getD body })

-- Creates, updates and deletes are done for a client that is gone, too.
def handleWrite (write : MemStorage → StorageResult × MemStorage) (request : DatabaseMsg)
    (session : Option Session) (s : MemStorage) : Handled :=
  { storage := (write s).2, sent := session.map (sendResponse request (write s).1 .unset) }

def handleCreate (key : String) (value : Bytes) (request : DatabaseMsg) :
    Option Session → MemStorage → Handled :=
  handleWrite (MemStorage.create (dbUuid request) (Bytes.ofString key) value) request

def handleUpdate (key : String) (value : Bytes) (request : DatabaseMsg) :
    Option Session → MemStorage → Handled :=
  handleWrite (MemStorage.update (dbUuid request) (Bytes.ofString key) value) request

def handleDelete (key : String) (request : DatabaseMsg) : Option Session → MemStorage → Handled :=
  handleWrite (MemStorage.remove (dbUuid request) (Bytes.ofString key)) request

-- The others look at the storage only for a client that is still there.
def handleQuery (query : MemStorage → StorageResult × ResponseBody) (request : DatabaseMsg)
    (session : Option Session) (s : MemStorage) : Handled :=
  { storage := s, sent := session.map (sendResponse request (query s).1 (query s).2) }

def handleRead (key : String) (request : DatabaseMsg) : Option Session → MemStorage → Handled :=
  handleQuery (fun s =>
    match s.read (dbUuid request) (Bytes.ofString key) with
    | some value => (.ok, .read key value)
    | none => (.notFound, .unset)) request

def handleHas (key : String) (request : DatabaseMsg) : Option Session → MemStorage → Handled :=
  handleQuery (fun s =>
    (if s.has (dbUuid request) (Bytes.ofString key) then .ok else .notFound, .unset)) request

def handleKeys (request : DatabaseMsg) : Option Session → MemStorage → Handled :=
  handleQuery (fun s => (.ok, .keys (s.getKeys (dbUuid request)))) request

def handleSize (request : DatabaseMsg) : Option Session → MemStorage → Handled :=
  handleQuery (fun s =>
    let size := s.getSize (dbUuid request)
    (.ok, .size (toInt32 size.2) (toInt32 size.1))) request

-- There are no handlers for subscriptions.
def handleRequest (request : DatabaseMsg) (session : Option Session) (s : MemStorage) : Handled :=
  match request.command with
  | .create key value => handleCreate key value request session s
  | .read key => handleRead key request session s
  | .update key value => handleUpdate key value request session s
  | .delete key => handleDelete key request session s
  | .has key => handleHas key request session s
  | .keys => handleKeys request session s
  | .size => handleSize request session s
  | .unset | .subscribe _ | .unsubscribe .. => { storage := s }

-- What a request does to the storage when nobody waits for the answer.
def written (s : MemStorage) (request : DatabaseMsg) : MemStorage := (handleRequest request none s).storage

-- The client has no influence on it.
theorem handleRequest_storage (request : DatabaseMsg) (session : Option Session) (s : MemStorage) :
    (handleRequest request session s).storage = written s request := by
  unfold written handleRequest
  cases request.command <;> rfl

end Crud

end SwarmDB
