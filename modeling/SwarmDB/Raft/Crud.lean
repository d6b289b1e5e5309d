import SwarmDB.Pbft.Serialization
import SwarmDB.Raft.Membership
import SwarmDB.Base64
import SwarmDB.Storage.Implementations

namespace SwarmDB

-- What the handlers look up in a storage.
structure StorageView where
  has : Uuid → Bytes → Bool
  read : Uuid → Bytes → Option Bytes

def KvStore.view (s : KvStore) : StorageView where
  has uuid key := KvStore.has (Bytes.ofString uuid) key s
  read uuid key := KvStore.read (Bytes.ofString uuid) key s

namespace Raft

-- The oneof of a response, as far as these handlers fill it in.
inductive CrudResponse
  | unset
  | redirect (leader : PeerAddress)
  | read (key : String) (value : Bytes)
  | error (message : String)
  deriving DecidableEq, Repr

def msgValueSizeTooLarge : String := "VALUE_SIZE_TOO_LARGE"
def msgKeySizeTooLarge : String := "KEY_SIZE_TOO_LARGE"
def msgRecordExists : String := "RECORD_EXISTS"
def msgRecordNotFound : String := "RECORD_NOT_FOUND"

-- A request, with the text under which the log is to hold it.
structure CrudRequest where
  dbUuid : Uuid
  text : String

namespace Node

variable (node : Node) (storage : StorageView) (request : CrudRequest)

def appendLog (msg : JsonMessage) (entryType : LogEntryType) : Node := node.appendLogUnsafe msg entryType

def setLeaderInfo : Except Exception (Node × CrudResponse) :=
  node.getLeaderUnsafe.map fun leader => (node, .redirect leader)

def handleCreate (key : String) (value : Bytes) : Except Exception (Node × CrudResponse) :=
  if maxValueSize < value.length then .ok (node, .error msgValueSizeTooLarge)
  else if maxKeySize < (Bytes.ofString key).length then .ok (node, .error msgKeySizeTooLarge)
  else if storage.has request.dbUuid (Bytes.ofString key) then .ok (node, .error msgRecordExists)
  else if node.currentState = .leader then .ok (node.appendLog (.database request.text) .database, .unset)
  else .ok (node, .unset)

def handleRead (key : String) : Except Exception (Node × CrudResponse) :=
  match storage.read request.dbUuid (Bytes.ofString key) with
  | some value => .ok (node, .read key value)
  | none =>
    if node.currentState = .leader then .ok (node, .error msgRecordNotFound) else node.setLeaderInfo

def handleUpdate (key : String) (value : Bytes) : Except Exception (Node × CrudResponse) :=
  if maxValueSize < value.length then .ok (node, .error msgValueSizeTooLarge)
  else if storage.has request.dbUuid (Bytes.ofString key) = false then .ok (node, .error msgRecordNotFound)
  else if node.currentState = .leader then .ok (node.appendLog (.database request.text) .database, .unset)
  else node.setLeaderInfo

def handleDelete (key : String) : Except Exception (Node × CrudResponse) :=
  if node.currentState ≠ .leader then node.setLeaderInfo
  else if storage.has request.dbUuid (Bytes.ofString key) then
    .ok (node.appendLog (.database request.text) .database, .unset)
  else .ok (node, .error msgRecordNotFound)

end Node

end Raft

end SwarmDB
