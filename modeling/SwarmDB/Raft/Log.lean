import SwarmDB.PeerAddress
import SwarmDB.ReplicatedLog
import Mathlib.Algebra.Group.Nat.Defs

namespace SwarmDB.Raft

-- What can leave a call of the raft code as an exception.
inductive Exception
  | noPeersInLog
  | jsonLogicError
  | outOfRange
  | badAddress
  | tryingToInsertInvalidEntry
  | bootstrapListMustHaveMoreThanOnePeer
  | unableToAddPeerToSwarm
  | peerBlacklisted
  deriving DecidableEq, Repr

-- One peer as a quorum message spells it. A member that is absent reads as the
-- empty string or zero, except that add_peer looks whether uuid and signature are there.
structure PeerJson where
  host : String
  port : Nat
  httpPort : Nat
  name : String
  uuid : Option Uuid
  signature : Option String
  deriving DecidableEq, Repr

namespace PeerJson

def uuidText (peer : PeerJson) : Uuid := peer.uuid.getD ""

def address (peer : PeerJson) : PeerAddress :=
  { host := peer.host, port := peer.port % 2 ^ 16, httpPort := peer.httpPort % 2 ^ 16,
    name := peer.name, uuid := peer.uuidText }

end PeerJson

-- The JSON value of a log entry, by what the code looks at: whether it is empty, whether
-- its msg is a string, and what stands under msg.peers. An absent list is none; the code
-- tells it from an empty one.
inductive JsonMessage
  | null
  | database (msg : String)
  | singleQuorum (peers : Option (List PeerJson))
  | jointQuorum (old new : Option (List PeerJson))
  | other (text : String)
  deriving DecidableEq, Repr

namespace JsonMessage

def isEmpty : JsonMessage → Bool
  | null => true
  | _ => false

-- msg["msg"]["peers"] as a list or null. JsonCpp throws where it is neither.
def peers : JsonMessage → Except Exception (Option (List PeerJson))
  | null | other _ => .ok none
  | singleQuorum peers => .ok peers
  | database _ | jointQuorum _ _ => .error .jsonLogicError

-- msg["msg"]["peers"]["old"] and ["new"].
def oldAndNew : JsonMessage → Except Exception (Option (List PeerJson) × Option (List PeerJson))
  | null | other _ | singleQuorum none => .ok (none, none)
  | jointQuorum old new => .ok (old, new)
  | database _ | singleQuorum (some _) => .error .jsonLogicError

end JsonMessage

inductive LogEntryType
  | database
  | singleQuorum
  | jointQuorum
  | undefined
  deriving DecidableEq, Repr

namespace LogEntryType

def isQuorum : LogEntryType → Bool
  | singleQuorum | jointQuorum => true
  | database | undefined => false

end LogEntryType

-- Log indexes are plain numbers: a log of 2^32 entries does not fit the storage limit.
structure LogEntry where
  entryType : LogEntryType
  logIndex : Nat
  term : Nat
  msg : JsonMessage
  deriving DecidableEq, Repr

namespace LogEntry

-- What replication carries of an entry. Its type is worked out again by each follower.
def core (entry : LogEntry) : Nat × JsonMessage := (entry.term, entry.msg)

end LogEntry

def deduceTypeFromMessage : JsonMessage → LogEntryType
  | .database _ => .database
  | .singleQuorum (some _) => .singleQuorum
  | .jointQuorum _ (some _) => .jointQuorum
  | .null | .singleQuorum none | .jointQuorum _ none | .other _ => .undefined

def createJointQuorumByAddingPeer (lastQuorumMessage : JsonMessage) (newPeer : PeerJson) :
    Except Exception JsonMessage :=
  lastQuorumMessage.peers.map fun peers => .jointQuorum peers (some (peers.getD [] ++ [newPeer]))

def createSingleQuorumFromJointQuorum (jointQuorum : JsonMessage) :
    Except Exception JsonMessage :=
  jointQuorum.oldAndNew.map fun peers => .singleQuorum peers.2

-- The new list only comes to exist when a peer is appended to it.
def createJointQuorumByRemovingPeer (lastQuorumMessage : JsonMessage) (peerUuid : Uuid) :
    Except Exception JsonMessage :=
  lastQuorumMessage.peers.map fun peers =>
    let kept := (peers.getD []).filter (fun peer => peer.uuid ≠ some peerUuid)
    .jointQuorum peers (if kept = [] then none else some kept)

-- The entry that create_dat_file writes for a node without a log file.
def createDatFile (peers : List PeerAddress) : LogEntry :=
  { entryType := .singleQuorum, logIndex := 0, term := 0,
    msg := .singleQuorum (if peers = [] then none else some (peers.map fun peer =>
      { host := peer.host, port := peer.port, httpPort := peer.httpPort, name := peer.name,
        uuid := some peer.uuid, signature := none })) }

-- The constructor throws on an empty file, and no operation empties a log.
@[ext]
structure RaftLog where
  entries : List LogEntry
  entries_ne : entries ≠ []

namespace RaftLog

def size (log : RaftLog) : Nat := log.entries.length

def entryAt (log : RaftLog) (i : Nat) : Option LogEntry := log.entries[i]?

def lastQuorumEntry (log : RaftLog) : Except Exception LogEntry :=
  match log.entries.reverse.find? (fun entry => entry.entryType.isQuorum) with
  | some entry => .ok entry
  | none => .error .noPeersInLog

def leaderAppendEntry (log : RaftLog) (entry : LogEntry) : RaftLog :=
  ⟨log.entries ++ [entry], by simp⟩

def followerInsertEntry (log : RaftLog) (index : Nat) (entry : LogEntry) :
    Except Exception RaftLog :=
  match log.entries[index]? with
  | some held =>
    if entry.term = held.term then .ok log
    else .ok ⟨log.entries.take index ++ [entry], by simp⟩
  | none =>
    if index = log.size then .ok ⟨log.entries ++ [entry], by simp⟩
    else .error .tryingToInsertInvalidEntry

-- The comparison with size()-1 comes first, so only an index at or past the last entry is
-- looked up. Past the last entry the lookup is out of range and reads a stray term.
def entryAccepted (log : RaftLog) (previousIndex previousTerm stray : Nat) : Bool :=
  if previousIndex < log.size - 1 then false
  else previousTerm == (log.entries[previousIndex]?.map LogEntry.term).getD stray

end RaftLog

-- The source's std::set is a list without duplicates here.
def uuids (peers : Option (List PeerJson)) : List Uuid :=
  ((peers.getD []).map PeerJson.uuidText).dedup

def getActiveQuorum (log : RaftLog) : Except Exception (List (List Uuid)) :=
  match log.lastQuorumEntry with
  | .error e => .error e
  | .ok entry =>
    match entry.entryType with
    | .singleQuorum => entry.msg.peers.map fun peers => [uuids peers]
    | _ => entry.msg.oldAndNew.map fun peers => [uuids peers.1, uuids peers.2]

-- The peers that a quorum entry lists, in both lists of a joint one.
def listedPeers (entry : LogEntry) : Except Exception (List PeerJson) :=
  match entry.entryType with
  | .singleQuorum => entry.msg.peers.map fun peers => peers.getD []
  | _ => entry.msg.oldAndNew.map fun peers => peers.1.getD [] ++ peers.2.getD []

def getAllPeers (log : RaftLog) : Except Exception (List PeerAddress) :=
  match log.lastQuorumEntry with
  | .error e => .error e
  | .ok entry =>
    (listedPeers entry).map fun peers => (peers.map PeerJson.address).foldl PeerAddress.emplace []

def inQuorum (log : RaftLog) (uuid : Uuid) : Except Exception Bool :=
  (getActiveQuorum log).map fun quorums => quorums.any (fun quorum => quorum.contains uuid)

def isMajority (log : RaftLog) (votes : Finset Uuid) : Except Exception Bool :=
  (getActiveQuorum log).map fun quorums => quorums.all fun quorum =>
    !decide ((quorum.filter (fun uuid => uuid ∈ votes)).length * 2 ≤ quorum.length)

end SwarmDB.Raft
