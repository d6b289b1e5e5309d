import SwarmDB.Raft.Log

namespace SwarmDB.Raft

-- The cmd of a raft message with the rest of its data. A vote request made by the code
-- itself has no uuid, which reads as the empty string.
inductive Command
  | requestVote (uuid : Uuid) (lastLogIndex lastLogTerm : Nat)
  | responseVote (granted : Bool)
  | appendEntries (prevIndex prevTerm : Nat) (entries : JsonMessage) (entryTerm commitIndex : Nat)
  | appendEntriesReply (success : Bool) (matchIndex : Nat)
  | unknown
  deriving DecidableEq, Repr

-- The sender is data.from.
structure Message where
  sender : Uuid
  term : Nat
  cmd : Command
  deriving DecidableEq, Repr

def createRequestVoteRequest (uuid : Uuid) (currentTerm lastLogIndex lastLogTerm : Nat) : Message :=
  ⟨uuid, currentTerm, .requestVote "" lastLogIndex lastLogTerm⟩

def createRequestVoteResponse (uuid : Uuid) (currentTerm : Nat) (granted : Bool) : Message :=
  ⟨uuid, currentTerm, .responseVote granted⟩

def createAppendEntriesRequest (uuid : Uuid) (currentTerm commitIndex prevIndex prevTerm entryTerm : Nat)
    (entry : JsonMessage) : Message :=
  ⟨uuid, currentTerm, .appendEntries prevIndex prevTerm entry entryTerm commitIndex⟩

def createAppendEntriesResponse (uuid : Uuid) (currentTerm : Nat) (success : Bool) (matchIndex : Nat) :
    Message :=
  ⟨uuid, currentTerm, .appendEntriesReply success matchIndex⟩

-- The answer to get_peers. Its message is an object with a leader, an array of peers, or absent.
structure GetPeersResponse where
  sender : Option Uuid
  error : Option String
  leader : Option PeerAddress
  peers : Option (List PeerAddress)
  deriving DecidableEq, Repr

-- A remove_peer without data or uuid reads as one for the empty uuid.
inductive ManagementMessage
  | addPeer (peer : PeerJson)
  | addPeerResponse (msg : String)
  | removePeer (uuid : Uuid)
  | getPeers
  | getPeersResponse (response : GetPeersResponse)
  deriving DecidableEq, Repr

-- The commands that start a change of the quorum.
def ManagementMessage.isMembership : ManagementMessage → Bool
  | addPeer _ | removePeer _ => true
  | addPeerResponse _ | getPeers | getPeersResponse _ => false

-- What leaves a node over a connection.
inductive Wire
  | raft (msg : Message)
  | management (msg : ManagementMessage)
  | success (command message : String)
  | error (message : String)
  deriving DecidableEq, Repr

-- What a call does to the outside: a message to a peer, an answer on the session it was
-- called with, closing that session, or a call of the commit handler for a log index.
inductive Effect
  | send (peer : Uuid) (wire : Wire)
  | reply (wire : Wire)
  | close
  | commit (index : Nat) (msg : JsonMessage)
  deriving DecidableEq, Repr

def Effect.raftMessage : Effect → Option Message
  | .send _ (.raft msg) | .reply (.raft msg) => some msg
  | _ => none

end SwarmDB.Raft
