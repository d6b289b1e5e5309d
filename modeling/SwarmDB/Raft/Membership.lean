import SwarmDB.Raft.Node

namespace SwarmDB.Raft

def errorAddPeerMustBeSentToLeader : String := "ERROR_ADD_PEER_MUST_BE_SENT_TO_LEADER"
def errorRemovePeerMustBeSentToLeader : String := "ERROR_REMOVE_PEER_MUST_BE_SENT_TO_LEADER"
def msgErrorCurrentQuorumIsJoint : String :=
  "A peer cannot be added or removed until the last quorum change request has been processed."
def errorPeerAlreadyExists : String := "ERROR_PEER_ALREADY_EXISTS"
def errorInvalidUuid : String := "ERROR_INVALID_UUID"
def errorPeerNotFound : String := "ERROR_PEER_NOT_FOUND"
def errorPeerHasBeenBlacklisted : String := "ERROR_PEER_HAS_BEEN_BLACKLISTED"
def errorInvalidSignature : String := "ERROR_INVALID_SIGNATURE"
def errorUnableToValidateUuid : String := "ERROR_UNABLE_TO_VALIDATE_UUID"
def successPeerAddedToSwarm : String := "SUCCESS_PEER_ADDED_TO_SWARM"
def successPeerRemovedFromSwarm : String := "SUCCESS_PEER_REMOVED_FROM_SWARM"
def errorGetPeersMustBeSentToLeader : String := "ERROR_GET_PEERS_MUST_BE_SENT_TO_LEADER"
def errorGetPeersElectionInProgressTryLater : String := "ERROR_GET_PEERS_ELECTION_IN_PROGRESS_TRY_LATER"

namespace Node

variable (env : Env) (node : Node)

def sendSessionErrorMessage (message : String) : Outcome :=
  ⟨node, [.reply (.error message)], none⟩

-- The error to send, if there is one. The blacklist is asked about this node, not the new peer.
def validateNewPeer (peer : PeerJson) : Option String :=
  if peer.signature.getD "" = "" then some errorInvalidSignature
  else if env.verifySignature (peer.signature.getD "") (peer.uuidText ++ "\n") = false then
    some errorUnableToValidateUuid
  else if env.isBlacklisted node.uuid then some errorPeerHasBeenBlacklisted
  else none

def handleAddPeer (peer : PeerJson) : Outcome :=
  if node.currentState ≠ .leader then node.sendSessionErrorMessage errorAddPeerMustBeSentToLeader
  else
    match node.log.lastQuorumEntry with
    | .error e => node.throws e
    | .ok lastQuorumEntry =>
      if lastQuorumEntry.entryType = .jointQuorum then
        node.sendSessionErrorMessage msgErrorCurrentQuorumIsJoint
      else
        match lastQuorumEntry.msg.peers, createJointQuorumByAddingPeer lastQuorumEntry.msg peer with
        | .ok peers, .ok jointQuorum =>
          if (peers.getD []).any (fun other => other.uuidText = peer.uuidText) then
            node.sendSessionErrorMessage errorPeerAlreadyExists
          else if peer.uuidText = "" then node.sendSessionErrorMessage errorInvalidUuid
          else
            match if node.enablePeerValidation then node.validateNewPeer env peer else none with
            | some message => node.sendSessionErrorMessage message
            | none =>
              ⟨(node.setMatchIndex peer.uuidText 1).appendLogUnsafe jointQuorum .jointQuorum,
                [.reply (.success "add_peer" successPeerAddedToSwarm)], none⟩
        | .error e, _ | _, .error e => node.throws e

def handleRemovePeer (uuid : Uuid) : Outcome :=
  if node.currentState ≠ .leader then node.sendSessionErrorMessage errorRemovePeerMustBeSentToLeader
  else
    match node.log.lastQuorumEntry with
    | .error e => node.throws e
    | .ok lastQuorumEntry =>
      if lastQuorumEntry.entryType = .jointQuorum then
        node.sendSessionErrorMessage msgErrorCurrentQuorumIsJoint
      else
        match lastQuorumEntry.msg.peers, createJointQuorumByRemovingPeer lastQuorumEntry.msg uuid with
        | .ok peers, .ok jointQuorum =>
          if (peers.getD []).any (fun other => other.uuidText = uuid) then
            ⟨node.appendLogUnsafe jointQuorum .jointQuorum,
              [.reply (.success "remove_peer" successPeerRemovedFromSwarm)], none⟩
          else node.sendSessionErrorMessage errorPeerNotFound
        | .error e, _ | _, .error e => node.throws e

def getLeaderUnsafe : Except Exception PeerAddress :=
  (getAllPeers node.log).map fun peers =>
    (peers.find? fun peer => peer.uuid = node.leader).getD ⟨"", 0, 0, "", ""⟩

def handleGetPeers : Outcome :=
  let response := fun error leader peers => Effect.reply (.management (.getPeersResponse
    { sender := some node.uuid, error := error, leader := leader, peers := peers }))
  match node.currentState with
  | .candidate => ⟨node, [response (some errorGetPeersElectionInProgressTryLater) none none], none⟩
  | .follower =>
    match node.getLeaderUnsafe with
    | .error e => node.throws e
    | .ok leader => ⟨node, [response (some errorGetPeersMustBeSentToLeader) (some leader) none], none⟩
  | .leader =>
    match getAllPeers node.log with
    | .error e => node.throws e
    | .ok peers => ⟨node, [response none none (if peers = [] then none else some peers)], none⟩

-- The peer to ask: the known leader, or one of the others picked at random.
def choosePeerToAsk (pick : Nat) : Except Exception PeerAddress := do
  let leader ← node.getLeaderUnsafe
  if leader.uuid = "" ∧ leader.host = "" then
    let others := (← getAllPeers node.log).filter fun peer => peer.uuid ≠ node.uuid
    match others[pick % others.length]? with
    | some peer => pure peer
    | none => throw .bootstrapListMustHaveMoreThanOnePeer
  else pure leader

def autoAddPeerIfRequired (pick : Nat) : Outcome :=
  match node.choosePeerToAsk pick with
  | .error e => node.throws e
  | .ok peer =>
    if env.validAddress peer.host then ⟨node, [.send peer.uuid (.management .getPeers)], none⟩
    else node.throws .badAddress

def addSelfToSwarm : Outcome :=
  match getAllPeers node.log, node.getLeaderUnsafe with
  | .ok peers, .ok leader =>
    match peers.find? fun peer => peer.uuid = node.uuid with
    | none =>
      node.throws (if node.enablePeerValidation = true ∧ env.isBlacklisted node.uuid = true then
        .peerBlacklisted else .unableToAddPeerToSwarm)
    | some self =>
      if env.validAddress leader.host then
        ⟨node, [.send leader.uuid (.management (.addPeer
          { host := self.host, port := self.port, httpPort := self.httpPort, name := self.name,
            uuid := some self.uuid, signature := some node.signedKey }))], none⟩
      else node.throws .badAddress
  | .error e, _ | _, .error e => node.throws e

def handleGetPeersResponseFromFollowerOrCandidate (response : GetPeersResponse) (pick : Nat) : Outcome :=
  match response.leader with
  | none => { node with inASwarm := false }.done
  | some leader =>
    let asked := { node with leader := leader.uuid }.autoAddPeerIfRequired env pick
    match asked.thrown with
    | some _ => asked
    | none => { asked with node := { asked.node with inASwarm := false } }

def handleGetPeersResponseFromLeader (response : GetPeersResponse) : Outcome :=
  if response.leader.isSome = true ∨ response.peers.isSome = true then
    let node := { node with leader := response.sender.getD node.leader }
    match response.peers with
    | none => node.done
    | some peers =>
      if peers.any (fun peer => peer.uuid = node.uuid) then { node with inASwarm := true }.done
      else node.addSelfToSwarm env
  else node.done

def handleGetPeersResponse (response : GetPeersResponse) (pick : Nat) : Outcome :=
  if response.error.isSome then
    node.handleGetPeersResponseFromFollowerOrCandidate env response pick
  else node.handleGetPeersResponseFromLeader env response

-- The membership commands of handle_ws_raft_messages.
def handleManagement (msg : ManagementMessage) (pick : Nat) : Outcome :=
  match msg with
  | .addPeer peer => node.handleAddPeer env peer
  | .addPeerResponse message =>
    if message = successPeerAddedToSwarm then { node with inASwarm := true }.done else node.done
  | .removePeer uuid =>
    if uuid = "" then node.sendSessionErrorMessage errorInvalidUuid else node.handleRemovePeer uuid
  | .getPeers => node.handleGetPeers
  | .getPeersResponse response => node.handleGetPeersResponse env response pick

def lookForSwarm (pick : Nat) : Outcome :=
  if node.inASwarm then node.done else node.autoAddPeerIfRequired env pick

-- A canceled timer still looks for a swarm.
def handleElectionTimeout (canceled : Bool) (pick : Nat) : Outcome :=
  let asked := node.lookForSwarm env pick
  match asked.thrown with
  | some _ => asked
  | none =>
    if canceled then asked
    else
      let requested := asked.node.requestVoteRequest env
      { requested with effects := asked.effects ++ requested.effects }

end Node

-- Everything that can happen to one node.
inductive Input
  | message (msg : Message) (stray : Nat → Nat)
  | management (msg : ManagementMessage) (pick : Nat)
  | electionTimeout (canceled : Bool) (pick : Nat)
  | heartbeatTimeout (canceled : Bool)
  | appendLog (msg : JsonMessage) (entryType : LogEntryType)

namespace Node

def step (env : Env) (node : Node) : Input → Outcome
  | .message msg stray => node.handleRaftMessage env msg stray
  | .management msg pick => node.handleManagement env msg pick
  | .electionTimeout canceled pick => node.handleElectionTimeout env canceled pick
  | .heartbeatTimeout canceled => node.handleHeartbeatTimeout env canceled
  | .appendLog msg entryType => (node.appendLogUnsafe msg entryType).done

end Node

end SwarmDB.Raft
