import SwarmDB.Raft.Message
import Mathlib.Data.Finset.Basic

namespace SwarmDB.Raft

inductive RaftState
  | candidate
  | follower
  | leader
  deriving DecidableEq, Repr

-- Code outside the repository: parsing an IPv4 address, and the two checks on a new peer.
structure Env where
  validAddress : String → Bool
  verifySignature : String → String → Bool
  isBlacklisted : Uuid → Bool

structure Node where
  uuid : Uuid
  currentState : RaftState
  currentTerm : Nat
  yesVotes : Finset Uuid
  noVotes : Finset Uuid
  votedFor : Option Uuid
  lastLogTerm : Nat
  commitIndex : Nat
  peerMatchIndex : Uuid → Option Nat
  leader : Uuid
  log : RaftLog
  inASwarm : Bool
  enableAudit : Bool
  enablePeerValidation : Bool
  signedKey : String

-- The members keep what was done to them before an exception.
structure Outcome where
  node : Node
  effects : List Effect
  thrown : Option Exception

namespace Node

variable (env : Env) (node : Node)

-- What the constructor leaves, over the log it read from the file or created.
def construct (uuid : Uuid) (peers : List PeerAddress) (enableAudit enablePeerValidation : Bool)
    (signedKey : String) (log : RaftLog) : Node :=
  { uuid := uuid, currentState := .follower, currentTerm := 0, yesVotes := ∅, noVotes := ∅,
    votedFor := none, lastLogTerm := 0, commitIndex := 1,
    peerMatchIndex := fun peer => if peer ∈ peers.map PeerAddress.uuid then some 1 else none,
    leader := "", log := log, inASwarm := false, enableAudit := enableAudit,
    enablePeerValidation := enablePeerValidation, signedKey := signedKey }

def done : Outcome := ⟨node, [], none⟩

def throws (e : Exception) : Outcome := ⟨node, [], some e⟩

def updateRaftState (term : Nat) (state : RaftState) : Node :=
  { node with currentState := state, currentTerm := term,
              leader := if state = .leader then node.uuid else node.leader }

-- Reading a std::map with [] leaves a zero behind where the key was missing.
def matchIndexOf (peer : Uuid) : Nat := (node.peerMatchIndex peer).getD 0

def setMatchIndex (peer : Uuid) (index : Nat) : Node :=
  { node with peerMatchIndex := fun other => if other = peer then some index else node.peerMatchIndex other }

def touchMatchIndex (peer : Uuid) : Node := node.setMatchIndex peer (node.matchIndexOf peer)

def requestVoteRequest : Outcome :=
  let node := { node with votedFor := some node.uuid, yesVotes := {node.uuid}, noVotes := ∅,
                          currentTerm := (node.currentTerm + 1) % 2 ^ 32 }
  let node := { node.updateRaftState node.currentTerm .candidate with leader := "" }
  match getAllPeers node.log with
  | .error e => node.throws e
  | .ok peers =>
    let reached := peers.filter fun peer => peer.uuid ≠ node.uuid ∧ env.validAddress peer.host = true
    ⟨node, reached.map fun peer => .send peer.uuid (.raft
      (createRequestVoteRequest node.uuid node.currentTerm node.log.size node.lastLogTerm)), none⟩

-- The request for one peer. It is none where building it throws, which the loop catches: the
-- address does not parse, or a match index of zero turns index-1 into 2^32-1.
def appendEntriesFor (peer : PeerAddress) : Option Effect :=
  let index := node.matchIndexOf peer.uuid
  let request := fun prevIndex (prev : LogEntry) entryTerm msg =>
    if env.validAddress peer.host then
      some (Effect.send peer.uuid (.raft (createAppendEntriesRequest node.uuid node.currentTerm
        node.commitIndex prevIndex prev.term entryTerm msg)))
    else none
  if index < node.log.size then
    match index with
    | 0 => none
    | prevIndex + 1 =>
      match node.log.entryAt prevIndex, node.log.entryAt (prevIndex + 1) with
      | some prev, some entry => request prevIndex prev entry.term entry.msg
      | _, _ => none
  else
    match node.log.entryAt (node.log.size - 1) with
    | some prev => request (node.log.size - 1) prev 0 .null
    | none => none

-- The zeros left behind on the way change no index that a later turn of the loop reads.
def requestAppendEntries : Outcome :=
  match getAllPeers node.log with
  | .error e => node.throws e
  | .ok peers =>
    let others := peers.filter fun peer => peer.uuid ≠ node.uuid
    ⟨others.foldl (fun node peer => node.touchMatchIndex peer.uuid) node,
      others.filterMap (node.appendEntriesFor env), none⟩

def handleRequestVoteResponse (msg : Message) (granted : Bool) : Outcome :=
  if node.currentState = .leader ∧ node.currentTerm < msg.term then
    (node.updateRaftState msg.term .follower).done
  else if node.currentState ≠ .candidate then node.done
  else if granted then
    let node := { node with yesVotes := insert msg.sender node.yesVotes }
    match isMajority node.log node.yesVotes with
    | .error e => node.throws e
    | .ok false => node.done
    | .ok true =>
      let node := node.updateRaftState node.currentTerm .leader
      requestAppendEntries env
        { node with peerMatchIndex := fun peer => (node.peerMatchIndex peer).map fun _ => 1 }
  else
    let node := { node with noVotes := insert msg.sender node.noVotes }
    match isMajority node.log node.noVotes with
    | .error e => node.throws e
    | .ok false => node.done
    | .ok true => (node.updateRaftState node.currentTerm .follower).done

def handleWsRequestVote (msg : Message) (lastLogIndex : Nat) : Outcome :=
  if node.currentState = .leader ∨ node.votedFor.isSome = true then
    ⟨node, [.reply (.raft (createRequestVoteResponse node.uuid node.currentTerm false))], none⟩
  else
    let vote := decide (node.log.size ≤ lastLogIndex)
    ⟨{ node with votedFor := some msg.sender },
      [.reply (.raft (createRequestVoteResponse node.uuid node.currentTerm vote))], none⟩

-- Returns the node unchanged where the source returns false.
def appendLogUnsafe (msg : JsonMessage) (entryType : LogEntryType) : Node :=
  if node.currentState ≠ .leader then node
  else
    let entry := ⟨entryType, node.log.size, node.currentTerm, msg⟩
    { node with log := node.log.leaderAppendEntry entry }

-- The audit messages go to the same peers as everything else, but here a host that does not
-- parse is not caught.
def notify : Option Exception :=
  if node.enableAudit then
    match getAllPeers node.log with
    | .error e => some e
    | .ok peers => if peers.all (fun peer => env.validAddress peer.host) then none else some .badAddress
  else none

def performCommit (entry : LogEntry) : Outcome :=
  match node.notify env with
  | some e => node.throws e
  | none =>
    let handled := [Effect.commit node.commitIndex entry.msg]
    let node := { node with commitIndex := node.commitIndex + 1 }
    if node.currentState = .leader ∧ entry.entryType = .jointQuorum then
      match createSingleQuorumFromJointQuorum entry.msg with
      | .error e => ⟨node, handled, some e⟩
      | .ok msg => ⟨node.appendLogUnsafe msg .singleQuorum, handled, none⟩
    else ⟨node, handled, none⟩

-- Both commit loops: each turn commits the entry at commit_index and moves commit_index on by
-- one, so the distance to the loop's bound counts the turns.
def commitLoop : Nat → Node → Outcome
  | 0, node => node.done
  | turns + 1, node =>
    match node.log.entryAt node.commitIndex with
    | none => node.throws .outOfRange
    | some entry =>
      let first := node.performCommit env entry
      match first.thrown with
      | some _ => first
      | none =>
        let rest := commitLoop turns first.node
        ⟨rest.node, first.effects ++ rest.effects, rest.thrown⟩

-- The log after an AppendEntries: an accepted one that carries an entry inserts it.
def insertAccepted (log : RaftLog) (success : Bool) (msgIndex : Nat) (entries : JsonMessage)
    (entryTerm : Nat) : Except Exception RaftLog :=
  if success = true ∧ entries.isEmpty = false then
    log.followerInsertEntry msgIndex ⟨deduceTypeFromMessage entries, msgIndex, entryTerm, entries⟩
  else .ok log

-- The rest of handle_ws_append_entries, from the point where the log is settled.
def answerAndCommit (success : Bool) (msgIndex commitIndex : Nat) : Outcome :=
  let answer := Effect.reply (.raft (createAppendEntriesResponse node.uuid node.currentTerm success
    (min node.log.size (msgIndex + 1))))
  let committed :=
    if success = true ∧ node.commitIndex < commitIndex then
      commitLoop env (min node.log.size commitIndex - node.commitIndex) node
    else node.done
  match committed.thrown with
  | some e => ⟨committed.node, answer :: committed.effects, some e⟩
  | none =>
    ⟨committed.node.setMatchIndex committed.node.leader commitIndex, answer :: committed.effects, none⟩

def handleWsAppendEntries (msg : Message) (prevIndex prevTerm : Nat) (entries : JsonMessage)
    (entryTerm commitIndex : Nat) (stray : Nat → Nat) : Outcome :=
  let node := { node with inASwarm := node.inASwarm || decide (msg.sender ≠ node.uuid) }
  if (node.currentState = .candidate ∨ node.currentState = .leader) ∧ msg.term ≤ node.currentTerm then
    ⟨node.updateRaftState msg.term .follower, [.close], none⟩
  else
    let node := { node with leader := msg.sender }
    let success := node.log.entryAccepted prevIndex prevTerm (stray prevIndex)
    match insertAccepted node.log success (prevIndex + 1) entries entryTerm with
    | .error e => node.throws e
    | .ok log => { node with log := log }.answerAndCommit env success (prevIndex + 1) commitIndex

-- In a quorum of one peer, or none, the position is past the end of the sorted vector.
def medianMatchIndex (stray : Nat → Nat) (quorum : List Uuid) : Nat :=
  let matchIndices := (quorum.map node.matchIndexOf).insertionSort (· ≤ ·)
  let middle := (matchIndices.length + 1) / 2
  matchIndices[middle]?.getD (stray middle)

-- The node comes along for the zeros that the lookups leave behind.
def lastMajorityReplicatedLogIndex (stray : Nat → Nat) : Except Exception (Node × Nat) :=
  (getActiveQuorum node.log).map fun quorums =>
    (quorums.flatten.foldl touchMatchIndex node,
      quorums.foldl (fun result quorum => min result (node.medianMatchIndex stray quorum)) (2 ^ 32 - 1))

def handleRequestAppendEntriesResponse (msg : Message) (success : Bool) (matchIndex : Nat)
    (stray : Nat → Nat) : Outcome :=
  if node.currentState ≠ .leader then node.done
  else if node.log.size < matchIndex ∨ msg.term ≠ node.currentTerm then node.done
  else
    let node := node.setMatchIndex msg.sender matchIndex
    if success = false then node.done
    else
      match node.lastMajorityReplicatedLogIndex stray with
      | .error e => node.throws e
      | .ok (node, lastIndex) =>
        if node.log.size < lastIndex then node.done
        else commitLoop env (lastIndex - node.commitIndex) node

-- A session that answered a request is closed once the answer is dealt with.
def closing (outcome : Outcome) : Outcome :=
  match outcome.thrown with
  | some _ => outcome
  | none => { outcome with effects := outcome.effects ++ [.close] }

-- A message whose term is the node's own.
def handleCurrentTerm (msg : Message) (stray : Nat → Nat) : Outcome :=
  match msg.cmd with
  | .requestVote _ lastLogIndex _ => node.handleWsRequestVote msg lastLogIndex
  | .appendEntries prevIndex prevTerm entries entryTerm commitIndex =>
    node.handleWsAppendEntries env msg prevIndex prevTerm entries entryTerm commitIndex stray
  | .appendEntriesReply success matchIndex =>
    closing (node.handleRequestAppendEntriesResponse env msg success matchIndex stray)
  | .responseVote granted => closing (node.handleRequestVoteResponse env msg granted)
  | .unknown => node.done

-- A message with a higher term. A vote request is granted as it is, in whatever state the node
-- is and without a look at the log, and leaves that state alone.
def handleHigherTerm (msg : Message) : Outcome :=
  let node := { node with currentTerm := msg.term }
  let stepDown := fun (node : Node) =>
    { node.updateRaftState node.currentTerm .follower with votedFor := none }
  match msg.cmd with
  | .requestVote uuid _ _ =>
    ⟨{ node with votedFor := some uuid },
      [.reply (.raft (createRequestVoteResponse node.uuid node.currentTerm true))], none⟩
  | .appendEntries .. =>
    ⟨stepDown { node with leader := msg.sender },
      [.reply (.raft (createAppendEntriesResponse node.uuid node.currentTerm false node.log.size))], none⟩
  | .appendEntriesReply .. | .responseVote _ | .unknown => (stepDown node).done

-- A message with a lower term: the node takes that term over.
def handleLowerTerm (msg : Message) : Outcome :=
  { node.updateRaftState msg.term .follower with votedFor := none }.done

-- The part of handle_ws_raft_messages behind the membership commands.
def handleRaftMessage (msg : Message) (stray : Nat → Nat) : Outcome :=
  match inQuorum node.log msg.sender with
  | .error e => node.throws e
  | .ok false => node.done
  | .ok true =>
    if node.currentTerm = msg.term then node.handleCurrentTerm env msg stray
    else if node.currentTerm < msg.term then node.handleHigherTerm msg
    else node.handleLowerTerm msg

def handleHeartbeatTimeout (canceled : Bool) : Outcome :=
  if canceled then node.done
  else
    let requested := node.requestAppendEntries env
    match requested.thrown with
    | some _ => requested
    | none => { requested with thrown := requested.node.notify env }

end Node

end SwarmDB.Raft
