import SwarmDB.Machine
import SwarmDB.Pbft.Message
import Mathlib.Data.List.AList
import Mathlib.Logic.Function.Basic

namespace SwarmDB.Pbft

-- A sequence number and the hash of the service's state there.
abbrev Checkpoint := Nat × Hash

-- The checkpoint messages of different senders, each in its envelope.
abbrev Proof := AList fun _ : Uuid => Envelope

structure Replica where
  uuid : Uuid
  view : Nat := 1
  nextIssuedSequenceNumber : Nat := 1
  lowWaterMark : Nat
  highWaterMark : Nat
  operations : OperationKey → Option Operation := fun _ => none
  acceptedPreprepares : Nat × Nat → Option OperationKey := fun _ => none
  auditEnabled : Bool := true
  stableCheckpoint : Checkpoint := (0, "<null db state>")
  stableCheckpointProof : Proof := ∅
  localUnstableCheckpoints : Finset Checkpoint := ∅
  unstableCheckpointProofs : Checkpoint → Option Proof := fun _ => none
  configurations : ConfigStore

-- CHECKPOINT_INTERVAL times HIGH_WATER_INTERVAL_IN_CHECKPOINTS.
def highWaterInterval : Nat := 200

abbrev Call (α : Type) := Handler Replica Effect Exception α

namespace Replica

section Construction

variable (lib : Library)

-- A peer that cannot be added is left out.
def initializeConfiguration (peers : List PeerAddress) : ConfigStore :=
  let config := peers.foldl (fun config peer => (config.addPeer lib.toCodec peer).2) ({} : Configuration)
  let store := ({} : ConfigStore).add config
  let store := (store.enable config.cachedHash).2
  (store.setCurrent config.cachedHash).2

def construct (peers : List PeerAddress) (uuid : Uuid) : Except Exception Replica :=
  if peers = [] then .error (.runtimeError "No peers found!")
  else .ok { uuid := uuid, configurations := initializeConfiguration lib peers,
             lowWaterMark := 0, highWaterMark := highWaterInterval }

def setAuditEnabled (r : Replica) (setting : Bool) : Replica := { r with auditEnabled := setting }

end Construction

section Peers

def currentPeers : Call (List PeerAddress) := do
  match ← Handler.reads fun r => r.configurations.current with
  | some config => return config.sortedPeers
  | none => Handler.throws (.runtimeError "No current configuration!")

-- Where nobody is configured the view is taken modulo zero.
def getPrimary : Call PeerAddress := do
  let peers ← currentPeers
  let view ← Handler.reads Replica.view
  match peers[view % peers.length]? with
  | some primary => return primary
  | none => Handler.throws .divisionByZero

def isPrimary : Call Bool := do
  let primary ← getPrimary
  let uuid ← Handler.reads Replica.uuid
  return primary.uuid == uuid

variable (lib : Library) (wire : Wire)

-- The loop of broadcast. A host that is no address stops it.
def sendTo : List PeerAddress → Call Unit
  | [] => pure ()
  | peer :: rest =>
    if lib.validAddress peer.host then do
      Handler.emits (.send peer wire)
      sendTo rest
    else Handler.throws .badAddress

def broadcast : Call Unit := do
  let peers ← currentPeers
  sendTo lib wire peers

def broadcastMsg (msg : PbftMsg) : Call Unit := do
  let uuid ← Handler.reads Replica.uuid
  broadcast lib (.pbft ⟨uuid, msg⟩)

def broadcastAudit (msg : Uuid → AuditMessage) : Call Unit := do
  let uuid ← Handler.reads Replica.uuid
  broadcast lib (.audit (msg uuid))

end Peers

section Operations

variable (lib : Library)

def store (op : Operation) (r : Replica) : Replica :=
  { r with operations := Function.update r.operations (op.key lib) (some op) }

-- This replica's record of an operation, made now if it has none.
def findOperation (view sequence : Nat) (request : Request) : Call Operation := do
  match ← Handler.reads fun r => r.operations ⟨view, sequence, lib.requestHash request⟩ with
  | some op => return op
  | none =>
    let peers ← currentPeers
    let op : Operation := { view := view, sequence := sequence, request := request, peers := peers }
    Handler.updates (store lib op)
    return op

-- The configuration that a request holds, unless from_string refuses it.
def readConfiguration (request : Request) : Call (Option Configuration) :=
  let read := Configuration.fromString lib.toCodec request.configuration {}
  match read.result with
  | .error e => Handler.throws e
  | .ok good => return if good then some read.state else none

def updateConfigurations (f : ConfigStore → ConfigStore) (r : Replica) : Replica :=
  { r with configurations := f r.configurations }

def doPreprepare (op : Operation) : Call Unit := broadcastMsg lib (commonMessageSetup op .preprepare)

def doPreprepared (op : Operation) : Call Unit := broadcastMsg lib (commonMessageSetup op .prepare)

-- Whether the request brings a new configuration along, and what then happens to the store.
def withNewConfiguration (op : Operation) (f : Hash → ConfigStore → ConfigStore) : Call Unit := do
  if op.request.type = .newConfig ∧ op.request.hasConfig = true then
    match ← readConfiguration lib op.request with
    | some config => Handler.updates (updateConfigurations (f config.cachedHash))
    | none => return ()
  else return ()

def doPrepared (op : Operation) : Call Operation := do
  withNewConfiguration lib op fun hash store => (store.enable hash).2
  match op.beginCommitPhase with
  | .error e => Handler.throws e
  | .ok op =>
    Handler.updates (store lib op)
    broadcastMsg lib (commonMessageSetup op .commit)
    return op

def auditCommit (op : Operation) : Call Unit := do
  if ← Handler.reads Replica.auditEnabled then
    broadcastAudit lib (.pbftCommit (lib.requestHash op.request) op.sequence)
  else return ()

-- The end of do_committed, from the change of the state on.
def finishOperation (op : Operation) : Call Unit := do
  Handler.updates (store lib op)
  auditCommit lib op
  let op ← findOperation lib op.view op.sequence op.request
  Handler.emits (.applyOperation op)

def doCommitted (op : Operation) : Call Unit := do
  withNewConfiguration lib op fun hash store => (store.removePriorTo hash).2
  match op.endCommitPhase with
  | .error e => Handler.throws e
  | .ok op => finishOperation lib op

def maybeAdvanceOperationState (op : Operation) : Call Unit := do
  let op ← (if op.state = .prepare ∧ op.isPrepared = true then doPrepared lib op else pure op : Call Operation)
  if op.state = .commit ∧ op.isCommitted = true then doCommitted lib op else return ()

end Operations

section Messages

variable (lib : Library)

def preliminaryFilterMsg (msg : PbftMsg) (r : Replica) : Bool :=
  if msg.type = .preprepare ∨ msg.type = .prepare ∨ msg.type = .commit then
    if msg.view ≠ r.view then false
    else if msg.sequence ≤ r.lowWaterMark then false
    else if r.highWaterMark < msg.sequence then false
    else true
  else true

-- proposed_config_is_acceptable takes every configuration.
def handleConfigMessage (msg : PbftMsg) (op : Operation) : Call Unit := do
  if msg.type = .preprepare then
    match ← readConfiguration lib op.request with
    | some config => Handler.updates (updateConfigurations fun store => store.add config)
    | none => return ()
  else return ()

def conflictingPreprepare (msg : PbftMsg) (r : Replica) : Bool :=
  match r.acceptedPreprepares (msg.view, msg.sequence) with
  | some accepted => accepted.hash ≠ lib.requestHash msg.requestOf
  | none => false

-- record_preprepare, and the entry in accepted_preprepares.
def acceptPreprepare (op : Operation) (r : Replica) : Replica :=
  { store lib op r with
    acceptedPreprepares := Function.update r.acceptedPreprepares (op.view, op.sequence) (some (op.key lib)) }

def handlePreprepare (msg : PbftMsg) : Call Unit := do
  if ← Handler.reads (conflictingPreprepare lib msg) then return ()
  else
    let op ← findOperation lib msg.view msg.sequence msg.requestOf
    let op := op.recordPreprepare
    Handler.updates (acceptPreprepare lib op)
    (if msg.request.isSome ∧ msg.requestOf.type = .newConfig then handleConfigMessage lib msg op
      else pure () : Call Unit)
    doPreprepared lib op
    maybeAdvanceOperationState lib op

def handlePrepare (msg : PbftMsg) (original : Envelope) : Call Unit := do
  let op ← findOperation lib msg.view msg.sequence msg.requestOf
  let op := op.recordPrepare original.sender
  Handler.updates (store lib op)
  maybeAdvanceOperationState lib op

def handleCommit (msg : PbftMsg) (original : Envelope) : Call Unit := do
  let op ← findOperation lib msg.view msg.sequence msg.requestOf
  let op := op.recordCommit original.sender
  Handler.updates (store lib op)
  maybeAdvanceOperationState lib op

def setupRequestOperation (request : Request) : Call Operation := do
  let sequence ← Handler.reads Replica.nextIssuedSequenceNumber
  Handler.updates fun r => { r with nextIssuedSequenceNumber := (sequence + 1) % 2 ^ 64 }
  let view ← Handler.reads Replica.view
  findOperation lib view sequence request

def handleRequest (request : Request) (original : String) : Call Unit := do
  if ← isPrimary then
    let op ← setupRequestOperation lib request
    doPreprepare lib op
  else
    let primary ← getPrimary
    if lib.validAddress primary.host then Handler.emits (.forward primary original)
    else Handler.throws .badAddress

end Messages

section Membership

variable (lib : Library)

def broadcastNewConfiguration (config : Configuration) : Call Unit := do
  let request : Request := { type := .newConfig, body := .config (config.toString lib.toCodec) }
  let op ← setupRequestOperation lib request
  doPreprepare lib op

-- A copy of the current configuration, with the peer added or removed if that can be done.
def changedConfiguration (type : MembershipType) (peer : PeerAddress) (config : Configuration) :
    Bool × Configuration :=
  match type with
  | .join => config.addPeer lib.toCodec peer
  | .leave => config.removePeer lib.toCodec peer
  | .undefined => (true, config)

def handleJoinOrLeave (type : MembershipType) (info : PeerInfo) : Call Unit := do
  if ← isPrimary then
    match ← Handler.reads fun r => r.configurations.current with
    | none => Handler.throws (.runtimeError "No current configuration!")
    | some config =>
      let changed := changedConfiguration lib type info.address config
      if changed.1 then
        Handler.updates (updateConfigurations fun store => store.add changed.2)
        broadcastNewConfiguration lib changed.2
      else return ()
  else return ()

def handleMembershipMessage (msg : MembershipMsg) : Call Unit :=
  match msg.peerInfo with
  | none => pure ()
  | some info =>
    match msg.type with
    | .join | .leave => handleJoinOrLeave lib msg.type info
    | .undefined => pure ()

-- What a new view would ask about a configuration, and the step to it.

def isConfigurationAcceptableInNewView (configHash : Hash) (r : Replica) : Bool :=
  r.configurations.isEnabled configHash

def moveToNewConfiguration (configHash : Hash) (r : Replica) : Bool × Replica :=
  if r.configurations.isEnabled configHash = true then
    (true, updateConfigurations (fun store => ((store.setCurrent configHash).2.removePriorTo configHash).2) r)
  else (false, r)

end Membership

section Checkpoints

variable (lib : Library)

def maxFaultyNodes : Call Nat := do
  let peers ← currentPeers
  return peers.length / 3

def quorumSize : Call Nat := do
  let faulty ← maxFaultyNodes
  return 1 + 2 * faulty

-- What the number of a checkpoint reads as at each place in maybe_stabilize_checkpoint that comes after
-- clear_local_checkpoints_until. It is the number itself as long as the checkpoint is there.
structure Reads where
  messages : Nat
  operations : OperationKey → Nat
  lowCompared : Nat
  low : Nat
  high : Nat

def Reads.of (cp : Checkpoint) : Reads := ⟨cp.1, fun _ => cp.1, cp.1, cp.1, cp.1⟩

-- The keys that upper_bound leaves behind when everything up to a checkpoint is erased.
def upTo (bound cp : Checkpoint) : Bool := cp.1 < bound.1 || (cp.1 == bound.1 && decide (cp.2 ≤ bound.2))

-- Reading the map with [] leaves an empty entry behind.
def touchProof (cp : Checkpoint) (r : Replica) : Replica :=
  let proof := (r.unstableCheckpointProofs cp).getD ∅
  { r with unstableCheckpointProofs := Function.update r.unstableCheckpointProofs cp (some proof) }

def clearLocalCheckpointsUntil (cp : Checkpoint) (r : Replica) : Replica :=
  { r with localUnstableCheckpoints :=
      r.localUnstableCheckpoints.filter fun other => upTo ((cp.1 + 1) % 2 ^ 64, "") other = false }

def clearCheckpointMessagesUntil (sequence : Nat) (r : Replica) : Replica :=
  { r with unstableCheckpointProofs := fun other =>
      if upTo ((sequence + 1) % 2 ^ 64, "") other then none else r.unstableCheckpointProofs other }

-- The loop reads the number for each of the operations.
def clearOperationsUntil (sequence : OperationKey → Nat) (r : Replica) : Replica :=
  { r with operations := fun key => (r.operations key).filter fun op => sequence key < op.sequence }

-- std::max compares with the number and then takes it, and the sum is a number of its own.
def raiseWaterMarks (reads : Reads) (r : Replica) : Replica :=
  { r with lowWaterMark := if r.lowWaterMark < reads.lowCompared then reads.low else r.lowWaterMark,
           highWaterMark := max r.highWaterMark ((reads.high + highWaterInterval) % 2 ^ 64) }

-- The reads of the number from clear_checkpoint_messages_until on. A checkpoint that is referred to as an
-- element of local_unstable_checkpoints may be erased by then.
def laterReads (cp : Checkpoint) (freed : Option Reads) (r : Replica) : Reads :=
  match freed with
  | none => .of cp
  | some freed => if cp ∈ (clearLocalCheckpointsUntil cp r).localUnstableCheckpoints then .of cp else freed

def stabilizeCheckpoint (cp : Checkpoint) (reads : Reads) (r : Replica) : Replica :=
  let r := { r with stableCheckpoint := cp,
                    stableCheckpointProof := (r.unstableCheckpointProofs cp).getD ∅ }
  raiseWaterMarks reads (clearOperationsUntil reads.operations (clearCheckpointMessagesUntil reads.messages
    (clearLocalCheckpointsUntil cp r)))

-- The checkpoint is a reference: to a variable of the caller, or, where it comes with what freed memory
-- reads as, to an element of local_unstable_checkpoints.
def maybeStabilizeCheckpoint (cp : Checkpoint) (freed : Option Reads) : Call Unit := do
  if ← Handler.reads fun r => decide (cp ∈ r.localUnstableCheckpoints) then
    Handler.updates (touchProof cp)
    let quorum ← quorumSize
    let size ← Handler.reads fun r => ((r.unstableCheckpointProofs cp).getD ∅).entries.length
    if size < quorum then return ()
    else Handler.updates fun r => stabilizeCheckpoint cp (laterReads cp freed r) r
  else return ()

def addLocalCheckpoint (cp : Checkpoint) (r : Replica) : Replica :=
  { r with localUnstableCheckpoints := insert cp r.localUnstableCheckpoints }

-- The hash comes from the service. What is passed on is the element of the set.
def checkpointReachedLocally (sequence : Nat) (stateHash : Hash) (freed : Reads) : Call Unit := do
  let cp : Checkpoint := (sequence, stateHash)
  Handler.updates (addLocalCheckpoint cp)
  let view ← Handler.reads Replica.view
  broadcastMsg lib { type := .checkpoint, view := view, sequence := sequence, stateHash := stateHash }
  maybeStabilizeCheckpoint cp (some freed)

def addProof (cp : Checkpoint) (original : Envelope) (r : Replica) : Replica :=
  let proof := (r.unstableCheckpointProofs cp).getD ∅
  { r with unstableCheckpointProofs :=
      Function.update r.unstableCheckpointProofs cp (some (proof.insert original.sender original)) }

def handleCheckpoint (msg : PbftMsg) (original : Envelope) : Call Unit := do
  if ← Handler.reads fun r => decide (msg.sequence ≤ r.stableCheckpoint.1) then return ()
  else
    Handler.updates (addProof (msg.sequence, msg.stateHash) original)
    maybeStabilizeCheckpoint (msg.sequence, msg.stateHash) none

end Checkpoints

section Step

variable (lib : Library)

def handleMessage (msg : PbftMsg) (original : Envelope) : Call Unit := do
  if ← Handler.reads (preliminaryFilterMsg msg) then
    match msg.type with
    | .preprepare => handlePreprepare lib msg
    | .prepare => handlePrepare lib msg original
    | .commit => handleCommit lib msg original
    | .checkpoint => handleCheckpoint msg original
    | .undefined => Handler.throws (.runtimeError "Unsupported message type")
  else return ()

def handleAuditHeartbeatTimeout (canceled : Bool) : Call Unit := do
  if canceled then return ()
  else
    let primary ← isPrimary
    let enabled ← Handler.reads Replica.auditEnabled
    if primary && enabled then
      let view ← Handler.reads Replica.view
      broadcastAudit lib (.primaryStatus view)
    else return ()

def handleFailure : Call Unit := do
  if ← Handler.reads Replica.auditEnabled then broadcastAudit lib .failureDetected
  else return ()

end Step

end Replica

-- Everything that reaches a replica: a message with the envelope it came in, a client's request,
-- a message about the membership, the service's word that it has executed up to a checkpoint (with
-- what the checkpoint's memory reads as if it is freed in between), the heartbeat timer and the
-- failure detector.
inductive Input
  | message (msg : PbftMsg) (original : Envelope)
  | request (request : Request) (original : String)
  | membership (msg : MembershipMsg)
  | checkpointReachedLocally (sequence : Nat) (stateHash : Hash) (freed : Replica.Reads)
  | auditHeartbeatTimeout (canceled : Bool)
  | failure

def Input.handler (lib : Library) : Input → Call Unit
  | message msg original => Replica.handleMessage lib msg original
  | request req original => Replica.handleRequest lib req original
  | membership msg => Replica.handleMembershipMessage lib msg
  | checkpointReachedLocally sequence stateHash freed =>
    Replica.checkpointReachedLocally lib sequence stateHash freed
  | auditHeartbeatTimeout canceled => Replica.handleAuditHeartbeatTimeout lib canceled
  | failure => Replica.handleFailure lib

-- One replica, called in any way at any time.
def lifetime (lib : Library) : Machine Replica Input where
  init r := ∃ peers uuid fresh setting, Replica.construct lib peers uuid = .ok fresh ∧
    r = fresh.setAuditEnabled setting
  enabled _ _ := True
  next r input := (input.handler lib r).state

-- Everything the replica did in the run, the earliest first.
def done (lib : Library) : List (Replica × Input) → List Effect
  | [] => []
  | (r, input) :: past => done lib past ++ (input.handler lib r).effects

end SwarmDB.Pbft
