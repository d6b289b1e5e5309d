import Mathlib.Algebra.Group.Nat.Defs
import SwarmDB.Handler
import SwarmDB.Machine
import SwarmDB.PeerAddress
import SwarmDB.Window

namespace SwarmDB

structure LeaderStatus where
  term : Nat := 0
  leader : Uuid := ""
  currentLogIndex : Nat := 0
  currentCommitIndex : Nat := 0
  deriving DecidableEq, Repr

structure RaftCommitNotification where
  senderUuid : Uuid := ""
  logIndex : Nat := 0
  operation : String := ""
  deriving DecidableEq, Repr

structure PrimaryStatus where
  view : Nat := 0
  primary : Uuid := ""
  deriving DecidableEq, Repr

structure PbftCommitNotification where
  senderUuid : Uuid := ""
  sequenceNumber : Nat := 0
  operation : String := ""
  deriving DecidableEq, Repr

-- The oneof of an audit_message.
inductive AuditMessage
  | unset
  | raftCommit (commit : RaftCommitNotification)
  | leaderStatus (status : LeaderStatus)
  | pbftCommit (commit : PbftCommitNotification)
  | primaryStatus (status : PrimaryStatus)
  | failureDetected (senderUuid : Uuid)
  deriving DecidableEq, Repr

-- What an audit is constructed with. The endpoint is the host and port of the monitor.
structure AuditSettings where
  uuid : Uuid
  monitorEndpoint : Option (String × Nat) := none
  memSize : Nat
  usePbft : Bool
  deriving DecidableEq, Repr

-- The handler that the timer leader_alive_timer has been given.
inductive AliveHandler
  | leader
  | primary
  deriving DecidableEq, Repr

-- A timer is pending from the wait it is given to the call of its handler or to a cancel. The counts that
-- only grow with the errors are plain numbers; those in the texts of the errors have 32 bits.
structure Audit where
  startOnce : Bool := false
  recordedErrors : List String := []
  leaderDeadCount : Nat := 0
  primaryDeadCount : Nat := 0
  leaderStuckCount : Nat := 0
  recordedLeaders : OrderedMap Nat Uuid := .empty
  recordedRaftCommits : OrderedMap Nat String := .empty
  recordedPrimaries : OrderedMap Nat Uuid := .empty
  recordedPbftCommits : OrderedMap Nat String := .empty
  leaderAliveTimer : Option AliveHandler := none
  leaderProgressTimer : Bool := false
  lastLeader : Uuid := ""
  lastLeaderCommitIndex : Nat := 0
  leaderHasUncommittedEntries : Bool := false
  forgottenErrorCount : Nat := 0

-- What a call does to the outside: it logs an error, sends a stat to the monitor, sets a timer to its full
-- time or closes the session that the message came from.
inductive AuditEffect
  | error (metric description : String)
  | monitor (stat : String)
  | restartAlive
  | restartProgress
  | close
  deriving DecidableEq, Repr

namespace Audit

def leaderConflictMetricName : String := "raft.safety.leader_conflict"
def raftCommitConflictMetricName : String := "raft.safety.commit_conflict"
def leaderStuckMetricName : String := "raft.liveness.leader_stuck"
def noLeaderMetricName : String := "raft.liveness.no_leader"
def raftCommitMetricName : String := "raft.stats.commit_heard"
def newLeaderMetricName : String := "raft.stats.new_leader_heard"
def pbftCommitMetricName : String := "pbft.stats.commit_heard"
def primaryHeardMetricName : String := "pbft.stats.primary_heard"
def failureDetectedMetricName : String := "pbft.stats.failure_detected"
def pbftCommitConflictMetricName : String := "pbft.safety.commit_conflict"
def primaryConflictMetricName : String := "pbft.safety.primary_conflict"
def noPrimaryMetricName : String := "pbft.liveness.no_primary"
def statsdCounterFormat : String := ":1|c"

-- Nothing here throws.
abbrev Auditing := Handler Audit AuditEffect Empty

def errorCount (audit : Audit) : Nat := audit.recordedErrors.length + audit.forgottenErrorCount

def errorStrings (audit : Audit) : List String := audit.recordedErrors

-- The loop that pops the oldest errors, with the count of those.
def forgetErrors (memSize : Nat) : List String → Nat → List String × Nat
  | [], count => ([], count)
  | error :: rest, count =>
    if memSize < (error :: rest).length then forgetErrors memSize rest (count + 1) else (error :: rest, count)

variable (settings : AuditSettings)

def trim (audit : Audit) : Audit :=
  let kept := forgetErrors settings.memSize audit.recordedErrors audit.forgottenErrorCount
  { audit with recordedErrors := kept.1, forgottenErrorCount := kept.2
               recordedLeaders := audit.recordedLeaders.trim settings.memSize
               recordedRaftCommits := audit.recordedRaftCommits.trim settings.memSize }

def sendToMonitor (stat : String) : Auditing Unit :=
  if settings.monitorEndpoint.isSome then Handler.emits (.monitor stat) else pure ()

def statsdNamespacePrefix : String := "com.bluzelle.swarm.singleton.node." ++ settings.uuid ++ "."

def reportError (metricName description : String) : Auditing Unit := do
  Handler.updates fun audit => { audit with recordedErrors := audit.recordedErrors ++ [description] }
  let metric := statsdNamespacePrefix settings ++ metricName
  Handler.emits (.error metric description)
  sendToMonitor settings (metric ++ statsdCounterFormat)
  Handler.updates (trim settings)

section Timers

def waitForLeader : Auditing Unit := do
  Handler.emits .restartAlive
  Handler.updates fun audit => { audit with leaderAliveTimer := some .leader }

def waitForPrimary : Auditing Unit := do
  Handler.emits .restartAlive
  Handler.updates fun audit => { audit with leaderAliveTimer := some .primary }

def waitForProgress : Auditing Unit := do
  Handler.emits .restartProgress
  Handler.updates fun audit => { audit with leaderProgressTimer := true }

def resetPrimaryAliveTimer : Auditing Unit := do
  Handler.updates fun audit => { audit with primaryDeadCount := 0 }
  waitForPrimary

def resetLeaderAliveTimer : Auditing Unit := do
  Handler.updates fun audit => { audit with leaderDeadCount := 0 }
  waitForLeader

def resetLeaderProgressTimer : Auditing Unit := do
  Handler.updates fun audit => { audit with leaderStuckCount := 0 }
  waitForProgress

def clearLeaderProgressTimer : Auditing Unit :=
  Handler.updates fun audit => { audit with leaderStuckCount := 0, leaderProgressTimer := false }

def handleLeaderAliveTimeout (canceled : Bool) : Auditing Unit := do
  if canceled then pure ()
  else
    Handler.updates fun audit =>
      { audit with leaderDeadCount := (audit.leaderDeadCount + 1) % 2 ^ 32, leaderAliveTimer := none }
    let count ← Handler.reads leaderDeadCount
    reportError settings noLeaderMetricName s!"No leader alive [{count}]"
    clearLeaderProgressTimer
    Handler.updates fun audit => { audit with leaderHasUncommittedEntries := false }
    waitForLeader

def handlePrimaryAliveTimeout (canceled : Bool) : Auditing Unit := do
  if canceled then pure ()
  else
    Handler.updates fun audit =>
      { audit with primaryDeadCount := (audit.primaryDeadCount + 1) % 2 ^ 32, leaderAliveTimer := none }
    let count ← Handler.reads primaryDeadCount
    reportError settings noPrimaryMetricName s!"No primary alive [{count}]"
    waitForPrimary

def handleLeaderProgressTimeout (canceled : Bool) : Auditing Unit := do
  if canceled then pure ()
  else
    Handler.updates fun audit =>
      { audit with leaderStuckCount := (audit.leaderStuckCount + 1) % 2 ^ 32, leaderProgressTimer := false }
    let count ← Handler.reads leaderStuckCount
    reportError settings leaderStuckMetricName s!"Leader alive but not making progress [{count}]"
    waitForProgress

def start : Auditing Unit := do
  if ← Handler.reads startOnce then pure ()
  else
    Handler.updates fun audit => { audit with startOnce := true }
    if settings.usePbft then resetPrimaryAliveTimer else resetLeaderAliveTimer

end Timers

-- The containers that keep what was reported under a number.
inductive Container
  | leaders
  | raftCommits
  | primaries
  | pbftCommits
  deriving DecidableEq, Repr

namespace Container

def held (audit : Audit) : Container → OrderedMap Nat String
  | leaders => audit.recordedLeaders
  | raftCommits => audit.recordedRaftCommits
  | primaries => audit.recordedPrimaries
  | pbftCommits => audit.recordedPbftCommits

def replace (m : OrderedMap Nat String) (audit : Audit) : Container → Audit
  | leaders => { audit with recordedLeaders := m }
  | raftCommits => { audit with recordedRaftCommits := m }
  | primaries => { audit with recordedPrimaries := m }
  | pbftCommits => { audit with recordedPbftCommits := m }

end Container

-- What the four handlers that record have in common: a number that is new is recorded with what was
-- reported for it, and another report for it is a conflict.
def recordOrCompare (container : Container) (number : Nat) (reported : String) (heard : Auditing Unit)
    (conflictMetricName : String) (conflict : String → String) : Auditing Unit := do
  match ← Handler.reads fun audit => (container.held audit).get number with
  | none =>
    heard
    Handler.updates fun audit => container.replace ((container.held audit).put number reported) audit
    Handler.updates (trim settings)
  | some recorded =>
    if recorded ≠ reported then reportError settings conflictMetricName (conflict recorded) else pure ()

def conflictingPrimary (status : PrimaryStatus) (recorded : String) : String :=
  s!"Conflicting primary elected! '{recorded}' is the recorded primary of view {status.view}, but " ++
    s!"'{status.primary}' claims to be the primary of the same view."

def conflictingLeader (status : LeaderStatus) (recorded : String) : String :=
  s!"Conflicting leader elected! '{recorded}' is the recorded leader of term {status.term}, but " ++
    s!"'{status.leader}' claims to be the leader of the same term."

def conflictingRaftCommit (commit : RaftCommitNotification) (recorded : String) : String :=
  s!"Conflicting commit detected! '{recorded}' is the recorded entry at index {commit.logIndex}, but " ++
    s!"'{commit.operation}' has been committed with the same index."

def conflictingPbftCommit (commit : PbftCommitNotification) (recorded : String) : String :=
  s!"Conflicting commit detected! '{recorded}' is the recorded entry at sequence {commit.sequenceNumber}, but " ++
    s!"'{commit.operation}' has been committed with the same sequence."

def handlePrimaryStatus (status : PrimaryStatus) : Auditing Unit := do
  if settings.usePbft = false then pure ()
  else
    recordOrCompare settings .primaries status.view status.primary
      (sendToMonitor settings (primaryHeardMetricName ++ statsdCounterFormat))
      primaryConflictMetricName (conflictingPrimary status)
    resetPrimaryAliveTimer

def handleLeaderMadeProgress (status : LeaderStatus) : Auditing Unit := do
  if status.currentCommitIndex = status.currentLogIndex then
    clearLeaderProgressTimer
    Handler.updates fun audit => { audit with leaderHasUncommittedEntries := false }
  else
    resetLeaderProgressTimer
    Handler.updates fun audit => { audit with leaderHasUncommittedEntries := true }

def handleLeaderData (status : LeaderStatus) : Auditing Unit := do
  let lastLeader ← Handler.reads lastLeader
  let lastLeaderCommitIndex ← Handler.reads lastLeaderCommitIndex
  let leaderHasUncommittedEntries ← Handler.reads leaderHasUncommittedEntries
  if status.leader ≠ lastLeader then
    Handler.updates fun audit => { audit with lastLeader := status.leader }
    handleLeaderMadeProgress status
  else if lastLeaderCommitIndex < status.currentCommitIndex then
    handleLeaderMadeProgress status
  else if status.currentCommitIndex < status.currentLogIndex ∧ leaderHasUncommittedEntries = false then
    resetLeaderProgressTimer
    Handler.updates fun audit => { audit with leaderHasUncommittedEntries := true }
  else pure ()
  Handler.updates fun audit => { audit with lastLeaderCommitIndex := status.currentCommitIndex }

def handleLeaderStatus (status : LeaderStatus) : Auditing Unit := do
  if settings.usePbft then pure ()
  else
    recordOrCompare settings .leaders status.term status.leader
      (sendToMonitor settings (newLeaderMetricName ++ statsdCounterFormat))
      leaderConflictMetricName (conflictingLeader status)
    resetLeaderAliveTimer
    handleLeaderData status

def handleRaftCommit (commit : RaftCommitNotification) : Auditing Unit := do
  if settings.usePbft then pure ()
  else
    sendToMonitor settings (raftCommitMetricName ++ statsdCounterFormat)
    recordOrCompare settings .raftCommits commit.logIndex commit.operation (pure ())
      raftCommitConflictMetricName (conflictingRaftCommit commit)

def handlePbftCommit (commit : PbftCommitNotification) : Auditing Unit := do
  if settings.usePbft = false then pure ()
  else
    sendToMonitor settings (pbftCommitMetricName ++ statsdCounterFormat)
    recordOrCompare settings .pbftCommits commit.sequenceNumber commit.operation (pure ())
      pbftCommitConflictMetricName (conflictingPbftCommit commit)

def handleFailureDetected : Auditing Unit :=
  if settings.usePbft = false then pure ()
  else sendToMonitor settings (failureDetectedMetricName ++ statsdCounterFormat)

def handle (msg : AuditMessage) : Auditing Unit := do
  match msg with
  | .raftCommit commit => handleRaftCommit settings commit
  | .leaderStatus status => handleLeaderStatus settings status
  | .pbftCommit commit => handlePbftCommit settings commit
  | .primaryStatus status => handlePrimaryStatus settings status
  | .failureDetected _ => handleFailureDetected settings
  | .unset => pure ()
  Handler.emits .close

-- The calls, each under the lock, and the timers calling their handlers.
inductive Event
  | start
  | message (msg : AuditMessage)
  | leaderAliveTimeout (canceled : Bool)
  | primaryAliveTimeout (canceled : Bool)
  | leaderProgressTimeout (canceled : Bool)
  deriving DecidableEq, Repr

def Event.handler : Event → Auditing Unit
  | .start => Audit.start settings
  | .message msg => handle settings msg
  | .leaderAliveTimeout canceled => handleLeaderAliveTimeout settings canceled
  | .primaryAliveTimeout canceled => handlePrimaryAliveTimeout settings canceled
  | .leaderProgressTimeout canceled => handleLeaderProgressTimeout settings canceled

-- Any of them at any time.
def calls : Machine Audit Event where
  init audit := audit = {}
  enabled _ _ := True
  next audit event := (event.handler settings audit).state

-- A handler that is called without an error is one that the timer has been given and that was not canceled.
def Due (audit : Audit) : Event → Prop
  | .start | .message _ => True
  | .leaderAliveTimeout canceled => canceled = false → audit.leaderAliveTimer = some .leader
  | .primaryAliveTimeout canceled => canceled = false → audit.leaderAliveTimer = some .primary
  | .leaderProgressTimeout canceled => canceled = false → audit.leaderProgressTimer = true

instance (audit : Audit) : (event : Event) → Decidable (Due audit event)
  | .start | .message _ => inferInstanceAs (Decidable True)
  | .leaderAliveTimeout _ | .primaryAliveTimeout _ | .leaderProgressTimeout _ =>
    inferInstanceAs (Decidable (_ → _))

def auditing : Machine Audit Event := (calls settings).guard Due

end Audit

end SwarmDB
