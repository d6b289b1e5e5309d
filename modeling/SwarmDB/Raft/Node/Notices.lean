import SwarmDB.Audit
import SwarmDB.Raft.Node.Journal

namespace SwarmDB.Raft

-- An audit message on its way to a peer.
abbrev Notice := Uuid × AuditMessage

namespace Node

section Sending

variable (env : Env) (text : JsonMessage → String) (node : Node)

-- The peers that a notification gets to: those before the first one whose host does not parse.
def notified : List Uuid :=
  if node.enableAudit then
    match getAllPeers node.log with
    | .error _ => []
    | .ok peers => (peers.takeWhile fun peer => env.validAddress peer.host).map PeerAddress.uuid
  else []

def notifyLeaderStatus : List Notice :=
  (node.notified env).map fun peer => (peer, .leaderStatus
    { term := node.currentTerm, leader := node.uuid, currentLogIndex := node.log.size,
      currentCommitIndex := node.commitIndex })

def notifyCommit (entry : LogEntry) : List Notice :=
  (node.notified env).map fun peer => (peer, .raftCommit
    { logIndex := node.commitIndex, operation := text entry.msg })

-- What the turns of commitLoop notify of.
def commitNotices : Nat → Node → List Notice
  | 0, _ => []
  | turns + 1, node =>
    match node.log.entryAt node.commitIndex with
    | none => []
    | some entry =>
      let first := node.performCommit env entry
      node.notifyCommit env text entry ++
        match first.thrown with
        | some _ => []
        | none => commitNotices turns first.node

-- What answerAndCommit notifies of.
def answerNotices (success : Bool) (commitIndex : Nat) : List Notice :=
  if success = true ∧ node.commitIndex < commitIndex then
    commitNotices env text (min node.log.size commitIndex - node.commitIndex) node
  else []

def appendEntriesNotices (msg : Message) (prevIndex prevTerm : Nat) (entries : JsonMessage)
    (entryTerm commitIndex : Nat) (stray : Nat → Nat) : List Notice :=
  let node := { node with inASwarm := node.inASwarm || decide (msg.sender ≠ node.uuid) }
  if (node.currentState = .candidate ∨ node.currentState = .leader) ∧ msg.term ≤ node.currentTerm then []
  else
    let node := { node with leader := msg.sender }
    let success := node.log.entryAccepted prevIndex prevTerm (stray prevIndex)
    match insertAccepted node.log success (prevIndex + 1) entries entryTerm with
    | .error _ => []
    | .ok log => { node with log := log }.answerNotices env text success commitIndex

def appendEntriesReplyNotices (msg : Message) (success : Bool) (matchIndex : Nat) (stray : Nat → Nat) :
    List Notice :=
  if node.currentState ≠ .leader then []
  else if node.log.size < matchIndex ∨ msg.term ≠ node.currentTerm then []
  else
    let node := node.setMatchIndex msg.sender matchIndex
    if success = false then []
    else
      match node.lastMajorityReplicatedLogIndex stray with
      | .error _ => []
      | .ok (node, lastIndex) =>
        if node.log.size < lastIndex then [] else commitNotices env text (lastIndex - node.commitIndex) node

def heartbeatNotices (canceled : Bool) : List Notice :=
  if canceled then []
  else
    let requested := node.requestAppendEntries env
    match requested.thrown with
    | some _ => []
    | none => requested.node.notifyLeaderStatus env

-- The audit messages that a step sends.
def notices : Input → List Notice
  | .message msg stray =>
    match inQuorum node.log msg.sender with
    | .ok true =>
      if node.currentTerm = msg.term then
        match msg.cmd with
        | .appendEntries prevIndex prevTerm entries entryTerm commitIndex =>
          node.appendEntriesNotices env text msg prevIndex prevTerm entries entryTerm commitIndex stray
        | .appendEntriesReply success matchIndex =>
          node.appendEntriesReplyNotices env text msg success matchIndex stray
        | .requestVote .. | .responseVote _ | .unknown => []
      else []
    | .ok false | .error _ => []
  | .heartbeatTimeout canceled => node.heartbeatNotices env canceled
  | .management .. | .electionTimeout .. | .appendLog .. => []

end Sending

-- The message was handed to the commit handler under this index, or it was about to be: the notification
-- came to a host that does not parse.
def Told (outcome : Outcome) (index : Nat) (msg : JsonMessage) : Prop :=
  .commit index msg ∈ outcome.effects ∨
    outcome.thrown = some .badAddress ∧ outcome.node.commitIndex = index ∧
      ∃ entry, outcome.node.log.entryAt index = some entry ∧ entry.msg = msg

section Told

variable {env : Env} {text : JsonMessage → String} {node : Node} {notice : Notice}

theorem mem_notified {peer : Uuid} (h : peer ∈ node.notified env) :
    node.notify env = none ∨ node.notify env = some .badAddress := by
  unfold notified at h
  unfold notify
  split at h
  · rename_i haudit
    rw [if_pos haudit]
    cases hpeers : getAllPeers node.log with
    | error e =>
        simp only [hpeers] at h
        cases h
    | ok peers =>
        dsimp only
        split
        · exact Or.inl rfl
        · exact Or.inr rfl
  · cases h

-- A notification of a commit is of the entry whose turn it is.
theorem told_of_notifyCommit {entry : LogEntry} (hentry : node.log.entryAt node.commitIndex = some entry)
    (h : notice ∈ node.notifyCommit env text entry) :
    ∃ commit msg, notice.2 = .raftCommit commit ∧ commit.operation = text msg ∧
      Told (node.performCommit env entry) commit.logIndex msg := by
  obtain ⟨peer, hpeer, rfl⟩ := List.mem_map.mp h
  refine ⟨_, entry.msg, rfl, rfl, ?_⟩
  unfold performCommit
  rcases mem_notified hpeer with hnone | hbad
  · rw [hnone]
    left
    dsimp only
    split
    · split <;> exact List.mem_singleton.mpr rfl
    · exact List.mem_singleton.mpr rfl
  · rw [hbad]
    exact Or.inr ⟨rfl, rfl, entry, hentry, rfl⟩

theorem Told.of_effects {outcome outcome' : Outcome} {index : Nat} {msg : JsonMessage}
    (h : Told outcome index msg) (hnone : outcome.thrown = none)
    (heffects : outcome.effects ⊆ outcome'.effects) : Told outcome' index msg := by
  rcases h with hmem | ⟨hthrown, _⟩
  · exact Or.inl (heffects hmem)
  · rw [hnone] at hthrown
    cases hthrown

theorem told_of_commitNotices {turns : Nat} (h : notice ∈ commitNotices env text turns node) :
    ∃ commit msg, notice.2 = .raftCommit commit ∧ commit.operation = text msg ∧
      Told (commitLoop env turns node) commit.logIndex msg := by
  induction turns generalizing node with
  | zero => cases h
  | succ turns ih =>
      unfold commitNotices at h
      unfold commitLoop
      cases hentry : node.log.entryAt node.commitIndex with
      | none =>
          rw [hentry] at h
          cases h
      | some entry =>
          rw [hentry] at h
          dsimp only at h ⊢
          cases hthrown : (node.performCommit env entry).thrown with
          | some e =>
              rw [hthrown] at h
              dsimp only at h ⊢
              rw [List.append_nil] at h
              exact told_of_notifyCommit hentry h
          | none =>
              rw [hthrown] at h
              dsimp only at h ⊢
              rcases List.mem_append.mp h with hfirst | hrest
              · obtain ⟨commit, msg, hnotice, htext, htold⟩ := told_of_notifyCommit hentry hfirst
                exact ⟨commit, msg, hnotice, htext,
                  htold.of_effects hthrown (List.subset_append_left _ _)⟩
              · obtain ⟨commit, msg, hnotice, htext, hmem | ⟨hbad, hindex⟩⟩ := ih hrest
                · exact ⟨commit, msg, hnotice, htext, Or.inl (List.mem_append_right _ hmem)⟩
                · exact ⟨commit, msg, hnotice, htext, Or.inr ⟨hbad, hindex⟩⟩

theorem told_of_answerNotices {success : Bool} {msgIndex commitIndex : Nat}
    (h : notice ∈ node.answerNotices env text success commitIndex) :
    ∃ commit msg, notice.2 = .raftCommit commit ∧ commit.operation = text msg ∧
      Told (node.answerAndCommit env success msgIndex commitIndex) commit.logIndex msg := by
  unfold answerNotices at h
  unfold answerAndCommit
  split at h
  · rename_i hcommits
    rw [if_pos hcommits]
    obtain ⟨commit, msg, hnotice, htext, htold⟩ := told_of_commitNotices h
    refine ⟨commit, msg, hnotice, htext, ?_⟩
    dsimp only
    cases hthrown : (commitLoop env (min node.log.size commitIndex - node.commitIndex) node).thrown with
    | none => exact htold.of_effects hthrown (List.subset_cons_self _ _)
    | some e =>
        rcases htold with hmem | ⟨hbad, hindex⟩
        · exact Or.inl (List.mem_cons_of_mem _ hmem)
        · exact Or.inr ⟨hthrown.symm.trans hbad, hindex⟩
  · cases h

theorem told_of_appendEntriesNotices {msg : Message} {prevIndex prevTerm : Nat} {entries : JsonMessage}
    {entryTerm commitIndex : Nat} {stray : Nat → Nat}
    (h : notice ∈ node.appendEntriesNotices env text msg prevIndex prevTerm entries entryTerm commitIndex stray) :
    ∃ commit content, notice.2 = .raftCommit commit ∧ commit.operation = text content ∧ Told
      (node.handleWsAppendEntries env msg prevIndex prevTerm entries entryTerm commitIndex stray)
      commit.logIndex content := by
  unfold appendEntriesNotices at h
  unfold handleWsAppendEntries
  dsimp only at h ⊢
  split at h
  · cases h
  · rename_i hfollows
    rw [if_neg hfollows]
    cases hlog : insertAccepted node.log (node.log.entryAccepted prevIndex prevTerm (stray prevIndex))
        (prevIndex + 1) entries entryTerm with
    | error e =>
        simp only [hlog] at h
        cases h
    | ok log =>
        simp only [hlog] at h
        exact told_of_answerNotices h

theorem Told.closing {outcome : Outcome} {index : Nat} {msg : JsonMessage} (h : Told outcome index msg) :
    Told (closing outcome) index msg := by
  unfold Node.closing
  split
  · exact h
  · rename_i hnone
    exact h.of_effects hnone (List.subset_append_left _ _)

theorem told_of_appendEntriesReplyNotices {msg : Message} {success : Bool} {matchIndex : Nat} {stray : Nat → Nat}
    (h : notice ∈ node.appendEntriesReplyNotices env text msg success matchIndex stray) :
    ∃ commit content, notice.2 = .raftCommit commit ∧ commit.operation = text content ∧ Told
      (node.handleRequestAppendEntriesResponse env msg success matchIndex stray) commit.logIndex content := by
  unfold appendEntriesReplyNotices at h
  unfold handleRequestAppendEntriesResponse
  dsimp only at h ⊢
  split at h
  · cases h
  rename_i hleader
  rw [if_neg hleader]
  split at h
  · cases h
  rename_i hbad
  rw [if_neg hbad]
  split at h
  · cases h
  rename_i hsuccess
  rw [if_neg hsuccess]
  cases hlast : (node.setMatchIndex msg.sender matchIndex).lastMajorityReplicatedLogIndex stray with
  | error e =>
      simp only [hlast] at h
      cases h
  | ok last =>
      obtain ⟨counted, lastIndex⟩ := last
      simp only [hlast] at h ⊢
      split at h
      · cases h
      · rename_i hinside
        rw [if_neg hinside]
        exact told_of_commitNotices h

-- An audit message speaks of the node as it is: of the term it has and calls itself the leader of, or of
-- an entry it commits.
theorem mem_notices {input : Input} (h : notice ∈ node.notices env text input) :
    (∃ status, notice.2 = .leaderStatus status ∧ input = .heartbeatTimeout false ∧
      status.term = node.currentTerm ∧ status.leader = node.uuid) ∨
    ∃ commit content, notice.2 = .raftCommit commit ∧ commit.operation = text content ∧
      Told (node.step env input) commit.logIndex content := by
  cases input with
  | management _ _ | electionTimeout _ _ | appendLog _ _ => cases h
  | heartbeatTimeout canceled =>
      left
      cases canceled with
      | true => cases h
      | false =>
          change notice ∈ node.heartbeatNotices env false at h
          unfold heartbeatNotices at h
          rw [if_neg Bool.false_ne_true] at h
          dsimp only at h
          split at h
          · cases h
          · obtain ⟨tracked, hbeat⟩ := requestAppendEntries_spec env node
            obtain ⟨peer, _, rfl⟩ := List.mem_map.mp h
            exact ⟨_, rfl, rfl, by rw [hbeat.node_eq], by rw [hbeat.node_eq]⟩
  | message msg stray =>
      right
      unfold notices at h
      unfold step handleRaftMessage
      dsimp only at h ⊢
      cases hmember : inQuorum node.log msg.sender with
      | error e =>
          simp only [hmember] at h
          cases h
      | ok member =>
          simp only [hmember] at h
          cases member with
          | false => cases h
          | true =>
              dsimp only at h ⊢
              split at h
              · rename_i hterm
                rw [if_pos hterm]
                unfold handleCurrentTerm
                cases hcmd : msg.cmd with
                | appendEntries prevIndex prevTerm entries entryTerm commitIndex =>
                    simp only [hcmd] at h
                    exact told_of_appendEntriesNotices h
                | appendEntriesReply success matchIndex =>
                    simp only [hcmd] at h
                    obtain ⟨commit, content, hnotice, htext, htold⟩ := told_of_appendEntriesReplyNotices h
                    exact ⟨commit, content, hnotice, htext, htold.closing⟩
                | requestVote _ _ _ | responseVote _ | unknown =>
                    simp only [hcmd] at h
                    cases h
              · cases h

end Told

-- The handler that the node's one timer has been given.
inductive TimerHandler
  | election
  | heartbeat
  deriving DecidableEq, Repr

section Timer

variable (env : Env) (node : Node) (timer : Option TimerHandler)

-- A vote changes the state, and then the timer, or neither.
def voteTimer (msg : Message) (granted : Bool) : Option TimerHandler :=
  let outcome := node.handleRequestVoteResponse env msg granted
  match outcome.thrown with
  | some _ => timer
  | none =>
    if outcome.node.currentState = node.currentState then timer
    else if outcome.node.currentState = .leader then some .heartbeat
    else some .election

def currentTermTimer (msg : Message) (stray : Nat → Nat) : Option TimerHandler :=
  match msg.cmd with
  | .appendEntries prevIndex prevTerm entries entryTerm commitIndex =>
    match (node.handleWsAppendEntries env msg prevIndex prevTerm entries entryTerm commitIndex stray).thrown with
    | some _ => timer
    | none => some .election
  | .responseVote granted => node.voteTimer env timer msg granted
  | .requestVote .. | .appendEntriesReply .. | .unknown => timer

-- What the timer waits for after a step. A handler that is called without an error has used its wait up,
-- and an exception comes before the next.
def nextTimer : Input → Option TimerHandler
  | .electionTimeout canceled pick =>
    if canceled then timer
    else
      match (node.handleElectionTimeout env false pick).thrown with
      | some _ => none
      | none => some .election
  | .heartbeatTimeout canceled =>
    if canceled then timer
    else
      match (node.requestAppendEntries env).thrown with
      | some _ => none
      | none => some .heartbeat
  | .message msg stray =>
    match inQuorum node.log msg.sender with
    | .ok true =>
      if node.currentTerm = msg.term then node.currentTermTimer env timer msg stray
      else if node.currentTerm < msg.term then
        match msg.cmd with
        | .requestVote .. => timer
        | .appendEntries .. | .appendEntriesReply .. | .responseVote _ | .unknown => some .election
      else some .election
    | .ok false | .error _ => timer
  | .management .. | .appendLog .. => timer

-- A handler that is called without an error is the one that the timer waits for.
def Due (timer : Option TimerHandler) : Input → Prop
  | .electionTimeout false _ => timer = some .election
  | .heartbeatTimeout false => timer = some .heartbeat
  | .electionTimeout true _ | .heartbeatTimeout true | .message .. | .management .. | .appendLog .. => True

instance (timer : Option TimerHandler) : (input : Input) → Decidable (Due timer input)
  | .electionTimeout false _ => inferInstanceAs (Decidable (timer = some .election))
  | .heartbeatTimeout false => inferInstanceAs (Decidable (timer = some .heartbeat))
  | .electionTimeout true _ | .heartbeatTimeout true | .message .. | .management .. | .appendLog .. =>
    inferInstanceAs (Decidable True)

variable {env node timer}

theorem voteTimer_leads {msg : Message} {granted : Bool}
    (hleads : timer = some .heartbeat → node.currentState = .leader)
    (h : node.voteTimer env timer msg granted = some .heartbeat) (hterm : msg.term ≤ node.currentTerm) :
    (node.handleRequestVoteResponse env msg granted).node.currentState = .leader := by
  unfold voteTimer at h
  dsimp only at h
  split at h
  · -- only a candidate looks further, and its timer does not wait for a heartbeat
    have hleader := hleads h
    unfold handleRequestVoteResponse
    rw [if_neg (by omega), if_pos (by rw [hleader]; decide)]
    exact hleader
  · split at h
    · rename_i hsame
      rw [hsame]
      exact hleads h
    · split at h
      · rename_i hleader
        exact hleader
      · cases h

theorem currentTermTimer_leads {msg : Message} {stray : Nat → Nat}
    (hleads : timer = some .heartbeat → node.currentState = .leader)
    (h : node.currentTermTimer env timer msg stray = some .heartbeat) (hterm : node.currentTerm = msg.term) :
    (node.handleCurrentTerm env msg stray).node.currentState = .leader := by
  unfold currentTermTimer at h
  unfold handleCurrentTerm
  cases hcmd : msg.cmd with
  | appendEntries prevIndex prevTerm entries entryTerm commitIndex =>
      rw [hcmd] at h
      dsimp only at h ⊢
      split at h
      · -- a leader gives up at once, and nothing is thrown
        rename_i e hthrown
        have hleader := hleads h
        rcases handleWsAppendEntries_cases env node msg prevIndex prevTerm entries entryTerm commitIndex stray
          (by omega) with ⟨_, swarm, heq⟩ | ⟨hfollower, _⟩ | ⟨log, count, happending⟩
        · rw [heq] at hthrown
          cases hthrown
        · rw [hfollower] at hleader
          cases hleader
        · have hfollower := happending.follower
          rw [hfollower] at hleader
          cases hleader
      · cases h
  | responseVote granted =>
      rw [hcmd] at h
      rw [closing_node]
      exact voteTimer_leads hleads h (by omega)
  | requestVote uuid lastLogIndex lastLogTerm =>
      rw [hcmd] at h
      unfold handleWsRequestVote
      dsimp only
      split <;> exact hleads h
  | appendEntriesReply success matchIndex =>
      rw [hcmd] at h
      rw [closing_node]
      rcases handleRequestAppendEntriesResponse_cases env node msg success matchIndex stray with
        heq | ⟨tracked, count, added, hrecording⟩
      · rw [heq]
        exact hleads h
      · obtain ⟨turns, hcommitting⟩ := hrecording.committing
        rw [hcommitting.node_eq]
        exact hrecording.leader
  | unknown =>
      rw [hcmd] at h
      exact hleads h

theorem management_state (msg : ManagementMessage) (pick : Nat) :
    (node.handleManagement env msg pick).node.currentState = node.currentState := by
  rcases handleManagement_cases env node msg pick with ⟨_, hmanaged⟩ | ⟨_, hidle⟩
  · obtain ⟨_, _, _, _, hnode⟩ := hmanaged.node_eq
    rw [hnode]
  · obtain ⟨_, _, hnode⟩ := hidle.node_eq
    rw [hnode]

-- Where the timer waits for a heartbeat, the node is a leader.
theorem nextTimer_leads {input : Input} (hleads : timer = some .heartbeat → node.currentState = .leader)
    (hdue : Due timer input) (h : node.nextTimer env timer input = some .heartbeat) :
    (node.step env input).node.currentState = .leader := by
  cases input with
  | management msg pick =>
      show (node.handleManagement env msg pick).node.currentState = .leader
      rw [management_state]
      exact hleads h
  | appendLog msg entryType =>
      show (node.appendLogUnsafe msg entryType).currentState = .leader
      have hleader := hleads h
      unfold appendLogUnsafe
      split <;> exact hleader
  | electionTimeout canceled pick =>
      cases canceled with
      | true =>
          show (node.handleElectionTimeout env true pick).node.currentState = .leader
          obtain ⟨hnode, _⟩ := @lookForSwarm_spec env node (.electionTimeout true pick) pick
          unfold handleElectionTimeout
          dsimp only
          split
          · rw [hnode]
            exact hleads h
          · rw [if_pos rfl, hnode]
            exact hleads h
      | false =>
          unfold nextTimer at h
          dsimp only at h
          rw [if_neg Bool.false_ne_true] at h
          split at h <;> cases h
  | heartbeatTimeout canceled =>
      have hleader : node.currentState = .leader := by
        cases canceled with
        | true => exact hleads h
        | false => exact hleads hdue
      show (node.handleHeartbeatTimeout env canceled).node.currentState = .leader
      unfold handleHeartbeatTimeout
      split
      · exact hleader
      · obtain ⟨tracked, hbeat⟩ := requestAppendEntries_spec env node
        dsimp only
        split <;> (rw [hbeat.node_eq]; exact hleader)
  | message msg stray =>
      show (node.handleRaftMessage env msg stray).node.currentState = .leader
      unfold nextTimer at h
      unfold handleRaftMessage
      dsimp only at h
      cases hmember : inQuorum node.log msg.sender with
      | error e =>
          simp only [hmember] at h
          exact hleads h
      | ok member =>
          simp only [hmember] at h
          cases member with
          | false => exact hleads h
          | true =>
              dsimp only at h ⊢
              split at h
              · rename_i hterm
                rw [if_pos hterm]
                exact currentTermTimer_leads hleads h hterm
              · rename_i hterm
                rw [if_neg hterm]
                split at h
                · rename_i hhigher
                  rw [if_pos hhigher]
                  unfold handleHigherTerm
                  cases hcmd : msg.cmd with
                  | requestVote uuid lastLogIndex lastLogTerm =>
                      simp only [hcmd] at h
                      exact hleads h
                  | appendEntries _ _ _ _ _ | appendEntriesReply _ _ | responseVote _ | unknown =>
                      simp only [hcmd] at h
                      cases h
                · cases h

end Timer

end Node

end SwarmDB.Raft
