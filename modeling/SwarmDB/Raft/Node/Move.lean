import SwarmDB.Machine
import SwarmDB.Raft.Node.Handlers

namespace SwarmDB.Raft

namespace Node

variable (env : Env) (node : Node)

-- The election timer fires and gets as far as request_vote_request.
def Campaigns (input : Input) : Prop :=
  ∃ pick, input = .electionTimeout false pick ∧ (node.lookForSwarm env pick).thrown = none

instance : (input : Input) → Decidable (node.Campaigns env input)
  | .electionTimeout false pick =>
    decidable_of_iff ((node.lookForSwarm env pick).thrown = none) (by simp [Campaigns])
  | .electionTimeout true _ | .message .. | .management .. | .heartbeatTimeout _ | .appendLog .. =>
    isFalse (by simp [Campaigns])

-- A raft message that passes the check against the quorum.
structure Hears (input : Input) (msg : Message) (stray : Nat → Nat) : Prop where
  input_eq : input = .message msg stray
  member : inQuorum node.log msg.sender = .ok true

theorem Hears.not_campaigns {node : Node} {input : Input} {msg : Message} {stray : Nat → Nat}
    (h : node.Hears input msg stray) : ¬node.Campaigns env input := by
  rintro ⟨pick, hinput, _⟩
  rw [h.input_eq] at hinput
  cases hinput

-- The term a candidacy is for.
def nextTerm : Nat := (node.currentTerm + 1) % 2 ^ 32

def wins (msg : Message) : Node :=
  { node with yesVotes := insert msg.sender node.yesVotes, currentState := .leader, leader := node.uuid,
              peerMatchIndex := fun peer => (node.peerMatchIndex peer).map fun _ => 1 }

-- Everything one step can do to a node, with what is sent on the way.
inductive Move (input : Input) (outcome : Outcome) : Prop
  | idle (hidle : node.Idle input outcome) (hcampaign : ¬node.Campaigns env input)
  | manage (msg : ManagementMessage) (pick : Nat) (hinput : input = .management msg pick)
      (hmember : msg.isMembership = true) (hmanaged : node.Managed input outcome)
  | append (msg : JsonMessage) (entryType : LogEntryType) (log : RaftLog) (added : List LogEntry)
      (hinput : input = .appendLog msg entryType) (hnode : outcome.node = { node with log := log })
      (hlead : node.Leading log added)
      (hadded : ∀ entry ∈ added, entry.entryType = entryType ∧ entry.msg = msg)
      (heffects : outcome.effects = [])
  | beat (tracked : Uuid → Option Nat) (hinput : input = .heartbeatTimeout false)
      (hbeat : node.Beating outcome tracked)
  | campaign (hcampaign : node.Campaigns env input)
      (hnode : outcome.node = { node with
        votedFor := some node.uuid, yesVotes := {node.uuid}, noVotes := ∅,
        currentTerm := node.nextTerm, currentState := .candidate, leader := "" })
      (hsends : ∀ effect ∈ outcome.effects, node.Gossip input effect ∨ ∃ peer, peer ≠ node.uuid ∧
        effect = .send peer (.raft (createRequestVoteRequest node.uuid node.nextTerm node.log.size
          node.lastLogTerm)))
  | refuse (msg : Message) (stray : Nat → Nat) (uuid : Uuid) (lastLogIndex lastLogTerm : Nat)
      (hears : node.Hears input msg stray) (hcmd : msg.cmd = .requestVote uuid lastLogIndex lastLogTerm)
      (hterm : msg.term = node.currentTerm) (hnode : outcome.node = node)
      (heffects : outcome.effects =
        [.reply (.raft (createRequestVoteResponse node.uuid node.currentTerm false))])
  | vote (msg : Message) (stray : Nat → Nat) (uuid : Uuid) (lastLogIndex lastLogTerm : Nat)
      (hears : node.Hears input msg stray) (hcmd : msg.cmd = .requestVote uuid lastLogIndex lastLogTerm)
      (hterm : msg.term = node.currentTerm) (hfree : node.votedFor = none)
      (hnode : outcome.node = { node with votedFor := some msg.sender })
      (heffects : outcome.effects = [.reply (.raft (createRequestVoteResponse node.uuid
        node.currentTerm (decide (node.log.size ≤ lastLogIndex))))])
  | voteAhead (msg : Message) (stray : Nat → Nat) (uuid : Uuid) (lastLogIndex lastLogTerm : Nat)
      (hears : node.Hears input msg stray) (hcmd : msg.cmd = .requestVote uuid lastLogIndex lastLogTerm)
      (hterm : node.currentTerm < msg.term)
      (hnode : outcome.node = { node with currentTerm := msg.term, votedFor := some uuid })
      (heffects : outcome.effects =
        [.reply (.raft (createRequestVoteResponse node.uuid msg.term true))])
  | stepDown (msg : Message) (stray : Nat → Nat) (leader : Uuid) (hears : node.Hears input msg stray)
      (hterm : node.currentTerm < msg.term)
      (hnode : outcome.node = { node with
        currentTerm := msg.term, currentState := .follower, votedFor := none, leader := leader })
      (heffects : ∀ effect ∈ outcome.effects,
        effect = .reply (.raft (createAppendEntriesResponse node.uuid msg.term false node.log.size)))
  | rollBack (msg : Message) (stray : Nat → Nat) (hears : node.Hears input msg stray)
      (hterm : msg.term < node.currentTerm)
      (hnode : outcome.node = { node with
        currentTerm := msg.term, currentState := .follower, votedFor := none })
      (heffects : outcome.effects = [])
  | retire (msg : Message) (stray : Nat → Nat) (noVotes : Finset Uuid) (swarm : Bool)
      (hears : node.Hears input msg stray)
      (hnode : outcome.node = { node with
        currentState := .follower, noVotes := noVotes, inASwarm := swarm })
      (hquiet : ∀ effect ∈ outcome.effects, effect = .close)
  | countNo (msg : Message) (stray : Nat → Nat) (noVotes : Finset Uuid)
      (hears : node.Hears input msg stray) (hnode : outcome.node = { node with noVotes := noVotes })
      (hquiet : ∀ effect ∈ outcome.effects, effect = .close)
  | countYes (msg : Message) (stray : Nat → Nat) (hears : node.Hears input msg stray)
      (hcmd : msg.cmd = .responseVote true) (hterm : msg.term = node.currentTerm)
      (hnode : outcome.node = { node with yesVotes := insert msg.sender node.yesVotes })
      (hquiet : ∀ effect ∈ outcome.effects, effect = .close)
  | win (msg : Message) (stray : Nat → Nat) (tracked : Uuid → Option Nat) (inner : Outcome)
      (hears : node.Hears input msg stray)
      (hcmd : msg.cmd = .responseVote true) (hterm : msg.term = node.currentTerm)
      (hmajority : isMajority node.log (insert msg.sender node.yesVotes) = .ok true)
      (houtcome : outcome = closing inner) (hbeat : (node.wins msg).Beating inner tracked)
  | accept (msg : Message) (stray : Nat → Nat) (prevIndex prevTerm : Nat) (entries : JsonMessage)
      (entryTerm commitIndex : Nat) (log : RaftLog) (count : Nat)
      (hears : node.Hears input msg stray) (hterm : msg.term = node.currentTerm)
      (hcmd : msg.cmd = .appendEntries prevIndex prevTerm entries entryTerm commitIndex)
      (happending : node.Appending msg prevIndex prevTerm entries entryTerm commitIndex
        (stray prevIndex) outcome log count)
  | record (msg : Message) (stray : Nat → Nat) (success : Bool) (matchIndex : Nat) (inner : Outcome)
      (tracked : Uuid → Option Nat) (count : Nat) (added : List LogEntry)
      (hears : node.Hears input msg stray) (hterm : msg.term = node.currentTerm)
      (hcmd : msg.cmd = .appendEntriesReply success matchIndex) (houtcome : outcome = closing inner)
      (hrecording : node.Recording msg success matchIndex stray inner tracked count added)

section Cases

@[simp] theorem closing_node (outcome : Outcome) : (closing outcome).node = outcome.node := by
  unfold closing
  split <;> rfl

theorem mem_closing (outcome : Outcome) (effect : Effect) (h : effect ∈ (closing outcome).effects) :
    effect ∈ outcome.effects ∨ effect = .close := by
  unfold closing at h
  split at h
  · exact Or.inl h
  · simpa using h

theorem Idle.closing {node : Node} {input : Input} {outcome : Outcome} (h : node.Idle input outcome) :
    node.Idle input (closing outcome) := by
  refine ⟨by simpa using h.node_eq, fun effect heffect => ?_⟩
  rcases mem_closing outcome effect heffect with he | rfl
  · exact h.gossip effect he
  · exact .close

variable {env node} {input : Input} {msg : Message} {stray : Nat → Nat}

theorem handleWsRequestVote_move (uuid : Uuid) (lastLogIndex lastLogTerm : Nat)
    (hears : node.Hears input msg stray) (hcmd : msg.cmd = .requestVote uuid lastLogIndex lastLogTerm)
    (hterm : msg.term = node.currentTerm) :
    node.Move env input (node.handleWsRequestVote msg lastLogIndex) := by
  unfold handleWsRequestVote
  split
  · exact .refuse msg stray uuid lastLogIndex lastLogTerm hears hcmd hterm rfl rfl
  · rename_i hfree
    have hnone : node.votedFor = none := by
      cases hv : node.votedFor with
      | none => rfl
      | some candidate => simp [hv] at hfree
    exact .vote msg stray uuid lastLogIndex lastLogTerm hears hcmd hterm hnone rfl rfl

theorem handleWsAppendEntries_move (prevIndex prevTerm : Nat) (entries : JsonMessage)
    (entryTerm commitIndex : Nat) (hears : node.Hears input msg stray)
    (hcmd : msg.cmd = .appendEntries prevIndex prevTerm entries entryTerm commitIndex)
    (hterm : msg.term = node.currentTerm) :
    node.Move env input
      (node.handleWsAppendEntries env msg prevIndex prevTerm entries entryTerm commitIndex stray) := by
  rcases handleWsAppendEntries_cases env node msg prevIndex prevTerm entries entryTerm commitIndex stray
    (by omega) with ⟨_, swarm, heq⟩ | ⟨_, swarm, e, heq⟩ | ⟨log, count, happending⟩
  · rw [heq]
    refine .retire msg stray node.noVotes swarm hears ?_ (by simp)
    simp [updateRaftState, hterm]
  · rw [heq]
    exact .idle ⟨⟨_, _, rfl⟩, by simp⟩ (hears.not_campaigns env)
  · exact .accept msg stray prevIndex prevTerm entries entryTerm commitIndex log count hears hterm hcmd
      happending

theorem handleRequestAppendEntriesResponse_move (success : Bool) (matchIndex : Nat)
    (hears : node.Hears input msg stray) (hcmd : msg.cmd = .appendEntriesReply success matchIndex)
    (hterm : msg.term = node.currentTerm) :
    node.Move env input
      (closing (node.handleRequestAppendEntriesResponse env msg success matchIndex stray)) := by
  rcases handleRequestAppendEntriesResponse_cases env node msg success matchIndex stray with
    heq | ⟨tracked, count, added, hrecording⟩
  · rw [heq]
    exact .idle (Idle.silent node input _).closing (hears.not_campaigns env)
  · exact .record msg stray success matchIndex _ tracked count added hears hterm hcmd rfl hrecording

theorem handleRequestVoteResponse_move (granted : Bool) (hears : node.Hears input msg stray)
    (hcmd : msg.cmd = .responseVote granted) (hterm : msg.term = node.currentTerm) :
    node.Move env input (closing (node.handleRequestVoteResponse env msg granted)) := by
  have hquiet : ∀ (after : Node) (thrown : Option Exception),
      ∀ effect ∈ (closing ⟨after, [], thrown⟩).effects, effect = .close := by
    intro after thrown effect heffect
    rcases mem_closing _ effect heffect with he | he
    · simp at he
    · exact he
  unfold handleRequestVoteResponse
  rw [if_neg (by omega)]
  split
  · exact .idle (Idle.silent node input _).closing (hears.not_campaigns env)
  · cases granted with
    | true =>
        simp only [if_true]
        split
        · exact .countYes msg stray hears hcmd hterm (by simp [throws]) (hquiet _ _)
        · exact .countYes msg stray hears hcmd hterm (by simp [done]) (hquiet _ _)
        · rename_i hmajority
          obtain ⟨tracked, hbeat⟩ := requestAppendEntries_spec env (node.wins msg)
          exact .win msg stray tracked _ hears hcmd hterm hmajority rfl hbeat
    | false =>
        simp only [Bool.false_eq_true, if_false]
        split
        · exact .countNo msg stray _ hears (closing_node _) (hquiet _ _)
        · exact .countNo msg stray _ hears (closing_node _) (hquiet _ _)
        · exact .retire msg stray _ node.inASwarm hears (closing_node _) (hquiet _ _)

theorem handleCurrentTerm_move (hears : node.Hears input msg stray)
    (hterm : msg.term = node.currentTerm) :
    node.Move env input (node.handleCurrentTerm env msg stray) := by
  unfold handleCurrentTerm
  split
  · rename_i hcmd
    exact handleWsRequestVote_move _ _ _ hears hcmd hterm
  · rename_i hcmd
    exact handleWsAppendEntries_move _ _ _ _ _ hears hcmd hterm
  · rename_i hcmd
    exact handleRequestAppendEntriesResponse_move _ _ hears hcmd hterm
  · rename_i hcmd
    exact handleRequestVoteResponse_move _ hears hcmd hterm
  · exact .idle (.silent node _ _) (hears.not_campaigns env)

theorem handleHigherTerm_move (hears : node.Hears input msg stray)
    (hterm : node.currentTerm < msg.term) : node.Move env input (node.handleHigherTerm msg) := by
  unfold handleHigherTerm
  split
  · rename_i hcmd
    exact .voteAhead msg stray _ _ _ hears hcmd hterm rfl rfl
  · exact .stepDown msg stray msg.sender hears hterm rfl (by simp)
  all_goals exact .stepDown msg stray node.leader hears hterm rfl (by simp [done])

theorem handleRaftMessage_move (hinput : input = .message msg stray) :
    node.Move env input (node.handleRaftMessage env msg stray) := by
  have hidle : ¬node.Campaigns env input := by
    rintro ⟨pick, h, _⟩
    cases hinput.symm.trans h
  unfold handleRaftMessage
  split
  · exact .idle (.silent node _ _) hidle
  · exact .idle (.silent node _ _) hidle
  · rename_i hmember
    have hears : node.Hears input msg stray := ⟨hinput, hmember⟩
    split
    · rename_i hterm
      exact handleCurrentTerm_move hears hterm.symm
    · split
      · rename_i hterm
        exact handleHigherTerm_move hears hterm
      · exact .rollBack msg stray hears (by omega) rfl rfl

end Cases

theorem handleElectionTimeout_move (canceled : Bool) (pick : Nat) :
    node.Move env (.electionTimeout canceled pick) (node.handleElectionTimeout env canceled pick) := by
  obtain ⟨hnode, hgossip⟩ := lookForSwarm_spec env node (.electionTimeout canceled pick) pick
  have hasked : node.Idle (.electionTimeout canceled pick) (node.lookForSwarm env pick) :=
    ⟨⟨node.leader, node.inASwarm, hnode⟩, hgossip⟩
  unfold handleElectionTimeout
  dsimp only
  split
  · rename_i hthrown
    refine .idle hasked ?_
    rintro ⟨pick', h, hnone⟩
    cases h
    simp [hthrown] at hnone
  · rename_i hnone
    cases canceled with
    | true =>
        simp only [if_true]
        refine .idle hasked ?_
        rintro ⟨pick', h, _⟩
        cases h
    | false =>
        simp only [Bool.false_eq_true, if_false]
        rw [hnode]
        refine .campaign ⟨pick, rfl, hnone⟩ ?_ ?_
        · unfold requestVoteRequest
          dsimp only
          split <;> rfl
        · intro effect heffect
          rcases List.mem_append.mp heffect with he | he
          · exact Or.inl (hgossip effect he)
          · right
            unfold requestVoteRequest at he
            dsimp only at he
            split at he
            · simp [throws] at he
            · obtain ⟨peer, hpeer, rfl⟩ := List.mem_map.mp he
              have hreached := (List.mem_filter.mp hpeer).2
              simp only [updateRaftState, ne_eq, Bool.decide_and, Bool.and_eq_true,
                decide_eq_true_eq] at hreached
              exact ⟨peer.uuid, hreached.1, rfl⟩

theorem handleHeartbeatTimeout_move (canceled : Bool) :
    node.Move env (.heartbeatTimeout canceled) (node.handleHeartbeatTimeout env canceled) := by
  unfold handleHeartbeatTimeout
  split
  · refine .idle (.silent node _ _) ?_
    rintro ⟨pick, h, _⟩
    cases h
  · rename_i hfires
    obtain ⟨tracked, hbeat⟩ := requestAppendEntries_spec env node
    have hinput : Input.heartbeatTimeout canceled = .heartbeatTimeout false := by
      cases canceled with
      | true => simp at hfires
      | false => rfl
    dsimp only
    split
    · exact .beat tracked hinput hbeat
    · exact .beat tracked hinput ⟨hbeat.node_eq, hbeat.tracked_eq, hbeat.sends⟩

theorem step_move (input : Input) : node.Move env input (node.step env input) := by
  cases input with
  | message msg stray => exact handleRaftMessage_move rfl
  | management msg pick =>
      rcases handleManagement_cases env node msg pick with ⟨hmember, hmanaged⟩ | ⟨_, hidle⟩
      · exact .manage msg pick rfl hmember hmanaged
      · refine .idle hidle ?_
        rintro ⟨pick', h, _⟩
        cases h
  | electionTimeout canceled pick => exact handleElectionTimeout_move env node canceled pick
  | heartbeatTimeout canceled => exact handleHeartbeatTimeout_move env node canceled
  | appendLog msg entryType =>
      obtain ⟨log, added, hnode, hlead, hadded⟩ := appendLogUnsafe_spec node msg entryType
      exact .append msg entryType log added rfl hnode hlead hadded rfl

theorem step_uuid (input : Input) : (node.step env input).node.uuid = node.uuid := by
  cases step_move env node input with
  | idle hidle _ =>
      obtain ⟨leader, swarm, hnode⟩ := hidle.node_eq
      rw [hnode]
  | manage _ _ _ _ hmanaged =>
      obtain ⟨_, _, _, _, hnode⟩ := hmanaged.node_eq
      rw [hnode]
  | beat _ _ hbeat => rw [hbeat.node_eq]
  | win _ _ _ inner _ _ _ _ houtcome hbeat =>
      rw [houtcome, closing_node, hbeat.node_eq]
      rfl
  | accept _ _ _ _ _ _ _ _ _ _ _ _ happending =>
      obtain ⟨swarm, tracked, hnode⟩ := happending.node_eq
      rw [hnode]
  | record _ _ _ _ inner _ _ _ _ _ _ houtcome hrecording =>
      obtain ⟨turns, hcommitting⟩ := hrecording.committing
      rw [houtcome, closing_node, hcommitting.node_eq]
  | append _ _ _ _ _ hnode | campaign _ hnode | refuse _ _ _ _ _ _ _ _ hnode
  | vote _ _ _ _ _ _ _ _ _ hnode | voteAhead _ _ _ _ _ _ _ _ hnode | stepDown _ _ _ _ _ hnode
  | rollBack _ _ _ _ hnode | retire _ _ _ _ _ hnode | countNo _ _ _ _ hnode
  | countYes _ _ _ _ _ hnode =>
      rw [hnode]

section Sending

-- The raft messages a step sends, with where they come from.
inductive Sent (input : Input) (outcome : Outcome) (effect : Effect) (sent : Message) : Prop
  | requestVote (peer : Uuid) (hne : peer ≠ node.uuid) (hcampaign : node.Campaigns env input)
      (heffect : effect = .send peer (.raft sent))
      (hsent : sent = createRequestVoteRequest node.uuid node.nextTerm node.log.size node.lastLogTerm)
  | responseVote (msg : Message) (stray : Nat → Nat) (uuid : Uuid) (lastLogIndex lastLogTerm : Nat)
      (granted : Bool) (hears : node.Hears input msg stray)
      (hcmd : msg.cmd = .requestVote uuid lastLogIndex lastLogTerm)
      (heffect : effect = .reply (.raft sent))
      (hsent : sent = createRequestVoteResponse node.uuid msg.term granted)
      (hterm : outcome.node.currentTerm = msg.term)
      (hvoted : granted = true → outcome.node.votedFor.isSome = true)
      (hgranted : granted = true → node.currentTerm < msg.term ∨
        (msg.term = node.currentTerm ∧ node.votedFor = none ∧ node.log.size ≤ lastLogIndex))
  | appendEntries (peer : Uuid) (hne : peer ≠ node.uuid) (heffect : effect = .send peer (.raft sent))
      (hdescribes : outcome.node.Describes sent)
  | appendEntriesReply (msg : Message) (stray : Nat → Nat) (prevIndex prevTerm : Nat)
      (entries : JsonMessage) (entryTerm commitIndex : Nat) (log : RaftLog) (count : Nat)
      (hears : node.Hears input msg stray) (hterm : msg.term = node.currentTerm)
      (hcmd : msg.cmd = .appendEntries prevIndex prevTerm entries entryTerm commitIndex)
      (happending : node.Appending msg prevIndex prevTerm entries entryTerm commitIndex
        (stray prevIndex) outcome log count)
      (heffect : effect = .reply (.raft sent))
      (hsent : sent = createAppendEntriesResponse node.uuid node.currentTerm
        (node.log.entryAccepted prevIndex prevTerm (stray prevIndex)) (min log.size (prevIndex + 1 + 1)))
  | outOfSync (msg : Message) (stray : Nat → Nat) (hears : node.Hears input msg stray)
      (hterm : node.currentTerm < msg.term) (heffect : effect = .reply (.raft sent))
      (hsent : sent = createAppendEntriesResponse node.uuid msg.term false node.log.size)

theorem raftMessage_of_commitEffects {first : Nat} {entries : List LogEntry} {effect : Effect}
    (h : effect ∈ commitEffects first entries) : effect.raftMessage = none := by
  obtain ⟨entry, _, rfl⟩ := List.mem_map.mp h
  rfl

variable {env node} {input : Input} {outcome : Outcome} {effect : Effect} {sent : Message}

theorem Describes.of_beating {tracked : Uuid → Option Nat} (hbeat : node.Beating outcome tracked)
    (h : node.Describes sent) : outcome.node.Describes sent := by
  rw [hbeat.node_eq]
  exact ⟨h.sender, h.term, h.content⟩

theorem Move.sends (h : node.Move env input outcome) (hmem : effect ∈ outcome.effects)
    (hraft : effect.raftMessage = some sent) : node.Sent env input outcome effect sent := by
  -- most steps send nothing of the kind
  have hnone : ¬node.Gossip input effect := by
    intro hgossip
    rw [hgossip.raftMessage] at hraft
    cases hraft
  have hclose : effect ≠ .close := by
    rintro rfl
    exact hnone .close
  cases h with
  | idle hidle _ => exact absurd (hidle.gossip effect hmem) hnone
  | manage _ _ _ _ hmanaged => exact absurd (hmanaged.gossip effect hmem) hnone
  | append _ _ _ _ _ _ _ _ heffects => simp [heffects] at hmem
  | rollBack _ _ _ _ _ heffects => simp [heffects] at hmem
  | retire _ _ _ _ _ _ hquiet | countNo _ _ _ _ _ hquiet | countYes _ _ _ _ _ _ hquiet =>
      exact absurd (hquiet effect hmem) hclose
  | beat tracked _ hbeat =>
      obtain ⟨peer, msg, rfl, hne, hdescribes⟩ := hbeat.sends effect hmem
      obtain rfl : msg = sent := by simpa [Effect.raftMessage] using hraft
      exact .appendEntries peer hne rfl (hdescribes.of_beating hbeat)
  | win msg stray tracked inner _ _ _ _ houtcome hbeat =>
      subst houtcome
      rcases mem_closing inner effect hmem with he | he
      · obtain ⟨peer, msg, rfl, hne, hdescribes⟩ := hbeat.sends effect he
        obtain rfl : msg = sent := by simpa [Effect.raftMessage] using hraft
        exact .appendEntries peer hne rfl (closing_node inner ▸ hdescribes.of_beating hbeat)
      · exact absurd he hclose
  | campaign hcampaign _ hsends =>
      rcases hsends effect hmem with hm | ⟨peer, hne, rfl⟩
      · exact absurd hm hnone
      · obtain rfl : _ = sent := by simpa only [Effect.raftMessage, Option.some.injEq] using hraft
        exact .requestVote peer hne hcampaign rfl rfl
  | refuse msg stray uuid lastLogIndex lastLogTerm hears hcmd hterm hnode heffects =>
      obtain rfl : effect = _ := by simpa [heffects] using hmem
      obtain rfl : _ = sent := by simpa only [Effect.raftMessage, Option.some.injEq] using hraft
      exact .responseVote msg stray uuid lastLogIndex lastLogTerm false hears hcmd rfl
        (by rw [hterm]) (by rw [hnode, hterm]) (by simp) (by simp)
  | vote msg stray uuid lastLogIndex lastLogTerm hears hcmd hterm hfree hnode heffects =>
      obtain rfl : effect = _ := by simpa [heffects] using hmem
      obtain rfl : _ = sent := by simpa only [Effect.raftMessage, Option.some.injEq] using hraft
      exact .responseVote msg stray uuid lastLogIndex lastLogTerm _ hears hcmd rfl
        (by rw [hterm]) (by rw [hnode, hterm]) (fun _ => by rw [hnode]; rfl)
        (fun hsize => Or.inr ⟨hterm, hfree, of_decide_eq_true hsize⟩)
  | voteAhead msg stray uuid lastLogIndex lastLogTerm hears hcmd hterm hnode heffects =>
      obtain rfl : effect = _ := by simpa [heffects] using hmem
      obtain rfl : _ = sent := by simpa only [Effect.raftMessage, Option.some.injEq] using hraft
      exact .responseVote msg stray uuid lastLogIndex lastLogTerm true hears hcmd rfl rfl
        (by rw [hnode]) (fun _ => by rw [hnode]; rfl) (fun _ => Or.inl hterm)
  | stepDown msg stray leader hears hterm hnode heffects =>
      obtain rfl := heffects effect hmem
      obtain rfl : _ = sent := by simpa only [Effect.raftMessage, Option.some.injEq] using hraft
      exact .outOfSync msg stray hears hterm rfl rfl
  | accept msg stray prevIndex prevTerm entries entryTerm commitIndex log count hears hterm hcmd happending =>
      rw [happending.effects_eq] at hmem
      rcases List.mem_cons.mp hmem with rfl | hcommit
      · obtain rfl : _ = sent := by simpa only [Effect.raftMessage, Option.some.injEq] using hraft
        exact .appendEntriesReply msg stray prevIndex prevTerm entries entryTerm commitIndex log count
          hears hterm hcmd happending rfl rfl
      · rw [raftMessage_of_commitEffects hcommit] at hraft
        cases hraft
  | record msg stray success matchIndex inner tracked count added _ _ _ houtcome hrecording =>
      subst houtcome
      obtain ⟨turns, hcommitting⟩ := hrecording.committing
      rcases mem_closing inner effect hmem with he | he
      · rw [hcommitting.effects_eq] at he
        rw [raftMessage_of_commitEffects he] at hraft
        cases hraft
      · exact absurd he hclose

theorem Move.effect_cases (h : node.Move env input outcome) (hmem : effect ∈ outcome.effects) :
    (∃ msg, effect.raftMessage = some msg) ∨ (∃ index msg, effect = .commit index msg) ∨
      node.Gossip input effect := by
  have hcommit : ∀ first entries, effect ∈ commitEffects first entries →
      ∃ index msg, effect = .commit index msg := by
    intro first entries hentry
    obtain ⟨entry, _, rfl⟩ := List.mem_map.mp hentry
    exact ⟨_, _, rfl⟩
  have hclose : effect = .close → node.Gossip input effect := by
    rintro rfl
    exact .close
  cases h with
  | idle hidle _ => exact Or.inr (Or.inr (hidle.gossip effect hmem))
  | manage _ _ _ _ hmanaged => exact Or.inr (Or.inr (hmanaged.gossip effect hmem))
  | beat _ _ hbeat =>
      obtain ⟨peer, msg, rfl, _⟩ := hbeat.sends effect hmem
      exact Or.inl ⟨msg, rfl⟩
  | win _ _ _ inner _ _ _ _ houtcome hbeat =>
      subst houtcome
      rcases mem_closing inner effect hmem with he | he
      · obtain ⟨peer, msg, rfl, _⟩ := hbeat.sends effect he
        exact Or.inl ⟨msg, rfl⟩
      · exact Or.inr (Or.inr (hclose he))
  | campaign _ _ hsends =>
      rcases hsends effect hmem with hgossip | ⟨peer, _, rfl⟩
      · exact Or.inr (Or.inr hgossip)
      · exact Or.inl ⟨_, rfl⟩
  | stepDown _ _ _ _ _ _ heffects =>
      rw [heffects effect hmem]
      exact Or.inl ⟨_, rfl⟩
  | accept _ _ _ _ _ _ _ _ _ _ _ _ happending =>
      rw [happending.effects_eq] at hmem
      rcases List.mem_cons.mp hmem with rfl | hmem
      · exact Or.inl ⟨_, rfl⟩
      · exact Or.inr (Or.inl (hcommit _ _ hmem))
  | record _ _ _ _ inner _ _ _ _ _ _ houtcome hrecording =>
      subst houtcome
      obtain ⟨turns, hcommitting⟩ := hrecording.committing
      rcases mem_closing inner effect hmem with he | he
      · rw [hcommitting.effects_eq] at he
        exact Or.inr (Or.inl (hcommit _ _ he))
      · exact Or.inr (Or.inr (hclose he))
  | retire _ _ _ _ _ _ hquiet | countNo _ _ _ _ _ hquiet | countYes _ _ _ _ _ _ hquiet =>
      exact Or.inr (Or.inr (hclose (hquiet effect hmem)))
  | append _ _ _ _ _ _ _ _ heffects | rollBack _ _ _ _ _ heffects => simp [heffects] at hmem
  | refuse _ _ _ _ _ _ _ _ _ heffects | vote _ _ _ _ _ _ _ _ _ _ heffects
  | voteAhead _ _ _ _ _ _ _ _ _ heffects =>
      obtain rfl : effect = _ := by simpa [heffects] using hmem
      exact Or.inl ⟨_, rfl⟩

end Sending

end Node

-- One node from its construction on, over everything that can happen to it.
def lifetime (env : Env) : Machine Node Input where
  init node := ∃ uuid peers enableAudit enablePeerValidation signedKey log,
    node = Node.construct uuid peers enableAudit enablePeerValidation signedKey log
  enabled _ _ := True
  next node input := (node.step env input).node

-- A swarm of three, with every address in order.
def threePeers : List PeerAddress :=
  [⟨"127.0.0.1", 50000, 8080, "alice", "A"⟩, ⟨"127.0.0.1", 50001, 8081, "bob", "B"⟩,
    ⟨"127.0.0.1", 50002, 8082, "carol", "C"⟩]

def openEnv : Env := ⟨fun _ => true, fun _ _ => true, fun _ => false⟩

def freshNode (uuid : Uuid) : Node :=
  Node.construct uuid threePeers false false "" ⟨[createDatFile threePeers], by simp⟩

theorem run_of_fresh (uuid : Uuid) (inputs : List Input) :
    (lifetime openEnv).Run ((lifetime openEnv).replay [] (freshNode uuid) inputs).1
      ((lifetime openEnv).replay [] (freshNode uuid) inputs).2 := by
  have hstart : (lifetime openEnv).Run [] (freshNode uuid) := .start ⟨_, _, _, _, _, _, rfl⟩
  exact hstart.replay inputs (Machine.admits_of_enabled (fun _ _ => trivial) _ _)

end SwarmDB.Raft
