import SwarmDB.Raft.Node.Heartbeat

namespace SwarmDB.Raft.Node

section Promotion

-- A new single quorum entry that goes on from a joint one of the log, when commits get as far as given.
def Promoted (node : Node) (final : Nat) (entry : LogEntry) : Prop :=
  entry.entryType = .singleQuorum ∧ ∃ i source, node.commitIndex ≤ i ∧ i < final ∧
    node.log.entries[i]? = some source ∧ source.entryType = .jointQuorum ∧
      createSingleQuorumFromJointQuorum source.msg = .ok entry.msg

variable {node : Node} {final : Nat} {source entry : LogEntry}

-- What is promoted one turn later is promoted from here too, as the turn adds no joint quorum.
theorem Promoted.earlier {next : Node} (h : next.Promoted final entry) (hindex : node.commitIndex ≤ next.commitIndex)
    (hjoints : ∀ (i : Nat) (other : LogEntry), next.log.entries[i]? = some other → other.entryType = .jointQuorum →
      node.log.entries[i]? = some other) : node.Promoted final entry := by
  obtain ⟨htype, i, source, hi, hlt, hsource, hjoint, hmsg⟩ := h
  exact ⟨htype, i, source, hindex.trans hi, hlt, hjoints i source hsource hjoint, hjoint, hmsg⟩

theorem joint_of_leaderAppendEntry {log : RaftLog} {added other : LogEntry} {i : Nat}
    (hadded : added.entryType ≠ .jointQuorum) (h : (log.leaderAppendEntry added).entries[i]? = some other)
    (htype : other.entryType = .jointQuorum) : log.entries[i]? = some other := by
  change (log.entries ++ [added])[i]? = some other at h
  by_cases hlt : i < log.entries.length
  · rwa [List.getElem?_append_left hlt] at h
  · rw [List.getElem?_append_right (by omega)] at h
    rw [List.mem_singleton.mp (List.mem_of_getElem? h)] at htype
    exact absurd htype hadded

-- All that a commit loop adds is promoted.
theorem commitLoop_added (env : Env) (turns : Nat) (node : Node) :
    ∃ added, (commitLoop env turns node).node.log.entries = node.log.entries ++ added ∧
      ∀ entry ∈ added, node.Promoted (commitLoop env turns node).node.commitIndex entry := by
  induction turns generalizing node with
  | zero => exact ⟨[], by simp [commitLoop, done], by simp⟩
  | succ turns ih =>
      unfold commitLoop
      cases hentry : node.log.entryAt node.commitIndex with
      | none => exact ⟨[], by simp [throws], by simp⟩
      | some source =>
          dsimp only
          cases performCommit_turn env node source with
          | thrown e hthrown hnode =>
              rw [hthrown]
              exact ⟨[], by rw [hnode]; simp, by simp⟩
          | committed hnode =>
              cases hthrown : (node.performCommit env source).thrown with
              | some e => exact ⟨[], by rw [hnode]; simp, by simp⟩
              | none =>
                  dsimp only
                  rw [hnode]
                  obtain ⟨later, hlog, hlater⟩ := ih { node with commitIndex := node.commitIndex + 1 }
                  refine ⟨later, hlog, fun entry hentry => ?_⟩
                  exact (hlater entry hentry).earlier (Nat.le_succ _) fun i other hother _ => hother
          | promoted msg hleader hjoint hmsg hnode =>
              have hadded : ∀ final, node.commitIndex < final →
                  node.Promoted final ⟨.singleQuorum, node.log.size, node.currentTerm, msg⟩ :=
                fun final hfinal => ⟨rfl, node.commitIndex, source, le_refl _, hfinal, hentry, hjoint, hmsg⟩
              cases hthrown : (node.performCommit env source).thrown with
              | some e =>
                  dsimp only
                  rw [hnode]
                  refine ⟨[_], rfl, fun entry hentry => ?_⟩
                  rw [List.mem_singleton.mp hentry]
                  exact hadded _ (Nat.lt_succ_self _)
              | none =>
                  dsimp only
                  have hle := commitIndex_le_commitLoop env turns (node.performCommit env source).node
                  obtain ⟨later, hlog, hlater⟩ := ih (node.performCommit env source).node
                  rw [hnode] at hle hlog hlater ⊢
                  refine ⟨⟨.singleQuorum, node.log.size, node.currentTerm, msg⟩ :: later, ?_, fun entry hentry => ?_⟩
                  · rw [hlog]
                    exact List.append_assoc _ _ _
                  · rcases List.mem_cons.mp hentry with rfl | hentry
                    · exact hadded _ (Nat.lt_of_succ_le hle)
                    · refine (hlater entry hentry).earlier (Nat.le_succ _) fun i other hother htype => ?_
                      exact joint_of_leaderAppendEntry (by simp) hother htype

end Promotion

section Steps

-- Where a new entry of a log comes from.
inductive Origin (env : Env) (node : Node) (input : Input) (entry : LogEntry) : Prop
  | request (hinput : input = .appendLog entry.msg entry.entryType)
  | added (peer : PeerJson) (last : LogEntry) (old : Option (List PeerJson))
      (hadds : node.Adds peer (node.step env input).node last old) (htype : entry.entryType = .jointQuorum)
      (hmsg : entry.msg = .jointQuorum old (some (old.getD [] ++ [peer])))
  | removed (uuid : Uuid) (last : LogEntry) (old new : Option (List PeerJson))
      (hremoves : node.Removes uuid (node.step env input).node last old new)
      (htype : entry.entryType = .jointQuorum) (hmsg : entry.msg = .jointQuorum old new)
  | promoted (hleader : node.currentState = .leader)
      (hpromoted : node.Promoted (node.step env input).node.commitIndex entry)
  | copied (msg : Message) (stray : Nat → Nat) (prevIndex prevTerm : Nat) (entries : JsonMessage)
      (entryTerm commitIndex : Nat) (hfollower : node.currentState = .follower)
      (hears : node.Hears input msg stray)
      (hcmd : msg.cmd = .appendEntries prevIndex prevTerm entries entryTerm commitIndex)
      (hentry : entry = ⟨deduceTypeFromMessage entries, prevIndex + 1, entryTerm, entries⟩)

variable {env : Env} {node : Node} {input : Input}

theorem step_origin (env : Env) (node : Node) (input : Input) :
    ∃ added, (node.step env input).node.log.entries = node.log.entries ++ added ∧
      ∀ entry ∈ added, node.Origin env input entry := by
  have hsame : (node.step env input).node.log = node.log →
      ∃ added, (node.step env input).node.log.entries = node.log.entries ++ added ∧
        ∀ entry ∈ added, node.Origin env input entry := by
    intro hlog
    exact ⟨[], by rw [hlog]; simp, by simp⟩
  cases step_move env node input with
  | idle hidle _ =>
      obtain ⟨leader, swarm, hnode⟩ := hidle.node_eq
      exact hsame (by rw [hnode])
  | manage msg pick hinput hmember _ =>
      subst hinput
      cases msg with
      | addPeer peer =>
          rcases handleAddPeer_cases env node peer with hnode | ⟨last, old, hadds⟩
          · exact hsame (congrArg Node.log hnode)
          · refine ⟨[_], congrArg (fun next => next.log.entries) hadds.next_eq, fun entry hentry => ?_⟩
            rw [List.mem_singleton.mp hentry]
            exact .added peer last old hadds rfl rfl
      | removePeer uuid =>
          by_cases hempty : uuid = ""
          · apply hsame
            show (node.handleManagement env (.removePeer uuid) pick).node.log = node.log
            simp [handleManagement, hempty, sendSessionErrorMessage]
          · have hstep : node.step env (.management (.removePeer uuid) pick) = node.handleRemovePeer uuid := by
              simp [step, handleManagement, hempty]
            rcases handleRemovePeer_cases node uuid with hnode | ⟨last, old, new, hremoves⟩
            · exact hsame (by rw [hstep, hnode])
            · rw [← hstep] at hremoves
              refine ⟨[_], congrArg (fun next => next.log.entries) hremoves.next_eq, fun entry hentry => ?_⟩
              rw [List.mem_singleton.mp hentry]
              exact .removed uuid last old new hremoves rfl rfl
      | addPeerResponse _ | getPeers | getPeersResponse _ => cases hmember
  | append msg entryType log added hinput hnode hlead hadded _ =>
      refine ⟨added, by rw [hnode]; exact hlead.log_eq, fun entry hentry => ?_⟩
      obtain ⟨htype, hmsg⟩ := hadded entry hentry
      exact .request (by rw [hinput, htype, hmsg])
  | beat _ _ hbeat => exact hsame (by rw [hbeat.node_eq])
  | win _ _ _ inner _ _ _ _ houtcome hbeat =>
      exact hsame (by rw [houtcome, closing_node, hbeat.node_eq]; rfl)
  | accept msg stray prevIndex prevTerm entries entryTerm commitIndex log count hears _ hcmd happending =>
      obtain ⟨swarm, tracked, hnode⟩ := happending.node_eq
      rcases happending.log_eq with ⟨rfl, _⟩ | ⟨_, _, _, hlog⟩
      · exact hsame (by rw [hnode])
      · refine ⟨[_], by rw [hnode]; exact hlog, fun entry hentry => ?_⟩
        exact .copied msg stray prevIndex prevTerm entries entryTerm commitIndex happending.follower hears hcmd
          (List.mem_singleton.mp hentry)
  | record msg stray success matchIndex _ _ _ _ hears hterm hcmd _ _ =>
      rcases step_reply env hears hterm hcmd with hlog | ⟨hleader, turns, tracked, hnode⟩
      · exact hsame hlog
      · obtain ⟨added, hlog, hadded⟩ := commitLoop_added env turns { node with peerMatchIndex := tracked }
        refine ⟨added, by rw [hnode]; exact hlog, fun entry hentry => ?_⟩
        refine .promoted hleader ?_
        rw [hnode]
        exact hadded entry hentry
  | campaign _ hnode | refuse _ _ _ _ _ _ _ _ hnode | vote _ _ _ _ _ _ _ _ _ hnode
  | voteAhead _ _ _ _ _ _ _ _ hnode | stepDown _ _ _ _ _ hnode | rollBack _ _ _ _ hnode
  | retire _ _ _ _ _ hnode | countNo _ _ _ _ hnode | countYes _ _ _ _ _ hnode =>
      exact hsame (by rw [hnode])

theorem matchIndexOf_of_touched {tracked : Uuid → Option Nat} {peer : Uuid}
    (h : tracked peer = node.peerMatchIndex peer ∨ (node.peerMatchIndex peer = none ∧ tracked peer = some 0)) :
    (tracked peer).getD 0 = node.matchIndexOf peer := by
  unfold matchIndexOf
  rcases h with heq | ⟨hnone, hzero⟩
  · rw [heq]
  · rw [hnone, hzero]
    rfl

theorem wins_matchIndexOf {msg : Message} {peer : Uuid} (h : (node.peerMatchIndex peer).isSome = true) :
    (node.wins msg).matchIndexOf peer = 1 := by
  obtain ⟨m, hm⟩ := Option.isSome_iff_exists.mp h
  simp [wins, matchIndexOf, hm]

theorem isSome_of_reached {peer : Uuid} (h : 1 ≤ node.matchIndexOf peer) :
    (node.peerMatchIndex peer).isSome = true := by
  unfold matchIndexOf at h
  cases hm : node.peerMatchIndex peer with
  | some m => rfl
  | none =>
      rw [hm] at h
      exact absurd h (by decide)

theorem handleManagement_matchIndex (env : Env) {msg : ManagementMessage} (hmember : msg.isMembership = true)
    (pick : Nat) {peer : Uuid} (h : 1 ≤ node.matchIndexOf peer) :
    1 ≤ (node.handleManagement env msg pick).node.matchIndexOf peer := by
  cases msg with
  | addPeer added =>
      show 1 ≤ (node.handleAddPeer env added).node.matchIndexOf peer
      rcases handleAddPeer_cases env node added with hnode | ⟨last, old, hadds⟩
      · rw [hnode]
        exact h
      · rw [hadds.next_eq]
        show 1 ≤ (node.setMatchIndex added.uuidText 1).matchIndexOf peer
        unfold matchIndexOf at h ⊢
        by_cases hpeer : peer = added.uuidText
        · rw [hpeer, setMatchIndex_self, Option.getD_some]
        · rwa [setMatchIndex_other _ _ hpeer]
  | removePeer uuid =>
      unfold handleManagement
      dsimp only
      split
      · exact h
      · rcases handleRemovePeer_cases node uuid with hnode | ⟨last, old, new, hremoves⟩
        · rw [hnode]
          exact h
        · rw [hremoves.next_eq]
          exact h
  | addPeerResponse _ | getPeers | getPeersResponse _ => cases hmember

-- A leader that stays one loses no match index, and one that was elected starts at the indexes it has.
theorem step_leads (hleads : (node.step env input).node.currentState = .leader)
    (hreply : ∀ msg stray success matchIndex, node.Hears input msg stray →
      msg.cmd = .appendEntriesReply success matchIndex → 1 ≤ matchIndex) :
    (node.currentState = .leader ∧
        ∀ peer, 1 ≤ node.matchIndexOf peer → 1 ≤ (node.step env input).node.matchIndexOf peer) ∨
      (node.currentState ≠ .leader ∧ (node.step env input).node.log = node.log ∧
        ∀ peer, (node.peerMatchIndex peer).isSome = true → 1 ≤ (node.step env input).node.matchIndexOf peer) := by
  have hstays : (node.step env input).node.currentState = node.currentState →
      (node.step env input).node.peerMatchIndex = node.peerMatchIndex → node.currentState = .leader ∧
        ∀ peer, 1 ≤ node.matchIndexOf peer → 1 ≤ (node.step env input).node.matchIndexOf peer := by
    intro hstate htracked
    refine ⟨hstate.symm.trans hleads, fun peer hpeer => ?_⟩
    unfold matchIndexOf at hpeer ⊢
    rwa [htracked]
  cases step_move env node input with
  | idle hidle _ =>
      obtain ⟨leader, swarm, hnode⟩ := hidle.node_eq
      exact Or.inl (hstays (by rw [hnode]) (by rw [hnode]))
  | manage msg pick hinput hmember hmanaged =>
      obtain ⟨log, added, tracked, _, hnode⟩ := hmanaged.node_eq
      subst hinput
      refine Or.inl ⟨?_, fun peer hpeer => handleManagement_matchIndex env hmember pick hpeer⟩
      rw [hnode] at hleads
      exact hleads
  | append msg entryType log added hinput hnode hlead hadded _ => exact Or.inl (hstays (by rw [hnode]) (by rw [hnode]))
  | beat tracked _ hbeat =>
      rw [hbeat.node_eq] at hleads ⊢
      refine Or.inl ⟨hleads, fun peer hpeer => ?_⟩
      show 1 ≤ (tracked peer).getD 0
      rw [matchIndexOf_of_touched (hbeat.tracked_eq peer)]
      exact hpeer
  | win msg _ tracked inner _ _ _ _ houtcome hbeat =>
      have hindex : ∀ peer, (node.peerMatchIndex peer).isSome = true →
          1 ≤ (node.step env input).node.matchIndexOf peer := by
        intro peer hpeer
        rw [houtcome, closing_node, hbeat.node_eq]
        show 1 ≤ (tracked peer).getD 0
        rw [matchIndexOf_of_touched (hbeat.tracked_eq peer), wins_matchIndexOf hpeer]
      by_cases hleader : node.currentState = .leader
      · exact Or.inl ⟨hleader, fun peer hpeer => hindex peer (isSome_of_reached hpeer)⟩
      · refine Or.inr ⟨hleader, ?_, hindex⟩
        rw [houtcome, closing_node, hbeat.node_eq]
        rfl
  | accept _ _ _ _ _ _ _ _ _ _ _ _ happending =>
      obtain ⟨swarm, tracked, hnode⟩ := happending.node_eq
      rw [hnode] at hleads
      exact absurd (happending.follower.symm.trans hleads) (by decide)
  | record msg stray success matchIndex inner tracked count added hears _ hcmd houtcome hrecording =>
      obtain ⟨turns, hcommitting⟩ := hrecording.committing
      refine Or.inl ⟨hrecording.leader, fun peer hpeer => ?_⟩
      rw [houtcome, closing_node, hcommitting.node_eq]
      show 1 ≤ (tracked peer).getD 0
      rw [matchIndexOf_of_touched (hrecording.tracked_eq peer)]
      unfold matchIndexOf at hpeer ⊢
      by_cases hsender : peer = msg.sender
      · rw [hsender, setMatchIndex_self]
        exact hreply msg stray success matchIndex hears hcmd
      · rwa [setMatchIndex_other _ _ hsender]
  | campaign _ hnode | stepDown _ _ _ _ _ hnode | rollBack _ _ _ _ hnode | retire _ _ _ _ _ hnode =>
      rw [hnode] at hleads
      cases hleads
  | refuse _ _ _ _ _ _ _ _ hnode | vote _ _ _ _ _ _ _ _ _ hnode | voteAhead _ _ _ _ _ _ _ _ hnode
  | countNo _ _ _ _ hnode | countYes _ _ _ _ _ hnode => exact Or.inl (hstays (by rw [hnode]) (by rw [hnode]))

end Steps

end SwarmDB.Raft.Node
