import SwarmDB.Raft.Node.Journal

namespace SwarmDB.Raft.Node

section Turn

-- One turn of a commit loop: the audit throws, the entry is committed, or a leader goes on from
-- a joint quorum to the single one.
inductive Turn (node : Node) (entry : LogEntry) (outcome : Outcome) : Prop
  | thrown (e : Exception) (hthrown : outcome.thrown = some e) (hnode : outcome.node = node)
  | committed (hnode : outcome.node = { node with commitIndex := node.commitIndex + 1 })
  | promoted (msg : JsonMessage) (hleader : node.currentState = .leader)
      (hjoint : entry.entryType = .jointQuorum)
      (hmsg : createSingleQuorumFromJointQuorum entry.msg = .ok msg)
      (hnode : outcome.node = { node with
        commitIndex := node.commitIndex + 1,
        log := node.log.leaderAppendEntry ⟨.singleQuorum, node.log.size, node.currentTerm, msg⟩ })

theorem performCommit_turn (env : Env) (node : Node) (entry : LogEntry) :
    node.Turn entry (node.performCommit env entry) := by
  unfold performCommit
  split
  · rename_i e _
    exact .thrown e rfl rfl
  · dsimp only
    split
    · rename_i hjoint
      split
      · exact .committed rfl
      · rename_i msg hmsg
        refine .promoted msg hjoint.1 hjoint.2 hmsg ?_
        simp [appendLogUnsafe, hjoint.1]
    · exact .committed rfl

-- What every turn preserves, the loop preserves.
theorem commitLoop_invariant {env : Env} {I : Node → Prop}
    (hturn : ∀ node entry, I node → node.log.entryAt node.commitIndex = some entry →
      I (node.performCommit env entry).node)
    (turns : Nat) {node : Node} (h : I node) : I (commitLoop env turns node).node := by
  induction turns generalizing node with
  | zero => exact h
  | succ turns ih =>
      unfold commitLoop
      split
      · exact h
      · rename_i entry hentry
        dsimp only
        split
        · exact hturn node entry h hentry
        · exact ih (hturn node entry h hentry)

theorem commitIndex_le_commitLoop (env : Env) (turns : Nat) (node : Node) :
    node.commitIndex ≤ (commitLoop env turns node).node.commitIndex := by
  apply commitLoop_invariant (I := fun next => node.commitIndex ≤ next.commitIndex)
  · intro next entry hle _
    cases performCommit_turn env next entry with
    | thrown _ _ hnode =>
        rw [hnode]
        exact hle
    | committed hnode | promoted _ _ _ _ hnode =>
        rw [hnode]
        exact Nat.le_succ_of_le hle
  · exact le_refl _

end Turn

section Membership

variable {env : Env} {node : Node}

-- The log with a joint quorum at its end.
def proposed (node : Node) (old new : Option (List PeerJson)) : RaftLog :=
  node.log.leaderAppendEntry ⟨.jointQuorum, node.log.size, node.currentTerm, .jointQuorum old new⟩

-- What add_peer does, if it does anything.
structure Adds (node : Node) (peer : PeerJson) (next : Node) (last : LogEntry) (old : Option (List PeerJson)) :
    Prop where
  leader : node.currentState = .leader
  last_eq : node.log.lastQuorumEntry = .ok last
  single : last.entryType ≠ .jointQuorum
  old_eq : last.msg.peers = .ok old
  absent : ∀ other ∈ old.getD [], other.uuidText ≠ peer.uuidText
  next_eq : next = { node.setMatchIndex peer.uuidText 1 with
    log := node.proposed old (some (old.getD [] ++ [peer])) }

theorem handleAddPeer_cases (env : Env) (node : Node) (peer : PeerJson) :
    (node.handleAddPeer env peer).node = node ∨
      ∃ last old, node.Adds peer (node.handleAddPeer env peer).node last old := by
  unfold handleAddPeer
  split
  · exact Or.inl rfl
  · rename_i hleader
    have hstate : node.currentState = .leader := by simpa using hleader
    split
    · exact Or.inl rfl
    · rename_i last hlast
      split
      · exact Or.inl rfl
      · rename_i hsingle
        split
        · rename_i old jointQuorum hold hjoint
          split
          · exact Or.inl rfl
          · rename_i habsent
            split
            · exact Or.inl rfl
            · split
              · exact Or.inl rfl
              · have hmsg : .jointQuorum old (some (old.getD [] ++ [peer])) = jointQuorum := by
                  simpa [createJointQuorumByAddingPeer, hold, Except.map] using hjoint
                subst hmsg
                refine Or.inr ⟨last, old, hstate, hlast, hsingle, hold, ?_, ?_⟩
                · intro other hother huuid
                  exact habsent (List.any_eq_true.mpr ⟨other, hother, decide_eq_true huuid⟩)
                · simp [appendLogUnsafe, setMatchIndex, hstate, proposed]
        · exact Or.inl rfl
        · exact Or.inl rfl

-- And remove_peer.
structure Removes (node : Node) (uuid : Uuid) (next : Node) (last : LogEntry) (old new : Option (List PeerJson)) :
    Prop where
  leader : node.currentState = .leader
  last_eq : node.log.lastQuorumEntry = .ok last
  single : last.entryType ≠ .jointQuorum
  old_eq : last.msg.peers = .ok old
  new_eq : new.getD [] = (old.getD []).filter fun peer => peer.uuid ≠ some uuid
  next_eq : next = { node with log := node.proposed old new }

theorem handleRemovePeer_cases (node : Node) (uuid : Uuid) :
    (node.handleRemovePeer uuid).node = node ∨
      ∃ last old new, node.Removes uuid (node.handleRemovePeer uuid).node last old new := by
  unfold handleRemovePeer
  split
  · exact Or.inl rfl
  · rename_i hleader
    have hstate : node.currentState = .leader := by simpa using hleader
    split
    · exact Or.inl rfl
    · rename_i last hlast
      split
      · exact Or.inl rfl
      · rename_i hsingle
        split
        · rename_i old jointQuorum hold hjoint
          split
          · simp only [createJointQuorumByRemovingPeer, hold, Except.map, Except.ok.injEq] at hjoint
            subst hjoint
            let kept := (old.getD []).filter fun peer => peer.uuid ≠ some uuid
            refine Or.inr ⟨last, old, if kept = [] then none else some kept, hstate, hlast, hsingle, hold, ?_, ?_⟩
            · show (if kept = [] then none else some kept).getD [] = kept
              split
              · rename_i hnone
                exact hnone.symm
              · rfl
            · simp [appendLogUnsafe, hstate, proposed, kept]
          · exact Or.inl rfl
        · exact Or.inl rfl
        · exact Or.inl rfl

end Membership

-- Everything a step can put at the end of a log.
inductive Appends (env : Env) (node : Node) (input : Input) (next : Node) : Prop
  | nothing (hlog : next.log = node.log)
  | request (msg : JsonMessage) (entryType : LogEntryType) (hinput : input = .appendLog msg entryType)
      (hlog : next.log = node.log.leaderAppendEntry ⟨entryType, node.log.size, node.currentTerm, msg⟩)
  | joint (last : LogEntry) (old new : Option (List PeerJson)) (hleader : node.currentState = .leader)
      (hlast : node.log.lastQuorumEntry = .ok last) (hsingle : last.entryType ≠ .jointQuorum)
      (hold : last.msg.peers = .ok old)
      (hnew : new = none → ∃ uuid pick, input = .management (.removePeer uuid) pick ∧
        (old.getD []).filter (fun peer => peer.uuid ≠ some uuid) = [])
      (hlog : next.log = node.log.leaderAppendEntry
        ⟨.jointQuorum, node.log.size, node.currentTerm, .jointQuorum old new⟩)
  | commit (turns : Nat) (tracked : Uuid → Option Nat) (hleader : node.currentState = .leader)
      (hlog : next.log = (commitLoop env turns { node with peerMatchIndex := tracked }).node.log)
      (hindex : next.commitIndex =
        (commitLoop env turns { node with peerMatchIndex := tracked }).node.commitIndex)
  | copy (msg : Message) (stray : Nat → Nat) (prevIndex prevTerm : Nat) (entries : JsonMessage)
      (entryTerm commitIndex : Nat) (hears : node.Hears input msg stray)
      (hcmd : msg.cmd = .appendEntries prevIndex prevTerm entries entryTerm commitIndex)
      (haccepted : node.log.entryAccepted prevIndex prevTerm (stray prevIndex) = true)
      (hentries : entries.isEmpty = false) (hend : prevIndex + 1 = node.log.size)
      (hlog : next.log.entries =
        node.log.entries ++ [⟨deduceTypeFromMessage entries, prevIndex + 1, entryTerm, entries⟩])

section Cases

variable {env : Env} {node : Node}

theorem appendLogUnsafe_appends (node : Node) (tracked : Uuid → Option Nat) (msg : JsonMessage)
    (entryType : LogEntryType) :
    ({ node with peerMatchIndex := tracked }.appendLogUnsafe msg entryType).log = node.log ∨
      ({ node with peerMatchIndex := tracked }.appendLogUnsafe msg entryType).log =
        node.log.leaderAppendEntry ⟨entryType, node.log.size, node.currentTerm, msg⟩ := by
  unfold appendLogUnsafe
  split
  · exact Or.inl rfl
  · exact Or.inr rfl

theorem handleAddPeer_appends (peer : PeerJson) (pick : Nat) :
    Appends env node (.management (.addPeer peer) pick) (node.handleAddPeer env peer).node := by
  rcases handleAddPeer_cases env node peer with hsame | ⟨last, old, hadds⟩
  · exact .nothing (congrArg Node.log hsame)
  · have hnew : some (old.getD [] ++ [peer]) ≠ none := Option.some_ne_none _
    refine .joint last old _ hadds.leader hadds.last_eq hadds.single hadds.old_eq (fun hnone => absurd hnone hnew) ?_
    rw [hadds.next_eq]
    rfl

theorem handleRemovePeer_appends (uuid : Uuid) (pick : Nat) :
    Appends env node (.management (.removePeer uuid) pick) (node.handleRemovePeer uuid).node := by
  rcases handleRemovePeer_cases node uuid with hsame | ⟨last, old, new, hremoves⟩
  · exact .nothing (congrArg Node.log hsame)
  · refine .joint last old new hremoves.leader hremoves.last_eq hremoves.single hremoves.old_eq (fun hnone => ?_) ?_
    · refine ⟨uuid, pick, rfl, ?_⟩
      rw [← hremoves.new_eq, hnone]
      rfl
    · rw [hremoves.next_eq]
      rfl

theorem handleRequestAppendEntriesResponse_loop (env : Env) (node : Node) (msg : Message) (success : Bool)
    (matchIndex : Nat) (stray : Nat → Nat) :
    (node.handleRequestAppendEntriesResponse env msg success matchIndex stray).node.log = node.log ∨
    node.currentState = .leader ∧ ∃ turns tracked,
      node.handleRequestAppendEntriesResponse env msg success matchIndex stray =
        commitLoop env turns { node with peerMatchIndex := tracked } := by
  unfold handleRequestAppendEntriesResponse
  split
  · exact Or.inl rfl
  · rename_i hleader
    have hstate : node.currentState = .leader := by simpa using hleader
    split
    · exact Or.inl rfl
    · dsimp only
      split
      · exact Or.inl rfl
      · split
        · exact Or.inl rfl
        · rename_i counted lastIndex hlast
          obtain ⟨quorums, hcounted⟩ : ∃ quorums : List (List Uuid),
              quorums.flatten.foldl touchMatchIndex (node.setMatchIndex msg.sender matchIndex) = counted := by
            unfold lastMajorityReplicatedLogIndex at hlast
            cases hq : getActiveQuorum (node.setMatchIndex msg.sender matchIndex).log with
            | error e => simp [hq, Except.map] at hlast
            | ok quorums =>
                have hpair := hlast
                simp only [hq, Except.map, Except.ok.injEq] at hpair
                exact ⟨quorums, congrArg Prod.fst hpair⟩
          obtain ⟨tracked, htouched, _⟩ := foldl_touch_spec
            (node.setMatchIndex msg.sender matchIndex) quorums.flatten
          rw [htouched] at hcounted
          subst hcounted
          split
          · exact Or.inl rfl
          · exact Or.inr ⟨hstate, _, tracked, rfl⟩

-- A reply to AppendEntries leaves the log alone, or has the leader commit.
theorem step_reply (env : Env) {input : Input} {msg : Message} {stray : Nat → Nat} {success : Bool} {matchIndex : Nat}
    (hears : node.Hears input msg stray) (hterm : msg.term = node.currentTerm)
    (hcmd : msg.cmd = .appendEntriesReply success matchIndex) :
    (node.step env input).node.log = node.log ∨
      node.currentState = .leader ∧ ∃ turns tracked,
        (node.step env input).node = (commitLoop env turns { node with peerMatchIndex := tracked }).node := by
  have hstep : node.step env input =
      closing (node.handleRequestAppendEntriesResponse env msg success matchIndex stray) := by
    rw [hears.input_eq]
    simp [step, handleRaftMessage, hears.member, hterm, handleCurrentTerm, hcmd]
  rw [hstep, closing_node]
  rcases handleRequestAppendEntriesResponse_loop env node msg success matchIndex stray with
    hlog | ⟨hleader, turns, tracked, hloop⟩
  · exact Or.inl hlog
  · exact Or.inr ⟨hleader, turns, tracked, congrArg Outcome.node hloop⟩

theorem step_appends (env : Env) (node : Node) (input : Input) :
    Appends env node input (node.step env input).node := by
  cases step_move env node input with
  | idle hidle _ =>
      obtain ⟨leader, swarm, hnode⟩ := hidle.node_eq
      exact .nothing (by rw [hnode])
  | manage msg pick hinput hmember _ =>
      subst hinput
      cases msg with
      | addPeer peer => exact handleAddPeer_appends peer pick
      | removePeer uuid =>
          show Appends env node _ (node.handleManagement env (.removePeer uuid) pick).node
          unfold handleManagement
          dsimp only
          split
          · exact .nothing rfl
          · exact handleRemovePeer_appends uuid pick
      | addPeerResponse _ | getPeers | getPeersResponse _ => cases hmember
  | append msg entryType _ _ hinput _ _ _ _ =>
      subst hinput
      rcases appendLogUnsafe_appends node node.peerMatchIndex msg entryType with hlog | hlog
      · exact .nothing hlog
      · exact .request msg entryType rfl hlog
  | beat _ _ hbeat => exact .nothing (by rw [hbeat.node_eq])
  | win _ _ _ inner _ _ _ _ houtcome hbeat =>
      exact .nothing (by rw [houtcome, closing_node, hbeat.node_eq]; rfl)
  | accept msg stray prevIndex prevTerm entries entryTerm commitIndex log count hears _ hcmd happending =>
      obtain ⟨swarm, tracked, hnode⟩ := happending.node_eq
      rcases happending.log_eq with ⟨rfl, _⟩ | ⟨haccepted, hentries, hend, hlog⟩
      · exact .nothing (by rw [hnode])
      · exact .copy msg stray prevIndex prevTerm entries entryTerm commitIndex hears hcmd haccepted
          hentries hend (by rw [hnode]; exact hlog)
  | record msg stray success matchIndex _ _ _ _ hears hterm hcmd _ _ =>
      rcases step_reply env hears hterm hcmd with hlog | ⟨hleader, turns, tracked, hnode⟩
      · exact .nothing hlog
      · exact .commit turns tracked hleader (by rw [hnode]) (by rw [hnode])
  | campaign _ hnode | refuse _ _ _ _ _ _ _ _ hnode | vote _ _ _ _ _ _ _ _ _ hnode
  | voteAhead _ _ _ _ _ _ _ _ hnode | stepDown _ _ _ _ _ hnode | rollBack _ _ _ _ hnode
  | retire _ _ _ _ _ hnode | countNo _ _ _ _ hnode | countYes _ _ _ _ _ hnode =>
      exact .nothing (by rw [hnode])

-- A property of single entries that every way to come by one gives the new entry holds of all
-- entries after a step.
theorem step_entries {P : LogEntry → Prop} {input : Input}
    (hrequest : ∀ msg entryType index term, input = .appendLog msg entryType →
      P ⟨entryType, index, term, msg⟩)
    (hjoint : ∀ last old new index term, node.currentState = .leader →
      node.log.lastQuorumEntry = .ok last → last.msg.peers = .ok old →
      (new = none → ∃ uuid pick, input = .management (.removePeer uuid) pick ∧
        (old.getD []).filter (fun peer => peer.uuid ≠ some uuid) = []) →
      P ⟨.jointQuorum, index, term, .jointQuorum old new⟩)
    (hsingle : ∀ entry msg index term, P entry → entry.entryType = .jointQuorum →
      createSingleQuorumFromJointQuorum entry.msg = .ok msg → P ⟨.singleQuorum, index, term, msg⟩)
    (hcopy : ∀ msg index term, msg.isEmpty = false → P ⟨deduceTypeFromMessage msg, index, term, msg⟩)
    (h : ∀ entry ∈ node.log.entries, P entry) :
    ∀ entry ∈ (node.step env input).node.log.entries, P entry := by
  have hgrown : ∀ (log : RaftLog) (added : LogEntry), (∀ entry ∈ log.entries, P entry) → P added →
      ∀ entry ∈ (log.leaderAppendEntry added).entries, P entry := by
    intro log added hlog hadded entry hentry
    rcases List.mem_append.mp hentry with hentry | hentry
    · exact hlog entry hentry
    · rw [List.mem_singleton.mp hentry]
      exact hadded
  cases step_appends env node input with
  | nothing hlog =>
      rw [hlog]
      exact h
  | request msg entryType hinput hlog =>
      rw [hlog]
      exact hgrown _ _ h (hrequest msg entryType _ _ hinput)
  | joint last old new hleader hlast _ hold hnew hlog =>
      rw [hlog]
      exact hgrown _ _ h (hjoint last old new _ _ hleader hlast hold hnew)
  | commit turns tracked _ hlog _ =>
      rw [hlog]
      apply commitLoop_invariant (I := fun next => ∀ entry ∈ next.log.entries, P entry)
      · intro next entry hnext hentry
        cases performCommit_turn env next entry with
        | thrown _ _ hnode | committed hnode =>
            rw [hnode]
            exact hnext
        | promoted msg _ hjoint hmsg hnode =>
            rw [hnode]
            exact hgrown _ _ hnext
              (hsingle entry msg _ _ (hnext entry (List.mem_of_getElem? hentry)) hjoint hmsg)
      · exact h
  | copy _ _ _ _ entries _ _ _ _ _ hentries _ hlog =>
      rw [hlog]
      intro entry hentry
      rcases List.mem_append.mp hentry with hentry | hentry
      · exact h entry hentry
      · rw [List.mem_singleton.mp hentry]
        exact hcopy entries _ _ hentries

end Cases

end SwarmDB.Raft.Node
