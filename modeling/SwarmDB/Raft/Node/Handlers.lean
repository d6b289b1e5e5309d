import SwarmDB.Raft.Log.Lemmas
import SwarmDB.Raft.Node.Commit

namespace SwarmDB.Raft

namespace Node

variable (env : Env) (node : Node)

section MatchIndex

@[simp] theorem setMatchIndex_self (peer : Uuid) (index : Nat) :
    (node.setMatchIndex peer index).peerMatchIndex peer = some index := by
  simp [setMatchIndex]

theorem setMatchIndex_other {peer other : Uuid} (index : Nat) (h : other ≠ peer) :
    (node.setMatchIndex peer index).peerMatchIndex other = node.peerMatchIndex other := by
  simp [setMatchIndex, h]

-- Looking match indexes up changes none of them, it only tracks more peers.
theorem foldl_touch_spec (peers : List Uuid) :
    ∃ tracked, peers.foldl touchMatchIndex node = { node with peerMatchIndex := tracked } ∧
      ∀ peer, tracked peer = node.peerMatchIndex peer ∨
        (node.peerMatchIndex peer = none ∧ tracked peer = some 0) := by
  induction peers generalizing node with
  | nil => exact ⟨node.peerMatchIndex, rfl, fun _ => Or.inl rfl⟩
  | cons first rest ih =>
      obtain ⟨tracked, heq, htracked⟩ := ih (node.touchMatchIndex first)
      refine ⟨tracked, heq, fun peer => ?_⟩
      have htouch : (node.touchMatchIndex first).peerMatchIndex peer = node.peerMatchIndex peer ∨
          (node.peerMatchIndex peer = none ∧ (node.touchMatchIndex first).peerMatchIndex peer = some 0) := by
        by_cases hp : peer = first
        · subst hp
          cases hm : node.peerMatchIndex peer <;> simp [touchMatchIndex, matchIndexOf, hm]
        · exact Or.inl (setMatchIndex_other node _ hp)
      rcases htracked peer with h | ⟨hnone, h⟩
      · rw [h]
        exact htouch
      · rcases htouch with ht | ⟨_, ht⟩
        · exact Or.inr ⟨ht ▸ hnone, h⟩
        · rw [ht] at hnone
          cases hnone

end MatchIndex

section Requests

-- An AppendEntries speaks of the sender's own log and commit index.
structure Describes (msg : Message) : Prop where
  sender : msg.sender = node.uuid
  term : msg.term = node.currentTerm
  content : ∃ prevIndex prev entries entryTerm,
    msg.cmd = .appendEntries prevIndex prev.term entries entryTerm node.commitIndex ∧
      node.log.entries[prevIndex]? = some prev ∧
      (entries = .null ∨
        ∃ entry, node.log.entries[prevIndex + 1]? = some entry ∧ entry.core = (entryTerm, entries))

theorem appendEntriesFor_spec (peer : PeerAddress) (effect : Effect)
    (h : node.appendEntriesFor env peer = some effect) :
    ∃ msg, effect = .send peer.uuid (.raft msg) ∧ node.Describes msg := by
  unfold appendEntriesFor at h
  dsimp only at h
  split at h
  · split at h
    · cases h
    · split at h
      · rename_i prev entry hprev hentry
        split at h
        · cases h
          exact ⟨_, rfl, rfl, rfl, _, prev, _, _, rfl, hprev, Or.inr ⟨entry, hentry, rfl⟩⟩
        · cases h
      · cases h
  · split at h
    · rename_i prev hprev
      split at h
      · cases h
        exact ⟨_, rfl, rfl, rfl, _, prev, _, _, rfl, hprev, Or.inl rfl⟩
      · cases h
    · cases h

-- Only the tracked match indexes change, and every message describes the node's log.
structure Beating (outcome : Outcome) (tracked : Uuid → Option Nat) : Prop where
  node_eq : outcome.node = { node with peerMatchIndex := tracked }
  tracked_eq : ∀ peer, tracked peer = node.peerMatchIndex peer ∨
    (node.peerMatchIndex peer = none ∧ tracked peer = some 0)
  sends : ∀ effect ∈ outcome.effects,
    ∃ peer msg, effect = .send peer (.raft msg) ∧ peer ≠ node.uuid ∧ node.Describes msg

theorem requestAppendEntries_spec :
    ∃ tracked, node.Beating (node.requestAppendEntries env) tracked := by
  unfold requestAppendEntries
  split
  · exact ⟨node.peerMatchIndex, rfl, fun _ => Or.inl rfl, by simp [throws]⟩
  · rename_i peers _
    dsimp only
    obtain ⟨tracked, heq, htracked⟩ := foldl_touch_spec node
      ((peers.filter fun peer => peer.uuid ≠ node.uuid).map PeerAddress.uuid)
    rw [List.foldl_map] at heq
    refine ⟨tracked, heq, htracked, ?_⟩
    intro effect heffect
    obtain ⟨peer, hpeer, hsome⟩ := List.mem_filterMap.mp heffect
    obtain ⟨msg, rfl, hmsg⟩ := appendEntriesFor_spec env node peer effect hsome
    exact ⟨peer.uuid, msg, rfl, by simpa using (List.mem_filter.mp hpeer).2, hmsg⟩

end Requests

section AppendEntries

-- The log that an AppendEntries leaves: the entry goes to the end, or nothing changes.
def Extends (log next : RaftLog) (accepted : Bool) (prevIndex : Nat) (entries : JsonMessage)
    (entryTerm : Nat) : Prop :=
  (next = log ∧ ¬(accepted = true ∧ entries.isEmpty = false)) ∨
    (accepted = true ∧ entries.isEmpty = false ∧ prevIndex + 1 = log.size ∧
      next.entries = log.entries ++ [⟨deduceTypeFromMessage entries, prevIndex + 1, entryTerm, entries⟩])

theorem insertAccepted_ok {log next : RaftLog} {prevIndex prevTerm stray : Nat} {entries : JsonMessage}
    {entryTerm : Nat} (h : insertAccepted log (log.entryAccepted prevIndex prevTerm stray)
      (prevIndex + 1) entries entryTerm = .ok next) :
    Extends log next (log.entryAccepted prevIndex prevTerm stray) prevIndex entries entryTerm := by
  unfold insertAccepted at h
  split at h
  · rename_i hinsert
    rcases log.entryAccepted_cases _ _ _ hinsert.1 with ⟨hend, _⟩ | ⟨hbeyond, _⟩
    · refine Or.inr ⟨hinsert.1, hinsert.2, hend, ?_⟩
      rw [hend, RaftLog.followerInsertEntry_end] at h
      cases h
      rw [hend]
    · rw [RaftLog.followerInsertEntry_beyond _ _ _ (by omega)] at h
      cases h
  · rename_i hkeep
    cases h
    exact Or.inl ⟨rfl, hkeep⟩

-- A follower that answers only commits, and never past its log or the leader's commit index.
theorem answerAndCommit_spec (success : Bool) (msgIndex commitIndex : Nat)
    (hstate : node.currentState = .follower) :
    ∃ count tracked, (node.answerAndCommit env success msgIndex commitIndex).node =
        { node with commitIndex := node.commitIndex + count, peerMatchIndex := tracked } ∧
      (node.answerAndCommit env success msgIndex commitIndex).effects =
        .reply (.raft (createAppendEntriesResponse node.uuid node.currentTerm success
          (min node.log.size (msgIndex + 1)))) ::
        commitEffects node.commitIndex ((node.log.entries.drop node.commitIndex).take count) ∧
      (0 < count → success = true ∧ node.commitIndex + count ≤ commitIndex ∧
        node.commitIndex + count ≤ node.log.size) := by
  obtain ⟨committed, hcommitted⟩ : ∃ committed, committed =
      if success = true ∧ node.commitIndex < commitIndex then
        commitLoop env (min node.log.size commitIndex - node.commitIndex) node
      else node.done := ⟨_, rfl⟩
  have hcommit : ∃ turns count added, Committing node turns committed count added ∧
      (0 < count → success = true ∧ node.commitIndex + count ≤ commitIndex) := by
    rw [hcommitted]
    split
    · rename_i hyes
      obtain ⟨count, added, hc⟩ := commitLoop_spec env (min node.log.size commitIndex - node.commitIndex) node
      refine ⟨_, count, added, hc, fun _ => ⟨hyes.1, ?_⟩⟩
      have := hc.bounded
      omega
    · exact ⟨0, 0, [], .stopped node 0 none, by simp⟩
  obtain ⟨turns, count, added, hc, hpos⟩ := hcommit
  have hlog : committed.node.log = node.log := hc.log_of_not_leader (by simp [hstate])
  have hnode := hc.node_eq
  have heffects := hc.effects_eq
  have hinside := hc.inside
  rw [hlog] at hnode heffects hinside
  have hall : 0 < count → success = true ∧ node.commitIndex + count ≤ commitIndex ∧
      node.commitIndex + count ≤ node.log.size :=
    fun h => ⟨(hpos h).1, (hpos h).2, hinside h⟩
  unfold answerAndCommit
  dsimp only
  rw [← hcommitted]
  split
  · exact ⟨count, node.peerMatchIndex, hnode, by rw [heffects], hall⟩
  · exact ⟨count, _, by rw [hnode]; rfl, by rw [heffects], hall⟩

-- What an AppendEntries of the current term does to a follower.
structure Appending (msg : Message) (prevIndex prevTerm : Nat) (entries : JsonMessage)
    (entryTerm commitIndex stray : Nat) (outcome : Outcome) (log : RaftLog) (count : Nat) : Prop where
  follower : node.currentState = .follower
  node_eq : ∃ swarm tracked, outcome.node = { node with
    inASwarm := swarm, leader := msg.sender, log := log,
    commitIndex := node.commitIndex + count, peerMatchIndex := tracked }
  log_eq : Extends node.log log (node.log.entryAccepted prevIndex prevTerm stray) prevIndex entries entryTerm
  effects_eq : outcome.effects =
    .reply (.raft (createAppendEntriesResponse node.uuid node.currentTerm
      (node.log.entryAccepted prevIndex prevTerm stray) (min log.size (prevIndex + 1 + 1)))) ::
    commitEffects node.commitIndex ((log.entries.drop node.commitIndex).take count)
  commits : 0 < count → node.log.entryAccepted prevIndex prevTerm stray = true ∧
    node.commitIndex + count ≤ commitIndex ∧ node.commitIndex + count ≤ log.size

theorem handleWsAppendEntries_cases (msg : Message) (prevIndex prevTerm : Nat) (entries : JsonMessage)
    (entryTerm commitIndex : Nat) (stray : Nat → Nat) (hterm : msg.term ≤ node.currentTerm) :
    (node.currentState ≠ .follower ∧ ∃ swarm,
      node.handleWsAppendEntries env msg prevIndex prevTerm entries entryTerm commitIndex stray =
        ⟨{ node with inASwarm := swarm }.updateRaftState msg.term .follower, [.close], none⟩) ∨
    (node.currentState = .follower ∧ ∃ swarm e,
      node.handleWsAppendEntries env msg prevIndex prevTerm entries entryTerm commitIndex stray =
        ⟨{ node with inASwarm := swarm, leader := msg.sender }, [], some e⟩) ∨
    ∃ log count, node.Appending msg prevIndex prevTerm entries entryTerm commitIndex (stray prevIndex)
      (node.handleWsAppendEntries env msg prevIndex prevTerm entries entryTerm commitIndex stray) log count := by
  unfold handleWsAppendEntries
  dsimp only
  by_cases hstate : node.currentState = .follower
  · right
    rw [if_neg (by simp [hstate])]
    split
    · exact Or.inl ⟨hstate, _, _, rfl⟩
    · rename_i log hlog
      obtain ⟨count, tracked, hnode, heffects, hcommits⟩ := answerAndCommit_spec env
        { node with inASwarm := node.inASwarm || decide (msg.sender ≠ node.uuid), leader := msg.sender, log := log }
        (node.log.entryAccepted prevIndex prevTerm (stray prevIndex)) (prevIndex + 1) commitIndex hstate
      exact Or.inr ⟨log, count, hstate, ⟨_, tracked, hnode⟩, insertAccepted_ok hlog, heffects, hcommits⟩
  · left
    rw [if_pos]
    · exact ⟨hstate, _, rfl⟩
    · refine ⟨?_, hterm⟩
      cases hs : node.currentState with
      | follower => exact absurd hs hstate
      | candidate => exact Or.inl rfl
      | leader => exact Or.inr rfl

end AppendEntries

section AppendEntriesReply

theorem foldl_min_le (quorums : List (List Uuid)) (median : List Uuid → Nat) (start : Nat) :
    quorums.foldl (fun result quorum => min result (median quorum)) start ≤ start ∧
      ∀ quorum ∈ quorums,
        quorums.foldl (fun result quorum => min result (median quorum)) start ≤ median quorum := by
  induction quorums generalizing start with
  | nil => simp
  | cons first rest ih =>
      obtain ⟨hstart, hrest⟩ := ih (min start (median first))
      simp only [List.foldl_cons]
      refine ⟨by omega, ?_⟩
      intro quorum hq
      rcases List.mem_cons.mp hq with rfl | hq
      · omega
      · exact hrest quorum hq

-- What an AppendEntriesReply does to a leader of its term.
structure Recording (msg : Message) (success : Bool) (matchIndex : Nat) (stray : Nat → Nat)
    (outcome : Outcome) (tracked : Uuid → Option Nat) (count : Nat) (added : List LogEntry) : Prop where
  leader : node.currentState = .leader
  bounded : matchIndex ≤ node.log.size
  tracked_eq : ∀ peer, tracked peer = (node.setMatchIndex msg.sender matchIndex).peerMatchIndex peer ∨
    ((node.setMatchIndex msg.sender matchIndex).peerMatchIndex peer = none ∧ tracked peer = some 0)
  committing : ∃ turns, Committing { node with peerMatchIndex := tracked } turns outcome count added
  commits : 0 < count → success = true ∧ ∃ quorums, getActiveQuorum node.log = .ok quorums ∧
    ∀ quorum ∈ quorums, node.commitIndex + count ≤
      (node.setMatchIndex msg.sender matchIndex).medianMatchIndex stray quorum

theorem handleRequestAppendEntriesResponse_cases (msg : Message) (success : Bool) (matchIndex : Nat)
    (stray : Nat → Nat) :
    node.handleRequestAppendEntriesResponse env msg success matchIndex stray = node.done ∨
    ∃ tracked count added, node.Recording msg success matchIndex stray
      (node.handleRequestAppendEntriesResponse env msg success matchIndex stray) tracked count added := by
  unfold handleRequestAppendEntriesResponse
  split
  · exact Or.inl rfl
  rename_i hleader
  split
  · exact Or.inl rfl
  rename_i hbad
  right
  have hstate : node.currentState = .leader := by simpa using hleader
  have hbound : matchIndex ≤ node.log.size := by omega
  -- with nothing committed the tracked indexes are all there is to say
  have hidle : ∀ thrown, node.Recording msg success matchIndex stray
      ⟨node.setMatchIndex msg.sender matchIndex, [], thrown⟩
      (node.setMatchIndex msg.sender matchIndex).peerMatchIndex 0 [] := fun thrown =>
    ⟨hstate, hbound, fun _ => Or.inl rfl, ⟨0, .stopped _ 0 thrown⟩, by simp⟩
  dsimp only
  split
  · exact ⟨_, _, _, hidle none⟩
  rename_i hsuccess
  split
  · exact ⟨_, _, _, hidle _⟩
  · rename_i counted lastIndex hlast
    obtain ⟨quorums, hq, hpair⟩ : ∃ quorums, getActiveQuorum node.log = .ok quorums ∧
        (quorums.flatten.foldl touchMatchIndex (node.setMatchIndex msg.sender matchIndex),
          quorums.foldl (fun result quorum => min result
            ((node.setMatchIndex msg.sender matchIndex).medianMatchIndex stray quorum)) (2 ^ 32 - 1)) =
          (counted, lastIndex) := by
      have hlog : (node.setMatchIndex msg.sender matchIndex).log = node.log := rfl
      unfold lastMajorityReplicatedLogIndex at hlast
      rw [hlog] at hlast
      cases hq : getActiveQuorum node.log with
      | error e => simp [hq, Except.map] at hlast
      | ok quorums => exact ⟨quorums, rfl, by simpa [hq, Except.map] using hlast⟩
    obtain ⟨rfl, rfl⟩ := Prod.mk.inj hpair
    obtain ⟨tracked, hcounted, htracked⟩ := foldl_touch_spec
      (node.setMatchIndex msg.sender matchIndex) quorums.flatten
    rw [hcounted]
    split
    · exact ⟨tracked, 0, [], hstate, hbound, htracked, ⟨0, .stopped _ 0 none⟩, by simp⟩
    · obtain ⟨count, added, hc⟩ := commitLoop_spec env _
        { node.setMatchIndex msg.sender matchIndex with peerMatchIndex := tracked }
      refine ⟨tracked, count, added, hstate, hbound, htracked, ⟨_, hc⟩, ?_⟩
      intro hpos
      refine ⟨by simpa using hsuccess, quorums, hq, fun quorum hmem => ?_⟩
      have hmin := (foldl_min_le quorums
        ((node.setMatchIndex msg.sender matchIndex).medianMatchIndex stray) (2 ^ 32 - 1)).2 quorum hmem
      have hturns := hc.bounded
      have hindex : (node.setMatchIndex msg.sender matchIndex).commitIndex = node.commitIndex := rfl
      rw [hindex] at hturns
      omega

end AppendEntriesReply

section Leading

-- The entries a leader put at the end of its log.
structure Leading (log : RaftLog) (added : List LogEntry) : Prop where
  log_eq : log.entries = node.log.entries ++ added
  leads : added ≠ [] → node.currentState = .leader
  fresh : ∀ j entry, added[j]? = some entry →
    entry.term = node.currentTerm ∧ entry.logIndex = node.log.size + j

theorem Leading.none : node.Leading node.log [] := ⟨by simp, by simp, by simp⟩

theorem appendLogUnsafe_spec (msg : JsonMessage) (entryType : LogEntryType) :
    ∃ log added, node.appendLogUnsafe msg entryType = { node with log := log } ∧
      node.Leading log added ∧ ∀ entry ∈ added, entry.entryType = entryType ∧ entry.msg = msg := by
  unfold appendLogUnsafe
  split
  · exact ⟨node.log, [], rfl, .none node, by simp⟩
  · rename_i hleader
    refine ⟨_, [⟨entryType, node.log.size, node.currentTerm, msg⟩], rfl,
      ⟨rfl, fun _ => by simpa using hleader, ?_⟩, by simp⟩
    intro j entry hj
    cases j with
    | zero =>
        obtain rfl : _ = entry := by simpa using hj
        exact ⟨rfl, rfl⟩
    | succ j => simp at hj

end Leading

section Management

-- What a step can do to the outside besides raft messages and the commit handler: closing a
-- session, answering a command, asking for the peers, telling them, or asking to be added.
inductive Gossip (input : Input) : Effect → Prop
  | close : Gossip input .close
  | success (command message : String) (msg : ManagementMessage) (pick : Nat)
      (hinput : input = .management msg pick) (hmember : msg.isMembership = true) :
      Gossip input (.reply (.success command message))
  | error (message : String) : Gossip input (.reply (.error message))
  | ask (peer : Uuid) : Gossip input (.send peer (.management .getPeers))
  | tell (response : GetPeersResponse)
      (h : ∀ peers, response.peers = some peers → getAllPeers node.log = .ok peers) :
      Gossip input (.reply (.management (.getPeersResponse response)))
  | join (peer : Uuid) (request : PeerJson) (response : GetPeersResponse) (pick : Nat)
      (told known : List PeerAddress) (hinput : input = .management (.getPeersResponse response) pick)
      (htold : response.peers = some told) (hknown : getAllPeers node.log = .ok known)
      (habsent : ∀ peer ∈ told, peer.uuid ≠ node.uuid) (hself : ∃ peer ∈ known, peer.uuid = node.uuid) :
      Gossip input (.send peer (.management (.addPeer request)))

variable {node} {input : Input}

theorem Gossip.raftMessage {effect : Effect} (h : node.Gossip input effect) :
    effect.raftMessage = none := by
  cases h <;> rfl

-- What everything that is not about a change of the quorum, a vote or the log can do to a node.
structure Idle (node : Node) (input : Input) (outcome : Outcome) : Prop where
  node_eq : ∃ leader swarm, outcome.node = { node with leader := leader, inASwarm := swarm }
  gossip : ∀ effect ∈ outcome.effects, node.Gossip input effect

-- What a membership command can do to a node.
structure Managed (node : Node) (input : Input) (outcome : Outcome) : Prop where
  node_eq : ∃ log added tracked, node.Leading log added ∧
    outcome.node = { node with log := log, peerMatchIndex := tracked }
  gossip : ∀ effect ∈ outcome.effects, node.Gossip input effect

theorem Idle.silent (node : Node) (input : Input) (thrown : Option Exception) :
    node.Idle input ⟨node, [], thrown⟩ :=
  ⟨⟨node.leader, node.inASwarm, rfl⟩, by simp⟩

theorem Idle.reply (node : Node) {wire : Wire} (h : node.Gossip input (.reply wire)) :
    node.Idle input ⟨node, [.reply wire], none⟩ :=
  ⟨⟨node.leader, node.inASwarm, rfl⟩, by simpa using h⟩

theorem Managed.refused (node : Node) (input : Input) (message : String) :
    node.Managed input (node.sendSessionErrorMessage message) :=
  ⟨⟨node.log, [], node.peerMatchIndex, .none node, rfl⟩, by simpa [sendSessionErrorMessage] using .error message⟩

theorem Managed.thrown (node : Node) (input : Input) (e : Exception) :
    node.Managed input (node.throws e) :=
  ⟨⟨node.log, [], node.peerMatchIndex, .none node, rfl⟩, by simp [throws]⟩

theorem Managed.appended (node : Node) (request : ManagementMessage) (pick : Nat)
    (hmember : request.isMembership = true) (tracked : Uuid → Option Nat) (msg : JsonMessage)
    (entryType : LogEntryType) (command message : String) :
    node.Managed (.management request pick)
      ⟨{ node with peerMatchIndex := tracked }.appendLogUnsafe msg entryType,
        [.reply (.success command message)], none⟩ := by
  obtain ⟨log, added, heq, hlead, _⟩ := appendLogUnsafe_spec { node with peerMatchIndex := tracked } msg entryType
  exact ⟨⟨log, added, tracked, ⟨hlead.log_eq, hlead.leads, hlead.fresh⟩, heq⟩,
    by simpa using .success command message request pick rfl hmember⟩

variable (node) (input)

theorem handleAddPeer_managed (peer : PeerJson) (pick : Nat) :
    node.Managed (.management (.addPeer peer) pick) (node.handleAddPeer env peer) := by
  unfold handleAddPeer
  repeat' split
  all_goals first
    | exact .refused node _ _
    | exact .thrown node _ _
    | exact .appended node (.addPeer peer) pick rfl _ _ _ _ _

theorem handleRemovePeer_managed (uuid : Uuid) (pick : Nat) :
    node.Managed (.management (.removePeer uuid) pick) (node.handleRemovePeer uuid) := by
  unfold handleRemovePeer
  repeat' split
  all_goals first
    | exact .refused node _ _
    | exact .thrown node _ _
    | exact .appended node (.removePeer uuid) pick rfl node.peerMatchIndex _ _ _ _

theorem handleGetPeers_idle : node.Idle input node.handleGetPeers := by
  unfold handleGetPeers
  split
  · exact .reply node (.tell _ (by simp))
  · split
    · exact .silent node input _
    · exact .reply node (.tell _ (by simp))
  · split
    · exact .silent node input _
    · rename_i known hknown
      refine .reply node (.tell _ fun peers hpeers => ?_)
      dsimp only at hpeers
      split at hpeers
      · cases hpeers
      · cases hpeers
        exact hknown

theorem autoAddPeerIfRequired_spec (pick : Nat) :
    (node.autoAddPeerIfRequired env pick).node = node ∧
      ∀ effect ∈ (node.autoAddPeerIfRequired env pick).effects,
        ∃ peer, effect = .send peer (.management .getPeers) := by
  unfold autoAddPeerIfRequired
  repeat' split
  all_goals exact ⟨rfl, by simp [throws]⟩

theorem lookForSwarm_spec (pick : Nat) :
    (node.lookForSwarm env pick).node = node ∧
      ∀ effect ∈ (node.lookForSwarm env pick).effects, node.Gossip input effect := by
  unfold lookForSwarm
  split
  · exact ⟨rfl, by simp [done]⟩
  · obtain ⟨hnode, hasks⟩ := autoAddPeerIfRequired_spec env node pick
    refine ⟨hnode, fun effect heffect => ?_⟩
    obtain ⟨peer, rfl⟩ := hasks effect heffect
    exact .ask peer

theorem addSelfToSwarm_spec :
    (node.addSelfToSwarm env).node = node ∧ ∀ effect ∈ (node.addSelfToSwarm env).effects,
      ∃ peer request known, effect = .send peer (.management (.addPeer request)) ∧
        getAllPeers node.log = .ok known ∧ ∃ peer ∈ known, peer.uuid = node.uuid := by
  unfold addSelfToSwarm
  split
  · rename_i known leader hknown _
    split
    · exact ⟨rfl, by simp [throws]⟩
    · rename_i self hself
      split
      · refine ⟨rfl, fun effect heffect => ?_⟩
        obtain rfl : effect = _ := by simpa using heffect
        have hmine := List.find?_some hself
        exact ⟨_, _, known, rfl, hknown, self, List.mem_of_find?_eq_some hself, by simpa using hmine⟩
      · exact ⟨rfl, by simp [throws]⟩
  · exact ⟨rfl, by simp [throws]⟩
  · exact ⟨rfl, by simp [throws]⟩

theorem handleGetPeersResponse_idle (response : GetPeersResponse) (pick : Nat) :
    node.Idle (.management (.getPeersResponse response) pick)
      (node.handleGetPeersResponse env response pick) := by
  unfold handleGetPeersResponse
  split
  · unfold handleGetPeersResponseFromFollowerOrCandidate
    split
    · exact ⟨⟨node.leader, false, rfl⟩, by simp [done]⟩
    · rename_i leader _
      obtain ⟨hnode, hasks⟩ := autoAddPeerIfRequired_spec env { node with leader := leader.uuid } pick
      have hgossip : ∀ effect ∈ ({ node with leader := leader.uuid }.autoAddPeerIfRequired env pick).effects,
          node.Gossip (.management (.getPeersResponse response) pick) effect := by
        intro effect heffect
        obtain ⟨peer, rfl⟩ := hasks effect heffect
        exact .ask peer
      dsimp only
      split
      · exact ⟨⟨_, _, hnode⟩, hgossip⟩
      · exact ⟨⟨leader.uuid, false, by rw [hnode]⟩, hgossip⟩
  · unfold handleGetPeersResponseFromLeader
    split
    · dsimp only
      split
      · exact ⟨⟨_, node.inASwarm, rfl⟩, by simp [done]⟩
      · rename_i told htold
        split
        · exact ⟨⟨_, true, rfl⟩, by simp [done]⟩
        · rename_i habsent
          obtain ⟨hnode, hjoins⟩ :=
            addSelfToSwarm_spec env { node with leader := response.sender.getD node.leader }
          refine ⟨⟨_, _, hnode⟩, fun effect heffect => ?_⟩
          obtain ⟨peer, request, known, rfl, hknown, hself⟩ := hjoins effect heffect
          exact .join peer request response pick told known rfl htold hknown (by simpa using habsent) hself
    · exact .silent node _ _

theorem handleManagement_cases (msg : ManagementMessage) (pick : Nat) :
    (msg.isMembership = true ∧ node.Managed (.management msg pick) (node.handleManagement env msg pick)) ∨
      (msg.isMembership = false ∧ node.Idle (.management msg pick) (node.handleManagement env msg pick)) := by
  cases msg with
  | addPeer peer => exact Or.inl ⟨rfl, handleAddPeer_managed env node peer pick⟩
  | addPeerResponse message =>
      right
      refine ⟨rfl, ?_⟩
      unfold handleManagement
      dsimp only
      split
      · exact ⟨⟨node.leader, true, rfl⟩, by simp [done]⟩
      · exact .silent node _ _
  | removePeer uuid =>
      left
      refine ⟨rfl, ?_⟩
      unfold handleManagement
      dsimp only
      split
      · exact .refused node _ _
      · exact handleRemovePeer_managed node uuid pick
  | getPeers => exact Or.inr ⟨rfl, handleGetPeers_idle node _⟩
  | getPeersResponse response => exact Or.inr ⟨rfl, handleGetPeersResponse_idle env node response pick⟩

end Management

end Node

end SwarmDB.Raft
