import SwarmDB.Raft.Node.Appends
import SwarmDB.Raft.Node.Receiver
import SwarmDB.Raft.Swarm.Agreement

namespace SwarmDB.Raft

open Swarm ReplicatedLog

section Peers

variable {known peers : List PeerAddress} {log : RaftLog} {uuid : Uuid}

theorem mem_foldl_emplace {peer : PeerAddress} (h : peer ∈ peers.foldl PeerAddress.emplace known) :
    peer ∈ known ∨ peer ∈ peers := by
  induction peers generalizing known with
  | nil => exact Or.inl h
  | cons first rest ih =>
      rcases ih h with hknown | hrest
      · unfold PeerAddress.emplace at hknown
        split at hknown
        · exact Or.inl hknown
        · rcases List.mem_append.mp hknown with hknown | hfirst
          · exact Or.inl hknown
          · rw [List.mem_singleton.mp hfirst]
            exact Or.inr List.mem_cons_self
      · exact Or.inr (List.mem_cons_of_mem _ hrest)

-- Whoever is emplaced is there afterwards, maybe with another name.
theorem exists_foldl_emplace {peer : PeerAddress} (h : peer ∈ known ∨ peer ∈ peers) :
    ∃ other ∈ peers.foldl PeerAddress.emplace known, other.uuid = peer.uuid := by
  induction peers generalizing known peer with
  | nil => exact ⟨peer, h.resolve_right List.not_mem_nil, rfl⟩
  | cons first rest ih =>
      rw [List.foldl_cons]
      have hkept : ∀ other ∈ known, other ∈ PeerAddress.emplace known first := by
        intro other hother
        unfold PeerAddress.emplace
        split
        · exact hother
        · exact List.mem_append_left _ hother
      rcases h with hknown | hmem
      · exact ih (Or.inl (hkept peer hknown))
      · rcases List.mem_cons.mp hmem with rfl | hrest
        · by_cases hsame : known.any (PeerAddress.same peer) = true
          · obtain ⟨other, hother, heq⟩ := List.any_eq_true.mp hsame
            simp only [PeerAddress.same, Bool.and_eq_true, beq_iff_eq] at heq
            obtain ⟨found, hfound, huuid⟩ := ih (Or.inl (hkept other hother))
            exact ⟨found, hfound, huuid.trans heq.2.symm⟩
          · refine ih (Or.inl ?_)
            unfold PeerAddress.emplace
            rw [if_neg hsame]
            exact List.mem_append_right _ List.mem_cons_self
        · exact ih (Or.inr hrest)

-- What create_dat_file writes of the peers.
theorem createDatFile_listed (peers : List PeerAddress) : ∃ listed : Option (List PeerJson),
    (createDatFile peers).msg = .singleQuorum listed ∧
      (∀ peer ∈ peers, ∃ json ∈ listed.getD [], json.uuidText = peer.uuid) ∧
      ∀ json ∈ listed.getD [], ∃ peer ∈ peers, json.host = peer.host := by
  refine ⟨_, rfl, ?_, ?_⟩
  · intro peer hpeer
    rw [if_neg (List.ne_nil_of_mem hpeer)]
    exact ⟨_, List.mem_map_of_mem hpeer, rfl⟩
  · intro json hjson
    split at hjson
    · cases hjson
    · obtain ⟨peer, hpeer, rfl⟩ := List.mem_map.mp hjson
      exact ⟨peer, hpeer, rfl⟩

-- Everybody in the first entry is among the peers that a log without another quorum leads to.
theorem getAllPeers_start (hplain : log.PlainAfter (createDatFile peers)) : ∃ known, getAllPeers log = .ok known ∧
    (∀ peer ∈ peers, ∃ other ∈ known, other.uuid = peer.uuid) ∧
    ∀ other ∈ known, ∃ peer ∈ peers, other.host = peer.host := by
  obtain ⟨listed, hmsg, huuids, hhosts⟩ := createDatFile_listed peers
  have hpeers : listedPeers (createDatFile peers) = .ok (listed.getD []) := by
    have htype : (createDatFile peers).entryType = .singleQuorum := rfl
    simp only [listedPeers, htype, hmsg, JsonMessage.peers, Except.map]
  have hall : getAllPeers log = .ok (((listed.getD []).map PeerJson.address).foldl PeerAddress.emplace []) := by
    unfold getAllPeers
    rw [hplain.lastQuorumEntry rfl]
    dsimp only
    rw [hpeers]
    rfl
  refine ⟨_, hall, ?_, ?_⟩
  · intro peer hpeer
    obtain ⟨json, hjson, huuid⟩ := huuids peer hpeer
    obtain ⟨other, hother, hsame⟩ := @exists_foldl_emplace [] _ _ (Or.inr (List.mem_map_of_mem hjson))
    exact ⟨other, hother, hsame.trans huuid⟩
  · intro other hother
    rcases mem_foldl_emplace hother with hnone | hmem
    · cases hnone
    · obtain ⟨json, hjson, rfl⟩ := List.mem_map.mp hmem
      exact hhosts json hjson

theorem inQuorum_start (hplain : log.PlainAfter (createDatFile peers)) (huuid : uuid ∈ peers.map PeerAddress.uuid) :
    inQuorum log uuid = .ok true := by
  obtain ⟨listed, hmsg, huuids, _⟩ := createDatFile_listed peers
  obtain ⟨peer, hpeer, rfl⟩ := List.mem_map.mp huuid
  obtain ⟨json, hjson, hsame⟩ := huuids peer hpeer
  have hquorum : getActiveQuorum log = .ok [uuids listed] := by
    unfold getActiveQuorum
    rw [hplain.lastQuorumEntry rfl]
    change (createDatFile peers).msg.peers.map _ = _
    rw [hmsg]
    rfl
  have hmem : peer.uuid ∈ uuids listed := by
    rw [← hsame]
    exact List.mem_dedup.mpr (List.mem_map_of_mem hjson)
  simp [inQuorum, hquorum, Except.map, hmem]

end Peers

namespace Node

variable {env : Env} {node : Node}

-- The request for a peer that the leader has an index for. The index is that of the first entry it
-- is not known to have.
theorem appendEntriesFor_next {peer : PeerAddress} {m : Nat} (hindex : node.matchIndexOf peer.uuid = m + 1)
    (hsize : m + 1 ≤ node.log.size) (hvalid : env.validAddress peer.host = true) :
    ∃ prev entries entryTerm, node.log.entries[m]? = some prev ∧
      node.appendEntriesFor env peer = some (.send peer.uuid (.raft (createAppendEntriesRequest node.uuid
        node.currentTerm node.commitIndex m prev.term entryTerm entries))) ∧
      ((m + 1 = node.log.size ∧ entries = .null) ∨
        ∃ entry, node.log.entries[m + 1]? = some entry ∧ entryTerm = entry.term ∧ entries = entry.msg) := by
  have hlt : m < node.log.entries.length := hsize
  rcases Nat.lt_or_eq_of_le hsize with hmore | hend
  · have hmore' : m + 1 < node.log.entries.length := hmore
    refine ⟨_, _, _, List.getElem?_eq_getElem hlt, ?_, Or.inr ⟨_, List.getElem?_eq_getElem hmore', rfl, rfl⟩⟩
    unfold appendEntriesFor
    simp only [hindex, hmore, if_true, RaftLog.entryAt, List.getElem?_eq_getElem hlt,
      List.getElem?_eq_getElem hmore', hvalid]
  · refine ⟨_, .null, 0, List.getElem?_eq_getElem hlt, ?_, Or.inl ⟨hend, rfl⟩⟩
    have hlast : node.log.size - 1 = m := by omega
    unfold appendEntriesFor
    simp only [hindex, hend, lt_irrefl, if_false, hlast, RaftLog.entryAt, List.getElem?_eq_getElem hlt,
      hvalid, if_true]

theorem appendEntriesFor_none {peer : PeerAddress} (hindex : node.matchIndexOf peer.uuid = 0) :
    node.appendEntriesFor env peer = none := by
  unfold appendEntriesFor
  simp only [hindex, node.log.size_pos, if_true]

theorem notify_none {known : List PeerAddress} (hpeers : getAllPeers node.log = .ok known)
    (hvalid : ∀ other ∈ known, env.validAddress other.host = true) : node.notify env = none := by
  unfold notify
  rw [hpeers]
  simp only [List.all_eq_true.mpr hvalid, if_true, ite_self]

theorem notify_start {peers : List PeerAddress} (hplain : node.log.PlainAfter (createDatFile peers))
    (hvalid : ∀ peer ∈ peers, env.validAddress peer.host = true) : node.notify env = none := by
  obtain ⟨known, hknown, _, hhosts⟩ := getAllPeers_start hplain
  refine notify_none hknown fun other hother => ?_
  obtain ⟨peer, hpeer, hhost⟩ := hhosts other hother
  rw [hhost]
  exact hvalid peer hpeer

-- A follower that gets its notices out commits as much as it is asked to.
theorem commitLoop_follower {turns : Nat} (hstate : node.currentState = .follower)
    (hnotify : node.notify env = none) (hturns : node.commitIndex + turns ≤ node.log.size) :
    (commitLoop env turns node).node.commitIndex = node.commitIndex + turns := by
  induction turns generalizing node with
  | zero => rfl
  | succ turns ih =>
      have hlt : node.commitIndex < node.log.entries.length := by
        unfold RaftLog.size at hturns
        omega
      have hentry : node.log.entryAt node.commitIndex = some node.log.entries[node.commitIndex] :=
        List.getElem?_eq_getElem hlt
      have hone : node.performCommit env node.log.entries[node.commitIndex] =
          ⟨{ node with commitIndex := node.commitIndex + 1 },
            [.commit node.commitIndex node.log.entries[node.commitIndex].msg], none⟩ := by
        unfold performCommit
        rw [hnotify]
        simp [hstate]
      have hrest := @ih { node with commitIndex := node.commitIndex + 1 } hstate hnotify (by dsimp only; omega)
      unfold commitLoop
      simp only [hentry, hone]
      rw [hrest]
      dsimp only
      omega

theorem answerAndCommit_complete (hstate : node.currentState = .follower) (hnotify : node.notify env = none)
    (msgIndex commitIndex : Nat) :
    min node.log.size commitIndex ≤ (node.answerAndCommit env true msgIndex commitIndex).node.commitIndex := by
  by_cases hbehind : node.commitIndex < min node.log.size commitIndex
  · have hall := @commitLoop_follower env node (min node.log.size commitIndex - node.commitIndex) hstate hnotify
      (by omega)
    unfold answerAndCommit
    dsimp only
    rw [if_pos ⟨rfl, by omega⟩]
    split
    · dsimp only
      omega
    · change _ ≤ (commitLoop env (min node.log.size commitIndex - node.commitIndex) node).node.commitIndex
      omega
  · obtain ⟨count, tracked, hnode, _, _⟩ := answerAndCommit_spec env node true msgIndex commitIndex hstate
    rw [hnode]
    dsimp only
    omega

-- A follower that takes an AppendEntries commits what it has of the leader's commits.
theorem handleWsAppendEntries_commits {msg : Message} {prevIndex prevTerm : Nat} {entries : JsonMessage}
    {entryTerm commitIndex : Nat} {stray : Nat → Nat} {outcome : Outcome}
    (houtcome : outcome =
      node.handleWsAppendEntries env msg prevIndex prevTerm entries entryTerm commitIndex stray)
    (hstate : node.currentState = .follower) (hin : prevIndex < node.log.size)
    (haccepted : node.log.entryAccepted prevIndex prevTerm (stray prevIndex) = true)
    (hnotify : ∀ next : Node, next.log = outcome.node.log → next.notify env = none) :
    min outcome.node.log.size commitIndex ≤ outcome.node.commitIndex := by
  obtain ⟨log, hlog⟩ := insertAccepted_inside node.log prevTerm (stray prevIndex) entries entryTerm hin
  rw [haccepted] at hlog
  obtain ⟨start, hstart⟩ : ∃ start : Node, start = { node with
    inASwarm := node.inASwarm || decide (msg.sender ≠ node.uuid), leader := msg.sender, log := log } := ⟨_, rfl⟩
  have hanswered : outcome = start.answerAndCommit env true (prevIndex + 1) commitIndex := by
    rw [houtcome, hstart]
    unfold handleWsAppendEntries
    dsimp only
    rw [if_neg (by simp [hstate]), haccepted, hlog]
  have hfollower : start.currentState = .follower := by rw [hstart, hstate]
  obtain ⟨count, tracked, hnode, _, _⟩ := answerAndCommit_spec env start true (prevIndex + 1) commitIndex hfollower
  have hsame : outcome.node.log = start.log := by rw [hanswered, hnode]
  rw [hsame, hanswered]
  exact answerAndCommit_complete hfollower (hnotify start hsame.symm) (prevIndex + 1) commitIndex

-- The leader takes the index over whatever the reply is, and commits on a success.
theorem handleRequestAppendEntriesResponse_tracks {msg : Message} (success : Bool) {matchIndex : Nat}
    (stray : Nat → Nat) (hstate : node.currentState = .leader) (hterm : msg.term = node.currentTerm)
    (hsize : matchIndex ≤ node.log.size) :
    (node.handleRequestAppendEntriesResponse env msg success matchIndex stray).node.matchIndexOf msg.sender =
      matchIndex := by
  have hset : (node.setMatchIndex msg.sender matchIndex).peerMatchIndex msg.sender = some matchIndex :=
    setMatchIndex_self node msg.sender matchIndex
  unfold handleRequestAppendEntriesResponse
  rw [if_neg (by simp [hstate]), if_neg (by simp [hterm, hsize])]
  dsimp only
  split
  · rw [matchIndexOf, done, hset]
    rfl
  · split
    · rw [matchIndexOf, throws, hset]
      rfl
    · rename_i counted lastIndex hlast
      have htracked : counted.peerMatchIndex msg.sender = some matchIndex := by
        unfold lastMajorityReplicatedLogIndex at hlast
        cases hquorums : getActiveQuorum (node.setMatchIndex msg.sender matchIndex).log with
        | error e => simp [hquorums, Except.map] at hlast
        | ok quorums =>
            simp only [hquorums, Except.map, Except.ok.injEq, Prod.mk.injEq] at hlast
            obtain ⟨tracked, hcounted, hkept⟩ := foldl_touch_spec (node.setMatchIndex msg.sender matchIndex)
              quorums.flatten
            rw [← hlast.1, hcounted]
            rcases hkept msg.sender with hsame | ⟨hnone, _⟩
            · rw [← hset]
              exact hsame
            · rw [hset] at hnone
              cases hnone
      split
      · rw [matchIndexOf, done, htracked]
        rfl
      · obtain ⟨count, added, hcommitting⟩ := commitLoop_spec env (lastIndex - counted.commitIndex) counted
        rw [matchIndexOf, hcommitting.node_eq, htracked]
        rfl

-- Without a joint quorum in the log, a reply changes what a leader knows and has committed.
theorem handleRequestAppendEntriesResponse_keeps {first : LogEntry} (hplain : node.log.PlainAfter first)
    (hfirst : first.entryType = .singleQuorum) (msg : Message) (success : Bool) (matchIndex : Nat)
    (stray : Nat → Nat) : ∃ tracked count,
    (node.handleRequestAppendEntriesResponse env msg success matchIndex stray).node =
      { node with peerMatchIndex := tracked, commitIndex := node.commitIndex + count } := by
  rcases handleRequestAppendEntriesResponse_cases env node msg success matchIndex stray with
    hdone | ⟨tracked, count, added, hrecording⟩
  · rw [hdone]
    exact ⟨node.peerMatchIndex, 0, rfl⟩
  · obtain ⟨turns, hcommitting⟩ := hrecording.committing
    have hnone : added = [] := by
      by_contra hadded
      exact hplain.not_joint hfirst (hcommitting.joint hadded)
    have hlog := hcommitting.log_eq
    rw [hnone, List.append_nil] at hlog
    refine ⟨tracked, count, ?_⟩
    rw [hcommitting.node_eq, RaftLog.ext hlog]

end Node

namespace Swarm

-- What a step sends to one node.
def packetsTo (env : Env) (s : Swarm) (a : Action) (dst : Uuid) : List Packet :=
  ((s.outcome env a).effects.filterMap (Effect.packet a.uuid a.session)).filter fun packet => packet.dst = dst

-- A heartbeat of n of which p gets its request, and n the answer to that.
def exchange (env : Env) (stray : Nat → Nat) (n p : Uuid) (s : Swarm) : Swarm :=
  let beat := Action.heartbeatTimeout n false
  match s.packetsTo env beat p with
  | [] => s.act env beat
  | request :: _ =>
    let receive := Action.deliver request stray 0
    match (s.act env beat).packetsTo env receive n with
    | [] => (s.act env beat).act env receive
    | answer :: _ => ((s.act env beat).act env receive).act env (.deliver answer stray 0)

-- Clients bring requests to n, and then it has its exchange with p.
def round (env : Env) (stray : Nat → Nat) (n p : Uuid) (s : Swarm) (requests : List String) : Swarm :=
  (requests.foldl (fun s msg => s.act env (.appendLog n msg)) s).exchange env stray n p

def rounds (env : Env) (stray : Nat → Nat) (n p : Uuid) (s : Swarm) (batches : List (List String)) : Swarm :=
  batches.foldl (fun s requests => s.round env stray n p requests) s

variable {env : Env} {peers : List PeerAddress} {s : Swarm} {n p : Uuid} {stray : Nat → Nat}

-- A leader and one of its followers, and what the leader knows of the follower's log.
structure Facing (peers : List PeerAddress) (s : Swarm) (n p : Uuid) : Prop where
  wired : s.Wired (createDatFile peers)
  leader : (s.nodes n).currentState = .leader
  follower : (s.nodes p).currentState = .follower
  term : (s.nodes p).currentTerm = (s.nodes n).currentTerm
  own : (s.nodes n).matchIndexOf p ≤ (s.nodes n).log.size
  known : (s.nodes n).matchIndexOf p ≤ (s.nodes p).log.size
  filled : ∀ entry ∈ (s.nodes n).log.entries, entry.msg.isEmpty = false

theorem Facing.ne (h : Facing peers s n p) : p ≠ n := by
  rintro rfl
  have hleader := h.leader
  rw [h.follower] at hleader
  cases hleader

theorem mem_packetsTo {a : Action} {dst : Uuid} {packet : Packet} (h : packet ∈ s.packetsTo env a dst) :
    packet ∈ (s.act env a).network ∧ packet.dst = dst ∧ ∃ effect ∈ (s.outcome env a).effects,
      effect.packet a.uuid a.session = some packet := by
  obtain ⟨hsent, hdst⟩ := List.mem_filter.mp h
  exact ⟨List.mem_append_right _ hsent, of_decide_eq_true hdst, List.mem_filterMap.mp hsent⟩

theorem heartbeat_effects (env : Env) (node : Node) :
    (node.step env (.heartbeatTimeout false)).effects = (node.requestAppendEntries env).effects := by
  unfold Node.step Node.handleHeartbeatTimeout
  simp only [Bool.false_eq_true, if_false]
  split <;> rfl

theorem heartbeat_node (env : Env) (node : Node) (peer : Uuid) : ∃ tracked,
    (node.step env (.heartbeatTimeout false)).node = { node with peerMatchIndex := tracked } ∧
      (node.step env (.heartbeatTimeout false)).node.matchIndexOf peer = node.matchIndexOf peer := by
  have hnode : (node.step env (.heartbeatTimeout false)).node = (node.requestAppendEntries env).node := by
    unfold Node.step Node.handleHeartbeatTimeout
    simp only [Bool.false_eq_true, if_false]
    split <;> rfl
  obtain ⟨tracked, hbeat⟩ := Node.requestAppendEntries_spec env node
  refine ⟨tracked, hnode.trans hbeat.node_eq, ?_⟩
  rw [hnode, hbeat.node_eq]
  change (tracked peer).getD 0 = (node.peerMatchIndex peer).getD 0
  rcases hbeat.tracked_eq peer with hsame | ⟨hnone, hzero⟩
  · rw [hsame]
  · rw [hnone, hzero]
    rfl

-- What a heartbeat sends to a peer was made for an address of that peer.
theorem heartbeat_packet {packet : Packet} (h : packet ∈ s.packetsTo env (.heartbeatTimeout n false) p) :
    ∃ peer : PeerAddress, peer.uuid = p ∧ ∃ known, getAllPeers (s.nodes n).log = .ok known ∧ peer ∈ known ∧
      ∃ effect, (s.nodes n).appendEntriesFor env peer = some effect ∧ effect.packet n none = some packet := by
  obtain ⟨_, hdst, effect, heffect, hpacket⟩ := mem_packetsTo h
  change effect ∈ ((s.nodes n).step env (.heartbeatTimeout false)).effects at heffect
  rw [heartbeat_effects] at heffect
  unfold Node.requestAppendEntries at heffect
  cases hpeers : getAllPeers (s.nodes n).log with
  | error e =>
      rw [hpeers] at heffect
      cases heffect
  | ok known =>
      rw [hpeers] at heffect
      obtain ⟨peer, hpeer, hsome⟩ := List.mem_filterMap.mp heffect
      obtain ⟨msg, rfl, _⟩ := Node.appendEntriesFor_spec env (s.nodes n) peer effect hsome
      have huuid : peer.uuid = p := by
        simp only [Effect.packet, Payload.ofWire, Option.map_some, Option.some.injEq] at hpacket
        rw [← hdst, ← hpacket]
      exact ⟨peer, huuid, known, rfl, (List.mem_filter.mp hpeer).1, _, hsome, hpacket⟩

-- A leader that knows of no entry of the follower sends it nothing.
theorem Facing.silent (hindex : (s.nodes n).matchIndexOf p = 0) :
    s.packetsTo env (.heartbeatTimeout n false) p = [] := by
  rw [List.eq_nil_iff_forall_not_mem]
  intro packet hpacket
  obtain ⟨peer, rfl, _, _, _, effect, hsome, _⟩ := heartbeat_packet hpacket
  rw [Node.appendEntriesFor_none hindex] at hsome
  cases hsome

-- What the first packet of a heartbeat for the follower is about.
theorem Facing.request (h : Facing peers s n p) (hp : p ∈ peers.map PeerAddress.uuid)
    (hvalid : ∀ peer ∈ peers, env.validAddress peer.host = true) {m : Nat}
    (hindex : (s.nodes n).matchIndexOf p = m + 1) : ∃ prev entries entryTerm rest,
    s.packetsTo env (.heartbeatTimeout n false) p = ⟨n, p, .raft ⟨n, (s.nodes n).currentTerm,
      .appendEntries m prev.term entries entryTerm (s.nodes n).commitIndex⟩⟩ :: rest ∧
      (s.nodes n).log.entries[m]? = some prev ∧ ((m + 1 = (s.nodes n).log.size ∧ entries = .null) ∨
        ∃ entry, (s.nodes n).log.entries[m + 1]? = some entry ∧ entryTerm = entry.term ∧ entries = entry.msg) := by
  have huuid := h.wired.uuid n
  have hsize : m + 1 ≤ (s.nodes n).log.size := by
    rw [← hindex]
    exact h.own
  -- everything that goes to the follower looks alike
  have hall : ∀ packet ∈ s.packetsTo env (.heartbeatTimeout n false) p, ∃ prev entries entryTerm,
      packet = ⟨n, p, .raft ⟨n, (s.nodes n).currentTerm,
        .appendEntries m prev.term entries entryTerm (s.nodes n).commitIndex⟩⟩ ∧
      (s.nodes n).log.entries[m]? = some prev ∧ ((m + 1 = (s.nodes n).log.size ∧ entries = .null) ∨
        ∃ entry, (s.nodes n).log.entries[m + 1]? = some entry ∧ entryTerm = entry.term ∧ entries = entry.msg) := by
    intro packet hpacket
    obtain ⟨peer, rfl, known, hknown, hpeer, effect, hsome, hsent⟩ := heartbeat_packet hpacket
    obtain ⟨known', hknown', _, hhosts⟩ := getAllPeers_start (h.wired.plain n)
    obtain rfl := Except.ok.inj (hknown.symm.trans hknown')
    obtain ⟨listed, hlisted, hhost⟩ := hhosts peer hpeer
    have hreach : env.validAddress peer.host = true := by
      rw [hhost]
      exact hvalid listed hlisted
    obtain ⟨prev, entries, entryTerm, hprev, hfor, hentry⟩ := Node.appendEntriesFor_next hindex hsize hreach
    rw [hfor] at hsome
    obtain rfl := Option.some.inj hsome
    simp only [Effect.packet, Payload.ofWire, Option.map_some, Option.some.injEq, createAppendEntriesRequest,
      huuid] at hsent
    exact ⟨prev, entries, entryTerm, hsent.symm, hprev, hentry⟩
  cases hpackets : s.packetsTo env (.heartbeatTimeout n false) p with
  | cons packet rest =>
      obtain ⟨prev, entries, entryTerm, rfl, hprev, hentry⟩ := hall packet (by rw [hpackets]; exact List.mem_cons_self)
      exact ⟨prev, entries, entryTerm, rest, rfl, hprev, hentry⟩
  | nil =>
      exfalso
      obtain ⟨known, hknown, huuids, hhosts⟩ := getAllPeers_start (h.wired.plain n)
      obtain ⟨listed, hlisted, rfl⟩ := List.mem_map.mp hp
      obtain ⟨peer, hpeer, hsame⟩ := huuids listed hlisted
      obtain ⟨host, hhost, heq⟩ := hhosts peer hpeer
      have hreach : env.validAddress peer.host = true := by
        rw [heq]
        exact hvalid host hhost
      rw [← hsame] at hindex
      obtain ⟨prev, entries, entryTerm, hprev, hfor, hentry⟩ := Node.appendEntriesFor_next hindex hsize hreach
      let request := createAppendEntriesRequest (s.nodes n).uuid (s.nodes n).currentTerm (s.nodes n).commitIndex m
        prev.term entryTerm entries
      have hmem : (⟨n, peer.uuid, .raft request⟩ : Packet) ∈
          s.packetsTo env (.heartbeatTimeout n false) listed.uuid := by
        refine List.mem_filter.mpr ⟨List.mem_filterMap.mpr ⟨.send peer.uuid (.raft request), ?_, rfl⟩, ?_⟩
        · change _ ∈ ((s.nodes n).step env (.heartbeatTimeout false)).effects
          rw [heartbeat_effects]
          unfold Node.requestAppendEntries
          rw [hknown]
          refine List.mem_filterMap.mpr ⟨peer, List.mem_filter.mpr ⟨hpeer, ?_⟩, hfor⟩
          rw [hsame, huuid]
          exact decide_eq_true h.ne
        · exact decide_eq_true hsame
      rw [hpackets] at hmem
      cases hmem

theorem Facing.beat (h : Facing peers s n p) : Facing peers (s.act env (.heartbeatTimeout n false)) n p ∧
    ((s.act env (.heartbeatTimeout n false)).nodes n).log = (s.nodes n).log ∧
    ((s.act env (.heartbeatTimeout n false)).nodes n).currentTerm = (s.nodes n).currentTerm ∧
    ((s.act env (.heartbeatTimeout n false)).nodes n).commitIndex = (s.nodes n).commitIndex ∧
    ((s.act env (.heartbeatTimeout n false)).nodes n).matchIndexOf p = (s.nodes n).matchIndexOf p ∧
    (s.act env (.heartbeatTimeout n false)).nodes p = s.nodes p := by
  have hself : (s.act env (.heartbeatTimeout n false)).nodes n =
      ((s.nodes n).step env (.heartbeatTimeout false)).node := act_nodes_self
  have hother : (s.act env (.heartbeatTimeout n false)).nodes p = s.nodes p := act_nodes_other h.ne
  obtain ⟨tracked, hnode, hindex⟩ := heartbeat_node env (s.nodes n) p
  rw [← hself] at hnode hindex
  refine ⟨⟨h.wired.step rfl rfl trivial, ?_, ?_, ?_, ?_, ?_, ?_⟩, ?_, ?_, ?_, hindex, hother⟩
  · rw [hnode]
    exact h.leader
  · rw [hother]
    exact h.follower
  · rw [hother, hnode]
    exact h.term
  · rw [hindex, hnode]
    exact h.own
  · rw [hindex, hother]
    exact h.known
  · rw [hnode]
    exact h.filled
  all_goals rw [hnode]

-- The follower takes a request about the entries that it is known to have, and answers.
theorem Facing.receive (h : Facing peers s n p) (hn : n ∈ peers.map PeerAddress.uuid) {m prevTerm : Nat}
    {entries : JsonMessage} {entryTerm commitIndex : Nat} {msg : Message} {a : Action}
    (hmsg : msg = ⟨n, (s.nodes n).currentTerm, .appendEntries m prevTerm entries entryTerm commitIndex⟩)
    (ha : a = .deliver ⟨n, p, .raft msg⟩ stray 0) (henabled : s.Enabled a)
    (hindex : (s.nodes n).matchIndexOf p = m + 1) : ∃ log count,
    s.outcome env a = (s.nodes p).handleWsAppendEntries env msg m prevTerm entries entryTerm commitIndex stray ∧
    (s.nodes p).Appending msg m prevTerm entries entryTerm commitIndex (stray m) (s.outcome env a) log count ∧
    (∃ rest, s.packetsTo env a n = ⟨p, n, .raft ⟨p, (s.nodes n).currentTerm,
      .appendEntriesReply ((s.nodes p).log.entryAccepted m prevTerm (stray m)) (min log.size (m + 1 + 1))⟩⟩ :: rest) ∧
    Facing peers (s.act env a) n p ∧ (s.act env a).nodes n = s.nodes n ∧
    (s.act env a).nodes p = (s.outcome env a).node := by
  have hin : m < (s.nodes p).log.size := by
    have hknown := h.known
    omega
  have huuid : a.uuid = p := by rw [ha]; rfl
  have houtcome : s.outcome env a =
      (s.nodes p).handleWsAppendEntries env msg m prevTerm entries entryTerm commitIndex stray := by
    rw [ha, hmsg]
    change (s.nodes p).handleRaftMessage env _ stray = _
    unfold Node.handleRaftMessage
    rw [inQuorum_start (h.wired.plain p) hn]
    simp [h.term, Node.handleCurrentTerm]
  obtain ⟨log, count, happending⟩ := Node.handleWsAppendEntries_inside env msg prevTerm entries entryTerm commitIndex
    stray h.follower hin
  rw [← houtcome] at happending
  obtain ⟨swarm, tracked, hnode⟩ := happending.node_eq
  have hself : (s.act env a).nodes p = (s.outcome env a).node := by
    rw [← huuid]
    exact act_nodes_self
  have hother : (s.act env a).nodes n = s.nodes n := by
    apply act_nodes_other
    rw [huuid]
    exact h.ne.symm
  have hgrown : (s.nodes p).log.size ≤ log.size := by
    rcases happending.log_eq with ⟨rfl, _⟩ | ⟨_, _, _, hlog⟩
    · exact le_refl _
    · simp only [RaftLog.size, hlog, List.length_append]
      omega
  refine ⟨log, count, houtcome, happending, ?_, ⟨h.wired.step rfl ?_ henabled, ?_, ?_, ?_, ?_, ?_, ?_⟩, hother, hself⟩
  · have hsession : a.session = some n := by rw [ha]; rfl
    unfold packetsTo
    rw [happending.effects_eq, h.wired.uuid p, h.term, huuid, hsession]
    simp [Effect.packet, Payload.ofWire, createAppendEntriesResponse]
  · rw [ha]
    rfl
  · rw [hother]
    exact h.leader
  · rw [hself, hnode]
    exact h.follower
  · rw [hself, hother, hnode]
    exact h.term
  · rw [hother]
    exact h.own
  · rw [hself, hother, hnode]
    exact h.known.trans hgrown
  · rw [hother]
    exact h.filled

-- The leader takes over the index of the answer, unless that lies beyond its own log.
theorem Facing.answer (h : Facing peers s n p) (hp : p ∈ peers.map PeerAddress.uuid) {success : Bool}
    {matchIndex : Nat} {msg : Message} {a : Action}
    (hmsg : msg = ⟨p, (s.nodes n).currentTerm, .appendEntriesReply success matchIndex⟩)
    (ha : a = .deliver ⟨p, n, .raft msg⟩ stray 0) (henabled : s.Enabled a)
    (hknown : matchIndex ≤ (s.nodes p).log.size) :
    Facing peers (s.act env a) n p ∧ ((s.act env a).nodes n).log = (s.nodes n).log ∧
    (s.nodes n).commitIndex ≤ ((s.act env a).nodes n).commitIndex ∧
    ((s.act env a).nodes n).currentTerm = (s.nodes n).currentTerm ∧ (s.act env a).nodes p = s.nodes p ∧
    ((s.act env a).nodes n).matchIndexOf p =
      if matchIndex ≤ (s.nodes n).log.size then matchIndex else (s.nodes n).matchIndexOf p := by
  have huuid : a.uuid = n := by rw [ha]; rfl
  have hsender : msg.sender = p := by rw [hmsg]
  have hself : (s.act env a).nodes n =
      ((s.nodes n).handleRequestAppendEntriesResponse env msg success matchIndex stray).node := by
    have hact : (s.act env a).nodes n = (s.outcome env a).node := by
      rw [← huuid]
      exact act_nodes_self
    rw [hact, ha, hmsg]
    change ((s.nodes n).handleRaftMessage env _ stray).node = _
    unfold Node.handleRaftMessage
    rw [inQuorum_start (h.wired.plain n) hp]
    simp [Node.handleCurrentTerm]
  have hother : (s.act env a).nodes p = s.nodes p := by
    apply act_nodes_other
    rw [huuid]
    exact h.ne
  have hindex : ((s.act env a).nodes n).matchIndexOf p =
      if matchIndex ≤ (s.nodes n).log.size then matchIndex else (s.nodes n).matchIndexOf p := by
    rw [hself, ← hsender]
    split
    · rename_i hsize
      exact Node.handleRequestAppendEntriesResponse_tracks success stray h.leader (by rw [hmsg]) hsize
    · rename_i hsize
      unfold Node.handleRequestAppendEntriesResponse
      rw [if_neg (by simp [h.leader]), if_pos (Or.inl (by omega))]
      rfl
  obtain ⟨tracked, count, hnode⟩ := @Node.handleRequestAppendEntriesResponse_keeps env _ _ (h.wired.plain n) rfl msg
    success matchIndex stray
  rw [← hself] at hnode
  refine ⟨⟨h.wired.step rfl ?_ henabled, ?_, ?_, ?_, ?_, ?_, ?_⟩, ?_, ?_, ?_, hother, hindex⟩
  · rw [ha]
    rfl
  · rw [hnode]
    exact h.leader
  · rw [hother]
    exact h.follower
  · rw [hother, hnode]
    exact h.term
  · have hlog : ((s.act env a).nodes n).log = (s.nodes n).log := by rw [hnode]
    rw [hindex, hlog]
    split
    · rename_i hsize
      exact hsize
    · exact h.own
  · rw [hindex, hother]
    split
    · exact hknown
    · exact h.known
  · rw [hnode]
    exact h.filled
  · rw [hnode]
  · rw [hnode]
    exact Nat.le_add_right _ _
  · rw [hnode]

-- The leader's request would be about the end of the follower's log, and the two agree on the term there.
def Meets (s : Swarm) (n p : Uuid) (m : Nat) : Prop :=
  m + 1 = (s.nodes p).log.size ∧ ∃ prev last, (s.nodes n).log.entries[m]? = some prev ∧
    (s.nodes p).log.entries[m]? = some last ∧ last.term = prev.term

-- What comes of an exchange: the leader has no index to go by, the follower refuses, or it takes what
-- is next in the leader's log and commits as far as the leader has.
inductive Told (s t : Swarm) (n p : Uuid) : Prop
  | nothing (hindex : (s.nodes n).matchIndexOf p = 0) (hlog : (t.nodes p).log = (s.nodes p).log)
      (hnext : (t.nodes n).matchIndexOf p = 0)
  | refused (m : Nat) (hindex : (s.nodes n).matchIndexOf p = m + 1) (hmeets : ¬s.Meets n p m)
      (hlog : (t.nodes p).log = (s.nodes p).log)
      (hnext : (t.nodes n).matchIndexOf p =
        if min (s.nodes p).log.size (m + 2) ≤ (s.nodes n).log.size then min (s.nodes p).log.size (m + 2) else m + 1)
  | accepted (m : Nat) (hindex : (s.nodes n).matchIndexOf p = m + 1) (hmeets : s.Meets n p m)
      (hcores : t.cores p = s.cores p ++ ((s.cores n).drop (m + 1)).take 1)
      (hcommit : min (t.nodes p).log.size (s.nodes n).commitIndex ≤ (t.nodes p).commitIndex)
      (hnext : (t.nodes n).matchIndexOf p = min (s.nodes n).log.size (m + 2))

theorem Facing.exchange (h : Facing peers s n p) (hn : n ∈ peers.map PeerAddress.uuid)
    (hp : p ∈ peers.map PeerAddress.uuid) (hvalid : ∀ peer ∈ peers, env.validAddress peer.host = true)
    (stray : Nat → Nat) : Facing peers (s.exchange env stray n p) n p ∧
      ((s.exchange env stray n p).nodes n).log = (s.nodes n).log ∧
      (s.nodes n).commitIndex ≤ ((s.exchange env stray n p).nodes n).commitIndex ∧
      ((s.exchange env stray n p).nodes n).currentTerm = (s.nodes n).currentTerm ∧
      Told s (s.exchange env stray n p) n p := by
  obtain ⟨hfacing, hlog, hterm, hcommit, hkept, hother⟩ := @Facing.beat env _ _ _ _ h
  cases hindex : (s.nodes n).matchIndexOf p with
  | zero =>
      have hexchange : s.exchange env stray n p = s.act env (.heartbeatTimeout n false) := by
        unfold Swarm.exchange
        dsimp only
        rw [Facing.silent hindex]
      rw [hexchange]
      exact ⟨hfacing, hlog, hcommit.ge, hterm, .nothing hindex (by rw [hother]) (hkept.trans hindex)⟩
  | succ m =>
      obtain ⟨prev, entries, entryTerm, rest, hpackets, hprev, hentry⟩ := h.request hp hvalid hindex
      obtain ⟨beaten, hbeaten⟩ : ∃ beaten, beaten = s.act env (.heartbeatTimeout n false) := ⟨_, rfl⟩
      rw [← hbeaten] at hfacing hlog hterm hcommit hkept hother
      obtain ⟨msg, hmsg⟩ : ∃ msg : Message, msg = ⟨n, (s.nodes n).currentTerm,
        .appendEntries m prev.term entries entryTerm (s.nodes n).commitIndex⟩ := ⟨_, rfl⟩
      rw [← hmsg] at hpackets
      obtain ⟨ask, hask⟩ : ∃ ask, ask = Action.deliver ⟨n, p, .raft msg⟩ stray 0 := ⟨_, rfl⟩
      have hasked : beaten.Enabled ask := by
        rw [hask, hbeaten]
        exact (mem_packetsTo (hpackets ▸ List.mem_cons_self)).1
      obtain ⟨log, count, houtcome, happending, ⟨rest', hanswer⟩, hfacing', hsame, hself⟩ :=
        @Facing.receive env peers beaten n p stray hfacing hn m prev.term entries entryTerm (s.nodes n).commitIndex msg
          ask (by rw [hmsg, hterm]) hask hasked (hkept.trans hindex)
      obtain ⟨told, htold⟩ : ∃ told, told = beaten.act env ask := ⟨_, rfl⟩
      rw [← htold] at hfacing' hsame hself
      obtain ⟨reply, hreply⟩ : ∃ reply : Message, reply = ⟨p, (beaten.nodes n).currentTerm,
        .appendEntriesReply ((beaten.nodes p).log.entryAccepted m prev.term (stray m)) (min log.size (m + 1 + 1))⟩ :=
        ⟨_, rfl⟩
      rw [← hreply] at hanswer
      obtain ⟨hear, hhear⟩ : ∃ hear, hear = Action.deliver ⟨p, n, .raft reply⟩ stray 0 := ⟨_, rfl⟩
      have hheard : told.Enabled hear := by
        rw [hhear, htold]
        exact (mem_packetsTo (hanswer ▸ List.mem_cons_self)).1
      obtain ⟨swarm, tracked, hnode⟩ := happending.node_eq
      have hnewlog : (told.nodes p).log = log := by rw [hself, hnode]
      obtain ⟨hdone, hown, hmore, hlast, hquiet, hnext⟩ := @Facing.answer env peers told n p stray hfacing' hp _ _ reply
        hear (by rw [hreply, hsame]) hhear hheard (by rw [hnewlog]; exact Nat.min_le_left _ _)
      have hexchange : s.exchange env stray n p = told.act env hear := by
        unfold Swarm.exchange
        dsimp only
        rw [hpackets]
        dsimp only
        rw [← hbeaten, ← hask, hanswer]
        dsimp only
        rw [← htold, ← hhear]
      rw [hexchange]
      rw [hsame] at hown hmore hlast hnext
      refine ⟨hdone, hown.trans hlog, hcommit.ge.trans hmore, hlast.trans hterm, ?_⟩
      rw [hkept.trans hindex, hlog] at hnext
      rw [hother] at happending houtcome
      have hin : m < (s.nodes p).log.size := by
        have hknown := h.known
        omega
      have hfinal : ((told.act env hear).nodes p).log = log := by rw [hquiet, hnewlog]
      by_cases hmeets : s.Meets n p m
      · obtain ⟨hend, prev', last, hprev', hlast', hterms⟩ := hmeets
        obtain rfl := Option.some.inj (hprev.symm.trans hprev')
        have haccepted := (Node.accepted_end_iff (s.nodes p).log prev.term (stray m) hend).mpr ⟨last, hlast', hterms⟩
        have hnew : log.entries.map LogEntry.core = s.cores p ++ ((s.cores n).drop (m + 1)).take 1 := by
          rcases hentry with ⟨hsize, rfl⟩ | ⟨entry, hin', rfl, rfl⟩
          · have hnone : (s.cores n).drop (m + 1) = [] := by
              apply List.drop_eq_nil_of_le
              rw [cores_length, hsize]
            rcases happending.log_eq with ⟨rfl, _⟩ | ⟨_, hfull, _⟩
            · rw [hnone, List.take_nil, List.append_nil]
              rfl
            · cases hfull
          · have hfull := h.filled entry (List.mem_of_getElem? hin')
            have hcore := cores_getElem? hin'
            obtain ⟨hlt, hget⟩ := List.getElem?_eq_some_iff.mp hcore
            rcases happending.log_eq with ⟨_, hnothing⟩ | ⟨_, _, _, hinserted⟩
            · exact absurd ⟨haccepted, hfull⟩ hnothing
            · rw [hinserted, List.map_append, List.drop_eq_getElem_cons hlt, hget]
              rfl
        refine .accepted m hindex ⟨hend, prev, last, hprev, hlast', hterms⟩ ?_ ?_ ?_
        · rw [cores, hfinal, hnew]
        · have hcommits := Node.handleWsAppendEntries_commits houtcome h.follower hin haccepted ?_
          · rw [hquiet, hself]
            exact hcommits
          · intro next hnext'
            refine Node.notify_start ?_ hvalid
            rw [hnext', ← hself]
            exact hfacing'.wired.plain p
        · have hsize : log.size = (s.nodes p).log.size + (((s.cores n).drop (m + 1)).take 1).length := by
            have hlength := congrArg List.length hnew
            simpa [cores_length, RaftLog.size] using hlength
          have htake : (((s.cores n).drop (m + 1)).take 1).length = min 1 ((s.nodes n).log.size - (m + 1)) := by
            rw [List.length_take, List.length_drop, cores_length]
          have hbound := h.own
          rw [hnext]
          split <;> omega
      · have hrejected : (s.nodes p).log.entryAccepted m prev.term (stray m) = false := by
          by_contra haccepted
          rw [Bool.not_eq_false] at haccepted
          rcases Nat.lt_or_eq_of_le hin with hbehind | hend
          · rw [Node.not_accepted_behind (s.nodes p).log prev.term (stray m) hbehind] at haccepted
            cases haccepted
          · obtain ⟨last, hlast', hterms⟩ :=
              (Node.accepted_end_iff (s.nodes p).log prev.term (stray m) hend).mp haccepted
            exact hmeets ⟨hend, prev, last, hprev, hlast', hterms⟩
        have hkeeps : log = (s.nodes p).log := by
          rcases happending.log_eq with ⟨hsame', _⟩ | ⟨haccepted, _⟩
          · exact hsame'
          · rw [hrejected] at haccepted
            cases haccepted
        rw [hkeeps] at hfinal hnext
        exact .refused m hindex hmeets hfinal hnext

-- Requests go to the end of the leader's log, with its term.
theorem Facing.submitted (h : Facing peers s n p) (requests : List String) {t : Swarm}
    (ht : t = requests.foldl (fun s msg => s.act env (.appendLog n msg)) s) :
    Facing peers t n p ∧ (∃ added, t.cores n = s.cores n ++ added ∧ ∀ core ∈ added, core.1 = (s.nodes n).currentTerm) ∧
      (t.nodes n).currentTerm = (s.nodes n).currentTerm ∧ (t.nodes n).commitIndex = (s.nodes n).commitIndex ∧
      (t.nodes n).matchIndexOf p = (s.nodes n).matchIndexOf p ∧ t.nodes p = s.nodes p := by
  induction requests generalizing s with
  | nil =>
      rw [ht]
      exact ⟨h, ⟨[], (List.append_nil _).symm, by simp⟩, rfl, rfl, rfl, rfl⟩
  | cons msg rest ih =>
      obtain ⟨first, hfirst⟩ : ∃ first, first = s.act env (.appendLog n msg) := ⟨_, rfl⟩
      obtain ⟨entry, hentry⟩ : ∃ entry : LogEntry,
        entry = ⟨.database, (s.nodes n).log.size, (s.nodes n).currentTerm, .database msg⟩ := ⟨_, rfl⟩
      have hself : first.nodes n = { s.nodes n with log := (s.nodes n).log.leaderAppendEntry entry } := by
        rw [hfirst, hentry]
        refine act_nodes_self.trans ?_
        change (s.nodes n).appendLogUnsafe (.database msg) .database = _
        unfold Node.appendLogUnsafe
        rw [if_neg (by simp [h.leader])]
      have hother : first.nodes p = s.nodes p := by
        rw [hfirst]
        exact act_nodes_other h.ne
      have hindex : (first.nodes n).matchIndexOf p = (s.nodes n).matchIndexOf p := by
        rw [hself]
        rfl
      have hfacing : Facing peers first n p := by
        refine ⟨?_, ?_, ?_, ?_, ?_, ?_, ?_⟩
        · rw [hfirst]
          exact h.wired.step rfl rfl trivial
        · rw [hself]
          exact h.leader
        · rw [hother]
          exact h.follower
        · rw [hother, hself]
          exact h.term
        · have hown := h.own
          rw [hindex, hself]
          simp only [RaftLog.size, RaftLog.leaderAppendEntry, List.length_append] at hown ⊢
          omega
        · rw [hindex, hother]
          exact h.known
        · rw [hself]
          intro other hmem
          rcases List.mem_append.mp hmem with hold | hnew
          · exact h.filled other hold
          · rw [List.mem_singleton.mp hnew, hentry]
            rfl
      obtain ⟨hall, ⟨added, hcores, hterms⟩, hterm, hcommit, hkept, hsame⟩ := ih hfacing (by rw [ht, hfirst]; rfl)
      refine ⟨hall, ⟨((s.nodes n).currentTerm, .database msg) :: added, ?_, ?_⟩, ?_, ?_, hkept.trans hindex,
        hsame.trans hother⟩
      · rw [hcores, cores, hself, hentry]
        simp [cores, RaftLog.leaderAppendEntry, LogEntry.core]
      · intro core hcore
        rcases List.mem_cons.mp hcore with rfl | hcore
        · rfl
        · rw [hterms core hcore, hself]
      · rw [hterm, hself]
      · rw [hcommit, hself]

theorem Facing.round (h : Facing peers s n p) (hn : n ∈ peers.map PeerAddress.uuid)
    (hp : p ∈ peers.map PeerAddress.uuid) (hvalid : ∀ peer ∈ peers, env.validAddress peer.host = true)
    (stray : Nat → Nat) (requests : List String) {t : Swarm} (ht : t = s.round env stray n p requests) :
    Facing peers t n p ∧ ∃ asked, Facing peers asked n p ∧ Told asked t n p ∧
      (∃ added, t.cores n = s.cores n ++ added ∧ ∀ core ∈ added, core.1 = (s.nodes n).currentTerm) ∧
      t.cores n = asked.cores n ∧ (t.nodes n).currentTerm = (s.nodes n).currentTerm ∧
      (s.nodes n).commitIndex ≤ (asked.nodes n).commitIndex ∧
      (asked.nodes n).commitIndex ≤ (t.nodes n).commitIndex ∧
      (asked.nodes n).matchIndexOf p = (s.nodes n).matchIndexOf p ∧ asked.nodes p = s.nodes p := by
  obtain ⟨asked, hasked⟩ : ∃ asked, asked = requests.foldl (fun s msg => s.act env (.appendLog n msg)) s := ⟨_, rfl⟩
  obtain ⟨hfacing, ⟨added, hcores, hterms⟩, hterm, hcommit, hindex, hother⟩ := h.submitted requests hasked
  obtain ⟨hafter, hlog, hmore, hlast, htold⟩ := hfacing.exchange hn hp hvalid stray
  have hround : t = asked.exchange env stray n p := by
    rw [ht, hasked]
    rfl
  rw [← hround] at hafter hlog hmore hlast htold
  have hsame : t.cores n = asked.cores n := by rw [cores, hlog, cores]
  exact ⟨hafter, asked, hfacing, htold, ⟨added, hsame.trans hcores, hterms⟩, hsame, hlast.trans hterm, hcommit.ge,
    hmore, hindex, hother⟩

-- After so many rounds the follower has so many entries of the leader more than the leader knew of.
structure Following (base : Swarm) (count : Nat) (s : Swarm) (n p : Uuid) : Prop where
  room : (base.nodes p).log.size ≤ (base.nodes n).log.size
  behind : s.cores p <+: s.cores n
  grown : base.cores n <+: s.cores n
  commit : (base.nodes n).commitIndex ≤ (s.nodes n).commitIndex
  pos : 1 ≤ (s.nodes n).matchIndexOf p
  reached : min (base.nodes n).log.size ((base.nodes n).matchIndexOf p + count) ≤ (s.nodes n).matchIndexOf p
  lag : (s.nodes n).matchIndexOf p = (s.nodes p).log.size ∨
    ((s.nodes p).log.size = (base.nodes p).log.size ∧ (s.nodes n).matchIndexOf p < (s.nodes p).log.size)

theorem Following.start (h : Facing peers s n p) (hpos : 1 ≤ (s.nodes n).matchIndexOf p)
    (hbehind : s.cores p <+: s.cores n) : Following s 0 s n p := by
  have hroom := hbehind.length_le
  rw [cores_length, cores_length] at hroom
  refine ⟨hroom, hbehind, List.prefix_refl _, le_refl _, hpos, Nat.min_le_right _ _, ?_⟩
  rcases Nat.lt_or_eq_of_le h.known with hlt | heq
  · exact Or.inr ⟨rfl, hlt⟩
  · exact Or.inl heq

-- Where one log begins the other they meet at its end.
theorem meets_of_behind {m : Nat} (hbehind : s.cores p <+: s.cores n) (hend : m + 1 = (s.nodes p).log.size) :
    s.Meets n p m := by
  have hlt : m < (s.nodes p).log.entries.length := by
    unfold RaftLog.size at hend
    omega
  have hlonger : m < (s.nodes n).log.entries.length := by
    have hle := hbehind.length_le
    rw [cores_length, cores_length] at hle
    unfold RaftLog.size at hend hle
    omega
  have hlast := cores_getElem? (List.getElem?_eq_getElem hlt)
  have hprev := cores_getElem? (List.getElem?_eq_getElem hlonger)
  rw [getElem?_of_grown hbehind hlast] at hprev
  exact ⟨hend, _, _, List.getElem?_eq_getElem hlonger, List.getElem?_eq_getElem hlt,
    congrArg Prod.fst (Option.some.inj hprev)⟩

theorem cores_size {t : Swarm} (h : t.cores n = s.cores n) : (t.nodes n).log.size = (s.nodes n).log.size := by
  rw [← cores_length, h, cores_length]

theorem Following.round {base t : Swarm} {count : Nat} (h : Facing peers s n p)
    (hfollowing : Following base count s n p) (hn : n ∈ peers.map PeerAddress.uuid)
    (hp : p ∈ peers.map PeerAddress.uuid) (hvalid : ∀ peer ∈ peers, env.validAddress peer.host = true)
    (stray : Nat → Nat) (requests : List String) (ht : t = s.round env stray n p requests) :
    Following base (count + 1) t n p ∧
      ((base.nodes p).log.size ≤ (base.nodes n).matchIndexOf p + count →
        min (t.nodes p).log.size (base.nodes n).commitIndex ≤ (t.nodes p).commitIndex) := by
  obtain ⟨_, asked, hasked, htold, ⟨added, hgrown, _⟩, hcores, _, hbefore, hafter, hindex, hsame⟩ :=
    h.round hn hp hvalid stray requests ht
  have hlonger : s.cores n <+: t.cores n := hgrown ▸ List.prefix_append _ _
  have hpcores : asked.cores p = s.cores p := by rw [cores, hsame, cores]
  have hbehind : asked.cores p <+: asked.cores n := by
    rw [hpcores, ← hcores]
    exact hfollowing.behind.trans hlonger
  have hsize : (t.nodes n).log.size = (asked.nodes n).log.size := cores_size hcores
  have hpsize : (asked.nodes p).log.size = (s.nodes p).log.size := cores_size hpcores
  have hroom : (s.nodes p).log.size ≤ (asked.nodes n).log.size := by
    have hle := hbehind.length_le
    rwa [cores_length, cores_length, hpsize] at hle
  have hbase : (base.nodes n).log.size ≤ (asked.nodes n).log.size := by
    have hle := (hfollowing.grown.trans hlonger).length_le
    rwa [hcores, cores_length, cores_length] at hle
  have hcommit := (hfollowing.commit.trans hbefore).trans hafter
  have hreached := hfollowing.reached
  have hlag := hfollowing.lag
  have hpos := hfollowing.pos
  have hbaseroom := hfollowing.room
  cases htold with
  | nothing hzero _ _ =>
      rw [hindex] at hzero
      omega
  | refused m hknown hmeets hlog hnext =>
      rw [hindex] at hknown
      rw [hpsize] at hnext
      have hpnext : t.cores p = s.cores p := by rw [cores, hlog, ← hpcores, cores]
      have hpnextsize : (t.nodes p).log.size = (s.nodes p).log.size := cores_size hpnext
      have hnot : m + 1 ≠ (s.nodes p).log.size := by
        intro hend
        exact hmeets (meets_of_behind hbehind (hend.trans hpsize.symm))
      have hlow : (s.nodes n).matchIndexOf p < (s.nodes p).log.size := by omega
      rw [if_pos (by omega)] at hnext
      refine ⟨⟨hbaseroom, ?_, hfollowing.grown.trans hlonger, hcommit, ?_, ?_, ?_⟩, ?_⟩
      · rw [hpnext]
        exact hfollowing.behind.trans hlonger
      · omega
      · omega
      · rw [hpnextsize]
        omega
      · intro hfar
        omega
  | accepted m hknown hmeets hpnext hcommits hnext =>
      rw [hindex] at hknown
      obtain ⟨hend, _⟩ := hmeets
      rw [hpsize] at hend
      have htake : t.cores p = (asked.cores n).take (m + 2) := by
        have hheld : (asked.cores n).take (m + 1) = asked.cores p := by
          have htaken := take_of_grown hbehind (le_refl _)
          rwa [List.take_length, cores_length, hpsize, ← hend] at htaken
        rw [hpnext, ← hheld]
        exact (List.take_add (i := m + 1) (j := 1)).symm
      have hpnextsize : (t.nodes p).log.size = min (asked.nodes n).log.size (m + 2) := by
        rw [← cores_length, htake, List.length_take, cores_length]
        omega
      refine ⟨⟨hbaseroom, ?_, hfollowing.grown.trans hlonger, hcommit, ?_, ?_, ?_⟩, ?_⟩
      · rw [htake, hcores]
        exact List.take_prefix _ _
      · omega
      · omega
      · left
        omega
      · intro _
        have hless := hfollowing.commit.trans hbefore
        omega

-- The follower's last entry is of an earlier leader and not in this one's log, or the leader has no index
-- to go by.
def Stuck (s : Swarm) (n p : Uuid) : Prop :=
  (s.nodes n).matchIndexOf p = 0 ∨ ∃ last, (s.cores p)[(s.nodes p).log.size - 1]? = some last ∧
    last.1 ≠ (s.nodes n).currentTerm ∧
    ∀ prev, (s.cores n)[(s.nodes p).log.size - 1]? = some prev → last.1 ≠ prev.1

theorem Stuck.round {t : Swarm} (h : Facing peers s n p) (hstuck : Stuck s n p)
    (hn : n ∈ peers.map PeerAddress.uuid) (hp : p ∈ peers.map PeerAddress.uuid)
    (hvalid : ∀ peer ∈ peers, env.validAddress peer.host = true) (stray : Nat → Nat) (requests : List String)
    (ht : t = s.round env stray n p requests) : Stuck t n p ∧ t.cores p = s.cores p := by
  obtain ⟨_, asked, hasked, htold, ⟨added, hgrown, hterms⟩, hcores, hterm, _, _, hindex, hsame⟩ :=
    h.round hn hp hvalid stray requests ht
  have hpcores : asked.cores p = s.cores p := by rw [cores, hsame, cores]
  have hpsize : (asked.nodes p).log.size = (s.nodes p).log.size := cores_size hpcores
  -- new entries of the leader carry its term
  have hfar : ∀ last : Nat × JsonMessage, last.1 ≠ (s.nodes n).currentTerm →
      (∀ prev, (s.cores n)[(s.nodes p).log.size - 1]? = some prev → last.1 ≠ prev.1) →
      ∀ prev, (t.cores n)[(s.nodes p).log.size - 1]? = some prev → last.1 ≠ prev.1 := by
    intro last hother hold prev hprev
    rw [hgrown] at hprev
    rcases Nat.lt_or_ge ((s.nodes p).log.size - 1) (s.cores n).length with hin | hout
    · rw [List.getElem?_append_left hin] at hprev
      exact hold prev hprev
    · rw [List.getElem?_append_right hout] at hprev
      rw [hterms prev (List.mem_of_getElem? hprev)]
      exact hother
  cases htold with
  | nothing _ hlog hnext =>
      have hpnext : t.cores p = s.cores p := by rw [cores, hlog, ← hpcores, cores]
      exact ⟨Or.inl hnext, hpnext⟩
  | refused m hknown hmeets hlog _ =>
      have hpnext : t.cores p = s.cores p := by rw [cores, hlog, ← hpcores, cores]
      refine ⟨?_, hpnext⟩
      rcases hstuck with hzero | ⟨last, hlast, hother, hold⟩
      · rw [hindex] at hknown
        omega
      · right
        rw [hpnext, cores_size hpnext, hterm]
        exact ⟨last, hlast, hother, hfar last hother hold⟩
  | accepted m hknown hmeets _ _ _ =>
      exfalso
      obtain ⟨hend, prev, final, hprev, hfinal, hterms'⟩ := hmeets
      rcases hstuck with hzero | ⟨last, hlast, hother, hold⟩
      · rw [hindex] at hknown
        omega
      · have hplace : (s.nodes p).log.size - 1 = m := by omega
        have hmine := cores_getElem? hfinal
        have htheirs := cores_getElem? hprev
        rw [hpcores, ← hplace, hlast] at hmine
        obtain rfl := Option.some.inj hmine
        rw [← hcores, ← hplace] at htheirs
        exact hfar final.core hother hold _ htheirs hterms'

end Swarm

section Runs

variable {env : Env} {first : LogEntry} {past : List (Swarm × Action)} {s : Swarm} {a : Action}

theorem size_grows (env : Env) (s : Swarm) (a : Action) (n : Uuid) :
    (s.nodes n).log.size ≤ ((s.act env a).nodes n).log.size := by
  rw [← cores_length, ← cores_length]
  exact (cores_grow env s a n).length_le

-- Nobody answers with more than it has.
theorem reply_measured {effect : Effect} {packet : Packet} {msg : Message}
    (hmem : effect ∈ (s.outcome env a).effects) (hnew : effect.packet a.uuid a.session = some packet)
    (hraft : packet.payload = .raft msg) {success : Bool} {m : Nat}
    (hcmd : msg.cmd = .appendEntriesReply success m) : m ≤ ((s.act env a).nodes packet.src).log.size := by
  obtain ⟨hmsg, hsrc, _⟩ := packet_raft hnew hraft
  rw [hsrc]
  cases (Node.step_move env (s.nodes a.uuid) a.input).sends hmem hmsg with
  | requestVote _ _ _ _ hsent | responseVote _ _ _ _ _ _ _ _ _ hsent =>
      rw [hsent] at hcmd
      cases hcmd
  | appendEntries _ _ _ hdescribes =>
      obtain ⟨_, _, _, _, hcontent, _⟩ := hdescribes.content
      rw [hcmd] at hcontent
      cases hcontent
  | appendEntriesReply _ _ _ _ _ _ _ log _ _ _ _ happending _ hsent =>
      rw [hsent] at hcmd
      obtain ⟨_, rfl⟩ := Command.appendEntriesReply.inj hcmd
      obtain ⟨_, _, hnode⟩ := happending.node_eq
      have hlog : ((s.act env a).nodes a.uuid).log = log := by
        rw [act_nodes_self]
        exact congrArg Node.log hnode
      rw [hlog]
      exact Nat.min_le_left _ _
  | outOfSync _ _ _ _ _ hsent =>
      rw [hsent] at hcmd
      obtain ⟨_, rfl⟩ := Command.appendEntriesReply.inj hcmd
      exact size_grows env s a a.uuid

-- An answer counts no more entries than its sender has, and a match index no more than either log.
structure Measured (s : Swarm) : Prop where
  replies : ∀ packet ∈ s.network, ∀ msg, packet.payload = .raft msg →
    ∀ success m, msg.cmd = .appendEntriesReply success m → m ≤ (s.nodes packet.src).log.size
  indexes : ∀ n, (s.nodes n).currentState = .leader → ∀ peer m,
    (s.nodes n).peerMatchIndex peer = some m → m ≤ (s.nodes n).log.size ∧ m ≤ (s.nodes peer).log.size

theorem measured_of_run (hfirst : first.entryType = .singleQuorum)
    (run : ((swarm env first).guard (Orderly env)).Run past s) : Measured s := by
  induction run with
  | start hinit =>
      refine ⟨by simp [hinit.1], ?_⟩
      intro n hleader
      rw [start_follower (hinit.2 n)] at hleader
      cases hleader
  | @step past s a run hguard ih =>
      obtain ⟨henabled, horderly⟩ := hguard
      have hw : s.Wired first := wired_of_run hfirst run.of_guard
        fun step hs => (run.guarded step hs).administers
      change Measured (s.act env a)
      constructor
      case replies =>
        intro packet hpacket msg hraft success m hcmd
        rcases mem_act_network hpacket with hold | ⟨effect, hmem, hnew⟩
        · exact (ih.replies packet hold msg hraft success m hcmd).trans (size_grows env s a packet.src)
        · exact reply_measured hmem hnew hraft hcmd
      case indexes =>
        intro n hleader peer m hm
        have hown := size_grows env s a n
        have hpeer := size_grows env s a peer
        by_cases hn : n = a.uuid
        · subst hn
          rw [act_nodes_self] at hleader hm
          rcases Node.step_matchIndex env (s.nodes a.uuid) a.input horderly.stepsDown
            (hw.input horderly.administers henabled) hleader hm with
            hone | ⟨hled, hold⟩ | ⟨msg, stray, success, hears, hcmd, _, rfl, _, hbound⟩
          · have hpos := ((s.act env a).nodes a.uuid).log.size_pos
            have hpos' := ((s.act env a).nodes peer).log.size_pos
            omega
          · obtain ⟨hmine, htheirs⟩ := ih.indexes a.uuid hled peer m hold
            omega
          · obtain ⟨packet, hpacket, hpayload, _, _⟩ := deliver_of_hears henabled hears
            have hsent := ih.replies packet hpacket msg hpayload success m hcmd
            rw [← (hw.sender packet hpacket msg hpayload).1] at hsent
            omega
        · rw [act_nodes_other hn] at hleader hm
          obtain ⟨hmine, htheirs⟩ := ih.indexes n hleader peer m hm
          omega

-- No entry is empty.
theorem filled_of_run (hmsg : first.msg.isEmpty = false)
    (run : ((swarm env first).guard (Orderly env)).Run past s) (n : Uuid) :
    ∀ entry ∈ (s.nodes n).log.entries, entry.msg.isEmpty = false := by
  induction run with
  | start hinit =>
      rw [start_entries (hinit.2 n)]
      intro entry hentry
      rw [List.mem_singleton.mp hentry]
      exact hmsg
  | @step past s a run hguard ih =>
      change ∀ entry ∈ ((s.act env a).nodes n).log.entries, entry.msg.isEmpty = false
      rcases act_nodes_cases env s a n with ⟨rfl, hself⟩ | hother
      · rw [hself]
        refine @Node.step_entries _ _ (fun entry => entry.msg.isEmpty = false) _ ?_ ?_ ?_ ?_ ih
        · intro msg entryType index term hinput
          cases a with
          | appendLog uuid text =>
              cases hinput
              rfl
          | deliver packet stray pick =>
              obtain ⟨src, dst, payload⟩ := packet
              cases payload <;> cases hinput
          | electionTimeout _ _ _ | heartbeatTimeout _ _ | command _ _ _ => cases hinput
        · intro last old new index term _ _ _ _
          rfl
        · intro entry msg index term _ _ hsingle
          unfold createSingleQuorumFromJointQuorum at hsingle
          cases hlists : entry.msg.oldAndNew with
          | error e => simp [hlists, Except.map] at hsingle
          | ok lists =>
              obtain rfl : JsonMessage.singleQuorum lists.2 = msg := by simpa [hlists, Except.map] using hsingle
              rfl
        · intro msg index term hfull
          exact hfull
      · rw [hother]
        exact ih

theorem exchange_run {n p : Uuid} (stray : Nat → Nat) (run : (swarm env first).Run past s) :
    ∃ past', (swarm env first).Run past' (s.exchange env stray n p) := by
  have hbeat : (swarm env first).Run _ (s.act env (.heartbeatTimeout n false)) := .step run trivial
  unfold Swarm.exchange
  dsimp only
  split
  · exact ⟨_, hbeat⟩
  · rename_i request rest hpackets
    have hsent : request ∈ (s.act env (.heartbeatTimeout n false)).network :=
      (mem_packetsTo (hpackets ▸ List.mem_cons_self)).1
    have hreceive : (swarm env first).Run _
        ((s.act env (.heartbeatTimeout n false)).act env (.deliver request stray 0)) := .step hbeat hsent
    split
    · exact ⟨_, hreceive⟩
    · rename_i answer rest' hanswers
      exact ⟨_, .step hreceive (mem_packetsTo (hanswers ▸ List.mem_cons_self)).1⟩

-- Rounds are a piece of a run.
theorem rounds_run {n p : Uuid} (stray : Nat → Nat) (batches : List (List String))
    (run : (swarm env first).Run past s) : ∃ past', (swarm env first).Run past' (s.rounds env stray n p batches) := by
  induction batches generalizing past s with
  | nil => exact ⟨past, run⟩
  | cons requests rest ih =>
      have hasked : ∃ past', (swarm env first).Run past'
          (requests.foldl (fun s msg => s.act env (.appendLog n msg)) s) := by
        clear ih
        induction requests generalizing past s with
        | nil => exact ⟨past, run⟩
        | cons msg more ih =>
            have henabled : s.Enabled (.appendLog n msg) := trivial
            exact ih (.step run henabled)
      obtain ⟨_, hasked⟩ := hasked
      obtain ⟨_, hround⟩ := exchange_run stray hasked
      exact ih hround

end Runs

section CatchingUp

variable {env : Env} {peers : List PeerAddress} {past : List (Swarm × Action)} {s : Swarm} {n p : Uuid}

theorem facing_of_run (run : ((swarm env (createDatFile peers)).guard (Orderly env)).Run past s)
    (hleader : (s.nodes n).currentState = .leader) (hfollower : (s.nodes p).currentState = .follower)
    (hterm : (s.nodes p).currentTerm = (s.nodes n).currentTerm) : Facing peers s n p := by
  have hmeasured := measured_of_run rfl run
  have hbounds : (s.nodes n).matchIndexOf p ≤ (s.nodes n).log.size ∧
      (s.nodes n).matchIndexOf p ≤ (s.nodes p).log.size := by
    unfold Node.matchIndexOf
    cases hm : (s.nodes n).peerMatchIndex p with
    | none => exact ⟨Nat.zero_le _, Nat.zero_le _⟩
    | some m => exact hmeasured.indexes n hleader p m hm
  exact ⟨wired_of_run rfl run.of_guard fun step hs => (run.guarded step hs).administers, hleader, hfollower, hterm,
    hbounds.1, hbounds.2, filled_of_run rfl run n⟩

-- Where the follower's log is not the beginning of the leader's, its last entry is not from this leader,
-- or the leader's log would have it.
theorem stuck_of_run (run : ((swarm env (createDatFile peers)).guard (Orderly env)).Run past s)
    (hleader : (s.nodes n).currentState = .leader) (happart : ¬s.cores p <+: s.cores n) : Stuck s n p := by
  have hsafe : ∀ term n m, EverLeader past s term n → EverLeader past s term m → n = m :=
    fun _ _ _ hn hm => everLeader_unique rfl run hn hm
  have hled := ledLogs_of_run run.of_guard hsafe
  have hsize := (s.nodes p).log.size_pos
  have hlt : (s.nodes p).log.size - 1 < (s.cores p).length := by
    rw [cores_length]
    omega
  have hwhole : (s.cores p).take ((s.nodes p).log.size - 1 + 1) = s.cores p := by
    rw [show (s.nodes p).log.size - 1 + 1 = (s.cores p).length by rw [cores_length]; omega, List.take_length]
  obtain ⟨last, hlast⟩ : ∃ last, (s.cores p)[(s.nodes p).log.size - 1]? = some last :=
    ⟨_, List.getElem?_eq_getElem hlt⟩
  have hbegins : ∀ o, (s.cores o).take ((s.nodes p).log.size - 1 + 1) =
      (s.cores p).take ((s.nodes p).log.size - 1 + 1) → s.cores p <+: s.cores o := by
    intro o hsame
    rw [← hwhole, ← hsame]
    exact List.take_prefix _ _
  refine Or.inr ⟨last, hlast, ?_, ?_⟩
  · intro hterm
    rcases hled p _ last hlast with hroot | ⟨o, ho, hsame⟩
    · apply happart
      apply hbegins
      rw [hroot]
      exact (cores_root run.of_guard n).trans (cores_root run.of_guard p).symm
    · have hn : EverLeader past s last.1 n := ⟨s, Or.inl rfl, hleader, hterm.symm⟩
      obtain rfl := hsafe last.1 o n ho hn
      exact happart (hbegins o hsame)
  · intro prev hprev hterms
    obtain ⟨term, msg⟩ := last
    obtain ⟨term', msg'⟩ := prev
    dsimp only at hterms
    subst hterms
    exact happart (hbegins n (hled.matching run.of_guard hsafe hprev hlast))

theorem following_of_rounds {base : Swarm} (hn : n ∈ peers.map PeerAddress.uuid) (hp : p ∈ peers.map PeerAddress.uuid)
    (hvalid : ∀ peer ∈ peers, env.validAddress peer.host = true) (stray : Nat → Nat) (batches : List (List String))
    {count : Nat} (h : Facing peers s n p) (hfollowing : Following base count s n p) :
    Following base (count + batches.length) (s.rounds env stray n p batches) n p ∧
      (batches ≠ [] → (base.nodes p).log.size < (base.nodes n).matchIndexOf p + (count + batches.length) →
        min ((s.rounds env stray n p batches).nodes p).log.size (base.nodes n).commitIndex ≤
          ((s.rounds env stray n p batches).nodes p).commitIndex) := by
  induction batches generalizing s count with
  | nil => exact ⟨hfollowing, fun hne => absurd rfl hne⟩
  | cons requests rest ih =>
      have hfacing := (h.round hn hp hvalid stray requests rfl).1
      obtain ⟨hnext, hcommit⟩ := Following.round h hfollowing hn hp hvalid stray requests rfl
      obtain ⟨hlast, hcommits⟩ := ih hfacing hnext
      rw [List.length_cons, show count + (rest.length + 1) = count + 1 + rest.length by omega]
      refine ⟨hlast, fun _ hfar => ?_⟩
      cases rest with
      | nil =>
          apply hcommit
          simp only [List.length_nil] at hfar
          omega
      | cons more others => exact hcommits (List.cons_ne_nil _ _) hfar

theorem stuck_of_rounds (hn : n ∈ peers.map PeerAddress.uuid) (hp : p ∈ peers.map PeerAddress.uuid)
    (hvalid : ∀ peer ∈ peers, env.validAddress peer.host = true) (stray : Nat → Nat) (batches : List (List String))
    (h : Facing peers s n p) (hstuck : Stuck s n p) : (s.rounds env stray n p batches).cores p = s.cores p := by
  induction batches generalizing s with
  | nil => rfl
  | cons requests rest ih =>
      obtain ⟨hnext, hsame⟩ := Stuck.round h hstuck hn hp hvalid stray requests rfl
      exact (ih (h.round hn hp hvalid stray requests rfl).1 hnext).trans hsame

-- A follower that the leader has an index for and whose log is the beginning of the leader's gets one more
-- of its entries in every round, and once it has caught up its commits as well. Any other follower keeps
-- the log it has.
def CatchesUp (env : Env) (stray : Nat → Nat) (s : Swarm) (n p : Uuid) (batches : List (List String)) : Prop :=
  let t := s.rounds env stray n p batches
  let m := (s.nodes n).matchIndexOf p
  if 1 ≤ m ∧ s.cores p <+: s.cores n then
    (s.cores n).take (m + batches.length) <+: t.cores p ∧ t.cores p <+: t.cores n ∧
      ((s.nodes p).log.size < m + batches.length →
        min (t.nodes p).log.size (s.nodes n).commitIndex ≤ (t.nodes p).commitIndex)
  else t.cores p = s.cores p

theorem catchesUp_of_run (hvalid : ∀ peer ∈ peers, env.validAddress peer.host = true)
    (run : ((swarm env (createDatFile peers)).guard (Orderly env)).Run past s)
    (hn : n ∈ peers.map PeerAddress.uuid) (hp : p ∈ peers.map PeerAddress.uuid)
    (hleader : (s.nodes n).currentState = .leader) (hfollower : (s.nodes p).currentState = .follower)
    (hterm : (s.nodes p).currentTerm = (s.nodes n).currentTerm) (stray : Nat → Nat)
    (batches : List (List String)) :
    (∃ past', (swarm env (createDatFile peers)).Run past' (s.rounds env stray n p batches)) ∧
      CatchesUp env stray s n p batches := by
  refine ⟨rounds_run stray batches run.of_guard, ?_⟩
  have hfacing := facing_of_run run hleader hfollower hterm
  unfold CatchesUp
  dsimp only
  split
  · rename_i hfollows
    obtain ⟨hlast, hcommits⟩ := following_of_rounds hn hp hvalid stray batches hfacing
      (Following.start hfacing hfollows.1 hfollows.2)
    rw [Nat.zero_add] at hlast hcommits
    refine ⟨?_, hlast.behind, ?_⟩
    case refine_2 =>
      intro hfar
      refine hcommits ?_ hfar
      rintro rfl
      have hknown := hfacing.known
      rw [List.length_nil] at hfar
      omega
    apply List.prefix_of_prefix_length_le ((List.take_prefix _ _).trans hlast.grown) hlast.behind
    rw [List.length_take, cores_length, cores_length]
    rcases hlast.lag with heq | ⟨_, hlt⟩
    · have hreached := hlast.reached
      omega
    · have hreached := hlast.reached
      omega
  · rename_i hnot
    refine stuck_of_rounds hn hp hvalid stray batches hfacing ?_
    by_cases hpos : 1 ≤ (s.nodes n).matchIndexOf p
    · exact stuck_of_run run hleader fun hbehind => hnot ⟨hpos, hbehind⟩
    · exact Or.inl (by omega)

-- C has what A knows, and after a round with another request it has that as well.
theorem catchesUp_of_run_three :
    let s := (threeMachine.replay [] freshSwarm oneEntry).2
    (1 ≤ (s.nodes "A").matchIndexOf "C" ∧ s.cores "C" <+: s.cores "A") ∧
      (∃ past', threeMachine.Run past' (s.rounds openEnv (fun _ => 0) "A" "C" [["y"]])) ∧
      CatchesUp openEnv (fun _ => 0) s "A" "C" [["y"]] := by
  refine ⟨by decide +kernel, ?_⟩
  exact catchesUp_of_run (by decide) oneEntry_orderly (by decide) (by decide) (by decide +kernel) (by decide +kernel)
    (by decide +kernel) (fun _ => 0) [["y"]]

end CatchingUp

end SwarmDB.Raft
