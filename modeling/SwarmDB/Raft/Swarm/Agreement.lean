import SwarmDB.Raft.Swarm.Matching

namespace SwarmDB.Raft

open Swarm ReplicatedLog

variable {env : Env} {first : LogEntry} {past : List (Swarm × Action)} {s : Swarm} {a : Action}

section Tracking

-- Where a leader has a match index from: it starts with at most one, it had it already, or it
-- comes from an AppendEntriesReply, whether that was a success or not.
theorem Node.step_matchIndex (env : Env) (node : Node) (input : Input)
    (hstays : ¬node.StaysLeader input) (hplain : input.Plain)
    (hleader : (node.step env input).node.currentState = .leader) {peer : Uuid} {m : Nat}
    (hm : (node.step env input).node.peerMatchIndex peer = some m) :
    m ≤ 1 ∨ (node.currentState = .leader ∧ node.peerMatchIndex peer = some m) ∨
      ∃ msg stray success, node.Hears input msg stray ∧ msg.cmd = .appendEntriesReply success m ∧
        msg.term = node.currentTerm ∧ msg.sender = peer ∧ node.currentState = .leader ∧
        m ≤ node.log.size := by
  -- a lookup leaves an index as it is, or a zero
  have htouched : ∀ {tracked old : Uuid → Option Nat}, (∀ peer, tracked peer = old peer ∨
      (old peer = none ∧ tracked peer = some 0)) → tracked peer = some m → m = 0 ∨ old peer = some m := by
    intro tracked old htracked hsome
    rcases htracked peer with heq | ⟨_, hzero⟩
    · exact Or.inr (heq ▸ hsome)
    · rw [hzero] at hsome
      exact Or.inl (Option.some.inj hsome).symm
  cases step_move env node input with
  | idle hidle _ =>
      obtain ⟨leader, swarm, hnode⟩ := hidle.node_eq
      rw [hnode] at hleader hm
      exact Or.inr (Or.inl ⟨hleader, hm⟩)
  | manage msg pick hinput hmember _ =>
      rw [hinput] at hplain
      have hnot : msg.isMembership = false := hplain
      rw [hmember] at hnot
      cases hnot
  | beat tracked _ hbeat =>
      rw [hbeat.node_eq] at hleader hm
      rcases htouched hbeat.tracked_eq hm with rfl | hold
      · exact Or.inl (Nat.zero_le _)
      · exact Or.inr (Or.inl ⟨hleader, hold⟩)
  | win msg stray tracked inner _ _ _ _ houtcome hbeat =>
      left
      rw [houtcome, closing_node, hbeat.node_eq] at hm
      rcases htouched hbeat.tracked_eq hm with rfl | hone
      · exact Nat.zero_le _
      · simp only [wins, Option.map_eq_some_iff] at hone
        obtain ⟨_, _, rfl⟩ := hone
        exact le_refl _
  | voteAhead msg stray uuid lastLogIndex lastLogTerm hears hcmd hterm hnode _ =>
      rw [hnode] at hleader
      obtain rfl := hears.input_eq
      obtain ⟨sender, term, cmd⟩ := msg
      dsimp only at hcmd
      subst hcmd
      exact absurd ⟨hears.member, hleader, hterm⟩ hstays
  | accept _ _ _ _ _ _ _ _ _ _ _ _ happending =>
      obtain ⟨swarm, tracked, hnode⟩ := happending.node_eq
      rw [hnode] at hleader
      have hfollower := happending.follower
      rw [hfollower] at hleader
      cases hleader
  | record msg stray success matchIndex inner tracked count added hears hterm hcmd houtcome hrecording =>
      obtain ⟨turns, hcommitting⟩ := hrecording.committing
      rw [houtcome, closing_node, hcommitting.node_eq] at hm
      rcases htouched hrecording.tracked_eq hm with rfl | hset
      · exact Or.inl (Nat.zero_le _)
      · by_cases hpeer : peer = msg.sender
        · subst hpeer
          obtain rfl : matchIndex = m := by simpa using hset
          exact Or.inr (Or.inr ⟨msg, stray, success, hears, hcmd, hterm, rfl, hrecording.leader,
            hrecording.bounded⟩)
        · rw [setMatchIndex_other node matchIndex hpeer] at hset
          exact Or.inr (Or.inl ⟨hrecording.leader, hset⟩)
  | campaign _ hnode | stepDown _ _ _ _ _ hnode | rollBack _ _ _ _ hnode | retire _ _ _ _ _ hnode =>
      rw [hnode] at hleader
      cases hleader
  | append _ _ _ _ _ hnode | refuse _ _ _ _ _ _ _ _ hnode | vote _ _ _ _ _ _ _ _ _ hnode
  | countNo _ _ _ _ hnode | countYes _ _ _ _ _ hnode =>
      rw [hnode] at hleader hm
      exact Or.inr (Or.inl ⟨hleader, hm⟩)

end Tracking

section Truthful

-- Both logs have that many entries, and they are the same.
def Swarm.Shares (s : Swarm) (n m : Uuid) (count : Nat) : Prop :=
  count ≤ (s.nodes n).log.size ∧ count ≤ (s.nodes m).log.size ∧
    (s.cores n).take count = (s.cores m).take count

instance (s : Swarm) (n m : Uuid) (count : Nat) : Decidable (s.Shares n m count) :=
  inferInstanceAs (Decidable (_ ∧ _ ∧ _))

-- A follower takes an AppendEntries that lies beyond its log, because of what the read past
-- the end of the log happens to find.
def Node.AcceptsStray (node : Node) : Input → Prop
  | .message ⟨sender, term, .appendEntries prevIndex prevTerm ..⟩ stray =>
    inQuorum node.log sender = .ok true ∧ term = node.currentTerm ∧ node.currentState = .follower ∧
      node.log.size ≤ prevIndex ∧ stray prevIndex = prevTerm
  | _ => False

instance (node : Node) : (input : Input) → Decidable (node.AcceptsStray input)
  | .message ⟨sender, term, .appendEntries prevIndex prevTerm ..⟩ stray => inferInstanceAs (Decidable
    (inQuorum node.log sender = .ok true ∧ term = node.currentTerm ∧ node.currentState = .follower ∧
      node.log.size ≤ prevIndex ∧ stray prevIndex = prevTerm))
  | .message ⟨_, _, .requestVote ..⟩ _ | .message ⟨_, _, .responseVote _⟩ _
  | .message ⟨_, _, .appendEntriesReply ..⟩ _ | .message ⟨_, _, .unknown⟩ _
  | .management .. | .electionTimeout .. | .heartbeatTimeout _ | .appendLog .. =>
    inferInstanceAs (Decidable False)

-- A leader hears of a rejection, and the match index in it counts entries that the two logs
-- do not share.
def Swarm.Misleads (s : Swarm) (n : Uuid) : Input → Prop
  | .message ⟨sender, term, .appendEntriesReply false matchIndex⟩ _ =>
    inQuorum (s.nodes n).log sender = .ok true ∧ (s.nodes n).currentState = .leader ∧
      term = (s.nodes n).currentTerm ∧ matchIndex ≤ (s.nodes n).log.size ∧ ¬s.Shares sender n matchIndex
  | _ => False

instance (s : Swarm) (n : Uuid) : (input : Input) → Decidable (s.Misleads n input)
  | .message ⟨sender, term, .appendEntriesReply false matchIndex⟩ _ => inferInstanceAs (Decidable
    (inQuorum (s.nodes n).log sender = .ok true ∧ (s.nodes n).currentState = .leader ∧
      term = (s.nodes n).currentTerm ∧ matchIndex ≤ (s.nodes n).log.size ∧ ¬s.Shares sender n matchIndex))
  | .message ⟨_, _, .appendEntriesReply true _⟩ _
  | .message ⟨_, _, .requestVote ..⟩ _ | .message ⟨_, _, .responseVote _⟩ _
  | .message ⟨_, _, .appendEntries ..⟩ _ | .message ⟨_, _, .unknown⟩ _
  | .management .. | .electionTimeout .. | .heartbeatTimeout _ | .appendLog .. =>
    inferInstanceAs (Decidable False)

-- The steps that keep match indexes truthful.
structure Faithful (env : Env) (s : Swarm) (a : Action) : Prop where
  orderly : Orderly env s a
  inRange : ¬(s.nodes a.uuid).AcceptsStray a.input
  honest : ¬s.Misleads a.uuid a.input

instance (env : Env) (s : Swarm) (a : Action) : Decidable (Faithful env s a) :=
  decidable_of_iff (Orderly env s a ∧ ¬(s.nodes a.uuid).AcceptsStray a.input ∧ ¬s.Misleads a.uuid a.input)
    ⟨fun h => ⟨h.1, h.2.1, h.2.2⟩, fun h => ⟨h.1, h.2, h.3⟩⟩

theorem Swarm.Shares.step {n m : Uuid} {count : Nat} (h : s.Shares n m count) (env : Env) (a : Action) :
    (s.act env a).Shares n m count := by
  obtain ⟨hn, hm, hsame⟩ := h
  rw [← cores_length] at hn hm
  have hgn := cores_grow env s a n
  have hgm := cores_grow env s a m
  refine ⟨?_, ?_, ?_⟩
  · rw [← cores_length]
    exact hn.trans hgn.length_le
  · rw [← cores_length]
    exact hm.trans hgm.length_le
  · rw [take_of_grown hgn hn, take_of_grown hgm hm, hsame]

-- The first entry is shared by all.
theorem shares_root (run : (swarm env first).Run past s) (n m : Uuid) {count : Nat} (h : count ≤ 1) :
    s.Shares n m count := by
  refine ⟨h.trans (s.nodes n).log.size_pos, h.trans (s.nodes m).log.size_pos, ?_⟩
  exact take_eq_of_take_eq ((cores_root run n).trans (cores_root run m).symm) h

theorem shares_of_grown {n m : Uuid} (h : s.cores n <+: s.cores m) : s.Shares n m (s.nodes n).log.size := by
  rw [← cores_length]
  refine ⟨(cores_length s n).le, ?_, (take_of_grown h (le_refl _)).symm⟩
  rw [← cores_length]
  exact h.length_le

theorem run_orderly (run : ((swarm env first).guard (Faithful env)).Run past s) :
    ((swarm env first).guard (Orderly env)).Run past s :=
  run.of_guard.guard_of fun step hs => (run.guarded step hs).orderly

-- In range, whoever accepts an AppendEntries holds the beginning of its sender's log, and
-- answers with how much that is.
theorem accept_follows (hfirst : first.entryType = .singleQuorum)
    (run : ((swarm env first).guard (Faithful env)).Run past s) (henabled : s.Enabled a)
    (hrange : ¬(s.nodes a.uuid).AcceptsStray a.input) {msg : Message} {stray : Nat → Nat}
    {prevIndex prevTerm : Nat} {entries : JsonMessage} {entryTerm commitIndex : Nat} {log : RaftLog}
    {count : Nat} (hears : (s.nodes a.uuid).Hears a.input msg stray)
    (hterm : msg.term = (s.nodes a.uuid).currentTerm)
    (hcmd : msg.cmd = .appendEntries prevIndex prevTerm entries entryTerm commitIndex)
    (happending : (s.nodes a.uuid).Appending msg prevIndex prevTerm entries entryTerm commitIndex
      (stray prevIndex) (s.outcome env a) log count)
    (haccepted : (s.nodes a.uuid).log.entryAccepted prevIndex prevTerm (stray prevIndex) = true) :
    ∃ packet ∈ s.network, packet.payload = .raft msg ∧ a.session = some packet.src ∧
      (s.act env a).cores a.uuid <+: s.cores packet.src ∧
      min log.size (prevIndex + 1 + 1) = ((s.act env a).nodes a.uuid).log.size := by
  have horderly := run_orderly run
  have hsafe : ElectionSafety past s := fun _ _ _ hn hm => everLeader_unique hfirst horderly hn hm
  have hled := ledLogs_of_run run.of_guard hsafe
  have hend : prevIndex + 1 = (s.nodes a.uuid).log.size := by
    rcases RaftLog.entryAccepted_cases _ _ _ _ haccepted with ⟨hend, _⟩ | ⟨hbeyond, hstray⟩
    · exact hend
    · obtain ⟨sender, term, cmd⟩ := msg
      dsimp only at hcmd
      subst hcmd
      rw [hears.input_eq] at hrange
      exact absurd ⟨hears.member, hterm, happending.follower, hbeyond, hstray.symm⟩ hrange
  obtain ⟨swarm, tracked, hnode⟩ := happending.node_eq
  have hlog : (s.outcome env a).node.log = log := by rw [hnode]
  have hnext : Continues (s.nodes a.uuid).log (s.outcome env a).node.log prevIndex entries entryTerm := by
    rw [hlog]
    rcases happending.log_eq with ⟨rfl, _⟩ | ⟨_, hentries, _, hmore⟩
    · exact Or.inl rfl
    · exact Or.inr ⟨hentries, hmore⟩
  obtain ⟨packet, hpacket, hpayload, hback, hgrown⟩ := accepted_follows
    (described_of_run run.of_guard).quoted (hled.matching run.of_guard hsafe) henabled hears
    hcmd haccepted hend hnext
  refine ⟨packet, hpacket, hpayload, hback, hgrown, ?_⟩
  have hsize : log.size ≤ prevIndex + 1 + 1 := by
    rcases happending.log_eq with ⟨rfl, _⟩ | ⟨_, _, _, hmore⟩
    · omega
    · simp only [RaftLog.size, hmore, List.length_append, List.length_singleton] at hend ⊢
      omega
  rw [act_nodes_self, hlog]
  exact Nat.min_eq_left hsize

-- A successful reply counts entries that both logs hold, and so does every match index of a
-- leader. It keeps no count of its own log.
structure Tracking (s : Swarm) : Prop where
  replies : ∀ packet ∈ s.network, ∀ msg, packet.payload = .raft msg →
    ∀ m, msg.cmd = .appendEntriesReply true m → s.Shares packet.src packet.dst m
  indexes : ∀ n, (s.nodes n).currentState = .leader → ∀ peer m,
    (s.nodes n).peerMatchIndex peer = some m → (peer = n → m ≤ 1) ∧ s.Shares peer n m

theorem tracking_reply (hfirst : first.entryType = .singleQuorum)
    (run : ((swarm env first).guard (Faithful env)).Run past s) (henabled : s.Enabled a)
    (hrange : ¬(s.nodes a.uuid).AcceptsStray a.input) {effect : Effect} {packet : Packet} {msg : Message}
    (hmem : effect ∈ (s.outcome env a).effects) (hnew : effect.packet a.uuid a.session = some packet)
    (hraft : packet.payload = .raft msg) {m : Nat} (hcmd : msg.cmd = .appendEntriesReply true m) :
    (s.act env a).Shares packet.src packet.dst m := by
  obtain ⟨hmsg, hsrc, hroute⟩ := packet_raft hnew hraft
  cases (Node.step_move env (s.nodes a.uuid) a.input).sends hmem hmsg with
  | requestVote _ _ _ _ hsent | responseVote _ _ _ _ _ _ _ _ _ hsent | outOfSync _ _ _ _ _ hsent =>
      rw [hsent] at hcmd
      cases hcmd
  | appendEntries _ _ _ hdescribes =>
      obtain ⟨_, _, _, _, happend, _⟩ := hdescribes.content
      rw [hcmd] at happend
      cases happend
  | appendEntriesReply heard stray prevIndex prevTerm entries entryTerm commitIndex log count hears hterm
      hheard happending heffect hsent =>
      rw [hsent] at hcmd
      simp only [createAppendEntriesResponse, Command.appendEntriesReply.injEq] at hcmd
      obtain ⟨haccepted, rfl⟩ := hcmd
      obtain ⟨asked, _, _, hback, hgrown, hsize⟩ := accept_follows hfirst run henabled hrange hears hterm
        hheard happending haccepted
      have hdst : packet.dst = asked.src := by
        rcases hroute with hsend | ⟨_, hsession⟩
        · rw [heffect] at hsend
          cases hsend
        · rw [hsession] at hback
          exact Option.some.inj hback
      rw [hsrc, hdst, hsize]
      exact shares_of_grown (hgrown.trans (cores_grow env s a asked.src))

theorem tracking_of_run (hfirst : first.entryType = .singleQuorum)
    (run : ((swarm env first).guard (Faithful env)).Run past s) : Tracking s := by
  induction run with
  | start hinit =>
      refine ⟨by simp [hinit.1], ?_⟩
      intro n hleader
      rw [start_follower (hinit.2 n)] at hleader
      cases hleader
  | @step past s a run hguard ih =>
      obtain ⟨henabled, hfaithful⟩ := hguard
      have hw : s.Wired first := wired_of_run hfirst run.of_guard
        fun step hs => (run.guarded step hs).orderly.administers
      have hnext : (swarm env first).Run ((s, a) :: past) (s.act env a) := .step run.of_guard henabled
      change Tracking (s.act env a)
      constructor
      · intro packet hpacket msg hraft m hcmd
        rcases mem_act_network hpacket with hold | ⟨effect, hmem, hnew⟩
        · exact (ih.replies packet hold msg hraft m hcmd).step env a
        · exact tracking_reply hfirst run henabled hfaithful.inRange hmem hnew hraft hcmd
      · intro n hleader peer m hm
        by_cases hn : n = a.uuid
        · subst hn
          rw [act_nodes_self] at hleader hm
          rcases Node.step_matchIndex env (s.nodes a.uuid) a.input hfaithful.orderly.stepsDown
            (hw.input hfaithful.orderly.administers henabled) hleader hm with
            hone | ⟨hled, hold⟩ | ⟨msg, stray, success, hears, hcmd, hterm, rfl, hled, hbound⟩
          · exact ⟨fun _ => hone, shares_root hnext _ _ hone⟩
          · obtain ⟨hself, hshares⟩ := ih.indexes a.uuid hled peer m hold
            exact ⟨hself, hshares.step env a⟩
          · obtain ⟨packet, hpacket, hpayload, hdst, _⟩ := deliver_of_hears henabled hears
            obtain ⟨hsender, hother⟩ := hw.sender packet hpacket msg hpayload
            refine ⟨fun heq => absurd (hsender.symm.trans (heq.trans hdst.symm)) hother, ?_⟩
            apply Swarm.Shares.step
            cases success with
            | true =>
                rw [hsender, ← hdst]
                exact ih.replies packet hpacket msg hpayload m hcmd
            | false =>
                by_contra hnot
                apply hfaithful.honest
                obtain ⟨sender, term, cmd⟩ := msg
                dsimp only at hcmd
                subst hcmd
                rw [hears.input_eq]
                exact ⟨hears.member, hled, hterm, hbound, hnot⟩
        · rw [act_nodes_other hn] at hleader hm
          obtain ⟨hself, hshares⟩ := ih.indexes n hleader peer m hm
          exact ⟨hself, hshares.step env a⟩

-- The node has heard an AppendEntriesReply of the peer, and has led in that term ever since.
def Answered (past : List (Swarm × Action)) (s : Swarm) (n peer : Uuid) : Prop :=
  ∃ later state packet stray pick earlier success matchIndex,
    past = later ++ (state, .deliver packet stray pick) :: earlier ∧ packet.dst = n ∧
    packet.payload = .raft ⟨peer, (s.nodes n).currentTerm, .appendEntriesReply success matchIndex⟩ ∧
    ∀ step ∈ later ++ [(state, .deliver packet stray pick)],
      (step.1.nodes n).currentState = .leader ∧ (step.1.nodes n).currentTerm = (s.nodes n).currentTerm

def MatchTruth (past : List (Swarm × Action)) (s : Swarm) : Prop :=
  ∀ n peer m, (s.nodes n).currentState = .leader → peer ≠ n → Answered past s n peer →
    (s.nodes n).peerMatchIndex peer = some m → s.Shares peer n m

theorem matchTruth_of_run (hfirst : first.entryType = .singleQuorum)
    (run : ((swarm env first).guard (Faithful env)).Run past s) : MatchTruth past s :=
  fun n peer m hleader _ _ hm => ((tracking_of_run hfirst run).indexes n hleader peer m hm).2

-- A holds x from term 1 when B, elected in term 2 with C's vote, tries to replicate y. A comes
-- to B's term with a rejection that counts the whole of its log.
def misleading : List Action := firstLeader ++
  [.appendLog "A" "x", .electionTimeout "B" false 0, .electionTimeout "B" false 0,
    .pass "B" "C" (createRequestVoteRequest "B" 2 1 0),
    .pass "C" "B" (createRequestVoteResponse "C" 2 true),
    .appendLog "B" "y", .heartbeatTimeout "B" false,
    .pass "B" "A" (createAppendEntriesRequest "B" 2 1 0 0 2 (.database "y")),
    .pass "A" "B" (createAppendEntriesResponse "A" 2 false 2)]

theorem matchTruth_broken : ¬∀ (env : Env) (first : LogEntry) (past : List (Swarm × Action)) (s : Swarm),
    first.entryType = .singleQuorum →
      ((swarm env first).guard fun _ a => a.administers = false).Run past s → MatchTruth past s := by
  intro h
  have hrun : (threeMachine.guard fun _ a => a.administers = false).Run
      (threeMachine.replay [] freshSwarm misleading).1 (threeMachine.replay [] freshSwarm misleading).2 := by
    refine (threeMachine_start.replay misleading (by decide +kernel)).guard_of ?_
    decide +kernel
  have hanswered : Answered (threeMachine.replay [] freshSwarm misleading).1
      (threeMachine.replay [] freshSwarm misleading).2 "B" "A" :=
    ⟨[], _, _, _, _, _, false, 2, rfl, rfl, by decide +kernel, by decide +kernel⟩
  exact absurd (h _ _ _ _ rfl hrun "B" "A" 2 (by decide +kernel) (by decide) hanswered (by decide +kernel))
    (by decide +kernel)

theorem oneEntry_faithful : ((swarm openEnv (createDatFile threePeers)).guard (Faithful openEnv)).Run
    (threeMachine.replay [] freshSwarm oneEntry).1 (threeMachine.replay [] freshSwarm oneEntry).2 := by
  refine (threeMachine_start.replay oneEntry (by decide +kernel)).guard_of ?_
  decide +kernel

theorem matchTruth_of_run_three :
    ((threeMachine.replay [] freshSwarm oneEntry).2.nodes "A").peerMatchIndex "C" = some 2 ∧
      MatchTruth (threeMachine.replay [] freshSwarm oneEntry).1
        (threeMachine.replay [] freshSwarm oneEntry).2 :=
  ⟨by decide +kernel, matchTruth_of_run rfl oneEntry_faithful⟩

end Truthful

section Committing

-- Everything committed anywhere stands at its index in the logs of a majority.
def Settled (first : LogEntry) (s : Swarm) : Prop :=
  ∀ n i, 1 ≤ i → i < (s.nodes n).commitIndex →
    ∃ e, (s.cores n)[i]? = some e ∧ Chosen (members first) s.cores i e

theorem medianMatchIndex_eq (node : Node) (stray : Nat → Nat) (quorum : List Uuid)
    (h : 2 ≤ quorum.length) : ((quorum.map node.matchIndexOf).insertionSort (· ≤ ·))[(quorum.length + 1) / 2]? =
      some (node.medianMatchIndex stray quorum) := by
  have hlen : ((quorum.map node.matchIndexOf).insertionSort (· ≤ ·)).length = quorum.length := by
    rw [List.length_insertionSort, List.length_map]
  have hlt : (quorum.length + 1) / 2 < ((quorum.map node.matchIndexOf).insertionSort (· ≤ ·)).length := by
    omega
  unfold Node.medianMatchIndex
  dsimp only
  rw [hlen, List.getElem?_eq_getElem hlt, Option.getD_some]

theorem two_le_length {l : List Uuid} {n m : Uuid} (hn : n ∈ l) (hm : m ∈ l) (hne : n ≠ m) : 2 ≤ l.length := by
  have hsub : [n, m] ⊆ l := by simp [hn, hm]
  have hnodup : [n, m].Nodup := by simp [hne]
  exact (hnodup.subperm hsub).length_le

-- What lies below the median of a leader's match indexes is in the logs of a majority.
theorem chosen_of_median (hfirst : first.entryType = .singleQuorum)
    (run : ((swarm env first).guard (Faithful env)).Run past s) {n sender : Uuid}
    (hleader : (s.nodes n).currentState = .leader) (hsender : sender ∈ members first) (hne : sender ≠ n)
    {matchIndex : Nat} (hshares : s.Shares sender n matchIndex) (stray : Nat → Nat) {i : Nat} (hpos : 1 ≤ i)
    (hi : i < ((s.nodes n).setMatchIndex sender matchIndex).medianMatchIndex stray (members first)) :
    ∃ e, (s.cores n)[i]? = some e ∧ Chosen (members first) s.cores i e := by
  have htracking := tracking_of_run hfirst run
  have hmember : n ∈ members first :=
    ((electing_of_run hfirst (run_orderly run)).leaders _ n ⟨s, Or.inl rfl, hleader, rfl⟩).2
  -- every index that is not zero is shared, and the leader's own one is at most one
  have hindex : ∀ u k, 2 ≤ k → k ≤ ((s.nodes n).setMatchIndex sender matchIndex).matchIndexOf u →
      u ≠ n ∧ s.Shares u n (((s.nodes n).setMatchIndex sender matchIndex).matchIndexOf u) := by
    intro u k htwo hk
    by_cases hu : u = sender
    · subst hu
      have hself : ((s.nodes n).setMatchIndex u matchIndex).matchIndexOf u = matchIndex := by
        simp [Node.matchIndexOf]
      rw [hself]
      exact ⟨hne, hshares⟩
    · have hother : ((s.nodes n).setMatchIndex sender matchIndex).matchIndexOf u =
          (s.nodes n).matchIndexOf u := by
        rw [Node.matchIndexOf, Node.setMatchIndex_other _ _ hu, Node.matchIndexOf]
      rw [hother] at hk ⊢
      cases hm : (s.nodes n).peerMatchIndex u with
      | none =>
          rw [Node.matchIndexOf, hm, Option.getD_none] at hk
          omega
      | some m =>
          rw [Node.matchIndexOf, hm, Option.getD_some] at hk ⊢
          obtain ⟨hself, hu'⟩ := htracking.indexes n hleader u m hm
          refine ⟨fun heq => ?_, hu'⟩
          have := hself heq
          omega
  have hmedian := medianMatchIndex_eq ((s.nodes n).setMatchIndex sender matchIndex) stray (members first)
    (two_le_length hsender hmember hne)
  -- the median is the index of some member, so the leader's log reaches past i
  obtain ⟨u, _, hvalue⟩ : ∃ u ∈ members first, ((s.nodes n).setMatchIndex sender matchIndex).matchIndexOf u =
      ((s.nodes n).setMatchIndex sender matchIndex).medianMatchIndex stray (members first) := by
    have hmem := List.mem_of_getElem? hmedian
    rw [List.mem_insertionSort] at hmem
    simpa using hmem
  have hlt : i < (s.cores n).length := by
    have hbound := (hindex u (i + 1) (by omega) (by omega)).2.2.1
    rw [cores_length]
    omega
  refine ⟨_, List.getElem?_eq_getElem hlt, ?_⟩
  refine Quorum.majority_of_median (members first)
    ((s.nodes n).setMatchIndex sender matchIndex).matchIndexOf _ hmedian ?_ hmember ?_
    (List.getElem?_eq_getElem hlt)
  · intro v _ hv
    have hsame := (hindex v (i + 1) (by omega) (by omega)).2.2.2
    rw [getElem?_of_take_eq hsame (by omega)]
    exact List.getElem?_eq_getElem hlt
  · by_contra hge
    exact (hindex n (i + 1) (by omega) (by omega)).1 rfl

theorem settled_of_run (hfirst : first.entryType = .singleQuorum)
    (run : ((swarm env first).guard (Faithful env)).Run past s) : Settled first s := by
  induction run with
  | start hinit =>
      intro n i hpos hi
      obtain ⟨_, _, _, _, hnode⟩ := hinit.2 n
      rw [hnode] at hi
      have hone : i < 1 := hi
      omega
  | @step past s a run hguard ih =>
      obtain ⟨henabled, hfaithful⟩ := hguard
      have hw : s.Wired first := wired_of_run hfirst run.of_guard
        fun step hs => (run.guarded step hs).orderly.administers
      change Settled first (s.act env a)
      intro n i hpos hi
      have hgrow := cores_grow env s a
      -- an entry that was chosen and committed stays so
      have hkeep : ∀ m, (∃ e, (s.cores m)[i]? = some e ∧ Chosen (members first) s.cores i e) →
          ∃ e, ((s.act env a).cores m)[i]? = some e ∧ Chosen (members first) (s.act env a).cores i e := by
        rintro m ⟨e, he, hchosen⟩
        exact ⟨e, getElem?_of_grown (hgrow m) he, hchosen.grow hgrow⟩
      by_cases hold : i < (s.nodes n).commitIndex
      · exact hkeep n (ih n i hpos hold)
      · rcases act_nodes_cases env s a n with ⟨rfl, hself⟩ | hother
        · rw [hself] at hi
          rcases Node.step_commits env (s.nodes a.uuid) a.input with
            hsame | ⟨msg, stray, prevIndex, prevTerm, entries, entryTerm, commitIndex, log, count, hears, hterm,
              hcmd, happending⟩ | ⟨msg, stray, success, matchIndex, inner, tracked, count, added, hears, hterm,
              hcmd, houtcome, hrecording⟩
          · exact absurd (hsame ▸ hi) hold
          · -- a follower commits what its leader has committed
            obtain ⟨swarm, tracked, hnode⟩ := happending.node_eq
            have hindex : (s.outcome env a).node.commitIndex = (s.nodes a.uuid).commitIndex + count := by
              rw [Swarm.outcome, hnode]
            have hcount : 0 < count := by omega
            obtain ⟨haccepted, hleader, hsize⟩ := happending.commits hcount
            obtain ⟨packet, hpacket, hpayload, _, hgrown, _⟩ := accept_follows hfirst run henabled
              hfaithful.inRange hears hterm hcmd happending haccepted
            obtain ⟨_, _, hcommit⟩ := described_of_run run.of_guard packet hpacket msg hpayload _ _ _ _ _ hcmd
            obtain ⟨e, he, hchosen⟩ := ih packet.src i hpos (by omega)
            have hlt : i < ((s.act env a).cores a.uuid).length := by
              have hlog : (s.outcome env a).node.log = log := by rw [Swarm.outcome, hnode]
              rw [cores_length, act_nodes_self, hlog]
              omega
            refine ⟨e, ?_, hchosen.grow hgrow⟩
            rw [← he]
            exact getElem?_of_take_eq (take_of_grown hgrown hlt).symm (by omega)
          · -- a leader commits below the median of its match indexes
            obtain ⟨turns, hcommitting⟩ := hrecording.committing
            have hindex : (s.outcome env a).node.commitIndex = (s.nodes a.uuid).commitIndex + count := by
              rw [Swarm.outcome, houtcome, Node.closing_node, hcommitting.node_eq]
            have hcount : 0 < count := by omega
            obtain ⟨hsuccess, quorums, hquorums, hmedian⟩ := hrecording.commits hcount
            subst hsuccess
            have hsingle := getActiveQuorum_plain (hw.plain a.uuid) hfirst hquorums
            have hbelow := hmedian (members first) (by simp [hsingle])
            obtain ⟨packet, hpacket, hpayload, hdst, _⟩ := deliver_of_hears henabled hears
            obtain ⟨hsender, hne⟩ := hw.sender packet hpacket msg hpayload
            have hshares := (tracking_of_run hfirst run).replies packet hpacket msg hpayload matchIndex hcmd
            rw [← hsender, hdst] at hshares hne
            exact hkeep a.uuid (chosen_of_median hfirst run hrecording.leader
              (inQuorum_plain (hw.plain a.uuid) hfirst hears.member) hne hshares stray hpos (by omega))
        · rw [hother] at hi
          exact absurd hi hold

-- No two nodes call the commit handler with different messages for the same index.
def StateMachineSafety (env : Env) (past : List (Swarm × Action)) : Prop :=
  ∀ n m i msg msg', Effect.commit i msg ∈ handled env (history past n) →
    Effect.commit i msg' ∈ handled env (history past m) → msg = msg'

theorem handled_entry (run : (swarm env first).Run past s) {n : Uuid} {i : Nat} {msg : JsonMessage}
    (h : Effect.commit i msg ∈ handled env (history past n)) :
    1 ≤ i ∧ i < (s.nodes n).commitIndex ∧ ∃ term, (s.cores n)[i]? = some (term, msg) := by
  rw [handled_of_run (history_run n run)] at h
  obtain ⟨⟨entry, index⟩, hmem, heq⟩ := List.mem_map.mp h
  obtain ⟨rfl, rfl⟩ := Effect.commit.inj heq
  obtain ⟨hlow, hget⟩ := List.mk_mem_zipIdx_iff_le_and_getElem?_sub.mp hmem
  have hlt := (List.getElem?_eq_some_iff.mp hget).1
  rw [List.length_take] at hlt
  rw [List.getElem?_take_of_lt (by omega), List.getElem?_drop] at hget
  have hsame : 1 + (index - 1) = index := by omega
  rw [hsame] at hget
  exact ⟨hlow, by omega, entry.term, cores_getElem? hget⟩

theorem stateMachineSafety_of_run (hfirst : first.entryType = .singleQuorum)
    (run : ((swarm env first).guard (Faithful env)).Run past s) : StateMachineSafety env past := by
  intro n m i msg msg' hn hm
  obtain ⟨hpos, hni, term, hmsg⟩ := handled_entry run.of_guard hn
  obtain ⟨_, hmi, term', hmsg'⟩ := handled_entry run.of_guard hm
  obtain ⟨e, he, hchosen⟩ := settled_of_run hfirst run n i hpos hni
  obtain ⟨e', he', hchosen'⟩ := settled_of_run hfirst run m i hpos hmi
  rw [hmsg] at he
  rw [hmsg'] at he'
  have hsame := hchosen.unique hchosen'
  rw [← Option.some.inj he, ← Option.some.inj he'] at hsame
  exact (Prod.mk.inj hsame).2

-- Two leaders of term 2 each append an entry. C takes A's, and A commits it. C rejects B's, but
-- B then counts it in and asks C only about the term of its last entry, so B commits its own.
def splitBrain : List Action := twoLeaders ++
  [.appendLog "A" "x", .appendLog "B" "y", .heartbeatTimeout "A" false,
    .pass "A" "C" (createAppendEntriesRequest "A" 2 1 0 0 2 (.database "x")),
    .pass "A" "C" (createAppendEntriesRequest "A" 2 1 0 0 2 (.database "x")),
    .pass "C" "A" (createAppendEntriesResponse "C" 2 true 2),
    .heartbeatTimeout "B" false,
    .pass "B" "C" (createAppendEntriesRequest "B" 2 1 0 0 2 (.database "y")),
    .pass "C" "B" (createAppendEntriesResponse "C" 2 false 2),
    .heartbeatTimeout "B" false,
    .pass "B" "C" (createAppendEntriesRequest "B" 2 1 1 2 0 .null),
    .pass "C" "B" (createAppendEntriesResponse "C" 2 true 2)]

theorem stateMachineSafety_broken :
    ¬∀ (env : Env) (first : LogEntry) (past : List (Swarm × Action)) (s : Swarm),
      first.entryType = .singleQuorum →
        ((swarm env first).guard fun _ a => a.administers = false).Run past s →
          StateMachineSafety env past := by
  intro h
  have hrun : (threeMachine.guard fun _ a => a.administers = false).Run
      (threeMachine.replay [] freshSwarm splitBrain).1 (threeMachine.replay [] freshSwarm splitBrain).2 := by
    refine (threeMachine_start.replay splitBrain (by decide +kernel)).guard_of ?_
    decide +kernel
  have ha : Effect.commit 1 (.database "x") ∈
      handled openEnv (history (threeMachine.replay [] freshSwarm splitBrain).1 "A") := by decide +kernel
  have hb : Effect.commit 1 (.database "y") ∈
      handled openEnv (history (threeMachine.replay [] freshSwarm splitBrain).1 "B") := by decide +kernel
  exact absurd (h _ _ _ _ rfl hrun "A" "B" 1 _ _ ha hb) (by decide)

theorem stateMachineSafety_of_run_three :
    Effect.commit 1 (.database "x") ∈
        handled openEnv (history (threeMachine.replay [] freshSwarm oneEntry).1 "A") ∧
      StateMachineSafety openEnv (threeMachine.replay [] freshSwarm oneEntry).1 :=
  ⟨by decide +kernel, stateMachineSafety_of_run rfl oneEntry_faithful⟩

end Committing

end SwarmDB.Raft
