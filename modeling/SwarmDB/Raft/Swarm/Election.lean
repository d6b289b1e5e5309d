import SwarmDB.Raft.Swarm.Wiring

namespace SwarmDB.Raft

open Swarm

variable {env : Env} {first : LogEntry} {past : List (Swarm × Action)} {s : Swarm} {a : Action}

-- The steps that keep elections safe: no term goes back or runs over, and a leader that hears
-- a vote request of a later term is not among them.
structure Orderly (env : Env) (s : Swarm) (a : Action) : Prop where
  administers : a.administers = false
  steady : Steady env (s.nodes a.uuid) a.input
  stepsDown : ¬(s.nodes a.uuid).StaysLeader a.input

instance (env : Env) (s : Swarm) (a : Action) : Decidable (Orderly env s a) :=
  decidable_of_iff (a.administers = false ∧ Steady env (s.nodes a.uuid) a.input ∧
    ¬(s.nodes a.uuid).StaysLeader a.input)
    ⟨fun h => ⟨h.1, h.2.1, h.2.2⟩, fun h => ⟨h.1, h.2, h.3⟩⟩

section Support

-- A node has asked for votes in this term.
def Stood (env : Env) (past : List (Swarm × Action)) (n : Uuid) (term : Nat) : Prop :=
  ∃ step ∈ history past n, step.1.Campaigns env step.2 ∧
    (step.1.step env step.2).node.currentTerm = term

-- A voter has given a candidate its vote in this term.
def Supports (env : Env) (past : List (Swarm × Action)) (term : Nat) (candidate voter : Uuid) : Prop :=
  Voted env (history past voter) term candidate

theorem Supports.step {term : Nat} {candidate voter : Uuid} (h : Supports env past term candidate voter)
    (s : Swarm) (a : Action) : Supports env ((s, a) :: past) term candidate voter := by
  obtain ⟨step, hs, hcasts⟩ := h
  exact ⟨step, Machine.mem_life_step s a hs, hcasts⟩

theorem Stood.step {n : Uuid} {term : Nat} (h : Stood env past n term) (s : Swarm) (a : Action) :
    Stood env ((s, a) :: past) n term := by
  obtain ⟨step, hs, hstood⟩ := h
  exact ⟨step, Machine.mem_life_step s a hs, hstood⟩

theorem stood_cons {n : Uuid} {term : Nat} (h : Stood env ((s, a) :: past) n term) :
    (n = a.uuid ∧ (s.nodes n).Campaigns env a.input ∧ (s.outcome env a).node.currentTerm = term) ∨
      Stood env past n term := by
  obtain ⟨step, hs, hcampaign, hterm⟩ := h
  by_cases hn : n = a.uuid
  · subst hn
    rw [history_self] at hs
    rcases List.mem_cons.mp hs with rfl | hs
    · exact Or.inl ⟨rfl, hcampaign, hterm⟩
    · exact Or.inr ⟨step, hs, hcampaign, hterm⟩
  · rw [history_other past s hn] at hs
    exact Or.inr ⟨step, hs, hcampaign, hterm⟩

theorem steady_history (n : Uuid) (run : ((swarm env first).guard (Orderly env)).Run past s) :
    ((lifetime env).guard (Steady env)).Run (history past n) (s.nodes n) := by
  refine (history_run n run.of_guard).guard_of fun step hs => ?_
  obtain ⟨whole, hmem, rfl, rfl⟩ := Machine.mem_life hs
  exact (run.guarded whole hmem).steady

end Support

section Winning

-- A vote request is backed by a candidacy, a granted vote by the voter's ledger, the votes a
-- candidate counts by those of its voters, and whoever has led has won.
structure Electing (env : Env) (first : LogEntry) (past : List (Swarm × Action)) (s : Swarm) : Prop where
  requests : ∀ packet ∈ s.network, ∀ msg, packet.payload = .raft msg →
    ∀ uuid lastLogIndex lastLogTerm, msg.cmd = .requestVote uuid lastLogIndex lastLogTerm →
      Stood env past packet.src msg.term
  ballots : ∀ packet ∈ s.network, ∀ msg, packet.payload = .raft msg → msg.cmd = .responseVote true →
    Supports env past msg.term packet.dst packet.src ∧ Stood env past packet.dst msg.term ∧
      packet.dst ∈ members first
  tallies : ∀ n, Stood env past n (s.nodes n).currentTerm → ∀ voter ∈ (s.nodes n).yesVotes,
    Supports env past (s.nodes n).currentTerm n voter
  leaders : ∀ term n, EverLeader past s term n →
    Quorum.Majority (members first) (Supports env past term n) ∧ n ∈ members first

theorem Electing.new_request {effect : Effect} {packet : Packet} {msg : Message}
    (hmem : effect ∈ (s.outcome env a).effects) (hnew : effect.packet a.uuid a.session = some packet)
    (hraft : packet.payload = .raft msg) {uuid : Uuid} {lastLogIndex lastLogTerm : Nat}
    (hcmd : msg.cmd = .requestVote uuid lastLogIndex lastLogTerm)
    (hwraps : ¬(s.nodes a.uuid).Wraps env a.input) :
    Stood env ((s, a) :: past) packet.src msg.term := by
  obtain ⟨hmsg, hsrc, _⟩ := packet_raft hnew hraft
  cases (Node.step_move env (s.nodes a.uuid) a.input).sends hmem hmsg with
  | requestVote peer hne hcampaign heffect hsent =>
      refine ⟨(s.nodes a.uuid, a.input), ?_, hcampaign, ?_⟩
      · rw [hsrc, history_self]
        exact List.mem_cons_self
      · rw [Node.campaigns_spec hcampaign hwraps, hsent,
          ← Node.nextTerm_of_not_wraps env _ hwraps hcampaign]
        rfl
  | responseVote _ _ _ _ _ _ _ _ _ hsent | appendEntriesReply _ _ _ _ _ _ _ _ _ _ _ _ _ _ hsent
  | outOfSync _ _ _ _ _ hsent =>
      rw [hsent] at hcmd
      cases hcmd
  | appendEntries _ _ _ hdescribes =>
      obtain ⟨_, _, _, _, happend, _⟩ := hdescribes.content
      rw [hcmd] at happend
      cases happend

theorem Electing.new_ballot (h : Electing env first past s) (hw : s.Wired first)
    (hfirst : first.entryType = .singleQuorum) (henabled : s.Enabled a) {effect : Effect} {packet : Packet}
    {msg : Message} (hmem : effect ∈ (s.outcome env a).effects)
    (hnew : effect.packet a.uuid a.session = some packet) (hraft : packet.payload = .raft msg)
    (hcmd : msg.cmd = .responseVote true) :
    Supports env ((s, a) :: past) msg.term packet.dst packet.src ∧
      Stood env ((s, a) :: past) packet.dst msg.term ∧ packet.dst ∈ members first := by
  obtain ⟨hmsg, hsrc, hroute⟩ := packet_raft hnew hraft
  cases (Node.step_move env (s.nodes a.uuid) a.input).sends hmem hmsg with
  | requestVote _ _ _ _ hsent | appendEntriesReply _ _ _ _ _ _ _ _ _ _ _ _ _ _ hsent
  | outOfSync _ _ _ _ _ hsent =>
      rw [hsent] at hcmd
      cases hcmd
  | appendEntries _ _ _ hdescribes =>
      obtain ⟨_, _, _, _, happend, _⟩ := hdescribes.content
      rw [hcmd] at happend
      cases happend
  | responseVote heard stray uuid lastLogIndex lastLogTerm granted hears hrequest heffect hsent =>
      have hterm : msg.term = heard.term := by rw [hsent]; rfl
      obtain ⟨asked, hasked, hpayload, hdst, hback⟩ := deliver_of_hears henabled hears
      have hsender := (hw.sender asked hasked heard hpayload).1
      have hsession : a.session = some packet.dst := by
        rcases hroute with hsend | ⟨_, hsession⟩
        · rw [heffect] at hsend
          cases hsend
        · exact hsession
      have hcandidate : packet.dst = heard.sender := by
        rw [hsession] at hback
        rw [hsender]
        exact Option.some.inj hback
      refine ⟨⟨(s.nodes a.uuid, a.input), ?_, Or.inl ⟨heard, ⟨⟨stray, hears.input_eq⟩, ?_⟩, hcandidate.symm⟩⟩, ?_, ?_⟩
      · rw [hsrc, history_self]
        exact List.mem_cons_self
      · exact ⟨effect, hmem, msg, hmsg, hcmd, rfl⟩
      · rw [hcandidate, hsender, hterm]
        exact (h.requests asked hasked heard hpayload _ _ _ hrequest).step s a
      · rw [hcandidate]
        exact inQuorum_plain (hw.plain a.uuid) hfirst hears.member

-- A grant that arrives is a vote for the node it arrives at.
theorem Electing.heard_ballot (h : Electing env first past s) (hw : s.Wired first)
    (henabled : s.Enabled a) {msg : Message} {stray : Nat → Nat}
    (hears : (s.nodes a.uuid).Hears a.input msg stray) (hcmd : msg.cmd = .responseVote true) :
    Supports env past msg.term a.uuid msg.sender ∧ Stood env past a.uuid msg.term ∧
      a.uuid ∈ members first := by
  obtain ⟨packet, hpacket, hpayload, hdst, _⟩ := deliver_of_hears henabled hears
  have hballot := h.ballots packet hpacket msg hpayload hcmd
  rw [(hw.sender packet hpacket msg hpayload).1, ← hdst]
  exact hballot

theorem Electing.tally_step (h : Electing env first past s) (hw : s.Wired first) (henabled : s.Enabled a)
    (run : ((swarm env first).guard (Orderly env)).Run past s) (horderly : Orderly env s a) (n : Uuid)
    (hstood : Stood env ((s, a) :: past) n ((s.act env a).nodes n).currentTerm) :
    ∀ voter ∈ ((s.act env a).nodes n).yesVotes,
      Supports env ((s, a) :: past) ((s.act env a).nodes n).currentTerm n voter := by
  intro voter hvoter
  obtain ⟨hback, hwraps⟩ := horderly.steady
  by_cases hn : n = a.uuid
  · subst hn
    rw [act_nodes_self] at hstood hvoter ⊢
    rcases stood_cons hstood with ⟨_, hcampaign, _⟩ | hold
    · -- a new candidate has its own vote only
      have hnode : (s.outcome env a).node = _ := Node.campaigns_spec hcampaign hwraps
      have hself : voter = a.uuid := by
        rw [hnode, hw.uuid a.uuid] at hvoter
        simpa using hvoter
      subst hself
      refine ⟨(s.nodes a.uuid, a.input), ?_, Or.inr ⟨hcampaign, rfl, hw.uuid a.uuid⟩⟩
      rw [history_self]
      exact List.mem_cons_self
    · -- an old candidacy in the term the node is in now: it has been in that term since
      have hbound : (s.outcome env a).node.currentTerm ≤ (s.nodes a.uuid).currentTerm := by
        obtain ⟨step, hs, hcampaign, hterm⟩ := hold
        exact (voted_bound (steady_history a.uuid run) _ _
          ⟨step, hs, Or.inr ⟨hcampaign, hterm, rfl⟩⟩).1
      have hmono : (s.nodes a.uuid).currentTerm ≤ (s.outcome env a).node.currentTerm :=
        (Node.step_keeps_term env _ _ hback hwraps).1
      have hsame : (s.outcome env a).node.currentTerm = (s.nodes a.uuid).currentTerm := by omega
      rw [hsame] at hold ⊢
      rcases Node.step_yesVotes env (s.nodes a.uuid) a.input with
        hcampaign | hkept | ⟨msg, stray, hears, hcmd, hterm, hvotes⟩
      · have hnode : (s.outcome env a).node = _ := Node.campaigns_spec hcampaign hwraps
        rw [hnode] at hsame
        simp at hsame
      · exact (h.tallies a.uuid hold voter (hkept ▸ hvoter)).step s a
      · have hinsert : voter ∈ insert msg.sender (s.nodes a.uuid).yesVotes := hvotes ▸ hvoter
        rcases Finset.mem_insert.mp hinsert with rfl | hmem
        · rw [← hterm]
          exact (h.heard_ballot hw henabled hears hcmd).1.step s a
        · exact (h.tallies a.uuid hold voter hmem).step s a
  · rw [act_nodes_other hn] at hstood hvoter ⊢
    rcases stood_cons hstood with ⟨heq, _⟩ | hold
    · exact absurd heq hn
    · exact (h.tallies n hold voter hvoter).step s a

theorem Electing.leader_step (h : Electing env first past s) (hw : s.Wired first)
    (hfirst : first.entryType = .singleQuorum) (henabled : s.Enabled a) (horderly : Orderly env s a)
    {n : Uuid} (hleader : ((s.act env a).nodes n).currentState = .leader) :
    Quorum.Majority (members first)
      (Supports env ((s, a) :: past) ((s.act env a).nodes n).currentTerm n) ∧ n ∈ members first := by
  -- a majority that there was is still there
  have hold : ∀ term, EverLeader past s term n →
      Quorum.Majority (members first) (Supports env ((s, a) :: past) term n) ∧ n ∈ members first := by
    intro term hever
    obtain ⟨hmajority, hmember⟩ := h.leaders term n hever
    exact ⟨hmajority.mono fun _ _ hsupports => hsupports.step s a, hmember⟩
  by_cases hn : n = a.uuid
  · subst hn
    rw [act_nodes_self] at hleader ⊢
    obtain ⟨hterm, hled | ⟨msg, stray, hears, hcmd, hmsg, hmajority⟩⟩ :=
      Node.step_leader env (s.nodes a.uuid) a.input horderly.stepsDown hleader
    · exact hold _ ⟨s, Or.inl rfl, hled, hterm.symm⟩
    · obtain ⟨hballot, hstood, hmember⟩ := h.heard_ballot hw henabled hears hcmd
      refine ⟨(isMajority_plain (hw.plain a.uuid) hfirst hmajority).mono fun voter _ hvoter => ?_, hmember⟩
      change Supports env ((s, a) :: past) ((s.nodes a.uuid).step env a.input).node.currentTerm a.uuid voter
      rw [hterm]
      rcases Finset.mem_insert.mp hvoter with rfl | hmem
      · rw [← hmsg]
        exact hballot.step s a
      · exact (h.tallies a.uuid (hmsg ▸ hstood) voter hmem).step s a
  · rw [act_nodes_other hn] at hleader ⊢
    exact hold _ ⟨s, Or.inl rfl, hleader, rfl⟩

theorem electing_of_run (hfirst : first.entryType = .singleQuorum)
    (run : ((swarm env first).guard (Orderly env)).Run past s) : Electing env first past s := by
  induction run with
  | start hinit =>
      obtain ⟨hnetwork, hnodes⟩ := hinit
      refine ⟨by simp [hnetwork], by simp [hnetwork], ?_, ?_⟩
      · rintro n ⟨step, hs, _⟩
        simp [history, Machine.life] at hs
      · rintro term n ⟨state, rfl | ⟨_, hmem⟩, hleader, _⟩
        · obtain ⟨_, _, _, _, hnode⟩ := hnodes n
          rw [hnode] at hleader
          cases hleader
        · simp at hmem
  | @step past s a run hguard ih =>
      obtain ⟨henabled, horderly⟩ := hguard
      have hw : s.Wired first := wired_of_run hfirst run.of_guard
        fun step hs => (run.guarded step hs).administers
      change Electing env first ((s, a) :: past) (s.act env a)
      constructor
      · intro packet hpacket msg hraft uuid lastLogIndex lastLogTerm hcmd
        rcases mem_act_network hpacket with hold | ⟨effect, hmem, hnew⟩
        · exact (ih.requests packet hold msg hraft _ _ _ hcmd).step s a
        · exact Electing.new_request hmem hnew hraft hcmd horderly.steady.2
      · intro packet hpacket msg hraft hcmd
        rcases mem_act_network hpacket with hold | ⟨effect, hmem, hnew⟩
        · obtain ⟨hsupports, hstood, hmember⟩ := ih.ballots packet hold msg hraft hcmd
          exact ⟨hsupports.step s a, hstood.step s a, hmember⟩
        · exact ih.new_ballot hw hfirst henabled hmem hnew hraft hcmd
      · exact fun n hstood => ih.tally_step hw henabled run horderly n hstood
      · intro term n hever
        rcases everLeader_step_cases hever with hold | ⟨hleader, rfl⟩
        · obtain ⟨hmajority, hmember⟩ := ih.leaders term n hold
          exact ⟨hmajority.mono fun _ _ hsupports => hsupports.step s a, hmember⟩
        · exact ih.leader_step hw hfirst henabled horderly hleader

end Winning

section Safety

-- At most one node has ever led in a term.
def ElectionSafety (past : List (Swarm × Action)) (s : Swarm) : Prop :=
  ∀ term n m, EverLeader past s term n → EverLeader past s term m → n = m

theorem everLeader_unique (hfirst : first.entryType = .singleQuorum)
    (run : ((swarm env first).guard (Orderly env)).Run past s) {term : Nat} {n m : Uuid}
    (hn : EverLeader past s term n) (hm : EverLeader past s term m) : n = m := by
  have h := electing_of_run hfirst run
  have hvotes : ∀ voter, Supports env past term n voter → Supports env past term m voter → n = m :=
    fun voter hvn hvm => voted_unique (steady_history voter run) term n m hvn hvm
  exact @Quorum.winner_unique _ (members first) (fun voter candidate => Supports env past term candidate voter)
    n m hvotes (h.leaders term n hn).1 (h.leaders term m hm).1

theorem electionSafety_of_run (hfirst : first.entryType = .singleQuorum)
    (run : ((swarm env first).guard (Orderly env)).Run past s) : ElectionSafety past s :=
  fun _ _ _ hn hm => everLeader_unique hfirst run hn hm

-- A is elected in term 1. B stands twice, A grants it the vote of term 2 and keeps leading, and
-- with that vote B leads in term 2 as well.
def firstLeader : List Action :=
  [.electionTimeout "A" false 0, .pass "A" "C" (createRequestVoteRequest "A" 1 1 0),
    .pass "C" "A" (createRequestVoteResponse "C" 1 true)]

def twoLeaders : List Action := firstLeader ++
  [.electionTimeout "B" false 0, .electionTimeout "B" false 0,
    .pass "B" "A" (createRequestVoteRequest "B" 2 1 0),
    .pass "A" "B" (createRequestVoteResponse "A" 2 true)]

theorem electionSafety_broken : ¬∀ (env : Env) (first : LogEntry) (past : List (Swarm × Action)) (s : Swarm),
    first.entryType = .singleQuorum →
      ((swarm env first).guard fun _ a => a.administers = false).Run past s → ElectionSafety past s := by
  intro h
  have hrun : (threeMachine.guard fun _ a => a.administers = false).Run
      (threeMachine.replay [] freshSwarm twoLeaders).1 (threeMachine.replay [] freshSwarm twoLeaders).2 := by
    refine (threeMachine_start.replay twoLeaders (by decide +kernel)).guard_of ?_
    decide +kernel
  have ha : EverLeader (threeMachine.replay [] freshSwarm twoLeaders).1
      (threeMachine.replay [] freshSwarm twoLeaders).2 2 "A" :=
    ⟨_, Or.inl rfl, by decide +kernel, by decide +kernel⟩
  have hb : EverLeader (threeMachine.replay [] freshSwarm twoLeaders).1
      (threeMachine.replay [] freshSwarm twoLeaders).2 2 "B" :=
    ⟨_, Or.inl rfl, by decide +kernel, by decide +kernel⟩
  exact absurd (h _ _ _ _ rfl hrun 2 "A" "B" ha hb) (by decide)

theorem electionSafety_of_run_three :
    ((threeMachine.replay [] freshSwarm firstLeader).2.nodes "A").currentState = .leader ∧
      ElectionSafety (threeMachine.replay [] freshSwarm firstLeader).1
        (threeMachine.replay [] freshSwarm firstLeader).2 := by
  refine ⟨by decide +kernel, @electionSafety_of_run openEnv (createDatFile threePeers) _ _ rfl ?_⟩
  refine (threeMachine_start.replay firstLeader (by decide +kernel)).guard_of ?_
  decide +kernel

end Safety

end SwarmDB.Raft
