import SwarmDB.Raft.Swarm

namespace SwarmDB.Raft

-- Nothing in the input is about a change of the quorum.
def Input.Plain : Input → Prop
  | .message msg _ => ∀ prevIndex prevTerm entries entryTerm commitIndex,
    msg.cmd = .appendEntries prevIndex prevTerm entries entryTerm commitIndex →
      (deduceTypeFromMessage entries).isQuorum = false
  | .management msg _ => msg.isMembership = false
  | .appendLog msg entryType =>
    entryType.isQuorum = false ∧ (deduceTypeFromMessage msg).isQuorum = false
  | .electionTimeout .. | .heartbeatTimeout .. => True

theorem RaftLog.PlainAfter.not_joint {first : LogEntry} {log : RaftLog} (h : log.PlainAfter first)
    (hfirst : first.entryType = .singleQuorum) : ¬∃ entry ∈ log.entries, entry.entryType = .jointQuorum := by
  rintro ⟨entry, hmem, hjoint⟩
  obtain ⟨rest, hlog, hplain⟩ := h
  rw [hlog] at hmem
  rcases List.mem_cons.mp hmem with rfl | hmem
  · rw [hfirst] at hjoint
    cases hjoint
  · have hnot := (hplain entry hmem).1
    rw [hjoint] at hnot
    cases hnot

theorem Node.step_plain (env : Env) (node : Node) (input : Input) {first : LogEntry}
    (hfirst : first.entryType = .singleQuorum) (hlog : node.log.PlainAfter first) (hinput : input.Plain) :
    (node.step env input).node.log.PlainAfter first := by
  cases (Node.step_move env node input).log with
  | lead added hlead hcause =>
      refine hlog.append hlead.log_eq fun entry hentry => ?_
      rcases hcause (List.ne_nil_of_mem hentry) with ⟨msg, pick, rfl, hmember⟩ |
        ⟨msg, entryType, rfl, hadded⟩ | hjoint
      · have hnot : msg.isMembership = false := hinput
        rw [hmember] at hnot
        cases hnot
      · obtain ⟨htype, hmsg⟩ := hadded entry hentry
        exact ⟨by rw [htype]; exact hinput.1, by rw [hmsg]; exact hinput.2⟩
      · exact absurd hjoint (hlog.not_joint hfirst)
  | follow msg stray prevIndex prevTerm entries entryTerm commitIndex hears hcmd _ _ _ hnext =>
      obtain rfl := hears.input_eq
      have hplain := hinput prevIndex prevTerm entries entryTerm commitIndex hcmd
      refine hlog.append hnext fun entry hentry => ?_
      obtain rfl : entry = _ := by simpa using hentry
      exact ⟨hplain, hplain⟩

namespace Swarm

-- What the network and the logs look like as long as nobody changes the quorum.
structure Wired (first : LogEntry) (s : Swarm) : Prop where
  uuid : ∀ n, (s.nodes n).uuid = n
  plain : ∀ n, (s.nodes n).log.PlainAfter first
  sender : ∀ packet ∈ s.network, ∀ msg, packet.payload = .raft msg →
    msg.sender = packet.src ∧ packet.src ≠ packet.dst
  entries : ∀ packet ∈ s.network, ∀ msg, packet.payload = .raft msg →
    ∀ prevIndex prevTerm entries entryTerm commitIndex,
      msg.cmd = .appendEntries prevIndex prevTerm entries entryTerm commitIndex →
        (deduceTypeFromMessage entries).isQuorum = false
  management : ∀ packet ∈ s.network, ∀ msg, packet.payload = .management msg →
    msg.isMembership = false ∧ ∀ response, msg = .getPeersResponse response →
      ∀ peers, response.peers = some peers → getAllPeers (startLog first) = .ok peers

variable {env : Env} {first : LogEntry} {s : Swarm} {a : Action}

theorem Wired.input (h : s.Wired first) (hquorum : a.administers = false) (henabled : s.Enabled a) :
    a.input.Plain := by
  cases a with
  | electionTimeout | heartbeatTimeout => trivial
  | appendLog uuid msg => exact ⟨rfl, rfl⟩
  | command uuid msg pick =>
      obtain rfl : msg = .getPeers := by simpa [Action.administers] using hquorum
      rfl
  | deliver packet stray pick =>
      obtain ⟨src, dst, payload⟩ := packet
      cases payload with
      | raft msg => exact h.entries _ henabled msg rfl
      | management msg => exact (h.management _ henabled msg rfl).1

-- A raft message comes in as a packet, and the answer goes back to where that came from.
theorem deliver_of_hears {node : Node} {msg : Message} {stray : Nat → Nat} (henabled : s.Enabled a)
    (hears : node.Hears a.input msg stray) :
    ∃ packet ∈ s.network, packet.payload = .raft msg ∧ packet.dst = a.uuid ∧
      a.session = some packet.src := by
  have hinput := hears.input_eq
  cases a with
  | electionTimeout | heartbeatTimeout | appendLog | command => cases hinput
  | deliver packet stray' pick =>
      refine ⟨packet, henabled, ?_, rfl, rfl⟩
      cases hp : packet.payload with
      | raft heard =>
          simp only [Action.input, hp, Payload.input] at hinput
          rw [(Input.message.inj hinput).1]
      | management heard =>
          simp only [Action.input, hp, Payload.input] at hinput
          cases hinput

theorem Wired.sent (h : s.Wired first) (hnext : ∀ n, ((s.act env a).nodes n).log.PlainAfter first)
    (henabled : s.Enabled a) {effect : Effect} {packet : Packet} {msg : Message}
    (hmem : effect ∈ (s.outcome env a).effects) (hpacket : effect.packet a.uuid a.session = some packet)
    (hraft : packet.payload = .raft msg) :
    (msg.sender = packet.src ∧ packet.src ≠ packet.dst) ∧
      ∀ prevIndex prevTerm entries entryTerm commitIndex,
        msg.cmd = .appendEntries prevIndex prevTerm entries entryTerm commitIndex →
          (deduceTypeFromMessage entries).isQuorum = false := by
  obtain ⟨hmsg, hsrc, hroute⟩ := packet_raft hpacket hraft
  have huuid := h.uuid a.uuid
  -- an answer leaves for the sender of a raft message, which is another node
  have hreply : ∀ heard stray, (s.nodes a.uuid).Hears a.input heard stray → effect = .reply (.raft msg) →
      packet.src ≠ packet.dst := by
    intro heard stray hears heffect
    rcases hroute with hsend | ⟨_, hsession⟩
    · rw [heffect] at hsend
      cases hsend
    · obtain ⟨asked, hasked, hpayload, hdst, hback⟩ := deliver_of_hears henabled hears
      have hother := (h.sender asked hasked heard hpayload).2
      rw [hsession] at hback
      rw [hsrc, ← hdst, Option.some.inj hback]
      exact hother.symm
  have hsend : ∀ peer, peer ≠ (s.nodes a.uuid).uuid → effect = .send peer (.raft msg) →
      packet.src ≠ packet.dst := by
    intro peer hne heffect
    rcases hroute with hroute | ⟨hroute, _⟩
    · rw [heffect] at hroute
      obtain ⟨rfl, _⟩ := Effect.send.inj hroute
      rw [hsrc]
      exact fun heq => hne (by rw [huuid, heq])
    · rw [heffect] at hroute
      cases hroute
  cases (Node.step_move env (s.nodes a.uuid) a.input).sends hmem hmsg with
  | requestVote peer hne _ heffect hsent =>
      refine ⟨⟨by rw [hsent, hsrc]; exact huuid, hsend peer hne heffect⟩, ?_⟩
      intro _ _ _ _ _ hcmd
      rw [hsent] at hcmd
      cases hcmd
  | responseVote heard stray _ _ _ _ hears _ heffect hsent =>
      refine ⟨⟨by rw [hsent, hsrc]; exact huuid, hreply heard stray hears heffect⟩, ?_⟩
      intro _ _ _ _ _ hcmd
      rw [hsent] at hcmd
      cases hcmd
  | appendEntries peer hne heffect hdescribes =>
      refine ⟨⟨?_, hsend peer hne heffect⟩, ?_⟩
      · rw [hdescribes.sender, Node.step_uuid, hsrc, huuid]
      · intro prevIndex prevTerm entries entryTerm commitIndex hcmd
        obtain ⟨_, _, _, _, hcontent, _, hentry⟩ := hdescribes.content
        rw [hcmd] at hcontent
        cases hcontent
        rcases hentry with rfl | ⟨entry, hentry, hcore⟩
        · rfl
        · have hplain := hnext a.uuid
          rw [act_nodes_self] at hplain
          obtain ⟨_, rfl⟩ := Prod.mk.inj hcore
          exact (hplain.mem_tail hentry).2
  | appendEntriesReply heard stray _ _ _ _ _ _ _ hears _ _ _ heffect hsent
  | outOfSync heard stray hears _ heffect hsent =>
      refine ⟨⟨by rw [hsent, hsrc]; exact huuid, hreply heard stray hears heffect⟩, ?_⟩
      intro _ _ _ _ _ hcmd
      rw [hsent] at hcmd
      cases hcmd

-- Nobody is told a list of peers without itself in it, so nobody asks to be added.
theorem Wired.told (h : s.Wired first) (hfirst : first.entryType = .singleQuorum)
    (hquorum : a.administers = false) (henabled : s.Enabled a) {effect : Effect} {packet : Packet}
    {msg : ManagementMessage} (hmem : effect ∈ (s.outcome env a).effects)
    (hpacket : effect.packet a.uuid a.session = some packet) (hpayload : packet.payload = .management msg) :
    msg.isMembership = false ∧ ∀ response, msg = .getPeersResponse response →
      ∀ peers, response.peers = some peers → getAllPeers (startLog first) = .ok peers := by
  have hknows : getAllPeers (s.nodes a.uuid).log = getAllPeers (startLog first) :=
    getAllPeers_plain (h.plain a.uuid) hfirst
  have hinput := h.input hquorum henabled
  obtain ⟨src, dst, payload⟩ := packet
  dsimp only at hpayload
  subst hpayload
  rcases (Node.step_move env (s.nodes a.uuid) a.input).effect_cases hmem with
    ⟨sent, hsent⟩ | ⟨index, entry, rfl⟩ | hgossip
  · -- a raft message is not a command
    unfold Effect.raftMessage at hsent
    split at hsent
    · simp [Effect.packet, Payload.ofWire] at hpacket
    · simp [Effect.packet, Payload.ofWire, Option.bind_eq_some_iff] at hpacket
    · cases hsent
  · cases hpacket
  · cases hgossip with
    | close => cases hpacket
    | success command message request pick hrequest hmember =>
        rw [hrequest] at hinput
        have hnot : request.isMembership = false := hinput
        rw [hmember] at hnot
        cases hnot
    | error message => simp [Effect.packet, Payload.ofWire] at hpacket
    | ask peer =>
        simp only [Effect.packet, Payload.ofWire, Option.map_some, Option.some.injEq, Packet.mk.injEq,
          Payload.management.injEq] at hpacket
        obtain ⟨_, _, rfl⟩ := hpacket
        exact ⟨rfl, by simp⟩
    | tell response hpeers =>
        simp only [Effect.packet, Payload.ofWire, Option.map_some, Option.bind_eq_some_iff,
          Option.some.injEq, Packet.mk.injEq, Payload.management.injEq] at hpacket
        obtain ⟨_, _, _, _, rfl⟩ := hpacket
        refine ⟨rfl, fun other hother peers hsome => ?_⟩
        obtain rfl := ManagementMessage.getPeersResponse.inj hother
        rw [← hknows]
        exact hpeers peers hsome
    | join peer request response pick told known hrequest htold hknown habsent hself =>
        have htrue : getAllPeers (startLog first) = .ok told := by
          cases a with
          | electionTimeout | heartbeatTimeout | appendLog => cases hrequest
          | command uuid asked picked =>
              obtain rfl : asked = .getPeers := by simpa [Action.administers] using hquorum
              cases hrequest
          | deliver packet stray picked =>
              obtain ⟨src', dst', payload⟩ := packet
              cases payload with
              | raft heard => cases hrequest
              | management heard =>
                  obtain ⟨rfl, _⟩ := Input.management.inj hrequest
                  exact (h.management _ henabled _ rfl).2 response rfl told htold
        rw [hknows, htrue] at hknown
        obtain rfl := Except.ok.inj hknown
        obtain ⟨self, hmem', hmine⟩ := hself
        exact absurd hmine (habsent self hmem')

theorem Wired.step (h : s.Wired first) (hfirst : first.entryType = .singleQuorum)
    (hquorum : a.administers = false) (henabled : s.Enabled a) : (s.act env a).Wired first := by
  have hplain : ∀ n, ((s.act env a).nodes n).log.PlainAfter first := by
    intro n
    rcases act_nodes_cases env s a n with ⟨rfl, hself⟩ | hother
    · rw [hself]
      exact Node.step_plain env _ _ hfirst (h.plain a.uuid) (h.input hquorum henabled)
    · rw [hother]
      exact h.plain n
  constructor
  · intro n
    rcases act_nodes_cases env s a n with ⟨rfl, hself⟩ | hother
    · rw [hself, ← h.uuid a.uuid]
      exact (Node.step_uuid env _ _).trans (by rw [h.uuid])
    · rw [hother]
      exact h.uuid n
  · exact hplain
  · intro packet hpacket msg hraft
    rcases mem_act_network hpacket with hold | ⟨effect, hmem, hnew⟩
    · exact h.sender packet hold msg hraft
    · exact (h.sent hplain henabled hmem hnew hraft).1
  · intro packet hpacket msg hraft
    rcases mem_act_network hpacket with hold | ⟨effect, hmem, hnew⟩
    · exact h.entries packet hold msg hraft
    · exact (h.sent hplain henabled hmem hnew hraft).2
  · intro packet hpacket msg hmsg
    rcases mem_act_network hpacket with hold | ⟨effect, hmem, hnew⟩
    · exact h.management packet hold msg hmsg
    · exact h.told hfirst hquorum henabled hmem hnew hmsg

theorem wired_of_run {past : List (Swarm × Action)} (hfirst : first.entryType = .singleQuorum)
    (run : (swarm env first).Run past s) (hquorum : ∀ step ∈ past, step.2.administers = false) :
    s.Wired first := by
  induction run with
  | start hinit =>
      obtain ⟨hnetwork, hnodes⟩ := hinit
      constructor
      · intro n
        obtain ⟨_, _, _, _, hnode⟩ := hnodes n
        rw [hnode]
        rfl
      · intro n
        obtain ⟨_, _, _, _, hnode⟩ := hnodes n
        rw [hnode]
        exact startLog_plain first
      all_goals simp [hnetwork]
  | step run henabled ih =>
      exact (ih fun step hs => hquorum step (List.mem_cons_of_mem _ hs)).step hfirst
        (hquorum _ List.mem_cons_self) henabled

end Swarm

end SwarmDB.Raft
