import SwarmDB.Raft.Swarm.Election

namespace SwarmDB.Raft

open Swarm ReplicatedLog

variable {env : Env} {first : LogEntry} {past : List (Swarm × Action)} {s : Swarm} {a : Action}

-- The log of a node, as far as replication carries it.
def Swarm.cores (s : Swarm) (n : Uuid) : List (Nat × JsonMessage) :=
  (s.nodes n).log.entries.map LogEntry.core

section Growth

theorem cores_getElem? {n : Uuid} {i : Nat} {entry : LogEntry}
    (h : (s.nodes n).log.entries[i]? = some entry) : (s.cores n)[i]? = some entry.core := by
  rw [cores, List.getElem?_map, h]
  rfl

theorem cores_length (s : Swarm) (n : Uuid) : (s.cores n).length = (s.nodes n).log.size := by
  simp [cores, RaftLog.size]

theorem cores_self (env : Env) (s : Swarm) (a : Action) :
    (s.act env a).cores a.uuid = (s.outcome env a).node.log.entries.map LogEntry.core := by
  rw [cores, act_nodes_self]

theorem cores_other (env : Env) {n : Uuid} (h : n ≠ a.uuid) : (s.act env a).cores n = s.cores n := by
  rw [cores, act_nodes_other h, cores]

theorem cores_grow (env : Env) (s : Swarm) (a : Action) (n : Uuid) : s.cores n <+: (s.act env a).cores n := by
  by_cases h : n = a.uuid
  · subst h
    rw [cores_self]
    exact (Node.step_log_grows env (s.nodes a.uuid) a.input).map LogEntry.core
  · rw [cores_other env h]

theorem commitIndex_grows (env : Env) (s : Swarm) (a : Action) (n : Uuid) :
    (s.nodes n).commitIndex ≤ ((s.act env a).nodes n).commitIndex := by
  rcases act_nodes_cases env s a n with ⟨rfl, hself⟩ | hother
  · obtain ⟨count, hcommits⟩ := (Node.step_move env (s.nodes a.uuid) a.input).commits
    have hindex : (s.outcome env a).node.commitIndex = _ := hcommits.index_eq
    rw [hself, hindex]
    omega
  · rw [hother]

end Growth

section Snapshots

-- An AppendEntries on the network tells what stands in its sender's log.
def Described (s : Swarm) : Prop :=
  ∀ packet ∈ s.network, ∀ msg, packet.payload = .raft msg →
    ∀ prevIndex prevTerm entries entryTerm commitIndex,
      msg.cmd = .appendEntries prevIndex prevTerm entries entryTerm commitIndex →
      (∃ prev, (s.cores packet.src)[prevIndex]? = some (prevTerm, prev)) ∧
        (entries = .null ∨ (s.cores packet.src)[prevIndex + 1]? = some (entryTerm, entries)) ∧
        commitIndex ≤ (s.nodes packet.src).commitIndex

theorem described_sent {effect : Effect} {packet : Packet} {msg : Message}
    (hmem : effect ∈ (s.outcome env a).effects) (hnew : effect.packet a.uuid a.session = some packet)
    (hraft : packet.payload = .raft msg) {prevIndex prevTerm : Nat} {entries : JsonMessage}
    {entryTerm commitIndex : Nat}
    (hcmd : msg.cmd = .appendEntries prevIndex prevTerm entries entryTerm commitIndex) :
    (∃ prev, ((s.act env a).cores packet.src)[prevIndex]? = some (prevTerm, prev)) ∧
      (entries = .null ∨ ((s.act env a).cores packet.src)[prevIndex + 1]? = some (entryTerm, entries)) ∧
      commitIndex ≤ ((s.act env a).nodes packet.src).commitIndex := by
  obtain ⟨hmsg, hsrc, _⟩ := packet_raft hnew hraft
  cases (Node.step_move env (s.nodes a.uuid) a.input).sends hmem hmsg with
  | requestVote _ _ _ _ hsent | responseVote _ _ _ _ _ _ _ _ _ hsent
  | appendEntriesReply _ _ _ _ _ _ _ _ _ _ _ _ _ _ hsent | outOfSync _ _ _ _ _ hsent =>
      rw [hsent] at hcmd
      cases hcmd
  | appendEntries peer hne heffect hdescribes =>
      obtain ⟨_, prev, _, _, hcontent, hprev, hentry⟩ := hdescribes.content
      rw [hcmd] at hcontent
      cases hcontent
      rw [hsrc, cores_self, act_nodes_self, List.getElem?_map, List.getElem?_map]
      refine ⟨⟨prev.msg, ?_⟩, ?_, le_refl _⟩
      · change Option.map _ ((s.nodes a.uuid).step env a.input).node.log.entries[prevIndex]? = _
        rw [hprev]
        rfl
      · rcases hentry with rfl | ⟨entry, hentry, hcore⟩
        · exact Or.inl rfl
        · right
          change Option.map _ ((s.nodes a.uuid).step env a.input).node.log.entries[prevIndex + 1]? = _
          rw [hentry, ← hcore]
          rfl

-- What it tells about the log alone. A sender that starts again keeps to that.
def Quoted (s : Swarm) : Prop :=
  ∀ packet ∈ s.network, ∀ msg, packet.payload = .raft msg →
    ∀ prevIndex prevTerm entries entryTerm commitIndex,
      msg.cmd = .appendEntries prevIndex prevTerm entries entryTerm commitIndex →
      (∃ prev, (s.cores packet.src)[prevIndex]? = some (prevTerm, prev)) ∧
        (entries = .null ∨ (s.cores packet.src)[prevIndex + 1]? = some (entryTerm, entries))

theorem Described.quoted (h : Described s) : Quoted s := by
  intro packet hpacket msg hraft prevIndex prevTerm entries entryTerm commitIndex hcmd
  obtain ⟨hprev, hentry, _⟩ := h packet hpacket msg hraft _ _ _ _ _ hcmd
  exact ⟨hprev, hentry⟩

theorem Quoted.grow {t : Swarm} (h : Quoted s) (hnetwork : t.network = s.network)
    (hgrown : ∀ n, s.cores n <+: t.cores n) : Quoted t := by
  intro packet hpacket msg hraft prevIndex prevTerm entries entryTerm commitIndex hcmd
  rw [hnetwork] at hpacket
  obtain ⟨⟨prev, hprev⟩, hentry⟩ := h packet hpacket msg hraft _ _ _ _ _ hcmd
  refine ⟨⟨prev, getElem?_of_grown (hgrown packet.src) hprev⟩, ?_⟩
  rcases hentry with hnull | hentry
  · exact Or.inl hnull
  · exact Or.inr (getElem?_of_grown (hgrown packet.src) hentry)

theorem Quoted.act (h : Quoted s) (env : Env) (a : Action) : Quoted (s.act env a) := by
  have hkept : Quoted { s.act env a with network := s.network } := h.grow rfl (cores_grow env s a)
  intro packet hpacket msg hraft prevIndex prevTerm entries entryTerm commitIndex hcmd
  rcases mem_act_network hpacket with hold | ⟨effect, hmem, hnew⟩
  · exact hkept packet hold msg hraft _ _ _ _ _ hcmd
  · obtain ⟨hprev, hentry, _⟩ := described_sent hmem hnew hraft hcmd
    exact ⟨hprev, hentry⟩

theorem described_of_run (run : (swarm env first).Run past s) : Described s := by
  induction run with
  | start hinit =>
      intro packet hpacket
      simp [hinit.1] at hpacket
  | @step past s a _ _ ih =>
      intro packet hpacket msg hraft prevIndex prevTerm entries entryTerm commitIndex hcmd
      rcases mem_act_network hpacket with hold | ⟨effect, hmem, hnew⟩
      · obtain ⟨⟨prev, hprev⟩, hentry, hcommit⟩ := ih packet hold msg hraft _ _ _ _ _ hcmd
        have hgrown := cores_grow env s a packet.src
        refine ⟨⟨prev, getElem?_of_grown hgrown hprev⟩, ?_,
          hcommit.trans (commitIndex_grows env s a packet.src)⟩
        rcases hentry with hnull | hentry
        · exact Or.inl hnull
        · exact Or.inr (getElem?_of_grown hgrown hentry)
      · exact described_sent hmem hnew hraft hcmd

theorem cores_root (run : (swarm env first).Run past s) (n : Uuid) : (s.cores n).take 1 = [first.core] := by
  induction run with
  | start hinit =>
      rw [cores, start_entries (hinit.2 n)]
      rfl
  | @step past s a _ _ ih =>
      have hlen : 1 ≤ (s.cores n).length := by
        rw [cores_length]
        exact (s.nodes n).log.size_pos
      exact (take_of_grown (cores_grow env s a n) hlen).trans ih

end Snapshots

section Matching

-- Every entry was put into the log of a leader of its term, behind the same entries.
abbrev LedLogs (past : List (Swarm × Action)) (s : Swarm) : Prop :=
  Rooted Prod.fst (EverLeader past s) s.cores

-- Two logs with the same term at the same index agree up to there.
theorem LedLogs.matching (h : LedLogs past s) (run : (swarm env first).Run past s)
    (hleaders : ElectionSafety past s) {n m : Uuid} {i term : Nat} {msg msg' : JsonMessage}
    (hn : (s.cores n)[i]? = some (term, msg)) (hm : (s.cores m)[i]? = some (term, msg')) :
    (s.cores n).take (i + 1) = (s.cores m).take (i + 1) :=
  Rooted.matching h (fun n m => (cores_root run n).trans (cores_root run m).symm) hleaders hn hm rfl

-- What an AppendEntries leaves of the log: all of it, or that with the entry it carries.
def Continues (log next : RaftLog) (prevIndex : Nat) (entries : JsonMessage) (entryTerm : Nat) : Prop :=
  next.entries = log.entries ∨ (entries.isEmpty = false ∧ next.entries =
    log.entries ++ [⟨deduceTypeFromMessage entries, prevIndex + 1, entryTerm, entries⟩])

-- A follower that accepts an AppendEntries comes to hold the beginning of its sender's log.
theorem accepted_follows (hquoted : Quoted s)
    (hmatching : ∀ {n m : Uuid} {i term : Nat} {msg msg' : JsonMessage},
      (s.cores n)[i]? = some (term, msg) → (s.cores m)[i]? = some (term, msg') →
        (s.cores n).take (i + 1) = (s.cores m).take (i + 1))
    (henabled : s.Enabled a) {msg : Message} {stray : Nat → Nat}
    {prevIndex prevTerm : Nat} {entries : JsonMessage} {entryTerm commitIndex : Nat}
    (hears : (s.nodes a.uuid).Hears a.input msg stray)
    (hcmd : msg.cmd = .appendEntries prevIndex prevTerm entries entryTerm commitIndex)
    (haccepted : (s.nodes a.uuid).log.entryAccepted prevIndex prevTerm (stray prevIndex) = true)
    (hend : prevIndex + 1 = (s.nodes a.uuid).log.size)
    (hnext : Continues (s.nodes a.uuid).log (s.outcome env a).node.log prevIndex entries entryTerm) :
    ∃ packet ∈ s.network, packet.payload = .raft msg ∧ a.session = some packet.src ∧
      (s.act env a).cores a.uuid <+: s.cores packet.src := by
  obtain ⟨packet, hpacket, hpayload, hdst, hback⟩ := deliver_of_hears henabled hears
  obtain ⟨⟨prev, hprev⟩, hentry⟩ := hquoted packet hpacket msg hpayload _ _ _ _ _ hcmd
  have hlen : (s.cores a.uuid).length = prevIndex + 1 := by
    rw [cores_length]
    exact hend.symm
  have hagree : (s.cores packet.src).take (prevIndex + 1) = s.cores a.uuid := by
    rcases RaftLog.entryAccepted_cases _ _ _ _ haccepted with ⟨_, last, hlast, hterm⟩ | ⟨hbeyond, _⟩
    · have hmine := cores_getElem? hlast
      rw [LogEntry.core, hterm] at hmine
      rw [hmatching hprev hmine, ← hlen, List.take_length]
    · omega
  refine ⟨packet, hpacket, hpayload, hback, ?_⟩
  rw [cores_self]
  rcases hnext with hsame | ⟨hentries, hmore⟩
  · have hkept : s.cores a.uuid <+: s.cores packet.src := hagree ▸ List.take_prefix _ _
    rw [hsame]
    exact hkept
  · have hsent : (s.cores packet.src)[prevIndex + 1]? = some (entryTerm, entries) := by
      rcases hentry with rfl | hentry
      · cases hentries
      · exact hentry
    have htake : (s.cores packet.src).take (prevIndex + 1 + 1) = s.cores a.uuid ++ [(entryTerm, entries)] := by
      rw [List.take_add_one, hagree, hsent]
      rfl
    have hlonger : s.cores a.uuid ++ [(entryTerm, entries)] <+: s.cores packet.src :=
      htake ▸ List.take_prefix _ _
    rw [hmore, List.map_append]
    exact hlonger

-- A step keeps every entry rooted in the log of a leader of its term.
theorem rooted_act {led led' : Nat → Uuid → Prop} (h : Rooted Prod.fst led s.cores) (hquoted : Quoted s)
    (hroot : ∀ n m, (s.cores n).take 1 = (s.cores m).take 1)
    (hunique : ∀ term n m, led term n → led term m → n = m)
    (hmono : ∀ term n, led term n → led' term n)
    (hleads : (s.nodes a.uuid).currentState = .leader → led' (s.nodes a.uuid).currentTerm a.uuid)
    (henabled : s.Enabled a) : Rooted Prod.fst led' (s.act env a).cores := by
  refine h.grow (fun n => cores_grow env s a n) hmono ?_
  intro n i e hi he
  by_cases hn : n = a.uuid
  · subst hn
    rw [cores_length] at hi
    rw [cores_self] at he
    cases (Node.step_move env (s.nodes a.uuid) a.input).log with
    | lead added hlead _ =>
        -- the new entries are the leader's own
        left
        have hlog : (s.outcome env a).node.log.entries = _ := hlead.log_eq
        have hi' : ((s.nodes a.uuid).log.entries.map LogEntry.core).length ≤ i := by
          rw [List.length_map]
          exact hi
        rw [hlog, List.map_append, List.getElem?_append_right hi', List.getElem?_map,
          Option.map_eq_some_iff] at he
        obtain ⟨entry, hentry, rfl⟩ := he
        have hterm : entry.core.1 = _ := (hlead.fresh _ entry hentry).1
        rw [hterm]
        exact hleads (hlead.leads (List.ne_nil_of_mem (List.mem_of_getElem? hentry)))
    | follow msg stray prevIndex prevTerm entries entryTerm commitIndex hears hcmd haccepted hentries
        hend hlog =>
        -- the new entry comes with the sender's log before it
        right
        obtain ⟨packet, _, _, _, hgrown⟩ := accepted_follows hquoted
          (fun hn hm => Rooted.matching h hroot hunique hn hm rfl) henabled hears hcmd haccepted hend
          (Or.inr ⟨hentries, hlog⟩)
        have hlt : i < ((s.act env a).cores a.uuid).length := by
          rw [cores_self]
          exact (List.getElem?_eq_some_iff.mp he).1
        exact ⟨packet.src, hlt.trans_le hgrown.length_le, take_of_grown hgrown hlt⟩
  · rw [cores_other env hn] at he
    have hlt := (List.getElem?_eq_some_iff.mp he).1
    omega

theorem ledLogs_of_run (run : (swarm env first).Run past s) (hleaders : ElectionSafety past s) :
    LedLogs past s := by
  induction run with
  | start hinit =>
      intro n i e he
      have hlt := (List.getElem?_eq_some_iff.mp he).1
      rw [cores_length, RaftLog.size, start_entries (hinit.2 n)] at hlt
      have hone : i < 1 := hlt
      exact Or.inl (by omega)
  | @step past s a run henabled ih =>
      have hbefore : ElectionSafety past s := fun term n m hn hm =>
        hleaders term n m (hn.step a _) (hm.step a _)
      refine rooted_act (ih hbefore) (described_of_run run).quoted
        (fun n m => (cores_root run n).trans (cores_root run m).symm) hbefore
        (fun term n hn => hn.step a _) ?_ henabled
      intro hleader
      exact EverLeader.step ⟨s, Or.inl rfl, hleader, rfl⟩ a _

-- Where two logs hold the same term they hold the same terms and messages up to there.
def LogMatching (s : Swarm) : Prop :=
  ∀ (n m : Uuid) (i : Nat) (entry entry' : LogEntry), (s.nodes n).log.entries[i]? = some entry →
    (s.nodes m).log.entries[i]? = some entry' → entry.term = entry'.term →
      ∀ j ≤ i, ∃ e e' : LogEntry, (s.nodes n).log.entries[j]? = some e ∧ (s.nodes m).log.entries[j]? = some e' ∧
        e.term = e'.term ∧ e.msg = e'.msg

theorem logMatching_of_run (run : (swarm env first).Run past s) (hleaders : ElectionSafety past s) :
    LogMatching s := by
  intro n m i entry entry' hn hm hterm j hj
  have hcore := cores_getElem? hm
  rw [LogEntry.core, ← hterm] at hcore
  have hagree := (ledLogs_of_run run hleaders).matching run hleaders (cores_getElem? hn) hcore
  have hsame := getElem?_of_take_eq hagree (show j < i + 1 by omega)
  have hlt : j < (s.nodes n).log.entries.length := by
    have := (List.getElem?_eq_some_iff.mp hn).1
    omega
  have hlt' : j < (s.nodes m).log.entries.length := by
    have := (List.getElem?_eq_some_iff.mp hm).1
    omega
  rw [cores_getElem? (List.getElem?_eq_getElem hlt), cores_getElem? (List.getElem?_eq_getElem hlt')] at hsame
  obtain ⟨hterms, hmsgs⟩ := Prod.mk.inj (Option.some.inj hsame)
  exact ⟨_, _, List.getElem?_eq_getElem hlt, List.getElem?_eq_getElem hlt', hterms, hmsgs⟩

-- A gets an entry to C.
def oneEntry : List Action := firstLeader ++
  [.appendLog "A" "x", .heartbeatTimeout "A" false,
    .pass "A" "C" (createAppendEntriesRequest "A" 1 1 0 0 1 (.database "x")),
    .pass "C" "A" (createAppendEntriesResponse "C" 1 true 2)]

theorem oneEntry_orderly : ((swarm openEnv (createDatFile threePeers)).guard (Orderly openEnv)).Run
    (threeMachine.replay [] freshSwarm oneEntry).1 (threeMachine.replay [] freshSwarm oneEntry).2 := by
  refine (threeMachine_start.replay oneEntry (by decide +kernel)).guard_of ?_
  decide +kernel

theorem logMatching_of_run_three :
    ((threeMachine.replay [] freshSwarm oneEntry).2.nodes "C").log.size = 2 ∧
      LogMatching (threeMachine.replay [] freshSwarm oneEntry).2 :=
  ⟨by decide +kernel, logMatching_of_run oneEntry_orderly.of_guard
    fun _ _ _ hn hm => everLeader_unique rfl oneEntry_orderly hn hm⟩

end Matching

end SwarmDB.Raft
