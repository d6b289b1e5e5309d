import SwarmDB.Raft.Node.Tracking
import SwarmDB.Raft.Restart.Alternation

namespace SwarmDB.Raft

open ReplicatedLog

-- The peers of the single quorum that goes on from a joint one at this place.
def RaftLog.promotes (log : RaftLog) (i : Nat) : List PeerJson :=
  match log.entries[i]? with
  | some ⟨.jointQuorum, _, _, .jointQuorum _ new⟩ => new.getD []
  | _ => []

namespace Node

-- A node keeps some match index for these peers.
def Tracks (node : Node) (peers : List PeerJson) : Prop :=
  ∀ peer ∈ peers, peer.uuidText = node.uuid ∨ (node.peerMatchIndex peer.uuidText).isSome = true

instance (node : Node) (peers : List PeerJson) : Decidable (node.Tracks peers) :=
  inferInstanceAs (Decidable (∀ peer ∈ peers, _))

instance (node : Node) (peers : List PeerJson) : Decidable (node.Reaches peers) :=
  inferInstanceAs (Decidable (∀ peer ∈ peers, _))

-- A node is elected over a quorum with a peer that it keeps no match index for.
def ElectedBlind (env : Env) (node : Node) (input : Input) : Prop :=
  node.currentState ≠ .leader ∧ (node.step env input).node.currentState = .leader ∧ ¬node.Tracks node.log.listed

instance (env : Env) (node : Node) (input : Input) : Decidable (node.ElectedBlind env input) :=
  inferInstanceAs (Decidable (_ ∧ _ ∧ _))

-- A leader goes on from a joint quorum to one with such a peer.
def PromotesBlind (env : Env) (node : Node) (input : Input) : Prop :=
  node.currentState = .leader ∧ ∃ i < (node.step env input).node.commitIndex, node.commitIndex ≤ i ∧
    ¬node.Reaches (node.log.promotes i)

instance (env : Env) (node : Node) (input : Input) : Decidable (node.PromotesBlind env input) :=
  inferInstanceAs (Decidable (_ ∧ _))

variable {env : Env} {node : Node} {input : Input} {entry : LogEntry}

theorem lastQuorumEntry_mem {log : RaftLog} (h : log.lastQuorumEntry = .ok entry) :
    entry ∈ log.entries ∧ entry.entryType.isQuorum = true := by
  obtain ⟨_, hquorum, hmem⟩ := lastQuorum_of_entry h
  exact ⟨hmem, hquorum⟩

-- The last quorum entry of a longer log is one of the new entries, or the one from before.
theorem lastQuorumEntry_grown {log next : RaftLog} {added : List LogEntry}
    (hlog : next.entries = log.entries ++ added) (h : next.lastQuorumEntry = .ok entry) :
    entry ∈ added ∨ log.lastQuorumEntry = .ok entry := by
  unfold RaftLog.lastQuorumEntry at h ⊢
  rw [hlog, List.reverse_append, List.find?_append] at h
  cases hnew : added.reverse.find? (fun entry => entry.entryType.isQuorum) with
  | some found =>
      rw [hnew] at h
      obtain rfl := Except.ok.inj h
      exact Or.inl (List.mem_reverse.mp (List.mem_of_find?_eq_some hnew))
  | none =>
      rw [hnew, Option.none_or] at h
      exact Or.inr h

theorem listed_of_last {log : RaftLog} (h : log.lastQuorumEntry = .ok entry) {peers : List PeerJson}
    (hpeers : listedPeers entry = .ok peers) : log.listed = peers := by
  unfold RaftLog.listed
  rw [h]
  dsimp only
  rw [hpeers]

-- The list a leader starts a change from is the one its last quorum entry has.
theorem listed_single {log : RaftLog} (hproper : ∀ entry ∈ log.entries, entry.Proper)
    (h : log.lastQuorumEntry = .ok entry) (hsingle : entry.entryType ≠ .jointQuorum) {old : Option (List PeerJson)}
    (hold : entry.msg.peers = .ok old) :
    log.listed = old.getD [] ∧ ((old.getD []).map PeerJson.uuidText).Nodup := by
  obtain ⟨hmem, hquorum⟩ := lastQuorumEntry_mem h
  cases htype : entry.entryType with
  | singleQuorum =>
      obtain ⟨peers, hmsg⟩ := (hproper entry hmem).single htype
      have hdistinct := (hproper entry hmem).distinct
      rw [hmsg] at hold hdistinct
      obtain rfl := Except.ok.inj hold
      refine ⟨listed_of_last h ?_, hdistinct⟩
      unfold listedPeers
      rw [htype, hmsg]
      rfl
  | jointQuorum => exact absurd htype hsingle
  | database | undefined =>
      rw [htype] at hquorum
      cases hquorum

-- Each way for an entry to come into the log keeps its lists in order.
theorem Origin.proper (h : node.Origin env input entry) (hproper : ∀ entry ∈ node.log.entries, entry.Proper)
    (hrequest : ∀ msg entryType, input = .appendLog msg entryType →
      ∃ text, entryType = .database ∧ msg = .database text)
    (hcopied : ∀ msg stray prevIndex prevTerm entries entryTerm commitIndex, node.Hears input msg stray →
      msg.cmd = .appendEntries prevIndex prevTerm entries entryTerm commitIndex → entries.Distinct) :
    entry.Proper := by
  cases h with
  | request hinput =>
      obtain ⟨text, htype, hmsg⟩ := hrequest _ _ hinput
      refine ⟨?_, ?_, ?_⟩
      · rw [hmsg]
        exact trivial
      · intro hsingle
        rw [htype] at hsingle
        cases hsingle
      · intro hjoint
        rw [htype] at hjoint
        cases hjoint
  | added peer last old hadds htype hmsg =>
      obtain ⟨_, hold⟩ := listed_single hproper hadds.last_eq hadds.single hadds.old_eq
      refine ⟨?_, ?_, fun _ => ⟨_, _, hmsg⟩⟩
      · rw [hmsg]
        refine ⟨hold, ?_, ?_⟩
        · rw [Option.getD_some, List.map_append, List.nodup_append]
          refine ⟨hold, List.nodup_singleton _, ?_⟩
          intro uuid huuid other hother
          obtain ⟨known, hknown, rfl⟩ := List.mem_map.mp huuid
          rw [List.mem_singleton.mp hother]
          exact hadds.absent known hknown
        · intro known hknown other hother huuid
          rcases List.mem_append.mp hother with hother | hother
          · exact unambiguous_of_nodup hold known hknown other hother huuid
          · rw [List.mem_singleton.mp hother] at huuid
            exact absurd huuid (hadds.absent known hknown)
      · intro hsingle
        rw [htype] at hsingle
        cases hsingle
  | removed uuid last old new hremoves htype hmsg =>
      obtain ⟨_, hold⟩ := listed_single hproper hremoves.last_eq hremoves.single hremoves.old_eq
      refine ⟨?_, ?_, fun _ => ⟨_, _, hmsg⟩⟩
      · rw [hmsg]
        refine ⟨hold, ?_, ?_⟩
        · rw [hremoves.new_eq]
          exact hold.sublist (List.filter_sublist.map _)
        · intro known hknown other hother huuid
          rw [hremoves.new_eq] at hother
          exact unambiguous_of_nodup hold known hknown other (List.mem_of_mem_filter hother) huuid
      · intro hsingle
        rw [htype] at hsingle
        cases hsingle
  | promoted _ hpromoted =>
      obtain ⟨htype, i, source, _, _, hsource, hjoint, hmsg⟩ := hpromoted
      have hsourceproper := hproper source (List.mem_of_getElem? hsource)
      obtain ⟨old, new, hform⟩ := hsourceproper.joint hjoint
      have hdistinct := hsourceproper.distinct
      rw [hform] at hmsg hdistinct
      have hmsg : entry.msg = .singleQuorum new := (Except.ok.inj hmsg).symm
      refine ⟨?_, fun _ => ⟨new, hmsg⟩, ?_⟩
      · rw [hmsg]
        exact hdistinct.2.1
      · intro hother
        rw [htype] at hother
        cases hother
  | copied msg stray prevIndex prevTerm entries entryTerm commitIndex _ hears hcmd hentry =>
      rw [hentry]
      exact proper_of_deduced (hcopied msg stray _ _ _ _ _ hears hcmd) _ _

theorem listedPeers_joint {old new : Option (List PeerJson)} (htype : entry.entryType = .jointQuorum)
    (hmsg : entry.msg = .jointQuorum old new) : listedPeers entry = .ok (old.getD [] ++ new.getD []) := by
  unfold listedPeers
  rw [htype, hmsg]
  rfl

-- A leader that starts a change, or goes on from one, reaches the peers it names.
theorem Origin.reaches (h : node.Origin env input entry) (hleader : node.currentState = .leader)
    (hquorum : entry.entryType.isQuorum = true) (hproper : ∀ entry ∈ node.log.entries, entry.Proper)
    (hrequest : ∀ msg entryType, input = .appendLog msg entryType →
      ∃ text, entryType = .database ∧ msg = .database text)
    (hreached : node.Reaches node.log.listed) (hpromotes : ¬node.PromotesBlind env input)
    (hkept : ∀ peer, 1 ≤ node.matchIndexOf peer → 1 ≤ (node.step env input).node.matchIndexOf peer) :
    ∃ peers, listedPeers entry = .ok peers ∧ (node.step env input).node.Reaches peers := by
  have hstays : ∀ peers, node.Reaches peers → (node.step env input).node.Reaches peers := by
    intro peers hpeers peer hpeer
    rw [step_uuid]
    exact (hpeers peer hpeer).imp_right (hkept _)
  cases h with
  | request hinput =>
      obtain ⟨text, htype, _⟩ := hrequest _ _ hinput
      rw [htype] at hquorum
      cases hquorum
  | added added last old hadds htype hmsg =>
      obtain ⟨hlisted, _⟩ := listed_single hproper hadds.last_eq hadds.single hadds.old_eq
      rw [hlisted] at hreached
      refine ⟨_, listedPeers_joint htype hmsg, ?_⟩
      have hold := hstays _ hreached
      intro peer hpeer
      rcases List.mem_append.mp hpeer with hpeer | hpeer
      · exact hold peer hpeer
      · rcases List.mem_append.mp hpeer with hpeer | hpeer
        · exact hold peer hpeer
        · right
          rw [List.mem_singleton.mp hpeer, hadds.next_eq]
          show 1 ≤ (node.setMatchIndex added.uuidText 1).matchIndexOf added.uuidText
          rw [matchIndexOf, setMatchIndex_self, Option.getD_some]
  | removed uuid last old new hremoves htype hmsg =>
      obtain ⟨hlisted, _⟩ := listed_single hproper hremoves.last_eq hremoves.single hremoves.old_eq
      rw [hlisted] at hreached
      refine ⟨_, listedPeers_joint htype hmsg, ?_⟩
      have hold := hstays _ hreached
      intro peer hpeer
      rcases List.mem_append.mp hpeer with hpeer | hpeer
      · exact hold peer hpeer
      · rw [hremoves.new_eq] at hpeer
        exact hold peer (List.mem_of_mem_filter hpeer)
  | promoted _ hpromoted =>
      obtain ⟨htype, i, source, hi, hlt, hsource, hjoint, hmsg⟩ := hpromoted
      obtain ⟨old, new, hform⟩ := (hproper source (List.mem_of_getElem? hsource)).joint hjoint
      rw [hform] at hmsg
      have hmsg : entry.msg = .singleQuorum new := (Except.ok.inj hmsg).symm
      have hnew : node.log.promotes i = new.getD [] := by
        obtain ⟨_, _, _, _⟩ := source
        subst hjoint hform
        unfold RaftLog.promotes
        rw [hsource]
      refine ⟨new.getD [], ?_, hstays _ ?_⟩
      · unfold listedPeers
        rw [htype, hmsg]
        rfl
      · rw [← hnew]
        by_contra hblind
        exact hpromotes ⟨hleader, i, hlt, hi, hblind⟩
  | copied _ _ _ _ _ _ _ hfollower =>
      rw [hfollower] at hleader
      cases hleader

theorem step_reaches (hleads : (node.step env input).node.currentState = .leader)
    (hproper : ∀ entry ∈ node.log.entries, entry.Proper)
    (hrequest : ∀ msg entryType, input = .appendLog msg entryType →
      ∃ text, entryType = .database ∧ msg = .database text)
    (hreply : ∀ msg stray success matchIndex, node.Hears input msg stray →
      msg.cmd = .appendEntriesReply success matchIndex → 1 ≤ matchIndex)
    (hreached : node.currentState = .leader → node.Reaches node.log.listed)
    (helected : ¬node.ElectedBlind env input) (hpromotes : ¬node.PromotesBlind env input) :
    (node.step env input).node.Reaches (node.step env input).node.log.listed := by
  rcases step_leads hleads hreply with ⟨hleader, hkept⟩ | ⟨hother, hlog, hkept⟩
  · have hbefore := hreached hleader
    obtain ⟨added, hlog, horigin⟩ := step_origin env node input
    cases hlast : (node.step env input).node.log.lastQuorumEntry with
    | error e =>
        have hnone : (node.step env input).node.log.listed = [] := by
          unfold RaftLog.listed
          rw [hlast]
        rw [hnone]
        simp [Reaches]
    | ok last =>
        rcases lastQuorumEntry_grown hlog hlast with hadded | hold
        · obtain ⟨peers, hpeers, hreaches⟩ := (horigin last hadded).reaches hleader (lastQuorumEntry_mem hlast).2
            hproper hrequest hbefore hpromotes hkept
          rw [listed_of_last hlast hpeers]
          exact hreaches
        · have hsame : (node.step env input).node.log.listed = node.log.listed := by
            unfold RaftLog.listed
            rw [hlast, hold]
          rw [hsame]
          intro peer hpeer
          rw [step_uuid]
          exact (hbefore peer hpeer).imp_right (hkept _)
  · have htracks : node.Tracks node.log.listed := by
      by_contra hblind
      exact helected ⟨hother, hleads, hblind⟩
    rw [hlog]
    intro peer hpeer
    rw [step_uuid]
    exact (htracks peer hpeer).imp_right (hkept _)

end Node

section Run

variable {env : Env} {past : List (Swarm × Event)} {s : Swarm} {a : Action}

-- The steps that leave no leader with a peer it keeps no match index for.
def Sighted (env : Env) (s : Swarm) : Event → Prop
  | .act a => ¬(s.nodes a.uuid).ElectedBlind env a.input ∧ ¬(s.nodes a.uuid).PromotesBlind env a.input
  | .restart .. => True

instance (env : Env) (s : Swarm) : (event : Event) → Decidable (Sighted env s event)
  | .act _ => inferInstanceAs (Decidable (_ ∧ _))
  | .restart .. => inferInstanceAs (Decidable True)

-- Every log has a quorum entry, and their lists are in order.
structure Ordered (s : Swarm) : Prop where
  uuid : ∀ n, (s.nodes n).uuid = n
  proper : ∀ n, ∀ entry ∈ (s.nodes n).log.entries, entry.Proper
  quorum : ∀ n, ∃ entry ∈ (s.nodes n).log.entries, entry.entryType.isQuorum = true

theorem Ordered.led (h : Ordered s) (n : Uuid) : ∃ entry, (s.nodes n).log.Led entry := by
  obtain ⟨quorum, hmem, hquorum⟩ := h.quorum n
  cases hlast : (s.nodes n).log.lastQuorumEntry with
  | ok entry =>
      obtain ⟨hin, htype⟩ := Node.lastQuorumEntry_mem hlast
      exact ⟨entry, hlast, h.proper n entry hin, htype⟩
  | error e =>
      unfold RaftLog.lastQuorumEntry at hlast
      split at hlast
      · cases hlast
      · rename_i hnone
        exact absurd hquorum (List.find?_eq_none.mp hnone quorum (List.mem_reverse.mpr hmem))

-- What is copied from a message stands in the log of its sender.
theorem Ordered.heard (h : Ordered s) (hquoted : Quoted s) (henabled : s.Enabled a) {node : Node} {msg : Message}
    {stray : Nat → Nat} {prevIndex prevTerm : Nat} {entries : JsonMessage} {entryTerm commitIndex : Nat}
    (hears : node.Hears a.input msg stray)
    (hcmd : msg.cmd = .appendEntries prevIndex prevTerm entries entryTerm commitIndex) : entries.Distinct := by
  obtain ⟨packet, hpacket, hraft, _, _⟩ := Swarm.deliver_of_hears henabled hears
  rcases (hquoted packet hpacket msg hraft _ _ _ _ _ hcmd).2 with rfl | hentry
  · exact trivial
  · unfold Swarm.cores at hentry
    rw [List.getElem?_map] at hentry
    obtain ⟨entry, hget, hcore⟩ := Option.map_eq_some_iff.mp hentry
    have hdistinct := (h.proper packet.src entry (List.mem_of_getElem? hget)).distinct
    rwa [show entry.msg = entries from congrArg Prod.snd hcore] at hdistinct

theorem request_database (a : Action) : ∀ msg entryType, a.input = .appendLog msg entryType →
    ∃ text, entryType = .database ∧ msg = .database text := by
  intro msg entryType hinput
  obtain ⟨htype, text, hmsg⟩ := request_of_input a hinput
  exact ⟨text, htype, hmsg⟩

theorem Ordered.act (h : Ordered s) (hquoted : Quoted s) (henabled : s.Enabled a) : Ordered (s.act env a) := by
  obtain ⟨added, hlog, horigin⟩ := Node.step_origin env (s.nodes a.uuid) a.input
  have hcases := Swarm.act_nodes_cases env s a
  constructor
  case uuid =>
    intro n
    rcases hcases n with ⟨rfl, hself⟩ | hother
    · rw [hself]
      exact (Node.step_uuid env _ _).trans (h.uuid _)
    · rw [hother]
      exact h.uuid n
  case proper =>
    intro n
    rcases hcases n with ⟨rfl, hself⟩ | hother
    · rw [hself]
      intro entry hentry
      change entry ∈ ((s.nodes a.uuid).step env a.input).node.log.entries at hentry
      rw [hlog] at hentry
      rcases List.mem_append.mp hentry with hold | hnew
      · exact h.proper _ entry hold
      · apply (horigin entry hnew).proper (h.proper _) (request_database a)
        intro msg stray _ _ _ _ _ hears hcmd
        exact h.heard hquoted henabled hears hcmd
    · rw [hother]
      exact h.proper n
  case quorum =>
    intro n
    obtain ⟨entry, hmem, hquorum⟩ := h.quorum n
    refine ⟨entry, ?_, hquorum⟩
    rcases hcases n with ⟨rfl, hself⟩ | hother
    · rw [hself]
      exact (Node.step_log_grows env (s.nodes a.uuid) a.input).subset hmem
    · rw [hother]
      exact hmem

theorem createDatFile_proper {peers : List PeerAddress} (hpeers : (peers.map PeerAddress.uuid).Nodup) :
    (createDatFile peers).Proper := by
  refine ⟨?_, fun _ => ⟨_, rfl⟩, fun hjoint => by cases hjoint⟩
  have huuids : (createDatFile peers).msg.Distinct ↔ (peers.map PeerAddress.uuid).Nodup := by
    cases peers with
    | nil => simp [createDatFile, JsonMessage.Distinct]
    | cons first rest => simp [createDatFile, JsonMessage.Distinct, PeerJson.uuidText, Function.comp_def]
  exact huuids.mpr hpeers

theorem ordered_of_run {peers : List PeerAddress} (hpeers : (peers.map PeerAddress.uuid).Nodup)
    (run : (restarting env (createDatFile peers)).Run past s) : Ordered s := by
  induction run with
  | start hinit =>
      constructor
      case uuid =>
        intro n
        obtain ⟨_, _, _, _, hnode⟩ := hinit.2 n
        rw [hnode]
        rfl
      case proper =>
        intro n entry hentry
        rw [Swarm.start_entries (hinit.2 n)] at hentry
        rw [List.mem_singleton.mp hentry]
        exact createDatFile_proper hpeers
      case quorum =>
        intro n
        rw [Swarm.start_entries (hinit.2 n)]
        exact ⟨_, List.mem_singleton_self _, rfl⟩
  | @step past s event run henabled ih =>
      cases event with
      | act a => exact ih.act (quoted_of_restarts run) henabled
      | restart uuid listed enableAudit enablePeerValidation signedKey =>
          constructor
          case uuid =>
            intro n
            show (if n = uuid then Node.construct uuid listed enableAudit enablePeerValidation signedKey
              (s.nodes uuid).log else s.nodes n).uuid = n
            split
            · rename_i hn
              exact hn.symm
            · exact ih.uuid n
          case proper =>
            intro n
            show ∀ entry ∈ ((s.restart uuid listed enableAudit enablePeerValidation signedKey).nodes n).log.entries, _
            rw [restart_log]
            exact ih.proper n
          case quorum =>
            intro n
            show ∃ entry ∈ ((s.restart uuid listed enableAudit enablePeerValidation signedKey).nodes n).log.entries, _
            rw [restart_log]
            exact ih.quorum n

-- Whoever answers an AppendEntries has at least the first entry.
theorem reply_sent {effect : Effect} {packet : Packet} {msg : Message}
    (hmem : effect ∈ (s.outcome env a).effects) (hnew : effect.packet a.uuid a.session = some packet)
    (hraft : packet.payload = .raft msg) {success : Bool} {matchIndex : Nat}
    (hcmd : msg.cmd = .appendEntriesReply success matchIndex) : 1 ≤ matchIndex := by
  obtain ⟨hmsg, _, _⟩ := Swarm.packet_raft hnew hraft
  cases (Node.step_move env (s.nodes a.uuid) a.input).sends hmem hmsg with
  | requestVote _ _ _ _ hsent | responseVote _ _ _ _ _ _ _ _ _ hsent =>
      rw [hsent] at hcmd
      cases hcmd
  | appendEntries peer hne heffect hdescribes =>
      obtain ⟨_, prev, _, _, hcontent, _, _⟩ := hdescribes.content
      rw [hcmd] at hcontent
      cases hcontent
  | appendEntriesReply _ _ _ _ _ _ _ log _ _ _ _ _ _ hsent =>
      rw [hsent] at hcmd
      obtain ⟨_, rfl⟩ := Command.appendEntriesReply.inj hcmd
      have hpos := log.size_pos
      omega
  | outOfSync _ _ _ _ _ hsent =>
      rw [hsent] at hcmd
      obtain ⟨_, rfl⟩ := Command.appendEntriesReply.inj hcmd
      exact RaftLog.size_pos _

-- All answers under way have an index, and every leader reaches its peers.
structure Abreast (s : Swarm) : Prop where
  replies : ∀ packet ∈ s.network, ∀ msg, packet.payload = .raft msg →
    ∀ success matchIndex, msg.cmd = .appendEntriesReply success matchIndex → 1 ≤ matchIndex
  reached : ∀ n, (s.nodes n).currentState = .leader → (s.nodes n).Reaches (s.nodes n).log.listed

theorem Abreast.act (h : Abreast s) (hordered : Ordered s) (henabled : s.Enabled a)
    (hsighted : Sighted env s (.act a)) : Abreast (s.act env a) := by
  constructor
  case replies =>
    intro packet hpacket msg hraft success matchIndex hcmd
    rcases Swarm.mem_act_network hpacket with hold | ⟨effect, hmem, hnew⟩
    · exact h.replies packet hold msg hraft success matchIndex hcmd
    · exact reply_sent hmem hnew hraft hcmd
  case reached =>
    intro n
    rcases Swarm.act_nodes_cases env s a n with ⟨rfl, hself⟩ | hother
    · rw [hself]
      intro hleads
      refine Node.step_reaches hleads (hordered.proper _) (request_database a) ?_ (h.reached _) hsighted.1 hsighted.2
      intro msg stray success matchIndex hears hcmd
      obtain ⟨packet, hpacket, hraft, _, _⟩ := Swarm.deliver_of_hears henabled hears
      exact h.replies packet hpacket msg hraft success matchIndex hcmd
    · rw [hother]
      exact h.reached n

theorem abreast_of_run {peers : List PeerAddress} (hpeers : (peers.map PeerAddress.uuid).Nodup)
    (run : ((restarting env (createDatFile peers)).guard (Sighted env)).Run past s) : Abreast s := by
  induction run with
  | start hinit =>
      constructor
      case replies =>
        intro packet hpacket
        simp [hinit.1] at hpacket
      case reached =>
        intro n hleader
        rw [Swarm.start_follower (hinit.2 n)] at hleader
        cases hleader
  | @step past s event run henabled ih =>
      cases event with
      | act a => exact ih.act (ordered_of_run hpeers run.of_guard) henabled.1 henabled.2
      | restart uuid listed enableAudit enablePeerValidation signedKey =>
          refine ⟨ih.replies, fun n => ?_⟩
          show (if n = uuid then Node.construct uuid listed enableAudit enablePeerValidation signedKey
            (s.nodes uuid).log else s.nodes n).currentState = .leader → (if n = uuid then _ else s.nodes n).Reaches
              (if n = uuid then Node.construct uuid listed enableAudit enablePeerValidation signedKey
                (s.nodes uuid).log else s.nodes n).log.listed
          split
          · intro hleader
            cases hleader
          · exact ih.reached n

-- As long as every node that is elected, and every leader that goes on from a joint quorum, keeps a match
-- index for the peers of the quorum it comes to, heartbeats reach all of them.
theorem beatsAll_of_run {peers : List PeerAddress} (hpeers : (peers.map PeerAddress.uuid).Nodup)
    (run : ((restarting env (createDatFile peers)).guard (Sighted env)).Run past s) {n : Uuid}
    (hleader : (s.nodes n).currentState = .leader)
    (hvalid : ∀ peers, getAllPeers (s.nodes n).log = .ok peers →
      ∀ peer ∈ peers, env.validAddress peer.host = true) : (s.nodes n).BeatsAll env := by
  obtain ⟨entry, hled⟩ := (ordered_of_run hpeers run.of_guard).led n
  exact ((abreast_of_run hpeers run).reached n hleader).beatsAll hled hvalid

-- A removes B, and keeps in touch with both.
theorem beatsAll_of_run_removal :
    ((threeRestarting.replay [] freshSwarm removal).2.nodes "A").currentState = .leader ∧
      ((threeRestarting.replay [] freshSwarm removal).2.nodes "A").BeatsAll openEnv := by
  have hsighted : ∀ step ∈ (threeRestarting.replay [] freshSwarm removal).1,
      Sighted openEnv step.1 step.2 := by decide +kernel
  have hrun := (threeRestarting_start.replay removal (by decide +kernel)).guard_of hsighted
  have hleader : ((threeRestarting.replay [] freshSwarm removal).2.nodes "A").currentState = .leader := by
    decide +kernel
  exact ⟨hleader, beatsAll_of_run (by decide) hrun hleader fun _ _ _ _ => rfl⟩

def dave : PeerJson := ⟨"127.0.0.1", 50003, 8083, "dave", some "D", none⟩

def withD : JsonMessage := .jointQuorum (some (listed ["A", "B", "C"])) (some (listed ["A", "B", "C"] ++ [dave]))

-- A adds D. B gets to know of it, and is elected by A and C in the next term.
def addition : List Event := (firstLeader ++
  [Action.command "A" (.addPeer dave) 0, .heartbeatTimeout "A" false,
    .pass "A" "B" (createAppendEntriesRequest "A" 1 1 0 0 1 withD),
    .pass "A" "B" (createAppendEntriesRequest "A" 1 1 0 0 1 withD), .electionTimeout "B" false 0,
    .pass "B" "A" (createRequestVoteRequest "B" 2 2 0), .pass "A" "B" (createRequestVoteResponse "A" 2 true),
    .pass "B" "C" (createRequestVoteRequest "B" 2 2 0), .pass "C" "B" (createRequestVoteResponse "C" 2 true)]).map .act

-- B keeps no match index for D, so that its heartbeats leave D out.
theorem beatsAll_broken : ¬∀ (env : Env) (peers : List PeerAddress) (past : List (Swarm × Event)) (s : Swarm),
    (peers.map PeerAddress.uuid).Nodup → (restarting env (createDatFile peers)).Run past s →
      ∀ n, (s.nodes n).currentState = .leader →
        (∀ peers, getAllPeers (s.nodes n).log = .ok peers → ∀ peer ∈ peers, env.validAddress peer.host = true) →
          (s.nodes n).BeatsAll env := by
  intro h
  obtain ⟨quorums, hquorums, hbeats⟩ := h openEnv threePeers _ _ (by decide)
    (threeRestarting_start.replay addition (by decide +kernel)) "B" (by decide +kernel) fun _ _ _ _ => rfl
  have hactive : getActiveQuorum ((threeRestarting.replay [] freshSwarm addition).2.nodes "B").log =
      .ok [["A", "B", "C"], ["A", "B", "C", "D"]] := by decide +kernel
  obtain rfl := Except.ok.inj (hquorums.symm.trans hactive)
  obtain ⟨msg, hsent, _⟩ := hbeats ["A", "B", "C", "D"] (by simp) "D" (by simp) (by decide +kernel)
  have hnone : (((threeRestarting.replay [] freshSwarm addition).2.nodes "B").requestAppendEntries
      openEnv).effects.filter (Effect.isTo "D") = [] := by decide +kernel
  rw [hnone] at hsent
  cases hsent

end Run

end SwarmDB.Raft
