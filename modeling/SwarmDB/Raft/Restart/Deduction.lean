import SwarmDB.Raft.Restart.Alternation

namespace SwarmDB.Raft

open ReplicatedLog

section Constructors

variable {last joint : JsonMessage} {old : Option (List PeerJson)} {peer : PeerJson} {uuid : Uuid}

-- Every receiver takes the message for a joint quorum, and what is made of it for a single one.
def Recognised (joint : JsonMessage) : Prop :=
  deduceTypeFromMessage joint = .jointQuorum ∧
    ∀ single, createSingleQuorumFromJointQuorum joint = .ok single → deduceTypeFromMessage single = .singleQuorum

-- It takes no more than a new list that is there.
theorem recognised_jointQuorum (old new : Option (List PeerJson)) :
    Recognised (.jointQuorum old new) ↔ new.isSome = true := by
  cases new with
  | none =>
      constructor
      · intro h
        cases h.1
      · intro h
        cases h
  | some new =>
      refine ⟨fun _ => rfl, fun _ => ⟨rfl, ?_⟩⟩
      intro single hsingle
      rw [← Except.ok.inj hsingle]
      rfl

theorem recognised_of_adding (hjoint : createJointQuorumByAddingPeer last peer = .ok joint) : Recognised joint := by
  unfold createJointQuorumByAddingPeer at hjoint
  cases hpeers : last.peers with
  | error e => simp [hpeers, Except.map] at hjoint
  | ok old =>
      rw [hpeers] at hjoint
      rw [← Except.ok.inj hjoint, recognised_jointQuorum]
      rfl

-- When the last peer goes, the new list is not there at all.
theorem recognised_of_removing (hpeers : last.peers = .ok old)
    (hjoint : createJointQuorumByRemovingPeer last uuid = .ok joint) :
    Recognised joint ↔ ∃ other ∈ old.getD [], other.uuid ≠ some uuid := by
  rw [createJointQuorumByRemovingPeer, hpeers] at hjoint
  rw [← Except.ok.inj hjoint, recognised_jointQuorum]
  constructor
  · intro hsome
    by_contra hnone
    rw [if_pos] at hsome
    · cases hsome
    · apply List.filter_eq_nil_iff.mpr
      intro other hother hkept
      exact hnone ⟨other, hother, by simpa using hkept⟩
  · rintro ⟨other, hother, hkept⟩
    rw [if_neg]
    · rfl
    · exact List.ne_nil_of_mem (List.mem_filter.mpr ⟨hother, by simpa using hkept⟩)

end Constructors

section ActiveQuorum

variable {log other : RaftLog}

theorem lastQuorum_kinds (log : RaftLog) : lastQuorum log.kinds =
    (log.entries.reverse.find? fun entry => entry.entryType.isQuorum).map LogEntry.kind := by
  unfold lastQuorum RaftLog.kinds
  rw [← List.map_reverse, List.find?_map]
  rfl

-- All that the active quorum depends on.
theorem getActiveQuorum_eq (log : RaftLog) : getActiveQuorum log =
    match lastQuorum log.kinds with
    | some (.singleQuorum, msg) => msg.peers.map fun peers => [uuids peers]
    | some (_, msg) => msg.oldAndNew.map fun peers => [uuids peers.1, uuids peers.2]
    | none => .error .noPeersInLog := by
  rw [lastQuorum_kinds]
  unfold getActiveQuorum RaftLog.lastQuorumEntry
  cases log.entries.reverse.find? fun entry => entry.entryType.isQuorum with
  | none => rfl
  | some entry =>
      obtain ⟨entryType, logIndex, term, msg⟩ := entry
      cases entryType <;> rfl

-- Logs with the same terms and messages stand for the same quorum, where all types are the deduced ones.
theorem getActiveQuorum_typed (hlog : ∀ entry ∈ log.entries, entry.Typed)
    (hother : ∀ entry ∈ other.entries, entry.Typed)
    (h : log.entries.map LogEntry.core = other.entries.map LogEntry.core) :
    getActiveQuorum log = getActiveQuorum other := by
  rw [getActiveQuorum_eq, getActiveQuorum_eq, kinds_eq hlog, kinds_eq hother, h]

end ActiveQuorum

namespace Node

variable {env : Env} {node : Node} {input : Input} {last : LogEntry} {old : Option (List PeerJson)}

-- The peers of the last quorum entry. There are none while a change is under way.
def settledPeers (node : Node) : List PeerJson :=
  match node.log.lastQuorumEntry with
  | .ok last =>
    if last.entryType = .jointQuorum then []
    else
      match last.msg.peers with
      | .ok peers => peers.getD []
      | .error _ => []
  | .error _ => []

-- A leader is asked to remove the only peer that is left.
def Empties (node : Node) : Input → Prop
  | .management (.removePeer uuid) _ => uuid ≠ "" ∧ node.currentState = .leader ∧ node.settledPeers ≠ [] ∧
    ∀ peer ∈ node.settledPeers, peer.uuid = some uuid
  | _ => False

instance (node : Node) : (input : Input) → Decidable (node.Empties input)
  | .management (.removePeer _) _ => inferInstanceAs (Decidable (_ ∧ _))
  | .management (.addPeer _) _ | .management (.addPeerResponse _) _ | .management .getPeers _
  | .management (.getPeersResponse _) _ | .message .. | .electionTimeout .. | .heartbeatTimeout _
  | .appendLog .. => inferInstanceAs (Decidable False)

theorem settledPeers_eq (hlast : node.log.lastQuorumEntry = .ok last) (hsingle : last.entryType ≠ .jointQuorum)
    (hold : last.msg.peers = .ok old) : node.settledPeers = old.getD [] := by
  simp [settledPeers, hlast, hsingle, hold]

theorem settledPeers_cases (h : node.settledPeers ≠ []) :
    ∃ last old, node.log.lastQuorumEntry = .ok last ∧ last.entryType ≠ .jointQuorum ∧
      last.msg.peers = .ok old ∧ node.settledPeers = old.getD [] := by
  unfold settledPeers at h ⊢
  split at h
  · rename_i last hlast
    split at h
    · exact absurd rfl h
    · rename_i hsingle
      split at h
      · rename_i old hold
        exact ⟨last, old, hlast, hsingle, hold, by simp [hsingle]⟩
      · exact absurd rfl h
  · exact absurd rfl h

-- The entry that such a request leaves behind.
theorem step_empties (env : Env) (h : node.Empties input) : ∃ old, (node.step env input).node.log =
    node.log.leaderAppendEntry ⟨.jointQuorum, node.log.size, node.currentTerm, .jointQuorum old none⟩ := by
  cases input with
  | management msg pick =>
      cases msg with
      | removePeer uuid =>
          obtain ⟨huuid, hleader, hsome, hall⟩ := h
          obtain ⟨last, old, hlast, hsingle, hold, hpeers⟩ := settledPeers_cases hsome
          rw [hpeers] at hsome hall
          have hkept : (old.getD []).filter (fun peer => peer.uuid ≠ some uuid) = [] := by
            apply List.filter_eq_nil_iff.mpr
            intro peer hpeer hother
            exact absurd (hall peer hpeer) (by simpa using hother)
          have hfound : (old.getD []).any (fun other => other.uuidText = uuid) = true := by
            obtain ⟨peer, hpeer⟩ := List.exists_mem_of_ne_nil _ hsome
            refine List.any_eq_true.mpr ⟨peer, hpeer, ?_⟩
            simp [PeerJson.uuidText, hall peer hpeer]
          have hjoint : createJointQuorumByRemovingPeer last.msg uuid = .ok (.jointQuorum old none) := by
            simp only [createJointQuorumByRemovingPeer, hold, Except.map, hkept, if_true]
          refine ⟨old, ?_⟩
          simp [step, handleManagement, huuid, handleRemovePeer, hleader, hlast, hsingle, hold, hjoint, hfound,
            appendLogUnsafe]
      | addPeer _ | addPeerResponse _ | getPeers | getPeersResponse _ => cases h
  | message _ _ | electionTimeout _ _ | heartbeatTimeout _ | appendLog _ _ => cases h

-- A request to remove every peer that leaves no such entry behind leaves nothing behind.
theorem step_removesAll (env : Env) (hremoves : node.RemovesAll input) (h : ¬node.Empties input) :
    (node.step env input).node.log = node.log := by
  cases input with
  | management msg pick =>
      cases msg with
      | removePeer uuid =>
          obtain ⟨hleader, hall⟩ := hremoves
          by_cases huuid : uuid = ""
          · simp [step, handleManagement, huuid, sendSessionErrorMessage]
          · show (node.handleManagement env (.removePeer uuid) pick).node.log = node.log
            have hstep : node.handleManagement env (.removePeer uuid) pick = node.handleRemovePeer uuid := by
              simp [handleManagement, huuid]
            rw [hstep]
            cases hlast : node.log.lastQuorumEntry with
            | error e => simp [handleRemovePeer, hleader, hlast, throws]
            | ok last =>
                by_cases hsingle : last.entryType = .jointQuorum
                · simp [handleRemovePeer, hleader, hlast, hsingle, sendSessionErrorMessage]
                · cases hold : last.msg.peers with
                  | error e => simp [quorumPeers, hlast, hold] at hall
                  | ok old =>
                      have hpeers := settledPeers_eq hlast hsingle hold
                      have hnone : old.getD [] = [] := by
                        by_contra hsome
                        refine h ⟨huuid, hleader, ?_, ?_⟩
                        · rw [hpeers]
                          exact hsome
                        · rw [hpeers]
                          simpa [quorumPeers, hlast, hold] using hall
                      simp [handleRemovePeer, hleader, hlast, hsingle, hold, hnone,
                        createJointQuorumByRemovingPeer, Except.map, sendSessionErrorMessage]
      | addPeer _ | addPeerResponse _ | getPeers | getPeersResponse _ => cases hremoves
  | message _ _ | electionTimeout _ _ | heartbeatTimeout _ | appendLog _ _ => cases hremoves

end Node

section Run

variable {env : Env} {peers : List PeerAddress} {past : List (Swarm × Event)} {s : Swarm} {event : Event} {n : Uuid}

def Swarm.Empties (s : Swarm) : Event → Prop
  | .act a => (s.nodes a.uuid).Empties a.input
  | .restart .. => False

instance (s : Swarm) : (event : Event) → Decidable (s.Empties event)
  | .act _ => inferInstanceAs (Decidable (Node.Empties _ _))
  | .restart .. => inferInstanceAs (Decidable False)

-- What a swarm keeps as long as no quorum is emptied.
theorem handle_typed (htyped : ∀ n, ∀ entry ∈ (s.nodes n).log.entries, entry.Typed) (h : ¬s.Empties event)
    (n : Uuid) : ∀ entry ∈ ((s.handle env event).nodes n).log.entries, entry.Typed := by
  cases event with
  | act a =>
      by_cases hremoves : (s.nodes a.uuid).RemovesAll a.input
      · have hlog := Node.step_removesAll env hremoves h
        show ∀ entry ∈ ((s.act env a).nodes n).log.entries, entry.Typed
        rcases Swarm.act_nodes_cases env s a n with ⟨rfl, hself⟩ | hother
        · rw [hself]
          show ∀ entry ∈ ((s.nodes a.uuid).step env a.input).node.log.entries, entry.Typed
          rw [hlog]
          exact htyped a.uuid
        · rw [hother]
          exact htyped n
      · exact act_typed htyped hremoves n
  | restart uuid peers enableAudit enablePeerValidation signedKey =>
      show ∀ entry ∈ ((s.restart uuid peers enableAudit enablePeerValidation signedKey).nodes n).log.entries, _
      rw [restart_log]
      exact htyped n

theorem typed_of_run (hpeers : peers ≠ []) (run : (restarting env (createDatFile peers)).Run past s)
    (h : ∀ step ∈ past, ¬step.1.Empties step.2) (n : Uuid) :
    ∀ entry ∈ (s.nodes n).log.entries, entry.Typed := by
  induction run generalizing n with
  | start hinit =>
      rw [Swarm.start_entries (hinit.2 n)]
      intro entry hentry
      rw [List.mem_singleton.mp hentry]
      exact createDatFile_typed hpeers
  | @step past s event _ _ ih =>
      have hbefore := ih fun step hmem => h step (List.mem_cons_of_mem _ hmem)
      exact handle_typed hbefore (h _ List.mem_cons_self) n

theorem handle_entries (env : Env) (s : Swarm) (event : Event) (n : Uuid) :
    (s.nodes n).log.entries <+: ((s.handle env event).nodes n).log.entries := by
  cases event with
  | act a =>
      show (s.nodes n).log.entries <+: ((s.act env a).nodes n).log.entries
      rcases Swarm.act_nodes_cases env s a n with ⟨rfl, hself⟩ | hother
      · rw [hself]
        exact Node.step_log_grows env (s.nodes a.uuid) a.input
      · rw [hother]
  | restart uuid peers enableAudit enablePeerValidation signedKey =>
      show (s.nodes n).log.entries <+:
        ((s.restart uuid peers enableAudit enablePeerValidation signedKey).nodes n).log.entries
      rw [restart_log]

-- The entry that a request to remove the only peer leaves behind is there to stay.
theorem untyped_of_run {first : LogEntry} (run : (restarting env first).Run past s)
    (h : ∃ step ∈ past, step.1.Empties step.2) : ∃ n, ∃ entry ∈ (s.nodes n).log.entries, ¬entry.Typed := by
  induction run with
  | start _ =>
      obtain ⟨step, hmem, _⟩ := h
      cases hmem
  | @step past s event _ _ ih =>
      obtain ⟨step, hmem, hempties⟩ := h
      rcases List.mem_cons.mp hmem with rfl | hmem
      · cases event with
        | act a =>
            obtain ⟨old, hlog⟩ := Node.step_empties env hempties
            let entry : LogEntry :=
              ⟨.jointQuorum, (s.nodes a.uuid).log.size, (s.nodes a.uuid).currentTerm, .jointQuorum old none⟩
            have hentry : entry ∈ ((s.act env a).nodes a.uuid).log.entries := by
              rw [Swarm.act_nodes_self, Swarm.outcome, hlog]
              exact List.mem_append_right _ List.mem_cons_self
            refine ⟨a.uuid, entry, hentry, ?_⟩
            intro htyped
            cases htyped
        | restart _ _ _ _ _ => cases hempties
      · obtain ⟨n, entry, hentry, huntyped⟩ := ih ⟨step, hmem, hempties⟩
        exact ⟨n, entry, (handle_entries env s event n).subset hentry, huntyped⟩

-- Every entry has the type that its receivers work out, so whoever takes over a log computes its quorum.
structure Classified (s : Swarm) : Prop where
  types : ∀ n, ∀ entry ∈ (s.nodes n).log.entries, deduceTypeFromMessage entry.msg = entry.entryType
  quorums : ∀ n (log : RaftLog), (∀ entry ∈ log.entries, entry.entryType = deduceTypeFromMessage entry.msg) →
    log.entries.map LogEntry.core = s.cores n → getActiveQuorum log = getActiveQuorum (s.nodes n).log

theorem classified_iff (hpeers : peers ≠ []) (run : (restarting env (createDatFile peers)).Run past s) :
    (Classified s ↔ ∀ step ∈ past, ¬step.1.Empties step.2) ∧
      (∀ last peer joint, createJointQuorumByAddingPeer last peer = .ok joint → Recognised joint) ∧
      ∀ last old uuid joint, last.peers = .ok old → createJointQuorumByRemovingPeer last uuid = .ok joint →
        (Recognised joint ↔ ∃ other ∈ old.getD [], other.uuid ≠ some uuid) := by
  refine ⟨⟨?_, ?_⟩, ?_, ?_⟩
  · intro hclassified step hmem hempties
    obtain ⟨n, entry, hentry, huntyped⟩ := untyped_of_run run ⟨step, hmem, hempties⟩
    exact huntyped (hclassified.types n entry hentry).symm
  · intro h
    have htyped := typed_of_run hpeers run h
    refine ⟨?_, ?_⟩
    · intro n entry hentry
      exact (htyped n entry hentry).symm
    · intro n log hlog hcores
      exact getActiveQuorum_typed hlog (htyped n) hcores
  · intro last peer joint hjoint
    exact recognised_of_adding hjoint
  · intro last old uuid joint hpeers hjoint
    exact recognised_of_removing hpeers hjoint

-- C takes A's removal of B for what it is.
theorem classified_iff_removal :
    Classified (threeRestarting.replay [] freshSwarm removal).2 :=
  (classified_iff (by decide) (threeRestarting_start.replay removal (by decide +kernel))).1.mpr (by decide +kernel)

def twoPeers : List PeerAddress :=
  [⟨"127.0.0.1", 50000, 8080, "alice", "A"⟩, ⟨"127.0.0.1", 50001, 8081, "bob", "B"⟩]

def twoSwarm : Swarm :=
  ⟨fun uuid => Node.construct uuid twoPeers false false "" (startLog (createDatFile twoPeers)), []⟩

def twoRestarting : Machine Swarm Event := restarting openEnv (createDatFile twoPeers)

instance (s : Swarm) (event : Event) : Decidable (twoRestarting.enabled s event) :=
  inferInstanceAs (Decidable (s.Admits event))

-- A removes B, with whatever stands behind the only match index of the new list, and then itself.
def dissolution : List Event :=
  [Action.electionTimeout "A" false 0, .pass "A" "B" (createRequestVoteRequest "A" 1 1 0),
    .pass "B" "A" (createRequestVoteResponse "B" 1 true), .command "A" (.removePeer "B") 0,
    .heartbeatTimeout "A" false,
    .pass "A" "B" (createAppendEntriesRequest "A" 1 1 0 0 1
      (.jointQuorum (some (listed ["A", "B"])) (some (listed ["A"])))),
    .deliver ⟨"B", "A", .raft (createAppendEntriesResponse "B" 1 true 2)⟩ (fun _ => 2) 0,
    .command "A" (.removePeer "A") 0].map .act

theorem classified_broken :
    (createJointQuorumByRemovingPeer (.singleQuorum (some (listed ["A"]))) "A" =
        .ok (.jointQuorum (some (listed ["A"])) none) ∧
      ¬Recognised (.jointQuorum (some (listed ["A"])) none)) ∧
    ¬∀ (env : Env) (peers : List PeerAddress) (past : List (Swarm × Event)) (s : Swarm),
      peers ≠ [] → (restarting env (createDatFile peers)).Run past s → Classified s := by
  refine ⟨⟨by decide, ?_⟩, ?_⟩
  · intro h
    cases h.1
  · intro h
    have hstart : twoRestarting.Run [] twoSwarm := .start ⟨rfl, fun _ => ⟨_, _, _, _, rfl⟩⟩
    have hall := h openEnv twoPeers _ _ (by decide) (hstart.replay dissolution (by decide +kernel))
    let entry : LogEntry := ⟨.jointQuorum, 3, 1, .jointQuorum (some (listed ["A"])) none⟩
    have hentry : entry ∈ ((twoRestarting.replay [] twoSwarm dissolution).2.nodes "A").log.entries := by
      decide +kernel
    cases hall.types "A" entry hentry

end Run

end SwarmDB.Raft
