import SwarmDB.Raft.Restart

namespace SwarmDB.Raft

open ReplicatedLog

-- What makes an entry a quorum entry, and of which peers.
def LogEntry.kind (entry : LogEntry) : LogEntryType × JsonMessage := (entry.entryType, entry.msg)

def RaftLog.kinds (log : RaftLog) : List (LogEntryType × JsonMessage) := log.entries.map LogEntry.kind

-- The quorum entry that is nearest to the end.
def lastQuorum (kinds : List (LogEntryType × JsonMessage)) : Option (LogEntryType × JsonMessage) :=
  kinds.reverse.find? fun kind => kind.1.isQuorum

-- A joint quorum entry has the peers of the single one before it as its old list, and a single
-- one behind the first entry has the new list of the joint one before it as its peers.
structure Alternates (kinds : List (LogEntryType × JsonMessage)) : Prop where
  joint : ∀ i msg, kinds[i]? = some (.jointQuorum, msg) → ∃ old new,
    lastQuorum (kinds.take i) = some (.singleQuorum, .singleQuorum old) ∧ msg = .jointQuorum old new
  single : ∀ i msg, 0 < i → kinds[i]? = some (.singleQuorum, msg) → ∃ old new,
    lastQuorum (kinds.take i) = some (.jointQuorum, .jointQuorum old new) ∧ msg = .singleQuorum new

section Lists

variable {kinds kinds' : List (LogEntryType × JsonMessage)} {kind : LogEntryType × JsonMessage}

theorem Alternates.beginning (h : Alternates kinds) (hbegins : kinds' <+: kinds) : Alternates kinds' := by
  have htake : ∀ i x, kinds'[i]? = some x → kinds'.take i = kinds.take i := by
    intro i x hx
    have hlt := (List.getElem?_eq_some_iff.mp hx).1
    exact (take_of_grown hbegins (by omega)).symm
  constructor
  · intro i msg hmsg
    rw [htake i _ hmsg]
    exact h.joint i msg (getElem?_of_grown hbegins hmsg)
  · intro i msg hi hmsg
    rw [htake i _ hmsg]
    exact h.single i msg hi (getElem?_of_grown hbegins hmsg)

theorem lastQuorum_append_quorum (hquorum : kind.1.isQuorum = true) :
    lastQuorum (kinds ++ [kind]) = some kind := by
  simp [lastQuorum, hquorum]

theorem lastQuorum_append_plain {rest : List (LogEntryType × JsonMessage)}
    (hplain : ∀ kind ∈ rest, kind.1.isQuorum = false) : lastQuorum (kinds ++ rest) = lastQuorum kinds := by
  have hnone : rest.reverse.find? (fun kind => kind.1.isQuorum) = none := by
    apply List.find?_eq_none.mpr
    intro kind hkind
    simp [hplain kind (List.mem_reverse.mp hkind)]
  simp [lastQuorum, hnone]

-- An entry at the end only has to fit what is before it.
theorem Alternates.append (h : Alternates kinds)
    (hjoint : ∀ msg, kind = (.jointQuorum, msg) → ∃ old new,
      lastQuorum kinds = some (.singleQuorum, .singleQuorum old) ∧ msg = .jointQuorum old new)
    (hsingle : ∀ msg, kind = (.singleQuorum, msg) → ∃ old new,
      lastQuorum kinds = some (.jointQuorum, .jointQuorum old new) ∧ msg = .singleQuorum new) :
    Alternates (kinds ++ [kind]) := by
  have hcases : ∀ i x, (kinds ++ [kind])[i]? = some x →
      (kinds[i]? = some x ∧ (kinds ++ [kind]).take i = kinds.take i) ∨
        (x = kind ∧ (kinds ++ [kind]).take i = kinds) := by
    intro i x hx
    by_cases hi : i < kinds.length
    · rw [List.getElem?_append_left hi] at hx
      exact Or.inl ⟨hx, List.take_append_of_le_length (by omega)⟩
    · have hlt := (List.getElem?_eq_some_iff.mp hx).1
      simp only [List.length_append, List.length_singleton] at hlt
      obtain rfl : i = kinds.length := by omega
      rw [List.getElem?_concat_length, Option.some.injEq] at hx
      exact Or.inr ⟨hx.symm, by simp⟩
  constructor
  · intro i msg hmsg
    rcases hcases i _ hmsg with ⟨hold, htake⟩ | ⟨hnew, htake⟩
    · rw [htake]
      exact h.joint i msg hold
    · rw [htake]
      exact hjoint msg hnew.symm
  · intro i msg hi hmsg
    rcases hcases i _ hmsg with ⟨hold, htake⟩ | ⟨hnew, htake⟩
    · rw [htake]
      exact h.single i msg hi hold
    · rw [htake]
      exact hsingle msg hnew.symm

theorem alternates_start (hfirst : kind.1 ≠ .jointQuorum) : Alternates [kind] := by
  constructor
  · intro i msg hmsg
    have hmem := List.mem_singleton.mp (List.mem_of_getElem? hmsg)
    exact absurd (congrArg Prod.fst hmem).symm hfirst
  · intro i msg hi hmsg
    have hlt := (List.getElem?_eq_some_iff.mp hmsg).1
    simp only [List.length_singleton] at hlt
    omega

end Lists

section Types

-- The type is the one that every receiver of the message works out.
def LogEntry.Typed (entry : LogEntry) : Prop := entry.entryType = deduceTypeFromMessage entry.msg

theorem eq_of_deduce_joint {msg : JsonMessage} (h : deduceTypeFromMessage msg = .jointQuorum) :
    ∃ old new, msg = .jointQuorum old (some new) := by
  cases msg with
  | jointQuorum old new =>
      cases new with
      | some new => exact ⟨old, new, rfl⟩
      | none => cases h
  | singleQuorum peers =>
      cases peers with
      | some peers => cases h
      | none => cases h
  | null | database _ | other _ => cases h

theorem eq_of_deduce_single {msg : JsonMessage} (h : deduceTypeFromMessage msg = .singleQuorum) :
    ∃ peers, msg = .singleQuorum (some peers) := by
  cases msg with
  | jointQuorum old new =>
      cases new with
      | some new => cases h
      | none => cases h
  | singleQuorum peers =>
      cases peers with
      | some peers => exact ⟨peers, rfl⟩
      | none => cases h
  | null | database _ | other _ => cases h

theorem lastQuorum_of_entry {log : RaftLog} {last : LogEntry} (h : log.lastQuorumEntry = .ok last) :
    lastQuorum log.kinds = some last.kind ∧ last.entryType.isQuorum = true ∧ last ∈ log.entries := by
  unfold RaftLog.lastQuorumEntry at h
  split at h
  · rename_i entry hfind
    obtain rfl := Except.ok.inj h
    have hquorum := List.find?_some hfind
    refine ⟨?_, by simpa using hquorum, List.mem_reverse.mp (List.mem_of_find?_eq_some hfind)⟩
    unfold lastQuorum RaftLog.kinds
    rw [← List.map_reverse, List.find?_map]
    show Option.map _ (log.entries.reverse.find? fun entry => entry.entryType.isQuorum) = _
    rw [hfind]
    rfl
  · cases h

-- Typed logs with the same messages are about the same quorums.
theorem kinds_eq {log : RaftLog} (h : ∀ entry ∈ log.entries, entry.Typed) :
    log.kinds = (log.entries.map LogEntry.core).map fun core => (deduceTypeFromMessage core.2, core.2) := by
  unfold RaftLog.kinds
  rw [List.map_map]
  apply List.map_congr_left
  intro entry hentry
  have htyped := h entry hentry
  unfold LogEntry.Typed at htyped
  simp [LogEntry.kind, LogEntry.core, htyped]

end Types

namespace Node

-- A leader commits a joint quorum entry that has another quorum entry behind it: it has been
-- gone on from before.
def CommitsAgain (env : Env) (node : Node) (input : Input) : Prop :=
  node.currentState = .leader ∧ ∃ i < (node.step env input).node.commitIndex, node.commitIndex ≤ i ∧
    node.log.entries[i]?.map LogEntry.entryType = some .jointQuorum ∧
    (node.log.entries.drop (i + 1)).any (fun entry => entry.entryType.isQuorum) = true

instance (env : Env) (node : Node) (input : Input) : Decidable (node.CommitsAgain env input) :=
  inferInstanceAs (Decidable (_ ∧ _))

-- The peers of the last quorum entry, if that is a single one.
def quorumPeers (node : Node) : Option (List PeerJson) :=
  match node.log.lastQuorumEntry with
  | .ok last =>
    match last.msg.peers with
    | .ok peers => some (peers.getD [])
    | .error _ => none
  | .error _ => none

-- A leader is asked to remove every peer it has.
def RemovesAll (node : Node) : Input → Prop
  | .management (.removePeer uuid) _ => node.currentState = .leader ∧
    node.quorumPeers.any (fun peers => peers.all fun peer => peer.uuid = some uuid) = true
  | _ => False

instance (node : Node) : (input : Input) → Decidable (node.RemovesAll input)
  | .management (.removePeer _) _ => inferInstanceAs (Decidable (_ ∧ _))
  | .management (.addPeer _) _ | .management (.addPeerResponse _) _ | .management .getPeers _
  | .management (.getPeersResponse _) _ | .message .. | .electionTimeout .. | .heartbeatTimeout _
  | .appendLog .. => inferInstanceAs (Decidable False)

variable {env : Env} {node : Node} {input : Input}

theorem step_typed (htyped : ∀ entry ∈ node.log.entries, entry.Typed)
    (hrequest : ∀ msg entryType, input = .appendLog msg entryType → entryType = deduceTypeFromMessage msg)
    (hremoves : ¬node.RemovesAll input) :
    ∀ entry ∈ (node.step env input).node.log.entries, entry.Typed := by
  apply step_entries (P := LogEntry.Typed)
  · intro msg entryType index term hinput
    exact hrequest msg entryType hinput
  · intro last old new index term hleader hlast hold hnew
    cases new with
    | some new => rfl
    | none =>
        obtain ⟨uuid, pick, rfl, hempty⟩ := hnew rfl
        have hpeers : node.quorumPeers = some (old.getD []) := by
          simp [quorumPeers, hlast, hold]
        refine absurd ⟨hleader, ?_⟩ hremoves
        rw [hpeers]
        simpa [List.filter_eq_nil_iff] using hempty
  · intro entry msg index term hentry hjoint hmsg
    unfold LogEntry.Typed at hentry
    obtain ⟨old, new, hform⟩ := eq_of_deduce_joint (hentry.symm.trans hjoint)
    rw [hform] at hmsg
    rw [← Except.ok.inj hmsg]
    rfl
  · intro msg index term _
    rfl
  · exact htyped

-- The last quorum entry is the one behind which there is no other.
theorem lastQuorum_of_last {log : RaftLog} {i : Nat} {entry : LogEntry} (hi : log.entries[i]? = some entry)
    (hquorum : entry.entryType.isQuorum = true)
    (hlast : (log.entries.drop (i + 1)).any (fun entry => entry.entryType.isQuorum) = false) :
    lastQuorum log.kinds = some entry.kind := by
  obtain ⟨hlt, hget⟩ := List.getElem?_eq_some_iff.mp hi
  have hsplit : log.entries = log.entries.take i ++ [entry] ++ log.entries.drop (i + 1) := by
    have hwhole := (List.take_append_drop i log.entries).symm
    rw [List.drop_eq_getElem_cons hlt, hget] at hwhole
    simpa using hwhole
  have hkinds : log.kinds = ((log.entries.take i).map LogEntry.kind ++ [entry.kind]) ++
      (log.entries.drop (i + 1)).map LogEntry.kind := by
    unfold RaftLog.kinds
    conv_lhs => rw [hsplit]
    simp
  rw [hkinds, lastQuorum_append_plain, lastQuorum_append_quorum hquorum]
  intro kind hkind
  obtain ⟨other, hother, rfl⟩ := List.mem_map.mp hkind
  have hnone := List.any_eq_false.mp hlast other hother
  show other.entryType.isQuorum = false
  simpa using hnone

theorem kinds_append (log : RaftLog) (entry : LogEntry) :
    (log.leaderAppendEntry entry).kinds = log.kinds ++ [entry.kind] := by
  simp [RaftLog.kinds, RaftLog.leaderAppendEntry]

-- Going on from the last quorum entry leaves no joint quorum behind it.
theorem promoted_alternates {entry : LogEntry} {msg : JsonMessage}
    (htyped : ∀ entry ∈ node.log.entries, entry.Typed) (h : Alternates node.log.kinds)
    (hentry : node.log.entryAt node.commitIndex = some entry) (hjoint : entry.entryType = .jointQuorum)
    (hmsg : createSingleQuorumFromJointQuorum entry.msg = .ok msg)
    (hnone : (node.log.entries.drop (node.commitIndex + 1)).any
      (fun entry => entry.entryType.isQuorum) = false) :
    let next := node.log.leaderAppendEntry ⟨.singleQuorum, node.log.size, node.currentTerm, msg⟩
    Alternates next.kinds ∧ (∀ entry ∈ next.entries, entry.Typed) ∧
      ∀ i, node.commitIndex + 1 ≤ i → next.entries[i]?.map LogEntry.entryType ≠ some .jointQuorum := by
  have hat : node.log.entries[node.commitIndex]? = some entry := hentry
  have hjointly : entry.Typed := htyped entry (List.mem_of_getElem? hat)
  unfold LogEntry.Typed at hjointly
  obtain ⟨old, new, hform⟩ := eq_of_deduce_joint (hjointly.symm.trans hjoint)
  rw [hform] at hmsg
  obtain rfl := Except.ok.inj hmsg
  have hlast : lastQuorum node.log.kinds = some entry.kind := by
    apply lastQuorum_of_last hat _ hnone
    rw [hjoint]
    rfl
  have hkind : entry.kind = (.jointQuorum, .jointQuorum old (some new)) := by
    rw [LogEntry.kind, hjoint, hform]
  refine ⟨?_, ?_, ?_⟩
  · rw [kinds_append]
    apply h.append
    · intro other hother
      cases hother
    · intro other hother
      refine ⟨old, some new, hlast.trans (congrArg some hkind), ?_⟩
      exact (congrArg Prod.snd hother).symm
  · intro other hother
    rcases List.mem_append.mp hother with hother | hother
    · exact htyped other hother
    · rw [List.mem_singleton.mp hother]
      rfl
  · intro i hi hquorum
    obtain ⟨other, hother, htype⟩ := Option.map_eq_some_iff.mp hquorum
    change (node.log.entries ++ [_])[i]? = some other at hother
    by_cases hlt : i < node.log.entries.length
    · rw [List.getElem?_append_left hlt] at hother
      have hmem : other ∈ node.log.entries.drop (node.commitIndex + 1) := by
        apply List.mem_of_getElem? (i := i - (node.commitIndex + 1))
        rw [List.getElem?_drop, Nat.add_sub_of_le hi]
        exact hother
      have hfalse := List.any_eq_false.mp hnone other hmem
      rw [htype] at hfalse
      exact hfalse rfl
    · rw [List.getElem?_append_right (by omega)] at hother
      rw [List.mem_singleton.mp (List.mem_of_getElem? hother)] at htype
      cases htype

-- A commit loop goes on from a joint quorum where it stands last.
theorem commitLoop_alternates (turns : Nat) (htyped : ∀ entry ∈ node.log.entries, entry.Typed)
    (h : Alternates node.log.kinds)
    (hlast : ∀ i, node.commitIndex ≤ i → i < (commitLoop env turns node).node.commitIndex →
      node.log.entries[i]?.map LogEntry.entryType = some .jointQuorum →
        (node.log.entries.drop (i + 1)).any (fun entry => entry.entryType.isQuorum) = false) :
    Alternates (commitLoop env turns node).node.log.kinds := by
  induction turns generalizing node with
  | zero => exact h
  | succ turns ih =>
      unfold commitLoop at hlast ⊢
      cases hentry : node.log.entryAt node.commitIndex with
      | none => exact h
      | some entry =>
          rw [hentry] at hlast
          dsimp only at hlast ⊢
          cases performCommit_turn env node entry with
          | thrown e hthrown hnode =>
              rw [hthrown]
              dsimp only
              rw [hnode]
              exact h
          | committed hnode =>
              cases hthrown : (node.performCommit env entry).thrown with
              | some e =>
                  dsimp only
                  rw [hnode]
                  exact h
              | none =>
                  rw [hthrown] at hlast
                  dsimp only at hlast ⊢
                  rw [hnode] at hlast ⊢
                  refine ih htyped h ?_
                  intro i hi
                  exact hlast i (Nat.le_of_succ_le hi)
          | promoted msg hleader hjoint hmsg hnode =>
              have hindex : (node.performCommit env entry).node.commitIndex = node.commitIndex + 1 := by
                rw [hnode]
              have hnone : (node.log.entries.drop (node.commitIndex + 1)).any
                  (fun entry => entry.entryType.isQuorum) = false := by
                have hat : node.log.entries[node.commitIndex]? = some entry := hentry
                apply hlast node.commitIndex (le_refl _)
                · cases hthrown : (node.performCommit env entry).thrown with
                  | some e =>
                      dsimp only
                      omega
                  | none =>
                      have hle := commitIndex_le_commitLoop env turns (node.performCommit env entry).node
                      dsimp only
                      omega
                · rw [hat]
                  simp [hjoint]
              obtain ⟨hnext, htyped', hplain⟩ := promoted_alternates htyped h hentry hjoint hmsg hnone
              cases hthrown : (node.performCommit env entry).thrown with
              | some e =>
                  dsimp only
                  rw [hnode]
                  exact hnext
              | none =>
                  rw [hthrown] at hlast
                  dsimp only at hlast ⊢
                  rw [hnode]
                  refine ih htyped' hnext ?_
                  intro i hi _ hquorum
                  exact absurd hquorum (hplain i hi)

end Node

section Run

variable {env : Env} {first : LogEntry} {past : List (Swarm × Event)} {s : Swarm} {a : Action}

-- The steps that change the quorum as they should.
def Careful (env : Env) (s : Swarm) : Event → Prop
  | .act a => ¬(s.nodes a.uuid).CommitsAgain env a.input ∧ ¬(s.nodes a.uuid).RemovesAll a.input
  | .restart .. => True

instance (env : Env) (s : Swarm) : (event : Event) → Decidable (Careful env s event)
  | .act _ => inferInstanceAs (Decidable (_ ∧ _))
  | .restart .. => inferInstanceAs (Decidable True)

theorem act_typed (h : ∀ n, ∀ entry ∈ (s.nodes n).log.entries, entry.Typed)
    (hremoves : ¬(s.nodes a.uuid).RemovesAll a.input) (n : Uuid) :
    ∀ entry ∈ ((s.act env a).nodes n).log.entries, entry.Typed := by
  rcases Swarm.act_nodes_cases env s a n with ⟨rfl, hself⟩ | hother
  · rw [hself]
    apply Node.step_typed (h a.uuid) _ hremoves
    intro msg entryType hinput
    obtain ⟨rfl, text, rfl⟩ := request_of_input a hinput
    rfl
  · rw [hother]
    exact h n

theorem act_alternates (htyped : ∀ n, ∀ entry ∈ (s.nodes n).log.entries, entry.Typed)
    (h : ∀ n, Alternates (s.nodes n).log.kinds) (hquoted : Quoted s)
    (hmatching : ∀ {n m : Uuid} {i term : Nat} {msg msg' : JsonMessage},
      (s.cores n)[i]? = some (term, msg) → (s.cores m)[i]? = some (term, msg') →
        (s.cores n).take (i + 1) = (s.cores m).take (i + 1))
    (henabled : s.Enabled a) (hcommits : ¬(s.nodes a.uuid).CommitsAgain env a.input)
    (hremoves : ¬(s.nodes a.uuid).RemovesAll a.input) :
    Alternates (s.outcome env a).node.log.kinds := by
  show Alternates ((s.nodes a.uuid).step env a.input).node.log.kinds
  cases Node.step_appends env (s.nodes a.uuid) a.input with
  | nothing hlog =>
      rw [hlog]
      exact h a.uuid
  | request msg entryType hinput hlog =>
      obtain ⟨rfl, text, rfl⟩ := request_of_input a hinput
      rw [hlog, Node.kinds_append]
      apply (h a.uuid).append
      · intro msg hmsg
        cases hmsg
      · intro msg hmsg
        cases hmsg
  | joint last old new _ hlast hsingle hold _ hlog =>
      obtain ⟨hkind, hquorum, hmem⟩ := lastQuorum_of_entry hlast
      have hlasttyped := htyped a.uuid last hmem
      unfold LogEntry.Typed at hlasttyped
      have htype : last.entryType = .singleQuorum := by
        cases hcase : last.entryType with
        | singleQuorum => rfl
        | jointQuorum => exact absurd hcase hsingle
        | database | undefined =>
            rw [hcase] at hquorum
            cases hquorum
      obtain ⟨peers, hform⟩ := eq_of_deduce_single (hlasttyped.symm.trans htype)
      rw [hform] at hold
      obtain rfl := Except.ok.inj hold
      rw [hlog, Node.kinds_append]
      apply (h a.uuid).append
      · intro msg hmsg
        refine ⟨some peers, new, ?_, (congrArg Prod.snd hmsg).symm⟩
        rw [hkind, LogEntry.kind, htype, hform]
      · intro msg hmsg
        cases hmsg
  | commit turns tracked hleader hlog hindex =>
      rw [hlog]
      refine Node.commitLoop_alternates turns (htyped a.uuid) (h a.uuid) ?_
      intro i hi hlt hjoint
      by_contra hfollowed
      refine hcommits ⟨hleader, i, ?_, hi, hjoint, Bool.eq_true_of_not_eq_false hfollowed⟩
      rw [hindex]
      exact hlt
  | copy msg stray prevIndex prevTerm entries entryTerm commitIndex hears hcmd haccepted hentries hend hlog =>
      obtain ⟨packet, _, _, _, hbegins⟩ := accepted_follows hquoted hmatching henabled hears hcmd haccepted
        hend (Or.inr ⟨hentries, hlog⟩)
      have hnext : ∀ entry ∈ ((s.act env a).nodes a.uuid).log.entries, entry.Typed :=
        act_typed htyped hremoves a.uuid
      rw [Swarm.act_nodes_self] at hnext
      rw [cores_self] at hbegins
      apply (h packet.src).beginning
      show (s.outcome env a).node.log.kinds <+: (s.nodes packet.src).log.kinds
      rw [kinds_eq hnext, kinds_eq (htyped packet.src)]
      exact hbegins.map _

theorem createDatFile_typed {peers : List PeerAddress} (hpeers : peers ≠ []) : (createDatFile peers).Typed := by
  simp [LogEntry.Typed, createDatFile, hpeers, deduceTypeFromMessage]

theorem typed_of_restarts (hfirst : first.Typed)
    (run : ((restarting env first).guard (Careful env)).Run past s) (n : Uuid) :
    ∀ entry ∈ (s.nodes n).log.entries, entry.Typed := by
  induction run generalizing n with
  | start hinit =>
      rw [Swarm.start_entries (hinit.2 n)]
      intro entry hentry
      rw [List.mem_singleton.mp hentry]
      exact hfirst
  | @step past s event _ henabled ih =>
      cases event with
      | act a => exact act_typed ih henabled.2.2 n
      | restart uuid peers enableAudit enablePeerValidation signedKey =>
          show ∀ entry ∈ ((s.restart uuid peers enableAudit enablePeerValidation signedKey).nodes n).log.entries, _
          rw [restart_log]
          exact ih n

theorem alternates_of_run {peers : List PeerAddress} (hpeers : peers ≠ [])
    (run : ((restarting env (createDatFile peers)).guard (Careful env)).Run past s)
    (hleaders : OneLeader past s) (n : Uuid) : Alternates (s.nodes n).log.kinds := by
  have hfirst := createDatFile_typed hpeers
  induction run generalizing n with
  | start hinit =>
      rw [RaftLog.kinds, Swarm.start_entries (hinit.2 n)]
      exact alternates_start (by simp [LogEntry.kind, createDatFile])
  | @step past s event run henabled ih =>
      have hbefore := hleaders.before
      cases event with
      | act a =>
          show Alternates ((s.act env a).nodes n).log.kinds
          rcases Swarm.act_nodes_cases env s a n with ⟨rfl, hself⟩ | hother
          · rw [hself]
            exact act_alternates (typed_of_restarts hfirst run) (ih hbefore)
              (quoted_of_restarts run.of_guard) (matching_of_restarts run.of_guard hbefore)
              henabled.1 henabled.2.1 henabled.2.2
          · rw [hother]
            exact ih hbefore n
      | restart uuid listed enableAudit enablePeerValidation signedKey =>
          show Alternates ((s.restart uuid listed enableAudit enablePeerValidation signedKey).nodes n).log.kinds
          rw [restart_log]
          exact ih hbefore n

-- The machine of the examples, with restarts.
def threeRestarting : Machine Swarm Event := restarting openEnv (createDatFile threePeers)

instance (s : Swarm) (event : Event) : Decidable (threeRestarting.enabled s event) :=
  inferInstanceAs (Decidable (s.Admits event))

theorem threeRestarting_start : threeRestarting.Run [] freshSwarm :=
  .start ⟨rfl, fun _ => ⟨_, _, _, _, rfl⟩⟩

def listed (uuids : List Uuid) : List PeerJson :=
  (threePeers.filter fun peer => peer.uuid ∈ uuids).map fun peer =>
    ⟨peer.host, peer.port, peer.httpPort, peer.name, some peer.uuid, none⟩

def withoutB : JsonMessage := .jointQuorum (some (listed ["A", "B", "C"])) (some (listed ["A", "C"]))

-- A removes B: it commits the joint quorum with the help of C, and goes on to the single one.
def removal : List Event := (firstLeader ++
  [Action.command "A" (.removePeer "B") 0, .heartbeatTimeout "A" false,
    .pass "A" "C" (createAppendEntriesRequest "A" 1 1 0 0 1 withoutB),
    .pass "C" "A" (createAppendEntriesResponse "C" 1 true 2)]).map .act

def Event.uuid : Event → Uuid
  | .act a => a.uuid
  | .restart uuid .. => uuid

-- A node that nothing happens to is as it was constructed.
theorem untouched_of_restarts {state : Swarm} (run : (restarting env first).Run past s)
    (hvisited : Machine.Visited past s state) {n : Uuid} (h : ∀ step ∈ past, step.2.uuid ≠ n) :
    (state.nodes n).currentState = .follower := by
  induction run generalizing state with
  | start hinit =>
      rcases hvisited with rfl | ⟨_, hmem⟩
      · exact Swarm.start_follower (hinit.2 n)
      · cases hmem
  | @step past s event run _ ih =>
      have hbefore : ∀ step ∈ past, step.2.uuid ≠ n := fun step hs => h step (List.mem_cons_of_mem _ hs)
      rcases Machine.visited_step_cases hvisited with rfl | hvisited
      · have hother := h _ List.mem_cons_self
        have hsame := ih (Or.inl rfl) hbefore
        cases event with
        | act a =>
            show ((s.act env a).nodes n).currentState = .follower
            rw [Swarm.act_nodes_other (Ne.symm hother)]
            exact hsame
        | restart uuid peers enableAudit enablePeerValidation signedKey =>
            show ((s.restart uuid peers enableAudit enablePeerValidation signedKey).nodes n).currentState = _
            unfold Swarm.restart
            dsimp only
            rw [if_neg (show n ≠ uuid from Ne.symm hother)]
            exact hsame
      · exact ih hvisited hbefore

theorem oneLeader_removal : OneLeader (threeRestarting.replay [] freshSwarm removal).1
    (threeRestarting.replay [] freshSwarm removal).2 := by
  have hrun := threeRestarting_start.replay removal (by decide +kernel)
  have hleader : ∀ term n, EverLed (threeRestarting.replay [] freshSwarm removal).1
      (threeRestarting.replay [] freshSwarm removal).2 term n → n = "A" := by
    intro term n hled
    obtain ⟨state, hvisited, hstate, _⟩ := hled
    by_contra hn
    by_cases hc : n = "C"
    · subst hc
      have hnever : ∀ step ∈ (threeRestarting.replay [] freshSwarm removal).1,
          (step.1.nodes "C").currentState ≠ .leader := by decide +kernel
      rcases hvisited with rfl | ⟨event, hmem⟩
      · exact absurd hstate (by decide +kernel)
      · exact hnever _ hmem hstate
    · have howners : ∀ step ∈ (threeRestarting.replay [] freshSwarm removal).1,
          step.2.uuid = "A" ∨ step.2.uuid = "C" := by decide +kernel
      have hfollower := untouched_of_restarts (n := n) hrun hvisited (by
        intro step hstep huuid
        rcases howners step hstep with hwho | hwho
        · exact hn (huuid.symm.trans hwho)
        · exact hc (huuid.symm.trans hwho))
      rw [hfollower] at hstate
      cases hstate
  intro term n m hn hm
  exact (hleader term n hn).trans (hleader term m hm).symm

theorem alternates_of_run_removal :
    ((threeRestarting.replay [] freshSwarm removal).2.nodes "A").log.kinds.map Prod.fst =
        [.singleQuorum, .jointQuorum, .singleQuorum] ∧
      Alternates ((threeRestarting.replay [] freshSwarm removal).2.nodes "A").log.kinds := by
  have hcareful : ∀ step ∈ (threeRestarting.replay [] freshSwarm removal).1,
      Careful openEnv step.1 step.2 := by decide +kernel
  have hrun := (threeRestarting_start.replay removal (by decide +kernel)).guard_of hcareful
  exact ⟨by decide +kernel, alternates_of_run (by decide) hrun oneLeader_removal "A"⟩

-- A starts again and is elected once more. It commits the joint quorum a second time, and goes
-- on to the single one a second time.
def repetition : List Event :=
  removal ++ .restart "A" threePeers false false "" ::
    [Action.electionTimeout "A" false 0, .electionTimeout "A" false 0,
      .pass "A" "C" (createRequestVoteRequest "A" 2 3 0), .pass "C" "A" (createRequestVoteResponse "C" 2 true),
      .pass "A" "C" (createAppendEntriesRequest "A" 2 1 0 0 1 withoutB),
      .pass "C" "A" (createAppendEntriesResponse "C" 2 false 2), .heartbeatTimeout "A" false,
      .pass "A" "C" (createAppendEntriesRequest "A" 2 1 1 1 1 (.singleQuorum (some (listed ["A", "C"])))),
      .pass "C" "A" (createAppendEntriesResponse "C" 2 true 3)].map .act

theorem alternates_broken : ¬∀ (env : Env) (peers : List PeerAddress) (past : List (Swarm × Event)) (s : Swarm),
    peers ≠ [] → (restarting env (createDatFile peers)).Run past s →
      ∀ n, (s.nodes n).currentState = .leader → Alternates (s.nodes n).log.kinds := by
  intro h
  have hall := h openEnv threePeers _ _ (by decide)
    (threeRestarting_start.replay repetition (by decide +kernel)) "A" (by decide +kernel)
  obtain ⟨old, new, hlast, _⟩ := hall.single 3 (.singleQuorum (some (listed ["A", "C"]))) (by decide)
    (by decide +kernel)
  have htype : (lastQuorum (((threeRestarting.replay [] freshSwarm repetition).2.nodes "A").log.kinds.take 3)).map
      Prod.fst = some .singleQuorum := by decide +kernel
  have hjoint := congrArg (Option.map Prod.fst) hlast
  rw [htype] at hjoint
  cases hjoint

end Run

end SwarmDB.Raft
