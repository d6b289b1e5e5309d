import SwarmDB.Raft.Log.Mirror
import SwarmDB.Raft.Node.Appends
import SwarmDB.Raft.Swarm.Matching

namespace SwarmDB.Raft

open ReplicatedLog

-- A swarm takes a step, or one of its nodes stops and starts again.
inductive Event
  | act (a : Action)
  | restart (uuid : Uuid) (peers : List PeerAddress) (enableAudit enablePeerValidation : Bool)
      (signedKey : String)

namespace Swarm

-- The new node reads its log from the file. Of everything else nothing is left.
def restart (s : Swarm) (uuid : Uuid) (peers : List PeerAddress) (enableAudit enablePeerValidation : Bool)
    (signedKey : String) : Swarm :=
  { s with nodes := fun n =>
      if n = uuid then
        Node.construct uuid peers enableAudit enablePeerValidation signedKey (s.nodes uuid).log
      else s.nodes n }

def handle (env : Env) (s : Swarm) : Event → Swarm
  | .act a => s.act env a
  | .restart uuid peers enableAudit enablePeerValidation signedKey =>
    s.restart uuid peers enableAudit enablePeerValidation signedKey

def Admits (s : Swarm) : Event → Prop
  | .act a => s.Enabled a
  | .restart .. => True

instance (s : Swarm) : (event : Event) → Decidable (s.Admits event)
  | .act a => inferInstanceAs (Decidable (s.Enabled a))
  | .restart .. => inferInstanceAs (Decidable True)

end Swarm

-- The swarm with restarts.
def restarting (env : Env) (first : LogEntry) : Machine Swarm Event where
  init := (swarm env first).init
  enabled s event := s.Admits event
  next s event := s.handle env event

instance (env : Env) (first : LogEntry) (s : Swarm) (event : Event) :
    Decidable ((restarting env first).enabled s event) :=
  inferInstanceAs (Decidable (s.Admits event))

section LogFile

variable {P : Type} [DecidableEq P] {codec : Codec} {file : FileLog P}

theorem FileLog.Intact.appendAll (h : file.Intact codec) {added : List LogEntry}
    (hfits : ∀ entry ∈ added, entry.Fits codec) :
    (added.foldl (FileLog.leaderAppendEntry codec) file).Intact codec ∧
      (added.foldl (FileLog.leaderAppendEntry codec) file).log.entries = file.log.entries ++ added := by
  induction added generalizing file with
  | nil => exact ⟨h, by simp⟩
  | cons entry added ih =>
      obtain ⟨hintact, hlog⟩ := ih (h.leaderAppendEntry (hfits entry List.mem_cons_self))
        fun other hother => hfits other (List.mem_cons_of_mem _ hother)
      refine ⟨hintact, ?_⟩
      rw [List.foldl_cons, hlog]
      show (file.log.entries ++ [entry]) ++ added = _
      simp

-- A node only ever writes behind the end of its file, so what a restart reads is the log.
theorem step_keeps_file (env : Env) (node : Node) (input : Input) (hlog : file.log = node.log)
    (hintact : file.Intact codec)
    (hfits : ∀ entry ∈ (node.step env input).node.log.entries, entry.Fits codec) :
    ∃ added : List LogEntry,
      (added.foldl (FileLog.leaderAppendEntry codec) file).log = (node.step env input).node.log ∧
      (added.foldl (FileLog.leaderAppendEntry codec) file).Intact codec ∧
      (added.foldl (FileLog.leaderAppendEntry codec) file).Mirrors codec := by
  obtain ⟨added, hadded⟩ := Node.step_log_grows env node input
  have hnew : ∀ entry ∈ added, entry.Fits codec := by
    intro entry hentry
    apply hfits
    rw [← hadded]
    exact List.mem_append_right _ hentry
  obtain ⟨hkept, hentries⟩ := hintact.appendAll hnew
  refine ⟨added, RaftLog.ext ?_, hkept, hkept.mirrors⟩
  rw [hentries, hlog, hadded]

end LogFile

-- All that a client gets into the log is the text of a database request.
theorem request_of_input (a : Action) {msg : JsonMessage} {entryType : LogEntryType}
    (h : a.input = .appendLog msg entryType) : entryType = .database ∧ ∃ text, msg = .database text := by
  cases a with
  | appendLog uuid text =>
      cases h
      exact ⟨rfl, text, rfl⟩
  | deliver packet stray pick =>
      obtain ⟨src, dst, payload⟩ := packet
      cases payload <;> cases h
  | electionTimeout _ _ _ | heartbeatTimeout _ _ | command _ _ _ => cases h

section Growth

variable {env : Env} {first : LogEntry} {past : List (Swarm × Event)} {s : Swarm}

theorem restart_log (uuid : Uuid) (peers : List PeerAddress) (enableAudit enablePeerValidation : Bool)
    (signedKey : String) (n : Uuid) :
    ((s.restart uuid peers enableAudit enablePeerValidation signedKey).nodes n).log = (s.nodes n).log := by
  unfold Swarm.restart
  dsimp only
  split
  · rename_i hn
    rw [hn]
    rfl
  · rfl

theorem handle_grows (env : Env) (s : Swarm) (event : Event) (n : Uuid) :
    s.cores n <+: (s.handle env event).cores n := by
  cases event with
  | act a => exact cores_grow env s a n
  | restart uuid peers enableAudit enablePeerValidation signedKey =>
      show s.cores n <+: (s.restart uuid peers enableAudit enablePeerValidation signedKey).cores n
      rw [Swarm.cores, Swarm.cores, restart_log]

theorem quoted_of_restarts (run : (restarting env first).Run past s) : Quoted s := by
  induction run with
  | start hinit =>
      intro packet hpacket
      simp [hinit.1] at hpacket
  | @step past s event _ _ ih =>
      cases event with
      | act a => exact ih.act env a
      | restart uuid peers enableAudit enablePeerValidation signedKey =>
          exact ih.grow rfl
            (handle_grows env s (.restart uuid peers enableAudit enablePeerValidation signedKey))

theorem root_of_restarts (run : (restarting env first).Run past s) (n : Uuid) :
    (s.cores n).take 1 = [first.core] := by
  induction run with
  | start hinit =>
      rw [Swarm.cores, Swarm.start_entries (hinit.2 n)]
      rfl
  | @step past s event _ _ ih =>
      have hlen : 1 ≤ (s.cores n).length := by
        rw [cores_length]
        exact (s.nodes n).log.size_pos
      exact (take_of_grown (handle_grows env s event n) hlen).trans ih

end Growth

section Matching

variable {env : Env} {first : LogEntry} {past : List (Swarm × Event)} {s : Swarm}

-- A node has been leader with this term, before or after a restart.
def EverLed (past : List (Swarm × Event)) (s : Swarm) (term : Nat) (n : Uuid) : Prop :=
  ∃ state, Machine.Visited past s state ∧ (state.nodes n).currentState = .leader ∧
    (state.nodes n).currentTerm = term

theorem EverLed.step {term : Nat} {n : Uuid} (h : EverLed past s term n) (event : Event) (next : Swarm) :
    EverLed ((s, event) :: past) next term n := by
  obtain ⟨state, hvisited, hleader⟩ := h
  exact ⟨state, hvisited.step event next, hleader⟩

-- No term ever had two leaders.
def OneLeader (past : List (Swarm × Event)) (s : Swarm) : Prop :=
  ∀ term n m, EverLed past s term n → EverLed past s term m → n = m

theorem OneLeader.before {event : Event} {next : Swarm} (h : OneLeader ((s, event) :: past) next) :
    OneLeader past s :=
  fun term n m hn hm => h term n m (hn.step event next) (hm.step event next)

theorem rooted_of_restarts (run : (restarting env first).Run past s) (hleaders : OneLeader past s) :
    Rooted Prod.fst (EverLed past s) s.cores := by
  induction run with
  | start hinit =>
      intro n i e he
      have hlt := (List.getElem?_eq_some_iff.mp he).1
      rw [cores_length, RaftLog.size, Swarm.start_entries (hinit.2 n)] at hlt
      have hone : i < 1 := hlt
      exact Or.inl (by omega)
  | @step past s event run henabled ih =>
      have hbefore := hleaders.before
      cases event with
      | act a =>
          refine rooted_act (ih hbefore) (quoted_of_restarts run)
            (fun n m => (root_of_restarts run n).trans (root_of_restarts run m).symm) hbefore
            (fun term n hn => hn.step _ _) ?_ henabled
          intro hleader
          exact EverLed.step ⟨s, Or.inl rfl, hleader, rfl⟩ _ _
      | restart uuid peers enableAudit enablePeerValidation signedKey =>
          refine (ih hbefore).grow
            (handle_grows env s (.restart uuid peers enableAudit enablePeerValidation signedKey))
            (fun term n hn => hn.step _ _) ?_
          intro n i e hi he
          have hlt := (List.getElem?_eq_some_iff.mp he).1
          change i < ((s.restart uuid peers enableAudit enablePeerValidation signedKey).cores n).length at hlt
          rw [cores_length, restart_log, ← cores_length] at hlt
          omega

theorem matching_of_restarts (run : (restarting env first).Run past s) (hleaders : OneLeader past s)
    {n m : Uuid} {i term : Nat} {msg msg' : JsonMessage} (hn : (s.cores n)[i]? = some (term, msg))
    (hm : (s.cores m)[i]? = some (term, msg')) :
    (s.cores n).take (i + 1) = (s.cores m).take (i + 1) :=
  Rooted.matching (rooted_of_restarts run hleaders)
    (fun n m => (root_of_restarts run n).trans (root_of_restarts run m).symm) hleaders hn hm rfl

end Matching

end SwarmDB.Raft
