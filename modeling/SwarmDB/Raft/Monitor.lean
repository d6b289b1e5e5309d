import SwarmDB.Audit.Hearsay
import SwarmDB.Raft.Node.Notices
import SwarmDB.Raft.Restart
import SwarmDB.Raft.Swarm.Agreement

namespace SwarmDB.Raft

open Machine

-- A swarm whose nodes audit each other. Beside each node there is its timer and the audit in its process,
-- and an audit message that has been sent can arrive, and again, or never.
structure Monitored where
  swarm : Swarm
  timers : Uuid → Option Node.TimerHandler
  audits : Uuid → Audit
  notices : List Notice

inductive Happening
  | raft (a : Action)
  | audit (uuid : Uuid) (event : Audit.Event)
  | restart (uuid : Uuid) (peers : List PeerAddress) (enableAudit enablePeerValidation : Bool)
      (signedKey : String)

namespace Monitored

variable (env : Env) (text : JsonMessage → String) (settings : Uuid → AuditSettings) (m : Monitored)

-- Starting again leaves a new audit and a timer that waits for an election.
def happen : Happening → Monitored
  | .raft a =>
    { m with
      swarm := m.swarm.act env a
      timers := Function.update m.timers a.uuid
        ((m.swarm.nodes a.uuid).nextTimer env (m.timers a.uuid) a.input)
      notices := m.notices ++ (m.swarm.nodes a.uuid).notices env text a.input }
  | .audit uuid event =>
    { m with audits := Function.update m.audits uuid (event.handler (settings uuid) (m.audits uuid)).state }
  | .restart uuid peers enableAudit enablePeerValidation signedKey =>
    { m with
      swarm := m.swarm.restart uuid peers enableAudit enablePeerValidation signedKey
      timers := Function.update m.timers uuid (some .election)
      audits := Function.update m.audits uuid {} }

def Arrives (uuid : Uuid) : Audit.Event → Prop
  | .message msg => (uuid, msg) ∈ m.notices
  | .start | .leaderAliveTimeout _ | .primaryAliveTimeout _ | .leaderProgressTimeout _ => True

instance (uuid : Uuid) : (event : Audit.Event) → Decidable (m.Arrives uuid event)
  | .message msg => inferInstanceAs (Decidable ((uuid, msg) ∈ m.notices))
  | .start | .leaderAliveTimeout _ | .primaryAliveTimeout _ | .leaderProgressTimeout _ =>
    inferInstanceAs (Decidable True)

def Possible : Happening → Prop
  | .raft a => m.swarm.Enabled a ∧ Node.Due (m.timers a.uuid) a.input
  | .audit uuid event => m.Arrives uuid event ∧ Audit.Due (m.audits uuid) event
  | .restart .. => True

instance : (o : Happening) → Decidable (m.Possible o)
  | .raft a => inferInstanceAs (Decidable (m.swarm.Enabled a ∧ Node.Due (m.timers a.uuid) a.input))
  | .audit uuid event =>
    inferInstanceAs (Decidable (m.Arrives uuid event ∧ Audit.Due (m.audits uuid) event))
  | .restart .. => inferInstanceAs (Decidable True)

end Monitored

-- Every node has been started, and every audit constructed.
def monitored (env : Env) (text : JsonMessage → String) (settings : Uuid → AuditSettings) (first : LogEntry) :
    Machine Monitored Happening where
  init m := (swarm env first).init m.swarm ∧ (∀ n, m.timers n = some .election) ∧ (∀ n, m.audits n = {}) ∧
    m.notices = []
  enabled m o := m.Possible o
  next m o := m.happen env text settings o

variable {env : Env} {text : JsonMessage → String} {settings : Uuid → AuditSettings} {first : LogEntry}
  {past : List (Monitored × Happening)} {m : Monitored}

section Said

-- A node has been leader with this term.
def LedIn (past : List (Monitored × Happening)) (m : Monitored) (term : Nat) (n : Uuid) : Prop :=
  ∃ t, Visited past m t ∧ (t.swarm.nodes n).currentState = .leader ∧ (t.swarm.nodes n).currentTerm = term

-- A node has committed this message under the index, or has begun to and threw while it told its peers.
def CommittedIn (env : Env) (past : List (Monitored × Happening)) (index : Nat) (msg : JsonMessage) : Prop :=
  ∃ t a, (t, .raft a) ∈ past ∧ Node.Told (t.swarm.outcome env a) index msg

-- What the nodes can say of themselves.
def Said (env : Env) (text : JsonMessage → String) (past : List (Monitored × Happening)) (m : Monitored) :
    Audit.Container → Nat → String → Prop
  | .leaders, term, leader => LedIn past m term leader
  | .raftCommits, index, operation => ∃ msg, text msg = operation ∧ CommittedIn env past index msg
  | .primaries, _, _ | .pbftCommits, _, _ => True

theorem LedIn.step {term : Nat} {n : Uuid} (h : LedIn past m term n) (o : Happening) (next : Monitored) :
    LedIn ((m, o) :: past) next term n := by
  obtain ⟨t, hvisited, hleader⟩ := h
  exact ⟨t, hvisited.step o next, hleader⟩

theorem CommittedIn.step {index : Nat} {msg : JsonMessage} (h : CommittedIn env past index msg) (m : Monitored)
    (o : Happening) : CommittedIn env ((m, o) :: past) index msg := by
  obtain ⟨t, a, hmem, htold⟩ := h
  exact ⟨t, a, List.mem_cons_of_mem _ hmem, htold⟩

theorem Said.step {container : Audit.Container} {number : Nat} {reported : String}
    (h : Said env text past m container number reported) (o : Happening) (next : Monitored) :
    Said env text ((m, o) :: past) next container number reported := by
  cases container with
  | leaders => exact LedIn.step h o next
  | raftCommits =>
      obtain ⟨msg, htext, hcommitted⟩ := h
      exact ⟨msg, htext, hcommitted.step m o⟩
  | primaries | pbftCommits => trivial

-- A message that only says such things.
def Honest (env : Env) (text : JsonMessage → String) (past : List (Monitored × Happening)) (m : Monitored)
    (msg : AuditMessage) : Prop :=
  ∀ container number reported, (Audit.Event.message msg).heard container = some (number, reported) →
    Said env text past m container number reported

end Said

section Timers

-- A node keeps its uuid, and its timer waits for a heartbeat only while it leads.
structure Driven (m : Monitored) : Prop where
  uuid : ∀ n, (m.swarm.nodes n).uuid = n
  leads : ∀ n, m.timers n = some .heartbeat → (m.swarm.nodes n).currentState = .leader

theorem driven_of_run (run : (monitored env text settings first).Run past m) : Driven m := by
  induction run with
  | start hinit =>
      refine ⟨fun n => ?_, fun n h => ?_⟩
      · obtain ⟨_, _, _, _, hnode⟩ := hinit.1.2 n
        rw [hnode]
        rfl
      · rw [hinit.2.1 n] at h
        cases h
  | @step past m o run henabled ih =>
      cases o with
      | audit uuid event => exact ⟨ih.uuid, ih.leads⟩
      | raft a =>
          refine ⟨fun n => ?_, fun n h => ?_⟩
          · show ((m.swarm.act env a).nodes n).uuid = n
            by_cases hn : n = a.uuid
            · subst hn
              rw [Swarm.act_nodes_self]
              exact (Node.step_uuid env _ _).trans (ih.uuid a.uuid)
            · rw [Swarm.act_nodes_other hn]
              exact ih.uuid n
          · show ((m.swarm.act env a).nodes n).currentState = .leader
            change Function.update m.timers a.uuid _ n = _ at h
            by_cases hn : n = a.uuid
            · subst hn
              rw [Function.update_self] at h
              rw [Swarm.act_nodes_self]
              exact Node.nextTimer_leads (ih.leads a.uuid) henabled.2 h
            · rw [Function.update_of_ne hn] at h
              rw [Swarm.act_nodes_other hn]
              exact ih.leads n h
      | restart uuid peers enableAudit enablePeerValidation signedKey =>
          refine ⟨fun n => ?_, fun n h => ?_⟩
          · show ((m.swarm.restart uuid _ _ _ _).nodes n).uuid = n
            unfold Swarm.restart
            dsimp only
            split
            · rename_i hn
              exact hn.symm
            · exact ih.uuid n
          · show ((m.swarm.restart uuid _ _ _ _).nodes n).currentState = .leader
            change Function.update m.timers uuid _ n = _ at h
            by_cases hn : n = uuid
            · subst hn
              rw [Function.update_self] at h
              cases h
            · rw [Function.update_of_ne hn] at h
              unfold Swarm.restart
              dsimp only
              rw [if_neg hn]
              exact ih.leads n h

end Timers

section Truth

-- Every audit message is honest, and so is all that the audits have recorded.
structure Hearsay (env : Env) (text : JsonMessage → String) (settings : Uuid → AuditSettings)
    (past : List (Monitored × Happening)) (m : Monitored) : Prop where
  honest : ∀ notice ∈ m.notices, Honest env text past m notice.2
  vouched : ∀ n, Audit.Vouched (settings n) (Said env text past m) (m.audits n)

theorem Hearsay.heard (h : Hearsay env text settings past m) {uuid : Uuid} {event : Audit.Event}
    (harrives : m.Arrives uuid event) (container : Audit.Container) (number : Nat) (reported : String)
    (hheard : event.heard container = some (number, reported)) :
    Said env text past m container number reported := by
  cases event with
  | message msg => exact h.honest _ harrives container number reported hheard
  | start | leaderAliveTimeout _ | primaryAliveTimeout _ | leaderProgressTimeout _ => cases hheard

-- What a node says in a step is true of the step.
theorem honest_notices (hdriven : Driven m) {a : Action} (hdue : Node.Due (m.timers a.uuid) a.input)
    {notice : Notice} (h : notice ∈ (m.swarm.nodes a.uuid).notices env text a.input) (next : Monitored) :
    Honest env text ((m, .raft a) :: past) next notice.2 := by
  intro container number reported hheard
  rcases Node.mem_notices h with ⟨status, hnotice, hinput, hterm, hleader⟩ |
    ⟨commit, msg, hnotice, htext, htold⟩
  · rw [hnotice] at hheard
    obtain ⟨rfl, rfl, rfl⟩ := Audit.eq_of_only hheard
    rw [hinput] at hdue
    refine ⟨m, Or.inr ⟨_, List.mem_cons_self⟩, ?_, ?_⟩
    · rw [hleader, hdriven.uuid]
      exact hdriven.leads a.uuid hdue
    · rw [hleader, hdriven.uuid]
      exact hterm.symm
  · rw [hnotice] at hheard
    obtain ⟨rfl, rfl, rfl⟩ := Audit.eq_of_only hheard
    exact ⟨msg, htext.symm, m, a, List.mem_cons_self, htold⟩

theorem hearsay_of_run (run : (monitored env text settings first).Run past m) :
    Hearsay env text settings past m := by
  induction run with
  | start hinit =>
      refine ⟨fun notice hnotice => ?_, fun n => ?_⟩
      · rw [hinit.2.2.2] at hnotice
        cases hnotice
      · rw [hinit.2.2.1 n]
        exact Audit.vouched_fresh _ _
  | @step past m o run henabled ih =>
      have hold : ∀ notice ∈ m.notices,
          Honest env text ((m, o) :: past) (m.happen env text settings o) notice.2 :=
        fun notice hnotice container number reported hheard =>
          (ih.honest notice hnotice container number reported hheard).step o _
      have hkept : ∀ n, Audit.Vouched (settings n)
          (Said env text ((m, o) :: past) (m.happen env text settings o)) (m.audits n) :=
        fun n => (ih.vouched n).mono fun _ _ _ hsaid => hsaid.step o _
      cases o with
      | raft a =>
          refine ⟨fun notice hnotice => ?_, hkept⟩
          rcases List.mem_append.mp hnotice with hbefore | hnew
          · exact hold notice hbefore
          · exact honest_notices (driven_of_run run) henabled.2 hnew _
      | audit uuid event =>
          refine ⟨hold, fun n => ?_⟩
          show Audit.Vouched (settings n) _ (Function.update m.audits uuid _ n)
          by_cases hn : n = uuid
          · subst hn
            rw [Function.update_self]
            exact (hkept n).step fun container number reported hheard =>
              (ih.heard henabled.1 container number reported hheard).step _ _
          · rw [Function.update_of_ne hn]
            exact hkept n
      | restart uuid peers enableAudit enablePeerValidation signedKey =>
          refine ⟨hold, fun n => ?_⟩
          show Audit.Vouched (settings n) _ (Function.update m.audits uuid _ n)
          by_cases hn : n = uuid
          · subst hn
            rw [Function.update_self]
            exact Audit.vouched_fresh _ _
          · rw [Function.update_of_ne hn]
            exact hkept n

-- An audit raises this error when this happens to it.
def Raises (settings : Uuid → AuditSettings) (m : Monitored) (n : Uuid) (event : Audit.Event)
    (metricName description : String) : Prop :=
  .error (Audit.statsdNamespacePrefix (settings n) ++ metricName) description ∈
    (event.handler (settings n) (m.audits n)).effects

-- Whenever an audit reports a conflict, there is one: two nodes were leaders of one term, or two different
-- operations were committed under one index, and the error names them.
structure Truthful (env : Env) (text : JsonMessage → String) (settings : Uuid → AuditSettings)
    (past : List (Monitored × Happening)) (m : Monitored) : Prop where
  leaders : ∀ t n event description, (t, .audit n event) ∈ past →
    Raises settings t n event Audit.leaderConflictMetricName description →
      ∃ term leader other, leader ≠ other ∧ LedIn past m term leader ∧ LedIn past m term other ∧
        description = Audit.conflictingLeader { term := term, leader := leader } other
  commits : ∀ t n event description, (t, .audit n event) ∈ past →
    Raises settings t n event Audit.raftCommitConflictMetricName description →
      ∃ index msg other, text msg ≠ text other ∧ CommittedIn env past index msg ∧
        CommittedIn env past index other ∧
        description = Audit.conflictingRaftCommit { logIndex := index, operation := text msg } (text other)

theorem Hearsay.conflict (h : Hearsay env text settings past m) {n : Uuid} {event : Audit.Event}
    (harrives : m.Arrives n event) {container : Audit.Container} {description : String}
    (hraises : Raises settings m n event container.conflictMetricName description) :
    ∃ number reported recorded, reported ≠ recorded ∧ Said env text past m container number reported ∧
      Said env text past m container number recorded ∧ description = container.conflict number reported recorded :=
  (h.vouched n).conflict (h.heard harrives) hraises

-- Whatever conflict an audit reports on the way, the nodes have said both.
theorem conflict_of_run (run : (monitored env text settings first).Run past m) {t : Monitored} {n : Uuid}
    {event : Audit.Event} (hmem : (t, .audit n event) ∈ past) {container : Audit.Container} {description : String}
    (hraises : Raises settings t n event container.conflictMetricName description) :
    ∃ number reported recorded, reported ≠ recorded ∧ Said env text past m container number reported ∧
      Said env text past m container number recorded ∧
      description = container.conflict number reported recorded := by
  induction run with
  | start _ => cases hmem
  | @step past m o run henabled ih =>
      have hbefore : ∃ number reported recorded, reported ≠ recorded ∧
          Said env text past m container number reported ∧ Said env text past m container number recorded ∧
          description = container.conflict number reported recorded := by
        rcases List.mem_cons.mp hmem with heq | hbefore
        · obtain ⟨rfl, rfl⟩ := Prod.mk.inj heq
          exact (hearsay_of_run run).conflict henabled.1 hraises
        · exact ih hbefore
      obtain ⟨number, reported, recorded, hne, hreported, hrecorded, hdescription⟩ := hbefore
      exact ⟨number, reported, recorded, hne, hreported.step o _, hrecorded.step o _, hdescription⟩

theorem truthful_of_run (run : (monitored env text settings first).Run past m) :
    Truthful env text settings past m where
  leaders := by
    intro t n event description hmem hraises
    obtain ⟨term, leader, other, hne, hled, hother, hdescription⟩ :=
      @conflict_of_run _ _ _ _ _ _ run _ _ _ hmem .leaders _ hraises
    exact ⟨term, leader, other, hne, hled, hother, hdescription⟩
  commits := by
    intro t n event description hmem hraises
    obtain ⟨index, _, _, hne, ⟨msg, rfl, hcommitted⟩, ⟨other, rfl, hother⟩, hdescription⟩ :=
      @conflict_of_run _ _ _ _ _ _ run _ _ _ hmem .raftCommits _ hraises
    exact ⟨index, msg, other, hne, hcommitted, hother, hdescription⟩

end Truth

section Silence

-- The steps of raft keep what is committed and find every host, and no node starts again.
def Calm (env : Env) (m : Monitored) : Happening → Prop
  | .raft a => Faithful env m.swarm a ∧ (m.swarm.outcome env a).thrown ≠ some .badAddress
  | .audit _ _ => True
  | .restart .. => False

instance (env : Env) (m : Monitored) : (o : Happening) → Decidable (Calm env m o)
  | .raft a =>
    inferInstanceAs (Decidable (Faithful env m.swarm a ∧ (m.swarm.outcome env a).thrown ≠ some .badAddress))
  | .audit _ _ => inferInstanceAs (Decidable True)
  | .restart .. => inferInstanceAs (Decidable False)

def Happening.action (_ : Monitored) : Happening → Option Action
  | .raft a => some a
  | .audit _ _ | .restart .. => none

theorem calm_refines (env : Env) (text : JsonMessage → String) (settings : Uuid → AuditSettings)
    (first : LogEntry) :
    Refines ((monitored env text settings first).guard (Calm env)) ((swarm env first).guard (Faithful env))
      Monitored.swarm Happening.action where
  init := fun m hinit => hinit.1
  moves := by
    intro m o a henabled haction
    cases o with
    | raft b =>
        obtain rfl : b = a := Option.some.inj haction
        exact ⟨⟨henabled.1.1, henabled.2.1⟩, rfl⟩
    | audit _ _ | restart _ _ _ _ _ => cases haction
  rests := by
    intro m o henabled haction
    cases o with
    | raft _ => cases haction
    | audit _ _ => rfl
    | restart _ _ _ _ _ => exact absurd henabled.2 id

theorem mem_handled {env : Env} {life : List (Node × Input)} {node : Node} {input : Input} {effect : Effect}
    (hmem : (node, input) ∈ life) (heffect : effect ∈ (node.step env input).effects)
    (hcommit : effect.isCommit = true) : effect ∈ handled env life := by
  induction life with
  | nil => cases hmem
  | cons step rest ih =>
      unfold handled
      rcases List.mem_cons.mp hmem with rfl | hrest
      · exact List.mem_append_right _ (List.mem_filter.mpr ⟨heffect, hcommit⟩)
      · exact List.mem_append_left _ (ih hrest)

-- What is committed under an index is the one entry that a majority holds there.
theorem chosen_of_committed (hfirst : first.entryType = .singleQuorum)
    (run : ((monitored env text settings first).guard (Calm env)).Run past m) {index : Nat} {msg : JsonMessage}
    (h : CommittedIn env past index msg) :
    ∃ term, ReplicatedLog.Chosen (members first) m.swarm.cores index (term, msg) := by
  obtain ⟨t, a, hmem, htold⟩ := h
  have hfaithful := (calm_refines env text settings first).run run
  have hcommit : .commit index msg ∈ (t.swarm.outcome env a).effects := by
    rcases htold with hcommit | ⟨hbad, _⟩
    · exact hcommit
    · exact absurd hbad (run.guarded _ hmem).2
  have hstep : (t.swarm, a) ∈ seen Monitored.swarm Happening.action past :=
    List.mem_filterMap.mpr ⟨_, hmem, rfl⟩
  have hlife : (t.swarm.nodes a.uuid, a.input) ∈
      history (seen Monitored.swarm Happening.action past) a.uuid :=
    List.mem_filterMap.mpr ⟨_, hstep, if_pos rfl⟩
  obtain ⟨hpos, hindex, term, hentry⟩ := handled_entry hfaithful.of_guard (mem_handled hlife hcommit rfl)
  obtain ⟨e, he, hchosen⟩ := settled_of_run hfirst hfaithful a.uuid index hpos hindex
  rw [hentry] at he
  obtain rfl := Option.some.inj he
  exact ⟨term, hchosen⟩

theorem everLeader_of_ledIn (run : ((monitored env text settings first).guard (Calm env)).Run past m)
    {term : Nat} {n : Uuid} (h : LedIn past m term n) :
    EverLeader (seen Monitored.swarm Happening.action past) m.swarm term n := by
  obtain ⟨t, hvisited, hleader⟩ := h
  exact ⟨t.swarm, (calm_refines env text settings first).visited run hvisited, hleader⟩

-- No audit ever reports a conflict.
def Silent (settings : Uuid → AuditSettings) (past : List (Monitored × Happening)) : Prop :=
  ∀ t n event description, (t, .audit n event) ∈ past →
    ¬Raises settings t n event Audit.leaderConflictMetricName description ∧
      ¬Raises settings t n event Audit.raftCommitConflictMetricName description

theorem silent_of_run (hfirst : first.entryType = .singleQuorum)
    (run : ((monitored env text settings first).guard (Calm env)).Run past m) : Silent settings past := by
  intro t n event description hmem
  have hfaithful := (calm_refines env text settings first).run run
  constructor
  · intro hraises
    obtain ⟨term, leader, other, hne, hled, hother, _⟩ :=
      @conflict_of_run _ _ _ _ _ _ run.of_guard _ _ _ hmem .leaders _ hraises
    have horderly : ((swarm env first).guard (Orderly env)).Run
        (seen Monitored.swarm Happening.action past) m.swarm :=
      hfaithful.of_guard.guard_of fun step hstep => (hfaithful.guarded step hstep).orderly
    exact hne (everLeader_unique hfirst horderly (everLeader_of_ledIn run hled) (everLeader_of_ledIn run hother))
  · intro hraises
    obtain ⟨index, _, _, hne, ⟨msg, rfl, hcommitted⟩, ⟨other, rfl, hother⟩, _⟩ :=
      @conflict_of_run _ _ _ _ _ _ run.of_guard _ _ _ hmem .raftCommits _ hraises
    obtain ⟨term, hchosen⟩ := chosen_of_committed hfirst run hcommitted
    obtain ⟨term', hchosen'⟩ := chosen_of_committed hfirst run hother
    have hsame := hchosen.unique hchosen'
    exact hne (congrArg text (Prod.mk.inj hsame).2)

end Silence

section Runs

-- Three nodes that audit, and what the audit of C hears of A and B.
def watchedSystem : Monitored where
  swarm := ⟨fun n => Node.construct n threePeers true false "" (startLog (createDatFile threePeers)), []⟩
  timers _ := some .election
  audits _ := {}
  notices := []

def auditOfEach (uuid : Uuid) : AuditSettings := { uuid := uuid, memSize := 100, usePbft := false }

def styledText : JsonMessage → String
  | .database text | .other text => text
  | .null | .singleQuorum _ | .jointQuorum _ _ => ""

def watchedMachine : Machine Monitored Happening :=
  monitored openEnv styledText auditOfEach (createDatFile threePeers)

instance (m : Monitored) (o : Happening) : Decidable (watchedMachine.enabled m o) :=
  inferInstanceAs (Decidable (m.Possible o))

theorem watchedSystem_start : watchedMachine.init watchedSystem :=
  ⟨⟨rfl, fun _ => ⟨_, _, _, _, rfl⟩⟩, fun _ => rfl, fun _ => rfl, rfl⟩

def hearsLeader (term : Nat) (leader : Uuid) : Happening :=
  .audit "C" (.message (.leaderStatus
    { term := term, leader := leader, currentLogIndex := 2, currentCommitIndex := 1 }))

def hearsCommit (operation : String) : Happening :=
  .audit "C" (.message (.raftCommit { logIndex := 1, operation := operation }))

-- C hears of two leaders of one term, and of two commits under one index.
def splitRun : List (Monitored × Happening) × Monitored :=
  watchedMachine.replay [] watchedSystem (splitBrain.map .raft ++
    [hearsLeader 2 "A", hearsCommit "x", hearsLeader 2 "B", hearsCommit "y"])

theorem splitRun_run : watchedMachine.Run splitRun.1 splitRun.2 :=
  (Machine.Run.start watchedSystem_start).replay _ (by decide +kernel)

theorem truthful_of_run_split : (splitRun.2.audits "C").errorStrings =
      [Audit.conflictingLeader { term := 2, leader := "B" } "A",
        Audit.conflictingRaftCommit { logIndex := 1, operation := "y" } "x"] ∧
    Truthful openEnv styledText auditOfEach splitRun.1 splitRun.2 :=
  ⟨by decide +kernel, truthful_of_run splitRun_run⟩

-- C hears twice of the one leader and of the one commit.
def calmRun : List (Monitored × Happening) × Monitored :=
  watchedMachine.replay [] watchedSystem (oneEntry.map .raft ++
    [hearsLeader 1 "A", hearsCommit "x", hearsLeader 1 "A", hearsCommit "x"])

theorem calmRun_run : (watchedMachine.guard (Calm openEnv)).Run calmRun.1 calmRun.2 := by
  refine ((Machine.Run.start watchedSystem_start).replay _ (by decide +kernel)).guard_of ?_
  decide +kernel

theorem silent_of_run_calm : (calmRun.2.audits "C").recordedRaftCommits.get 1 = some "x" ∧
    Silent auditOfEach calmRun.1 :=
  ⟨by decide +kernel, silent_of_run rfl calmRun_run⟩

end Runs

end SwarmDB.Raft
