import SwarmDB.Audit.Window

namespace SwarmDB

namespace Audit

variable {settings : AuditSettings} {past : List (Audit × Event)} {s t : Audit} {status : LeaderStatus}

section Aside

-- What the timer of the leader's progress depends on.
def progress (audit : Audit) : Bool × Uuid × Nat × Bool :=
  (audit.leaderProgressTimer, audit.lastLeader, audit.lastLeaderCommitIndex, audit.leaderHasUncommittedEntries)

-- A handler that has nothing to do with it.
def Aside (m : Auditing Unit) : Prop :=
  ∀ s, (m s).state.progress = s.progress ∧ .restartProgress ∉ (m s).effects

theorem Aside.seq {m : Auditing Unit} {k : Unit → Auditing Unit} (h : Aside m) (hk : Aside (k ())) :
    Aside (m >>= k) := by
  intro s
  obtain ⟨hstate, heffects⟩ := h s
  obtain ⟨hstate', heffects'⟩ := hk (m s).state
  rw [Handler.seq_eq]
  exact ⟨hstate'.trans hstate, by simp [heffects, heffects']⟩

theorem Aside.reads {α : Type} {f : Audit → α} {k : α → Auditing Unit} (h : ∀ a, Aside (k a)) :
    Aside (Handler.reads f >>= k) :=
  fun s => h (f s) s

theorem aside_pure : Aside (pure ()) := fun _ => ⟨rfl, by simp⟩

theorem aside_emits {effect : AuditEffect} (h : .restartProgress ≠ effect) : Aside (Handler.emits effect) :=
  fun _ => ⟨rfl, by simpa using h⟩

theorem aside_updates {f : Audit → Audit} (h : ∀ s, (f s).progress = s.progress) : Aside (Handler.updates f) :=
  fun s => ⟨h s, by simp⟩

theorem aside_sendToMonitor (settings : AuditSettings) (stat : String) : Aside (sendToMonitor settings stat) := by
  unfold sendToMonitor
  split
  · exact aside_emits (by simp)
  · exact aside_pure

theorem aside_reportError (settings : AuditSettings) (metricName description : String) :
    Aside (reportError settings metricName description) := by
  refine .seq (aside_updates fun _ => rfl) (.seq (aside_emits (by simp)) (.seq ?_ (aside_updates fun _ => rfl)))
  exact aside_sendToMonitor settings _

theorem aside_recordOrCompare (settings : AuditSettings) (container : Container) (number : Nat) (reported : String)
    {heard : Auditing Unit} (hheard : Aside heard) (metricName : String) (conflict : String → String) :
    Aside (recordOrCompare settings container number reported heard metricName conflict) := by
  refine .reads fun found => ?_
  cases found with
  | none =>
      refine .seq hheard (.seq (aside_updates fun s => ?_) (aside_updates fun _ => rfl))
      cases container <;> rfl
  | some recorded =>
      dsimp only
      split
      · exact aside_reportError settings _ _
      · exact aside_pure

theorem aside_waitForLeader : Aside waitForLeader :=
  .seq (aside_emits (by simp)) (aside_updates fun _ => rfl)

theorem aside_waitForPrimary : Aside waitForPrimary :=
  .seq (aside_emits (by simp)) (aside_updates fun _ => rfl)

theorem aside_resetLeaderAliveTimer : Aside resetLeaderAliveTimer :=
  .seq (aside_updates fun _ => rfl) aside_waitForLeader

theorem aside_resetPrimaryAliveTimer : Aside resetPrimaryAliveTimer :=
  .seq (aside_updates fun _ => rfl) aside_waitForPrimary

end Aside

section Histories

-- The last status of a leader. Before the first one the audit knows what it is constructed with.
def lastStatus : List (Audit × Event) → LeaderStatus
  | [] => {}
  | (_, .message (.leaderStatus status)) :: _ => status
  | _ :: past => lastStatus past

theorem lastStatus_other {event : Event} (h : ∀ status, event ≠ .message (.leaderStatus status)) :
    lastStatus ((s, event) :: past) = lastStatus past := by
  cases event with
  | start | leaderAliveTimeout _ | primaryAliveTimeout _ | leaderProgressTimeout _ => rfl
  | message msg =>
      cases msg with
      | leaderStatus status => exact absurd rfl (h status)
      | unset | failureDetected _ | raftCommit _ | pbftCommit _ | primaryStatus _ => rfl

-- A leader has not committed more than its log has, and the log of the same leader does not shrink.
structure Admissible (past : List (Audit × Event)) (status : LeaderStatus) : Prop where
  committed : status.currentCommitIndex ≤ status.currentLogIndex
  grows : (lastStatus past).leader = status.leader → (lastStatus past).currentLogIndex ≤ status.currentLogIndex

def Consistent : List (Audit × Event) → Prop
  | [] => True
  | (_, .message (.leaderStatus status)) :: past => Admissible past status ∧ Consistent past
  | _ :: past => Consistent past

end Histories

section Progress

-- The audit knows the last status, and it waits only when that left entries uncommitted.
structure Tracks (past : List (Audit × Event)) (s : Audit) : Prop where
  uncommitted : s.leaderHasUncommittedEntries = s.leaderProgressTimer
  leader : s.lastLeader = (lastStatus past).leader
  commitIndex : s.lastLeaderCommitIndex = (lastStatus past).currentCommitIndex
  waits : s.leaderProgressTimer = true →
    (lastStatus past).currentCommitIndex < (lastStatus past).currentLogIndex

-- The leader is another one, it has committed more, or nobody was waiting for it.
def Renewed (past : List (Audit × Event)) (s : Audit) (status : LeaderStatus) : Prop :=
  (lastStatus past).leader ≠ status.leader ∨ (lastStatus past).currentCommitIndex < status.currentCommitIndex ∨
    s.leaderProgressTimer = false

-- What a status does to the timer of the progress.
structure Advances (past : List (Audit × Event)) (status : LeaderStatus) (s : Audit) (es : List AuditEffect)
    (t : Audit) : Prop where
  pending : t.leaderProgressTimer = true ↔ status.currentCommitIndex < status.currentLogIndex
  uncommitted : t.leaderHasUncommittedEntries = t.leaderProgressTimer
  leader : t.lastLeader = status.leader
  commitIndex : t.lastLeaderCommitIndex = status.currentCommitIndex
  restarts : .restartProgress ∈ es ↔ status.currentCommitIndex < status.currentLogIndex ∧ Renewed past s status
  stuckCount : .restartProgress ∈ es → t.leaderStuckCount = 0

theorem advances_madeProgress (hcommitted : status.currentCommitIndex ≤ status.currentLogIndex)
    (hrenewed : Renewed past s status) (hleader : t.lastLeader = status.leader) :
    Advances past status s (handleLeaderMadeProgress status t).effects
      { (handleLeaderMadeProgress status t).state with lastLeaderCommitIndex := status.currentCommitIndex } := by
  unfold handleLeaderMadeProgress
  split
  · rename_i hall
    have hnone : ¬status.currentCommitIndex < status.currentLogIndex := by omega
    constructor <;> simp [clearLeaderProgressTimer, hnone, hleader]
  · rename_i hsome
    have hlt : status.currentCommitIndex < status.currentLogIndex := by omega
    constructor <;> simp [resetLeaderProgressTimer, waitForProgress, hlt, hrenewed, hleader]

theorem advances_leaderData (h : Tracks past s) (hadmissible : Admissible past status) :
    Advances past status s (handleLeaderData status s).effects (handleLeaderData status s).state := by
  obtain ⟨hcommitted, hgrows⟩ := hadmissible
  simp only [handleLeaderData, Handler.reads_bind]
  by_cases hleader : status.leader = s.lastLeader
  · rw [if_neg (not_not_intro hleader)]
    have hsame : (lastStatus past).leader = status.leader := by rw [hleader, h.leader]
    by_cases hprogress : s.lastLeaderCommitIndex < status.currentCommitIndex
    · rw [if_pos hprogress]
      have hrenewed : Renewed past s status := Or.inr (Or.inl (by rw [← h.commitIndex]; exact hprogress))
      simpa using advances_madeProgress hcommitted hrenewed hleader.symm
    · rw [if_neg hprogress]
      rw [h.commitIndex] at hprogress
      by_cases hlt : status.currentCommitIndex < status.currentLogIndex
      · cases hpending : s.leaderProgressTimer with
        | false =>
            rw [if_pos ⟨hlt, by rw [h.uncommitted, hpending]⟩]
            constructor <;> simp [resetLeaderProgressTimer, waitForProgress, hlt, Renewed, hpending, hleader]
        | true =>
            rw [if_neg (by rw [h.uncommitted, hpending]; simp)]
            constructor <;> simp [hlt, Renewed, hpending, hleader, h.uncommitted, hsame, hprogress]
      · -- the log has all that was committed before, so nobody waits
        rw [if_neg (fun hboth => hlt hboth.1)]
        have hpending : s.leaderProgressTimer = false := by
          by_contra hwaits
          have hbefore := h.waits (by simpa using hwaits)
          have hlog := hgrows hsame
          omega
        constructor <;> simp [hlt, hpending, hleader, h.uncommitted]
  · rw [if_pos hleader]
    have hrenewed : Renewed past s status := Or.inl (by rw [← h.leader]; exact Ne.symm hleader)
    simpa using advances_madeProgress (t := { s with lastLeader := status.leader }) hcommitted hrenewed rfl

theorem tracks_of_progress (hprogress : t.progress = s.progress) (h : Tracks past s) : Tracks past t := by
  simp only [progress, Prod.mk.injEq] at hprogress
  obtain ⟨hpending, hleader, hcommit, huncommitted⟩ := hprogress
  exact ⟨by rw [huncommitted, h.uncommitted, hpending], by rw [hleader, h.leader], by rw [hcommit, h.commitIndex],
    by rw [hpending]; exact h.waits⟩

theorem renewed_congr (h : t.leaderProgressTimer = s.leaderProgressTimer) :
    Renewed past t status ↔ Renewed past s status := by
  rw [Renewed, Renewed, h]

theorem advances_status (hraft : settings.usePbft = false) (h : Tracks past s) (hadmissible : Admissible past status) :
    Advances past status s (Event.handler settings (.message (.leaderStatus status)) s).effects
      (Event.handler settings (.message (.leaderStatus status)) s).state := by
  have hrecord : Aside (recordOrCompare settings .leaders status.term status.leader
      (sendToMonitor settings (newLeaderMetricName ++ statsdCounterFormat))
      leaderConflictMetricName (conflictingLeader status)) :=
    aside_recordOrCompare settings _ _ _ (aside_sendToMonitor settings _) _ _
  have hbefore := hrecord.seq (k := fun _ => resetLeaderAliveTimer) aside_resetLeaderAliveTimer
  obtain ⟨hstate, heffects⟩ := hbefore s
  have hadvances := advances_leaderData (tracks_of_progress hstate h) hadmissible
  have hpending := congrArg Prod.fst hstate
  simp only [progress] at hpending
  simp only [Event.handler, handle, handleLeaderStatus, hraft, Bool.false_eq_true, if_false, Handler.seq_state,
    Handler.seq_effects, Handler.emits_apply, List.mem_append, not_or] at heffects hadvances hpending ⊢
  refine ⟨hadvances.pending, hadvances.uncommitted, hadvances.leader, hadvances.commitIndex, ?_, ?_⟩
  · rw [← renewed_congr hpending, ← hadvances.restarts]
    simp [heffects]
  · intro hrestarts
    apply hadvances.stuckCount
    simpa [heffects] using hrestarts

theorem Advances.tracks {es : List AuditEffect} (h : Advances past status s es t) (event : Event)
    (hlast : lastStatus ((s, event) :: past) = status) : Tracks ((s, event) :: past) t := by
  refine ⟨h.uncommitted, ?_, ?_, ?_⟩
  · rw [hlast, h.leader]
  · rw [hlast, h.commitIndex]
  · rw [hlast]
    exact h.pending.mp

end Progress

section Runs

-- Whether the timer of the progress is pending after an event.
def Event.waits (pending : Bool) : Event → Bool
  | .message (.leaderStatus status) => status.currentCommitIndex < status.currentLogIndex
  | .leaderAliveTimeout false => false
  | .message (.raftCommit _) | .message (.pbftCommit _) | .message (.primaryStatus _)
  | .message (.failureDetected _) | .message .unset | .start | .leaderAliveTimeout true | .primaryAliveTimeout _
  | .leaderProgressTimeout _ => pending

theorem aside_start (settings : AuditSettings) : Aside (start settings) := by
  refine .reads fun started => ?_
  split
  · exact aside_pure
  · refine .seq (aside_updates fun _ => rfl) ?_
    split
    · exact aside_resetPrimaryAliveTimer
    · exact aside_resetLeaderAliveTimer

theorem aside_handlePrimaryAliveTimeout (settings : AuditSettings) (canceled : Bool) :
    Aside (handlePrimaryAliveTimeout settings canceled) := by
  cases canceled with
  | true => exact aside_pure
  | false =>
      refine .seq (aside_updates fun _ => rfl) (.reads fun count => ?_)
      exact .seq (aside_reportError settings _ _) aside_waitForPrimary

theorem aside_handlePrimaryStatus (settings : AuditSettings) (status : PrimaryStatus) :
    Aside (handlePrimaryStatus settings status) := by
  unfold handlePrimaryStatus
  split
  · exact aside_pure
  · refine .seq (aside_recordOrCompare settings _ _ _ ?_ _ _) aside_resetPrimaryAliveTimer
    exact aside_sendToMonitor settings _

theorem aside_handleRaftCommit (settings : AuditSettings) (commit : RaftCommitNotification) :
    Aside (handleRaftCommit settings commit) := by
  unfold handleRaftCommit
  split
  · exact aside_pure
  · exact .seq (aside_sendToMonitor settings _) (aside_recordOrCompare settings _ _ _ aside_pure _ _)

theorem aside_handlePbftCommit (settings : AuditSettings) (commit : PbftCommitNotification) :
    Aside (handlePbftCommit settings commit) := by
  unfold handlePbftCommit
  split
  · exact aside_pure
  · exact .seq (aside_sendToMonitor settings _) (aside_recordOrCompare settings _ _ _ aside_pure _ _)

theorem aside_handleFailureDetected (settings : AuditSettings) : Aside (handleFailureDetected settings) := by
  unfold handleFailureDetected
  split
  · exact aside_pure
  · exact aside_sendToMonitor settings _

theorem progress_leaderAliveTimeout (settings : AuditSettings) (s : Audit) :
    (handleLeaderAliveTimeout settings false s).state.progress =
      (false, s.lastLeader, s.lastLeaderCommitIndex, false) := by
  simp [handleLeaderAliveTimeout, clearLeaderProgressTimer, waitForLeader, reportError, progress, trim]

theorem progress_leaderProgressTimeout (settings : AuditSettings) (s : Audit) :
    (handleLeaderProgressTimeout settings false s).state.progress =
      (true, s.lastLeader, s.lastLeaderCommitIndex, s.leaderHasUncommittedEntries) := by
  simp [handleLeaderProgressTimeout, waitForProgress, reportError, progress, trim]

-- Everything but a leader's status leaves what is known of the leader alone.
theorem progress_other {event : Event} (hother : ∀ status, event ≠ .message (.leaderStatus status))
    (hdue : Due s event) (huncommitted : s.leaderHasUncommittedEntries = s.leaderProgressTimer) :
    (event.handler settings s).state.progress = (event.waits s.leaderProgressTimer, s.lastLeader,
      s.lastLeaderCommitIndex, event.waits s.leaderProgressTimer) := by
  have haside : ∀ m : Auditing Unit, Aside m → (m s).state.progress =
      (s.leaderProgressTimer, s.lastLeader, s.lastLeaderCommitIndex, s.leaderProgressTimer) := by
    intro m h
    rw [(h s).1, progress, huncommitted]
  have hclose : Aside (Handler.emits .close) := aside_emits (by simp)
  cases event with
  | start => exact haside _ (aside_start settings)
  | primaryAliveTimeout canceled => exact haside _ (aside_handlePrimaryAliveTimeout settings canceled)
  | leaderAliveTimeout canceled =>
      cases canceled with
      | true => exact haside _ aside_pure
      | false => exact progress_leaderAliveTimeout settings s
  | leaderProgressTimeout canceled =>
      cases canceled with
      | true => exact haside _ aside_pure
      | false =>
          have hpending : s.leaderProgressTimer = true := hdue rfl
          exact (progress_leaderProgressTimeout settings s).trans (by rw [huncommitted, hpending]; rfl)
  | message msg =>
      cases msg with
      | leaderStatus status => exact absurd rfl (hother status)
      | unset => exact haside _ (aside_pure.seq (k := fun _ => _) hclose)
      | failureDetected _ => exact haside _ ((aside_handleFailureDetected settings).seq (k := fun _ => _) hclose)
      | raftCommit commit => exact haside _ ((aside_handleRaftCommit settings commit).seq (k := fun _ => _) hclose)
      | pbftCommit commit => exact haside _ ((aside_handlePbftCommit settings commit).seq (k := fun _ => _) hclose)
      | primaryStatus status =>
          exact haside _ ((aside_handlePrimaryStatus settings status).seq (k := fun _ => _) hclose)

theorem tracks_start : Tracks [] {} := ⟨rfl, rfl, rfl, by decide⟩

theorem tracks_step (hraft : settings.usePbft = false) (h : Tracks past s) {event : Event} (hdue : Due s event)
    (hconsistent : Consistent ((s, event) :: past)) :
    Tracks ((s, event) :: past) (event.handler settings s).state ∧
      (event.handler settings s).state.leaderProgressTimer = event.waits s.leaderProgressTimer := by
  by_cases hstatus : ∃ status, event = .message (.leaderStatus status)
  · obtain ⟨status, rfl⟩ := hstatus
    have hadvances := advances_status hraft h hconsistent.1
    refine ⟨hadvances.tracks _ rfl, ?_⟩
    rw [Bool.eq_iff_iff, hadvances.pending]
    simp [Event.waits]
  · have hprogress : (event.handler settings s).state.progress = _ :=
      progress_other (fun status heq => hstatus ⟨status, heq⟩) hdue h.uncommitted
    simp only [progress, Prod.mk.injEq] at hprogress
    obtain ⟨hpending, hleader, hcommit, huncommitted⟩ := hprogress
    have hlast : lastStatus ((s, event) :: past) = lastStatus past :=
      lastStatus_other fun status heq => hstatus ⟨status, heq⟩
    refine ⟨⟨by rw [huncommitted, hpending], by rw [hlast, hleader, h.leader], by rw [hlast, hcommit, h.commitIndex],
      ?_⟩, hpending⟩
    rw [hlast, hpending]
    intro hwaits
    apply h.waits
    cases event with
    | leaderAliveTimeout canceled =>
        cases canceled with
        | true => exact hwaits
        | false => cases hwaits
    | start | primaryAliveTimeout _ | leaderProgressTimeout _ => exact hwaits
    | message msg =>
        cases msg with
        | leaderStatus status => exact absurd ⟨status, rfl⟩ hstatus
        | unset | failureDetected _ | raftCommit _ | pbftCommit _ | primaryStatus _ => exact hwaits

theorem consistent_tail {step : Audit × Event} (h : Consistent (step :: past)) : Consistent past := by
  obtain ⟨s, event⟩ := step
  cases event with
  | start | leaderAliveTimeout _ | primaryAliveTimeout _ | leaderProgressTimeout _ => exact h
  | message msg =>
      cases msg with
      | leaderStatus status => exact h.2
      | unset | failureDetected _ | raftCommit _ | pbftCommit _ | primaryStatus _ => exact h

theorem tracks_of_run (hraft : settings.usePbft = false) (run : (auditing settings).Run past s)
    (hconsistent : Consistent past) : Tracks past s := by
  induction run with
  | start hinit =>
      cases hinit
      exact tracks_start
  | step run henabled ih => exact (tracks_step hraft (ih (consistent_tail hconsistent)) henabled.2 hconsistent).1

-- Nobody waits for a leader that is taken for dead, until one has entries to commit.
theorem halted_of_run (hraft : settings.usePbft = false) (run : (auditing settings).Run past s)
    (hconsistent : Consistent past) {before since : List (Audit × Event)}
    (hpast : past = since ++ (t, .leaderAliveTimeout false) :: before)
    (hsince : ∀ step ∈ since, ∀ status, step.2 = .message (.leaderStatus status) →
      ¬status.currentCommitIndex < status.currentLogIndex) : s.leaderProgressTimer = false := by
  induction since generalizing past s with
  | nil =>
      subst hpast
      cases run with
      | step run henabled =>
          have htracks := tracks_of_run hraft run (consistent_tail hconsistent)
          exact (tracks_step hraft htracks henabled.2 hconsistent).2
  | cons last since ih =>
      subst hpast
      cases run with
      | @step past s event run henabled =>
          have htracks := tracks_of_run hraft run (consistent_tail hconsistent)
          have hhalted := ih run (consistent_tail hconsistent) rfl fun step hstep =>
            hsince step (List.mem_cons_of_mem _ hstep)
          obtain ⟨-, hwaits⟩ := tracks_step hraft htracks henabled.2 hconsistent
          refine hwaits.trans ?_
          rw [hhalted]
          have hnone := hsince _ List.mem_cons_self
          cases event with
          | start | primaryAliveTimeout _ | leaderProgressTimeout _ => rfl
          | leaderAliveTimeout canceled => cases canceled <;> rfl
          | message msg =>
              cases msg with
              | leaderStatus status => exact decide_eq_false (hnone status rfl)
              | unset | failureDetected _ | raftCommit _ | pbftCommit _ | primaryStatus _ => rfl

-- The audit waits for the leader exactly while there is something to commit, and from the start whenever
-- the leader is another one, has committed more, or nobody was waiting.
theorem progress_timer (hraft : settings.usePbft = false) (run : (auditing settings).Run past s)
    (hconsistent : Consistent past) :
    (∀ status, Admissible past status →
      ((Event.handler settings (.message (.leaderStatus status)) s).state.leaderProgressTimer = true ↔
        status.currentCommitIndex < status.currentLogIndex) ∧
      (.restartProgress ∈ (Event.handler settings (.message (.leaderStatus status)) s).effects ↔
        status.currentCommitIndex < status.currentLogIndex ∧
          ((lastStatus past).leader ≠ status.leader ∨
            (lastStatus past).currentCommitIndex < status.currentCommitIndex ∨ s.leaderProgressTimer = false)) ∧
      (.restartProgress ∈ (Event.handler settings (.message (.leaderStatus status)) s).effects →
        (Event.handler settings (.message (.leaderStatus status)) s).state.leaderStuckCount = 0)) ∧
    ∀ since t before, past = since ++ (t, .leaderAliveTimeout false) :: before →
      (∀ step ∈ since, ∀ status, step.2 = .message (.leaderStatus status) →
        ¬status.currentCommitIndex < status.currentLogIndex) → s.leaderProgressTimer = false := by
  constructor
  · intro status hadmissible
    have hadvances := advances_status hraft (tracks_of_run hraft run hconsistent) hadmissible
    exact ⟨hadvances.pending, hadvances.restarts, hadvances.stuckCount⟩
  · intro since t before hpast hsince
    exact halted_of_run hraft run hconsistent hpast hsince

-- The timer runs out on a leader that has an entry to commit, and it is restarted when the leader commits it.
theorem progress_timer_of_two :
    let settings : AuditSettings := { uuid := "audit", memSize := 8, usePbft := false }
    let status : LeaderStatus := { term := 1, leader := "a", currentLogIndex := 1 }
    let later : LeaderStatus := { status with currentLogIndex := 3, currentCommitIndex := 1 }
    let events : List Event := [.start, .message (.leaderStatus status), .leaderProgressTimeout false]
    let reached := (auditing settings).replay [] {} events
    .restartProgress ∈ (Event.handler settings (.message (.leaderStatus later)) reached.2).effects := by
  intro settings status later events reached
  have run : (auditing settings).Run reached.1 reached.2 :=
    Machine.Run.replay (.start rfl) events ⟨⟨trivial, trivial⟩, ⟨trivial, trivial⟩, ⟨trivial, fun _ => rfl⟩, trivial⟩
  have hconsistent : Consistent reached.1 := ⟨⟨by decide, by decide⟩, trivial⟩
  exact (((progress_timer rfl run hconsistent).1 later ⟨by decide, by decide⟩).2.1).mpr
    ⟨by decide, Or.inr (Or.inl (by decide))⟩

end Runs

end Audit

end SwarmDB
