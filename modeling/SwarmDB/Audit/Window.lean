import SwarmDB.Audit

namespace SwarmDB

def AuditEffect.alarm : AuditEffect → Option (String × String)
  | error metric description => some (metric, description)
  | monitor _ | restartAlive | restartProgress | close => none

namespace Audit

variable {settings : AuditSettings} {s t u : Audit} {es fs : List AuditEffect} {container : Container}

-- The errors among these, each with its metric.
def alarms (es : List AuditEffect) : List (String × String) := es.filterMap AuditEffect.alarm

def errors (es : List AuditEffect) : List String := (alarms es).map Prod.snd

@[simp] theorem alarms_append (es fs : List AuditEffect) : alarms (es ++ fs) = alarms es ++ alarms fs :=
  List.filterMap_append

@[simp] theorem errors_append (es fs : List AuditEffect) : errors (es ++ fs) = errors es ++ errors fs := by
  simp [errors]

theorem mem_alarms {metric description : String} :
    (metric, description) ∈ alarms es ↔ .error metric description ∈ es := by
  rw [alarms, List.mem_filterMap]
  constructor
  · rintro ⟨effect, hmem, halarm⟩
    cases effect with
    | error other text =>
        simp only [AuditEffect.alarm, Option.some.injEq, Prod.mk.injEq] at halarm
        obtain ⟨rfl, rfl⟩ := halarm
        exact hmem
    | monitor _ | restartAlive | restartProgress | close => cases halarm
  · intro hmem
    exact ⟨_, hmem, rfl⟩

namespace Container

-- The containers that are used without pbft. They are those that trim looks at.
def raft : Container → Bool
  | leaders | raftCommits => true
  | primaries | pbftCommits => false

-- What becomes of a container when this is reported.
def after (memSize : Nat) (container : Container) (m : OrderedMap Nat String) :
    Option (Nat × String) → OrderedMap Nat String
  | none => m
  | some (number, reported) =>
    if container.raft then m.record memSize number reported else m.note number reported

@[simp] theorem held_replace (m : OrderedMap Nat String) (audit : Audit) (container other : Container) :
    other.held (container.replace m audit) = if other = container then m else other.held audit := by
  cases container <;> cases other <;> rfl

@[simp] theorem replace_errors (m : OrderedMap Nat String) (audit : Audit) (container : Container) :
    (container.replace m audit).recordedErrors = audit.recordedErrors ∧
      (container.replace m audit).forgottenErrorCount = audit.forgottenErrorCount := by
  cases container <;> exact ⟨rfl, rfl⟩

end Container

section Trim

theorem forgetErrors_eq (memSize : Nat) (l : List String) (count : Nat) :
    forgetErrors memSize l count = (shed memSize l, count + (l.length - (shed memSize l).length)) := by
  induction l generalizing count with
  | nil => simp [forgetErrors, shed]
  | cons error rest ih =>
      unfold forgetErrors
      split
      · rename_i hlength
        rw [ih, shed_cons_of_lt hlength, shed_length, List.length_cons]
        congr 1
        rw [List.length_cons] at hlength
        omega
      · rename_i hlength
        rw [shed_of_le (by omega)]
        simp

theorem trim_errors (settings : AuditSettings) (audit : Audit) :
    (audit.trim settings).recordedErrors = shed settings.memSize audit.recordedErrors ∧
      (audit.trim settings).errorCount = audit.errorCount := by
  have hlength := shed_length settings.memSize audit.recordedErrors
  simp only [trim, errorCount, forgetErrors_eq]
  exact ⟨trivial, by omega⟩

theorem held_trim (settings : AuditSettings) (audit : Audit) (container : Container) :
    container.held (audit.trim settings) =
      if container.raft then (container.held audit).trim settings.memSize else container.held audit := by
  cases container <;> rfl

-- As trim leaves an audit.
structure Tidy (settings : AuditSettings) (audit : Audit) : Prop where
  errors : audit.recordedErrors.length ≤ settings.memSize
  held : ∀ container : Container, container.raft = true →
    (container.held audit).entries.length ≤ settings.memSize

theorem trim_of_le {m : OrderedMap Nat String} {n : Nat} (h : m.entries.length ≤ n) : m.trim n = m := by
  obtain ⟨entries, hordered⟩ := m
  unfold OrderedMap.trim
  congr 1
  exact shed_of_le h

theorem tidy_trim (settings : AuditSettings) (audit : Audit) : Tidy settings (audit.trim settings) := by
  constructor
  · rw [(trim_errors settings audit).1, shed_length]
    omega
  · intro container hraft
    rw [held_trim, if_pos hraft]
    show (shed _ _).length ≤ _
    rw [shed_length]
    omega

theorem Tidy.held_trim (h : Tidy settings s) (container : Container) :
    container.held (s.trim settings) = container.held s := by
  rw [Audit.held_trim]
  split
  · rename_i hraft
    exact trim_of_le (h.held container hraft)
  · rfl

end Trim

section Turns

-- All that is recorded.
def records (audit : Audit) : List String × Nat × OrderedMap Nat Uuid × OrderedMap Nat String ×
    OrderedMap Nat Uuid × OrderedMap Nat String :=
  (audit.recordedErrors, audit.forgottenErrorCount, audit.recordedLeaders, audit.recordedRaftCommits,
    audit.recordedPrimaries, audit.recordedPbftCommits)

-- No error, and nothing recorded.
structure Quiet (s : Audit) (es : List AuditEffect) (t : Audit) : Prop where
  records : t.records = s.records
  alarms : alarms es = []

theorem Quiet.errors (h : Quiet s es t) : errors es = [] := by
  rw [Audit.errors, h.alarms, List.map_nil]

-- What a call makes of the containers when this is reported, and of the errors.
structure Turn (settings : AuditSettings) (reports : Container → Option (Nat × String)) (s : Audit)
    (es : List AuditEffect) (t : Audit) : Prop where
  tidy : Tidy settings t
  held : ∀ container : Container,
    container.held t = container.after settings.memSize (container.held s) (reports container)
  recordedErrors : t.recordedErrors = shed settings.memSize (s.recordedErrors ++ errors es)
  errorCount : t.errorCount = s.errorCount + (errors es).length

variable {reports : Container → Option (Nat × String)}

theorem Quiet.refl (s : Audit) : Quiet s [] s := ⟨rfl, rfl⟩

theorem Quiet.trans (h : Quiet s es t) (h' : Quiet t fs u) : Quiet s (es ++ fs) u where
  records := h'.records.trans h.records
  alarms := by rw [alarms_append, h.alarms, h'.alarms, List.append_nil]

theorem Quiet.recordedErrors (h : Quiet s es t) : t.recordedErrors = s.recordedErrors :=
  congrArg Prod.fst h.records

theorem Quiet.errorCount (h : Quiet s es t) : t.errorCount = s.errorCount := by
  have hcount : t.forgottenErrorCount = s.forgottenErrorCount := congrArg (fun r => r.2.1) h.records
  rw [Audit.errorCount, h.recordedErrors, hcount, Audit.errorCount]

theorem Quiet.held (h : Quiet s es t) (container : Container) : container.held t = container.held s := by
  cases container with
  | leaders => exact congrArg (fun r => r.2.2.1) h.records
  | raftCommits => exact congrArg (fun r => r.2.2.2.1) h.records
  | primaries => exact congrArg (fun r => r.2.2.2.2.1) h.records
  | pbftCommits => exact congrArg (fun r => r.2.2.2.2.2) h.records

theorem Quiet.tidy (h : Quiet s es t) (htidy : Tidy settings s) : Tidy settings t := by
  constructor
  · rw [h.recordedErrors]
    exact htidy.errors
  · intro container hraft
    rw [h.held]
    exact htidy.held container hraft

theorem Quiet.turn (h : Quiet s es t) (htidy : Tidy settings s) : Turn settings (fun _ => none) s es t where
  tidy := h.tidy htidy
  held := h.held
  recordedErrors := by rw [h.errors, List.append_nil, shed_of_le htidy.errors, h.recordedErrors]
  errorCount := by rw [h.errors, h.errorCount, List.length_nil, Nat.add_zero]

theorem Turn.quietly (h : Turn settings reports s es t) (h' : Quiet t fs u) :
    Turn settings reports s (es ++ fs) u where
  tidy := h'.tidy h.tidy
  held container := (h'.held container).trans (h.held container)
  recordedErrors := by rw [errors_append, h'.errors, List.append_nil, h'.recordedErrors, h.recordedErrors]
  errorCount := by rw [errors_append, h'.errors, List.append_nil, h'.errorCount, h.errorCount]

theorem Quiet.thenTurn (h : Quiet s es t) (h' : Turn settings reports t fs u) :
    Turn settings reports s (es ++ fs) u where
  tidy := h'.tidy
  held container := by rw [h'.held, h.held]
  recordedErrors := by rw [errors_append, h.errors, List.nil_append, h'.recordedErrors, h.recordedErrors]
  errorCount := by rw [errors_append, h.errors, List.nil_append, h'.errorCount, h.errorCount]

end Turns

section Handlers

variable {metricName description : String}

def QuietHandler (m : Auditing Unit) : Prop := ∀ s, Quiet s (m s).effects (m s).state

theorem QuietHandler.seq {m : Auditing Unit} {k : Unit → Auditing Unit} (h : QuietHandler m)
    (hk : QuietHandler (k ())) : QuietHandler (m >>= k) := by
  intro s
  rw [Handler.seq_eq]
  exact (h s).trans (hk _)

theorem quiet_pure : QuietHandler (pure ()) := fun s => Quiet.refl s

theorem quiet_emits {effect : AuditEffect} (h : effect.alarm = none) : QuietHandler (Handler.emits effect) :=
  fun _ => ⟨rfl, by simp [alarms, h]⟩

theorem quiet_sendToMonitor (settings : AuditSettings) (stat : String) :
    QuietHandler (sendToMonitor settings stat) := by
  unfold sendToMonitor
  split
  · exact quiet_emits rfl
  · exact quiet_pure

-- An update of a timer, of a count, or of what is known of the leader.
theorem quiet_updates {f : Audit → Audit} (h : ∀ s, (f s).records = s.records) :
    QuietHandler (Handler.updates f) :=
  fun s => ⟨h s, rfl⟩

theorem quiet_waitForLeader : QuietHandler waitForLeader :=
  QuietHandler.seq (quiet_emits rfl) (quiet_updates fun _ => rfl)

theorem quiet_waitForPrimary : QuietHandler waitForPrimary :=
  QuietHandler.seq (quiet_emits rfl) (quiet_updates fun _ => rfl)

theorem quiet_waitForProgress : QuietHandler waitForProgress :=
  QuietHandler.seq (quiet_emits rfl) (quiet_updates fun _ => rfl)

theorem quiet_resetLeaderAliveTimer : QuietHandler resetLeaderAliveTimer :=
  QuietHandler.seq (quiet_updates fun _ => rfl) quiet_waitForLeader

theorem quiet_resetPrimaryAliveTimer : QuietHandler resetPrimaryAliveTimer :=
  QuietHandler.seq (quiet_updates fun _ => rfl) quiet_waitForPrimary

theorem quiet_resetLeaderProgressTimer : QuietHandler resetLeaderProgressTimer :=
  QuietHandler.seq (quiet_updates fun _ => rfl) quiet_waitForProgress

theorem quiet_clearLeaderProgressTimer : QuietHandler clearLeaderProgressTimer := quiet_updates fun _ => rfl

theorem quiet_handleLeaderMadeProgress (status : LeaderStatus) :
    QuietHandler (handleLeaderMadeProgress status) := by
  unfold handleLeaderMadeProgress
  split
  · exact QuietHandler.seq quiet_clearLeaderProgressTimer (quiet_updates fun _ => rfl)
  · exact QuietHandler.seq quiet_resetLeaderProgressTimer (quiet_updates fun _ => rfl)

theorem QuietHandler.reads {α : Type} {f : Audit → α} {k : α → Auditing Unit} (h : ∀ a, QuietHandler (k a)) :
    QuietHandler (Handler.reads f >>= k) :=
  fun s => h (f s) s

theorem quiet_handleLeaderData (status : LeaderStatus) : QuietHandler (handleLeaderData status) := by
  have hlast : QuietHandler (Handler.updates fun audit =>
      { audit with lastLeaderCommitIndex := status.currentCommitIndex }) := quiet_updates fun _ => rfl
  unfold handleLeaderData
  refine .reads fun _ => .reads fun _ => .reads fun _ => ?_
  dsimp only
  split
  · exact .seq (quiet_updates fun _ => rfl) (.seq (quiet_handleLeaderMadeProgress status) hlast)
  · split
    · exact .seq (quiet_handleLeaderMadeProgress status) hlast
    · split
      · exact .seq quiet_resetLeaderProgressTimer (.seq (quiet_updates fun _ => rfl) hlast)
      · exact hlast

end Handlers

section Reporting

variable {metricName description : String}

@[simp] theorem sendToMonitor_state (settings : AuditSettings) (stat : String) (s : Audit) :
    (sendToMonitor settings stat s).state = s := by
  unfold sendToMonitor
  split <;> rfl

theorem alarms_reportError (settings : AuditSettings) (metricName description : String) (s : Audit) :
    alarms (reportError settings metricName description s).effects =
      [(statsdNamespacePrefix settings ++ metricName, description)] := by
  have hquiet := (quiet_sendToMonitor settings (statsdNamespacePrefix settings ++ metricName ++ statsdCounterFormat)
    { s with recordedErrors := s.recordedErrors ++ [description] }).alarms
  simp only [reportError, Handler.seq_effects, Handler.updates_apply, Handler.emits_apply, alarms_append, hquiet]
  rfl

theorem turn_reportError (h : Tidy settings s) (metricName description : String) :
    Turn settings (fun _ => none) s (reportError settings metricName description s).effects
      (reportError settings metricName description s).state := by
  have herrors : errors (reportError settings metricName description s).effects = [description] := by
    rw [errors, alarms_reportError, List.map_cons, List.map_nil]
  let grown := { s with recordedErrors := s.recordedErrors ++ [description] }
  have hstate : (reportError settings metricName description s).state = grown.trim settings := by
    simp [reportError, grown]
  rw [hstate]
  refine ⟨tidy_trim settings grown, ?_, ?_, ?_⟩
  · intro container
    have hheld : container.held grown = container.held s := by cases container <;> rfl
    have hkept := h.held_trim container
    rw [held_trim] at hkept ⊢
    rw [hheld]
    exact hkept
  · rw [(trim_errors settings grown).1, herrors]
  · rw [(trim_errors settings grown).2, herrors]
    simp only [Audit.errorCount, grown, List.length_append]
    omega

theorem Turn.congr {reports reports' : Container → Option (Nat × String)} (h : Turn settings reports s es t)
    (hreports : ∀ container : Container, container.after settings.memSize (container.held s) (reports container) =
      container.after settings.memSize (container.held s) (reports' container)) : Turn settings reports' s es t where
  tidy := h.tidy
  held container := (h.held container).trans (hreports container)
  recordedErrors := h.recordedErrors
  errorCount := h.errorCount

theorem after_known {number : Nat} {recorded : String} {m : OrderedMap Nat String}
    (hget : m.get number = some recorded) (memSize : Nat) (container : Container) (reported : String) :
    container.after memSize m (some (number, reported)) = m := by
  simp [Container.after, OrderedMap.record, OrderedMap.note, hget]

theorem after_new {number : Nat} {m : OrderedMap Nat String} (hget : m.get number = none) (memSize : Nat)
    (container : Container) (reported : String) : container.after memSize m (some (number, reported)) =
      if container.raft then (m.put number reported).trim memSize else m.put number reported := by
  simp [Container.after, OrderedMap.record, OrderedMap.note, hget]

-- The report of one number for one container.
def only (container : Container) (number : Nat) (reported : String) (other : Container) : Option (Nat × String) :=
  if other = container then some (number, reported) else none

-- A report for a number is recorded, or it is compared with the one that is.
theorem turn_recordOrCompare (h : Tidy settings s) (container : Container) (number : Nat) (reported : String)
    {heard : Auditing Unit} (hheard : QuietHandler heard) (hstays : ∀ s, (heard s).state = s)
    (conflictMetricName : String) (conflict : String → String) :
    Turn settings (only container number reported) s
      (recordOrCompare settings container number reported heard conflictMetricName conflict s).effects
      (recordOrCompare settings container number reported heard conflictMetricName conflict s).state := by
  simp only [recordOrCompare, Handler.reads_bind]
  cases hget : (container.held s).get number with
  | none =>
      let grown := container.replace ((container.held s).put number reported) s
      simp only [Handler.seq_state, Handler.seq_effects, Handler.updates_apply, hstays, List.append_nil]
      refine ⟨tidy_trim settings grown, ?_, ?_, ?_⟩
      · intro other
        rw [held_trim, Container.held_replace]
        by_cases hother : other = container
        · subst hother
          rw [if_pos rfl, only, if_pos rfl, after_new hget]
        · rw [if_neg hother, only, if_neg hother, ← held_trim]
          exact h.held_trim other
      · rw [(hheard s).errors, List.append_nil, (trim_errors settings grown).1]
        rw [(Container.replace_errors _ _ container).1]
      · rw [(hheard s).errors, (trim_errors settings grown).2, errorCount,
          (Container.replace_errors _ _ container).1, (Container.replace_errors _ _ container).2]
        rfl
  | some recorded =>
      have hknown : ∀ other : Container, other.after settings.memSize (other.held s) none =
          other.after settings.memSize (other.held s) (only container number reported other) := by
        intro other
        unfold only
        split
        · rename_i hother
          rw [hother, after_known hget]
          rfl
        · rfl
      dsimp only
      split
      · exact (turn_reportError h _ _).congr hknown
      · exact ((Quiet.refl s).turn h).congr hknown

-- The error that a report causes, if another one is recorded for the number.
def conflictAlarm (settings : AuditSettings) (m : OrderedMap Nat String) (number : Nat) (reported metricName : String)
    (conflict : String → String) : List (String × String) :=
  match m.get number with
  | none => []
  | some recorded =>
    if recorded ≠ reported then [(statsdNamespacePrefix settings ++ metricName, conflict recorded)] else []

theorem alarms_recordOrCompare (settings : AuditSettings) (s : Audit) (container : Container) (number : Nat)
    (reported : String) {heard : Auditing Unit} (hheard : QuietHandler heard) (metricName : String)
    (conflict : String → String) :
    alarms (recordOrCompare settings container number reported heard metricName conflict s).effects =
      conflictAlarm settings (container.held s) number reported metricName conflict := by
  simp only [recordOrCompare, Handler.reads_bind, conflictAlarm]
  cases (container.held s).get number with
  | none =>
      simp only [Handler.seq_effects, alarms_append, (hheard s).alarms]
      rfl
  | some recorded =>
      dsimp only
      split
      · exact alarms_reportError settings metricName (conflict recorded) s
      · rfl

end Reporting

section Events

-- What an event says of a number, and in which container that belongs.
def Event.heard : Event → Container → Option (Nat × String)
  | .message (.leaderStatus status) => only .leaders status.term status.leader
  | .message (.raftCommit commit) => only .raftCommits commit.logIndex commit.operation
  | .message (.primaryStatus status) => only .primaries status.view status.primary
  | .message (.pbftCommit commit) => only .pbftCommits commit.sequenceNumber commit.operation
  | .message (.failureDetected _) | .message .unset | .start | .leaderAliveTimeout _ | .primaryAliveTimeout _
  | .leaderProgressTimeout _ => fun _ => none

-- The messages of the other mode are ignored.
def Event.reports (settings : AuditSettings) (event : Event) (container : Container) : Option (Nat × String) :=
  if container.raft = !settings.usePbft then event.heard container else none

theorem reports_only {event : Event} {number : Nat} {reported : String}
    (h : event.heard = only container number reported) : event.reports settings =
      if container.raft = !settings.usePbft then only container number reported else fun _ => none := by
  funext other
  by_cases hother : other = container
  · subst hother
    simp only [Event.reports, h]
    split <;> rfl
  · have hnone : only container number reported other = none := if_neg hother
    simp only [Event.reports, h, hnone, ite_self]
    split
    · exact hnone.symm
    · rfl

theorem reports_none {event : Event} (h : event.heard = fun _ => none) :
    event.reports settings = fun _ => none := by
  funext container
  simp only [Event.reports, h, ite_self]

-- Where the audit is tidy, the handler records what is reported and sounds the alarms.
def Acts (settings : AuditSettings) (reports : Container → Option (Nat × String))
    (sounds : Audit → List (String × String)) (m : Auditing Unit) : Prop :=
  ∀ s, Tidy settings s → Turn settings reports s (m s).effects (m s).state ∧ alarms (m s).effects = sounds s

variable {reports : Container → Option (Nat × String)} {f : Audit → List (String × String)}
  {m : Auditing Unit} {k : Unit → Auditing Unit}

theorem QuietHandler.acts (h : QuietHandler m) : Acts settings (fun _ => none) (fun _ => []) m :=
  fun s htidy => ⟨(h s).turn htidy, (h s).alarms⟩

theorem Acts.quietly (h : Acts settings reports f m) (hk : QuietHandler (k ())) :
    Acts settings reports f (m >>= k) := by
  intro s htidy
  obtain ⟨hturn, halarms⟩ := h s htidy
  rw [Handler.seq_eq]
  exact ⟨hturn.quietly (hk _), by rw [alarms_append, halarms, (hk _).alarms, List.append_nil]⟩

theorem QuietHandler.thenActs {g : Audit → List (String × String)} (h : QuietHandler m)
    (hk : Acts settings reports f (k ())) (hg : ∀ s, f (m s).state = g s) : Acts settings reports g (m >>= k) := by
  intro s htidy
  obtain ⟨hturn, halarms⟩ := hk (m s).state ((h s).tidy htidy)
  rw [Handler.seq_eq]
  exact ⟨(h s).thenTurn hturn, by rw [alarms_append, (h s).alarms, halarms, List.nil_append, hg]⟩

-- A count is read and reported.
theorem acts_reportError (settings : AuditSettings) (metricName : String) (count : Audit → Nat)
    (text : Nat → String) {rest : Auditing Unit} (hrest : QuietHandler rest) :
    Acts settings (fun _ => none) (fun s => [(statsdNamespacePrefix settings ++ metricName, text (count s))]) (do
      let count ← Handler.reads count
      reportError settings metricName (text count)
      rest) := by
  intro s htidy
  have hreports : Acts settings (fun _ => none)
      (fun _ => [(statsdNamespacePrefix settings ++ metricName, text (count s))])
      (reportError settings metricName (text (count s))) :=
    fun s htidy => ⟨turn_reportError htidy metricName _, alarms_reportError settings metricName _ s⟩
  exact hreports.quietly hrest s htidy

theorem acts_recordOrCompare (settings : AuditSettings) (container : Container) (number : Nat) (reported : String)
    {heard : Auditing Unit} (hheard : QuietHandler heard) (hstays : ∀ s, (heard s).state = s) (metricName : String)
    (conflict : String → String) :
    Acts settings (only container number reported)
      (fun s => conflictAlarm settings (container.held s) number reported metricName conflict)
      (recordOrCompare settings container number reported heard metricName conflict) :=
  fun s htidy => ⟨turn_recordOrCompare htidy container number reported hheard hstays metricName conflict,
    alarms_recordOrCompare settings s container number reported hheard metricName conflict⟩

theorem quiet_start (settings : AuditSettings) : QuietHandler (start settings) := by
  refine .reads fun started => ?_
  split
  · exact quiet_pure
  · refine .seq (quiet_updates fun _ => rfl) ?_
    split
    · exact quiet_resetPrimaryAliveTimer
    · exact quiet_resetLeaderAliveTimer

theorem quiet_handleFailureDetected (settings : AuditSettings) : QuietHandler (handleFailureDetected settings) := by
  unfold handleFailureDetected
  split
  · exact quiet_pure
  · exact quiet_sendToMonitor settings _

-- What each event reports is recorded, and these are the alarms.
def Event.sounds (settings : AuditSettings) : Event → Audit → List (String × String)
  | .message (.leaderStatus status), s =>
    if settings.usePbft then []
    else conflictAlarm settings s.recordedLeaders status.term status.leader leaderConflictMetricName
      (conflictingLeader status)
  | .message (.raftCommit commit), s =>
    if settings.usePbft then []
    else conflictAlarm settings s.recordedRaftCommits commit.logIndex commit.operation raftCommitConflictMetricName
      (conflictingRaftCommit commit)
  | .message (.primaryStatus status), s =>
    if settings.usePbft then conflictAlarm settings s.recordedPrimaries status.view status.primary
      primaryConflictMetricName (conflictingPrimary status)
    else []
  | .message (.pbftCommit commit), s =>
    if settings.usePbft then conflictAlarm settings s.recordedPbftCommits commit.sequenceNumber commit.operation
      pbftCommitConflictMetricName (conflictingPbftCommit commit)
    else []
  | .leaderAliveTimeout false, s =>
    [(statsdNamespacePrefix settings ++ noLeaderMetricName, s!"No leader alive [{(s.leaderDeadCount + 1) % 2 ^ 32}]")]
  | .primaryAliveTimeout false, s =>
    [(statsdNamespacePrefix settings ++ noPrimaryMetricName,
      s!"No primary alive [{(s.primaryDeadCount + 1) % 2 ^ 32}]")]
  | .leaderProgressTimeout false, s =>
    [(statsdNamespacePrefix settings ++ leaderStuckMetricName,
      s!"Leader alive but not making progress [{(s.leaderStuckCount + 1) % 2 ^ 32}]")]
  | .message (.failureDetected _), _ | .message .unset, _ | .start, _ | .leaderAliveTimeout true, _
  | .primaryAliveTimeout true, _ | .leaderProgressTimeout true, _ => []

theorem acts_leaderAliveTimeout (settings : AuditSettings) (canceled : Bool) :
    Acts settings (fun _ => none) ((Event.leaderAliveTimeout canceled).sounds settings)
      (handleLeaderAliveTimeout settings canceled) := by
  cases canceled with
  | true => exact quiet_pure.acts
  | false =>
      have hrest : QuietHandler (do
          clearLeaderProgressTimer
          Handler.updates fun audit => { audit with leaderHasUncommittedEntries := false }
          waitForLeader) :=
        .seq quiet_clearLeaderProgressTimer (.seq (quiet_updates fun _ => rfl) quiet_waitForLeader)
      have hreports := acts_reportError settings noLeaderMetricName leaderDeadCount
        (fun count => s!"No leader alive [{count}]") hrest
      simp only [handleLeaderAliveTimeout, Bool.false_eq_true, if_false]
      exact QuietHandler.thenActs (quiet_updates fun _ => rfl) hreports fun _ => rfl

theorem acts_primaryAliveTimeout (settings : AuditSettings) (canceled : Bool) :
    Acts settings (fun _ => none) ((Event.primaryAliveTimeout canceled).sounds settings)
      (handlePrimaryAliveTimeout settings canceled) := by
  cases canceled with
  | true => exact quiet_pure.acts
  | false =>
      have hreports := acts_reportError settings noPrimaryMetricName primaryDeadCount
        (fun count => s!"No primary alive [{count}]") quiet_waitForPrimary
      simp only [handlePrimaryAliveTimeout, Bool.false_eq_true, if_false]
      exact QuietHandler.thenActs (quiet_updates fun _ => rfl) hreports fun _ => rfl

theorem acts_leaderProgressTimeout (settings : AuditSettings) (canceled : Bool) :
    Acts settings (fun _ => none) ((Event.leaderProgressTimeout canceled).sounds settings)
      (handleLeaderProgressTimeout settings canceled) := by
  cases canceled with
  | true => exact quiet_pure.acts
  | false =>
      have hreports := acts_reportError settings leaderStuckMetricName leaderStuckCount
        (fun count => s!"Leader alive but not making progress [{count}]") quiet_waitForProgress
      simp only [handleLeaderProgressTimeout, Bool.false_eq_true, if_false]
      exact QuietHandler.thenActs (quiet_updates fun _ => rfl) hreports fun _ => rfl

theorem acts_handleLeaderStatus (settings : AuditSettings) (status : LeaderStatus) :
    Acts settings ((Event.message (.leaderStatus status)).reports settings)
      ((Event.message (.leaderStatus status)).sounds settings) (handleLeaderStatus settings status) := by
  rw [reports_only rfl]
  unfold handleLeaderStatus Event.sounds
  cases settings.usePbft with
  | true => exact quiet_pure.acts
  | false =>
      refine Acts.quietly (acts_recordOrCompare settings .leaders status.term status.leader
        (quiet_sendToMonitor settings _) (sendToMonitor_state settings _) _ _) ?_
      exact .seq quiet_resetLeaderAliveTimer (quiet_handleLeaderData status)

theorem acts_handlePrimaryStatus (settings : AuditSettings) (status : PrimaryStatus) :
    Acts settings ((Event.message (.primaryStatus status)).reports settings)
      ((Event.message (.primaryStatus status)).sounds settings) (handlePrimaryStatus settings status) := by
  rw [reports_only rfl]
  unfold handlePrimaryStatus Event.sounds
  cases settings.usePbft with
  | false => exact quiet_pure.acts
  | true =>
      exact Acts.quietly (acts_recordOrCompare settings .primaries status.view status.primary
        (quiet_sendToMonitor settings _) (sendToMonitor_state settings _) _ _) quiet_resetPrimaryAliveTimer

theorem acts_handleRaftCommit (settings : AuditSettings) (commit : RaftCommitNotification) :
    Acts settings ((Event.message (.raftCommit commit)).reports settings)
      ((Event.message (.raftCommit commit)).sounds settings) (handleRaftCommit settings commit) := by
  rw [reports_only rfl]
  unfold handleRaftCommit Event.sounds
  cases settings.usePbft with
  | true => exact quiet_pure.acts
  | false =>
      have hrecords := acts_recordOrCompare settings .raftCommits commit.logIndex commit.operation quiet_pure
        (fun _ => rfl) raftCommitConflictMetricName (conflictingRaftCommit commit)
      refine QuietHandler.thenActs (quiet_sendToMonitor settings _) hrecords ?_
      intro s
      rw [sendToMonitor_state]
      rfl

theorem acts_handlePbftCommit (settings : AuditSettings) (commit : PbftCommitNotification) :
    Acts settings ((Event.message (.pbftCommit commit)).reports settings)
      ((Event.message (.pbftCommit commit)).sounds settings) (handlePbftCommit settings commit) := by
  rw [reports_only rfl]
  unfold handlePbftCommit Event.sounds
  cases settings.usePbft with
  | false => exact quiet_pure.acts
  | true =>
      have hrecords := acts_recordOrCompare settings .pbftCommits commit.sequenceNumber commit.operation quiet_pure
        (fun _ => rfl) pbftCommitConflictMetricName (conflictingPbftCommit commit)
      refine QuietHandler.thenActs (quiet_sendToMonitor settings _) hrecords ?_
      intro s
      rw [sendToMonitor_state]
      rfl

theorem acts_event (settings : AuditSettings) (event : Event) :
    Acts settings (event.reports settings) (event.sounds settings) (event.handler settings) := by
  have hclose : QuietHandler (Handler.emits .close) := quiet_emits rfl
  cases event with
  | start =>
      rw [reports_none rfl]
      exact (quiet_start settings).acts
  | leaderAliveTimeout canceled =>
      rw [reports_none rfl]
      exact acts_leaderAliveTimeout settings canceled
  | primaryAliveTimeout canceled =>
      rw [reports_none rfl]
      exact acts_primaryAliveTimeout settings canceled
  | leaderProgressTimeout canceled =>
      rw [reports_none rfl]
      exact acts_leaderProgressTimeout settings canceled
  | message msg =>
      cases msg with
      | unset =>
          rw [reports_none rfl]
          exact quiet_pure.acts.quietly (k := fun _ => _) hclose
      | failureDetected senderUuid =>
          rw [reports_none rfl]
          exact (quiet_handleFailureDetected settings).acts.quietly (k := fun _ => _) hclose
      | leaderStatus status => exact (acts_handleLeaderStatus settings status).quietly (k := fun _ => _) hclose
      | raftCommit commit => exact (acts_handleRaftCommit settings commit).quietly (k := fun _ => _) hclose
      | primaryStatus status => exact (acts_handlePrimaryStatus settings status).quietly (k := fun _ => _) hclose
      | pbftCommit commit => exact (acts_handlePbftCommit settings commit).quietly (k := fun _ => _) hclose

-- An error of one of the conflicts, in the terms of what is recorded.
theorem mem_conflictAlarm {m : OrderedMap Nat String} {number : Nat} {reported metricName : String}
    {conflict : String → String} {metric description : String} :
    (metric, description) ∈ conflictAlarm settings m number reported metricName conflict ↔
      metric = statsdNamespacePrefix settings ++ metricName ∧
        ∃ recorded, m.get number = some recorded ∧ recorded ≠ reported ∧ description = conflict recorded := by
  unfold conflictAlarm
  cases m.get number with
  | none => simp
  | some recorded =>
      by_cases hsame : recorded = reported
      · simp [hsame]
      · simp [hsame]

theorem sounds_raftCommitConflict (hraft : settings.usePbft = false) (event : Event) (s : Audit)
    (description : String) :
    (statsdNamespacePrefix settings ++ raftCommitConflictMetricName, description) ∈ event.sounds settings s ↔
      ∃ commit recorded, event = .message (.raftCommit commit) ∧
        s.recordedRaftCommits.get commit.logIndex = some recorded ∧ recorded ≠ commit.operation ∧
        description = conflictingRaftCommit commit recorded := by
  cases event with
  | start => simp [Event.sounds]
  | leaderAliveTimeout canceled | primaryAliveTimeout canceled | leaderProgressTimeout canceled =>
      cases canceled with
      | true => simp [Event.sounds]
      | false =>
          simp [Event.sounds, raftCommitConflictMetricName, noLeaderMetricName, noPrimaryMetricName,
            leaderStuckMetricName]
  | message msg =>
      cases msg with
      | unset | failureDetected _ | primaryStatus _ | pbftCommit _ => simp [Event.sounds, hraft]
      | leaderStatus status =>
          simp [Event.sounds, hraft, mem_conflictAlarm, raftCommitConflictMetricName,
            leaderConflictMetricName]
      | raftCommit commit => simp [Event.sounds, hraft, mem_conflictAlarm]

theorem sounds_leaderConflict (hraft : settings.usePbft = false) (event : Event) (s : Audit)
    (description : String) :
    (statsdNamespacePrefix settings ++ leaderConflictMetricName, description) ∈ event.sounds settings s ↔
      ∃ status recorded, event = .message (.leaderStatus status) ∧
        s.recordedLeaders.get status.term = some recorded ∧ recorded ≠ status.leader ∧
        description = conflictingLeader status recorded := by
  cases event with
  | start => simp [Event.sounds]
  | leaderAliveTimeout canceled | primaryAliveTimeout canceled | leaderProgressTimeout canceled =>
      cases canceled with
      | true => simp [Event.sounds]
      | false =>
          simp [Event.sounds, leaderConflictMetricName, noLeaderMetricName, noPrimaryMetricName,
            leaderStuckMetricName]
  | message msg =>
      cases msg with
      | unset | failureDetected _ | primaryStatus _ | pbftCommit _ => simp [Event.sounds, hraft]
      | leaderStatus status => simp [Event.sounds, hraft, mem_conflictAlarm]
      | raftCommit commit =>
          simp [Event.sounds, hraft, mem_conflictAlarm, raftCommitConflictMetricName,
            leaderConflictMetricName]

end Events

section Runs

variable {past : List (Audit × Event)}

-- What was heard in a run for a container, the earliest first.
def heardIn (container : Container) : List (Audit × Event) → List (Nat × String)
  | [] => []
  | (_, event) :: past => heardIn container past ++ (event.heard container).toList

-- The errors reported in a run, the earliest first.
def errorsIn (settings : AuditSettings) : List (Audit × Event) → List String
  | [] => []
  | (s, event) :: past => errorsIn settings past ++ errors (event.handler settings s).effects

def reportsIn (settings : AuditSettings) (container : Container) (past : List (Audit × Event)) : List (Nat × String) :=
  if container.raft = !settings.usePbft then heardIn container past else []

def Container.kept (memSize : Nat) (container : Container) (entries : List (Nat × String)) : List (Nat × String) :=
  if container.raft then shed memSize entries else entries

-- What is recorded after a run.
structure Kept (settings : AuditSettings) (past : List (Audit × Event)) (s : Audit) : Prop where
  tidy : Tidy settings s
  held : ∀ container : Container, (container.held s).entries =
    container.kept settings.memSize (OrderedMap.noted (reportsIn settings container past)).entries
  recordedErrors : s.recordedErrors = shed settings.memSize (errorsIn settings past)
  errorCount : s.errorCount = (errorsIn settings past).length

theorem reportsIn_step (settings : AuditSettings) (container : Container) (past : List (Audit × Event)) (s : Audit)
    (event : Event) : reportsIn settings container ((s, event) :: past) =
      reportsIn settings container past ++ (event.reports settings container).toList := by
  unfold reportsIn Event.reports
  split <;> rfl

theorem after_entries {memSize : Nat} {m : OrderedMap Nat String} {reports : List (Nat × String)}
    (h : m.entries = container.kept memSize (OrderedMap.noted reports).entries) (report : Option (Nat × String)) :
    (container.after memSize m report).entries =
      container.kept memSize (OrderedMap.noted (reports ++ report.toList)).entries := by
  cases report with
  | none => rw [Option.toList_none, List.append_nil, ← h]; rfl
  | some report =>
      obtain ⟨number, reported⟩ := report
      unfold Container.kept Container.after at *
      cases hraft : container.raft with
      | true =>
          rw [if_pos hraft] at h
          exact OrderedMap.record_entries h number reported
      | false =>
          rw [if_neg (by simp [hraft])] at h
          have hm : m = OrderedMap.noted reports := OrderedMap.eq_of_entries h
          simp only [Bool.false_eq_true, if_false, Option.toList_some, OrderedMap.noted_append, hm]

theorem kept_start (settings : AuditSettings) : Kept settings [] {} := by
  refine ⟨⟨Nat.zero_le _, ?_⟩, ?_, rfl, rfl⟩
  · intro container _
    cases container <;> exact Nat.zero_le _
  · intro container
    cases container <;> simp [Container.held, Container.kept, reportsIn, heardIn, OrderedMap.noted,
      OrderedMap.empty, shed]

theorem Kept.step (h : Kept settings past s) (event : Event) :
    Kept settings ((s, event) :: past) (event.handler settings s).state := by
  obtain ⟨hturn, -⟩ := acts_event settings event s h.tidy
  refine ⟨hturn.tidy, ?_, ?_, ?_⟩
  · intro container
    rw [hturn.held, reportsIn_step]
    exact after_entries (h.held container) _
  · rw [hturn.recordedErrors, h.recordedErrors]
    exact shed_append _ _ _
  · rw [hturn.errorCount, h.errorCount, errorsIn, List.length_append]

theorem kept_of_run (run : (calls settings).Run past s) : Kept settings past s := by
  refine run.invariant (I := fun past s => Kept settings past s) ?_ ?_
  · rintro _ rfl
    exact kept_start settings
  · intro past s event _ h _
    exact h.step event

-- An index is known with the first operation reported for it, as long as it is one of the largest.
theorem conflict_window (hraft : settings.usePbft = false) (run : (calls settings).Run past s) :
    OrderedMap.Window settings.memSize (heardIn .raftCommits past) s.recordedRaftCommits ∧
      OrderedMap.Window settings.memSize (heardIn .leaders past) s.recordedLeaders ∧
      s.errorCount = (errorsIn settings past).length ∧
      s.errorStrings = (errorsIn settings past).drop ((errorsIn settings past).length - settings.memSize) ∧
      (∀ event description,
        .error (statsdNamespacePrefix settings ++ raftCommitConflictMetricName) description ∈
            (Event.handler settings event s).effects ↔
          ∃ commit recorded, event = .message (.raftCommit commit) ∧
            s.recordedRaftCommits.get commit.logIndex = some recorded ∧ recorded ≠ commit.operation ∧
            description = conflictingRaftCommit commit recorded) ∧
      ∀ event description,
        .error (statsdNamespacePrefix settings ++ leaderConflictMetricName) description ∈
            (Event.handler settings event s).effects ↔
          ∃ status recorded, event = .message (.leaderStatus status) ∧
            s.recordedLeaders.get status.term = some recorded ∧ recorded ≠ status.leader ∧
            description = conflictingLeader status recorded := by
  have hkept := kept_of_run run
  have hwindow : ∀ container : Container, container.raft = true →
      OrderedMap.Window settings.memSize (heardIn container past) (container.held s) := by
    intro container hcontainer
    apply OrderedMap.window_of_entries
    rw [hkept.held, Container.kept, if_pos hcontainer, reportsIn, if_pos (by rw [hcontainer, hraft]; rfl)]
  have halarms : ∀ event, alarms (Event.handler settings event s).effects = event.sounds settings s :=
    fun event => (acts_event settings event s hkept.tidy).2
  refine ⟨hwindow .raftCommits rfl, hwindow .leaders rfl, hkept.errorCount, ?_, ?_, ?_⟩
  · rw [errorStrings, hkept.recordedErrors, shed_eq_drop]
  · intro event description
    rw [← mem_alarms, halarms]
    exact sounds_raftCommitConflict hraft event s description
  · intro event description
    rw [← mem_alarms, halarms]
    exact sounds_leaderConflict hraft event s description

-- With room for one, index 1 is forgotten when index 2 is reported, and it does not come back.
theorem conflict_window_of_one :
    let settings : AuditSettings := { uuid := "audit", memSize := 1, usePbft := false }
    let events : List Event := [.message (.raftCommit { logIndex := 1, operation := "a" }),
      .message (.raftCommit { logIndex := 2, operation := "b" }),
      .message (.raftCommit { logIndex := 1, operation := "c" })]
    let reached := (calls settings).replay [] {} events
    OrderedMap.Window 1 (heardIn .raftCommits reached.1) reached.2.recordedRaftCommits ∧
      reached.2.recordedRaftCommits.get 1 = none := by
  intro settings events reached
  have run : (calls settings).Run reached.1 reached.2 :=
    Machine.Run.replay (.start rfl) events (Machine.admits_of_enabled (fun _ _ => trivial) _ _)
  exact ⟨(conflict_window rfl run).1, by decide⟩

-- What is to hold after every call.
structure Bounded (settings : AuditSettings) (audit : Audit) : Prop where
  errors : audit.recordedErrors.length ≤ settings.memSize
  held : ∀ container : Container, (container.held audit).entries.length ≤ settings.memSize

-- How many numbers were heard of.
def distinct (container : Container) (past : List (Audit × Event)) : Nat :=
  (OrderedMap.reportedKeys (heardIn container past)).card

theorem distinct_step (container : Container) (past : List (Audit × Event)) (s : Audit) (event : Event) :
    distinct container past ≤ distinct container ((s, event) :: past) := by
  apply Finset.card_le_card
  intro key
  simp only [OrderedMap.reportedKeys, heardIn, List.map_append, List.mem_toFinset, List.mem_append]
  exact Or.inl

-- Only what trim does not look at can grow.
theorem Kept.bounded_iff (h : Kept settings past s) : Bounded settings s ↔
    settings.usePbft = false ∨
      distinct .primaries past ≤ settings.memSize ∧ distinct .pbftCommits past ≤ settings.memSize := by
  have hgrows : ∀ container : Container, container.raft = false → (container.held s).entries.length =
      if settings.usePbft then distinct container past else 0 := by
    intro container hcontainer
    rw [h.held, Container.kept, if_neg (by simp [hcontainer]), ← OrderedMap.card_keys, OrderedMap.keys_noted,
      reportsIn, hcontainer]
    cases settings.usePbft <;> rfl
  have hprimaries := hgrows .primaries rfl
  have hcommits := hgrows .pbftCommits rfl
  cases hpbft : settings.usePbft with
  | false =>
      simp only [hpbft, Bool.false_eq_true, if_false] at hprimaries hcommits
      refine iff_of_true ⟨h.tidy.errors, ?_⟩ (Or.inl rfl)
      intro container
      cases container with
      | leaders | raftCommits => exact h.tidy.held _ rfl
      | primaries => omega
      | pbftCommits => omega
  | true =>
      simp only [hpbft, if_true] at hprimaries hcommits
      rw [← hprimaries, ← hcommits]
      constructor
      · intro hbounded
        exact Or.inr ⟨hbounded.held .primaries, hbounded.held .pbftCommits⟩
      · rintro (hraft | ⟨hviews, hsequences⟩)
        · cases hraft
        · refine ⟨h.tidy.errors, ?_⟩
          intro container
          cases container with
          | leaders | raftCommits => exact h.tidy.held _ rfl
          | primaries => exact hviews
          | pbftCommits => exact hsequences

theorem memory_bounded_iff (run : (calls settings).Run past s) :
    (∀ t, Machine.Visited past s t → Bounded settings t) ↔
      settings.usePbft = false ∨
        distinct .primaries past ≤ settings.memSize ∧ distinct .pbftCommits past ≤ settings.memSize := by
  constructor
  · intro hbounded
    exact (kept_of_run run).bounded_iff.mp (hbounded s (Or.inl rfl))
  · intro hfew
    induction run with
    | start hinit =>
        rintro t (rfl | ⟨_, hmem⟩)
        · exact (kept_of_run (.start hinit)).bounded_iff.mpr hfew
        · cases hmem
    | @step past s event run henabled ih =>
        intro t hvisited
        rcases Machine.visited_step_cases hvisited with rfl | hvisited
        · exact (kept_of_run (.step run henabled)).bounded_iff.mpr hfew
        · refine ih ?_ t hvisited
          have hviews := distinct_step .primaries past s event
          have hsequences := distinct_step .pbftCommits past s event
          rcases hfew with hraft | ⟨hfew, hfew'⟩
          · exact Or.inl hraft
          · exact Or.inr ⟨hviews.trans hfew, hsequences.trans hfew'⟩

-- Two views are one too many for an audit that is to keep one.
theorem memory_not_bounded :
    let settings : AuditSettings := { uuid := "audit", memSize := 1, usePbft := true }
    let events : List Event := [.message (.primaryStatus { view := 1, primary := "a" }),
      .message (.primaryStatus { view := 2, primary := "b" })]
    let reached := (calls settings).replay [] {} events
    (calls settings).Run reached.1 reached.2 ∧ ¬Bounded settings reached.2 := by
  refine ⟨Machine.Run.replay (.start rfl) _ (Machine.admits_of_enabled (fun _ _ => trivial) _ _), ?_⟩
  intro hbounded
  have hlength := hbounded.held .primaries
  revert hlength
  decide

theorem memory_bounded_iff_of_two :
    let settings : AuditSettings := { uuid := "audit", memSize := 2, usePbft := true }
    let events : List Event := [.message (.primaryStatus { view := 1, primary := "a" }),
      .message (.primaryStatus { view := 2, primary := "b" })]
    let reached := (calls settings).replay [] {} events
    ∀ t, Machine.Visited reached.1 reached.2 t → Bounded settings t :=
  (memory_bounded_iff (Machine.Run.replay (.start rfl) _
    (Machine.admits_of_enabled (fun _ _ => trivial) _ _))).mpr (Or.inr (by decide))

end Runs

end Audit

end SwarmDB
