import SwarmDB.Pbft.Replica.Stability
import SwarmDB.Pbft.Service
import SwarmDB.Pbft.Swarm

namespace SwarmDB.Pbft

-- What is posted to the io context of a process: a call of apply_operation, and one of the execute
-- handler that pbft registered with its service.
inductive Job
  | applyOperation (op : Operation)
  | execute (request : Request) (sequence : Nat)
  deriving DecidableEq

-- A replica with its service, as main connects them.
structure Process where
  replica : Replica
  service : Service
  jobs : List Job := []

-- Several threads run the io context, so that any of the posted jobs may be the next. An operation
-- comes with the session it holds, and the service finds some of the sessions still there. An execution comes
-- with what a checkpoint reads that is erased meanwhile.
inductive Event
  | receive (input : Input)
  | perform (index : Nat) (session : Option Session) (locks : Nat → Bool) (freed : Replica.Reads)

def Effect.job : Effect → Option Job
  | .applyOperation op => some (.applyOperation op)
  | .send .. | .forward .. => none

def ServiceEffect.job : ServiceEffect → Option Job
  | post request sequence => some (.execute request sequence)
  | create .. | update .. | remove _ | execute .. => none

-- CHECKPOINT_INTERVAL.
def checkpointInterval : Nat := 100

def Service.serviceStateHash (_sequence : Nat) : Hash := ""

-- The execute handler of pbft::start.
def executeHandler (sequence : Nat) (freed : Replica.Reads) : Option Input :=
  if sequence % checkpointInterval = 0 then
    some (.checkpointReachedLocally sequence (Service.serviceStateHash sequence) freed)
  else none

namespace Process

variable (lib : Library) (parse : Bytes → Option Request) (p : Process)

-- A call of the replica.
def call (input : Input) : Process :=
  let done := input.handler lib p.replica
  { p with replica := done.state, jobs := p.jobs ++ done.effects.filterMap Effect.job }

-- A call of the service. Where it throws, the process would end; here it may go on.
def serve (op : Operation) (session : Option Session) (locks : Nat → Bool) : Process :=
  let done := Service.applyOperation parse locks op.sequence op.request session p.service
  { p with service := done.state, jobs := p.jobs ++ done.effects.filterMap ServiceEffect.job }

def withoutJob (index : Nat) : Process := { p with jobs := p.jobs.eraseIdx index }

@[simp] theorem withoutJob_replica (index : Nat) : (p.withoutJob index).replica = p.replica := rfl

@[simp] theorem withoutJob_service (index : Nat) : (p.withoutJob index).service = p.service := rfl

-- What the replica is called with.
def input : Event → Option Input
  | .receive input => some input
  | .perform index _ _ freed =>
    match p.jobs[index]? with
    | some (.execute _ sequence) => executeHandler sequence freed
    | some (.applyOperation _) | none => none

def next (event : Event) : Process :=
  match event with
  | .receive input => p.call lib input
  | .perform index session locks freed =>
    match p.jobs[index]? with
    | some (.applyOperation op) => (p.withoutJob index).serve parse op session locks
    | some (.execute _ sequence) =>
      match executeHandler sequence freed with
      | some input => (p.withoutJob index).call lib input
      | none => p.withoutJob index
    | none => p

-- What the replica sends and posts, and what the service does.
def effects (event : Event) : List Effect :=
  match p.input event with
  | some input => (input.handler lib p.replica).effects
  | none => []

def serviceEffects : Event → List ServiceEffect
  | .receive _ => []
  | .perform index session locks _ =>
    match p.jobs[index]? with
    | some (.applyOperation op) =>
      (Service.applyOperation parse locks op.sequence op.request session p.service).effects
    | some (.execute ..) | none => []

end Process

structure System where
  processes : Uuid → Process
  sent : List Envelope

structure Occurrence where
  uuid : Uuid
  event : Event

-- The service alone says that a checkpoint was reached.
def Input.isExternal : Input → Bool
  | .checkpointReachedLocally .. => false
  | .message .. | .request .. | .membership _ | .auditHeartbeatTimeout _ | .failure => true

namespace System

variable (lib : Library) (parse : Bytes → Option Request) (members faulty : Finset Uuid) (s : System)
  (o : Occurrence)

-- The replicas alone.
def swarm : Swarm := ⟨fun n => (s.processes n).replica, s.sent⟩

def action : Option Action := ((s.processes o.uuid).input o.event).map fun input => ⟨o.uuid, input⟩

def act : System where
  processes := Function.update s.processes o.uuid ((s.processes o.uuid).next lib parse o.event)
  sent := s.sent ++ ((s.processes o.uuid).effects lib o.event).filterMap Effect.envelope

def Possible : Event → Prop
  | .receive input => input.isExternal = true ∧ s.swarm.Receivable members faulty input
  | .perform index _ _ _ => index < (s.processes o.uuid).jobs.length

instance : (event : Event) → Decidable (s.Possible members faulty o event)
  | .receive input => inferInstanceAs (Decidable (input.isExternal = true ∧ s.swarm.Receivable members faulty input))
  | .perform index _ _ _ => inferInstanceAs (Decidable (index < (s.processes o.uuid).jobs.length))

end System

-- The whole system from its start, when every storage is empty.
def system (lib : Library) (parse : Bytes → Option Request) (f : Nat) (members faulty : Finset Uuid) :
    Machine System Occurrence where
  init s := (swarm lib f members faulty).init s.swarm ∧ ∀ n ∈ members, n ∉ faulty →
    (s.processes n).jobs = [] ∧ (s.processes n).service = freshService n ∅
  enabled s o := o.uuid ∈ members ∧ o.uuid ∉ faulty ∧ s.Possible members faulty o o.event
  next s o := s.act lib parse o

instance (lib : Library) (parse : Bytes → Option Request) (f : Nat) (members faulty : Finset Uuid) (s : System)
    (o : Occurrence) : Decidable ((system lib parse f members faulty).enabled s o) :=
  inferInstanceAs (Decidable (o.uuid ∈ members ∧ o.uuid ∉ faulty ∧ s.Possible members faulty o o.event))

-- What the replicas go through in a run of the whole.
def journal (past : List (System × Occurrence)) : List (Swarm × Action) :=
  Machine.seen System.swarm System.action past

-- The operations that the replica of a process has handed to its service.
def handedOver (lib : Library) (past : List (System × Occurrence)) (n : Uuid) : List Operation :=
  appliedIn (done lib (history (journal past) n))

-- What crud of a process was called with, in order.
def executions (parse : Bytes → Option Request) : List (System × Occurrence) → Uuid → List DatabaseMsg
  | [], _ => []
  | (s, o) :: past, n => executions parse past n ++
    if o.uuid = n then executedIn ((s.processes n).serviceEffects parse o.event) else []

section Refinement

variable {lib : Library} {parse : Bytes → Option Request} {f : Nat} {members faulty : Finset Uuid}
  {past : List (System × Occurrence)} {s : System} {o : Occurrence} {p : Process} {event : Event} {n : Uuid}

namespace Process

-- The replica takes the step of its input, or none.
theorem next_replica (lib : Library) (parse : Bytes → Option Request) (p : Process) (event : Event) :
    (p.next lib parse event).replica = match p.input event with
      | some input => (input.handler lib p.replica).state
      | none => p.replica := by
  cases event with
  | receive input => rfl
  | perform index session locks freed =>
      simp only [next, input]
      cases p.jobs[index]? with
      | none => rfl
      | some job =>
          cases job with
          | applyOperation op => rfl
          | execute request sequence =>
              dsimp only
              cases executeHandler sequence freed <;> rfl

end Process

theorem executeHandler_cases {sequence : Nat} {freed : Replica.Reads} {input : Input}
    (h : executeHandler sequence freed = some input) : sequence % checkpointInterval = 0 ∧
      input = .checkpointReachedLocally sequence (Service.serviceStateHash sequence) freed := by
  unfold executeHandler at h
  split at h
  · rename_i hinterval
    exact ⟨hinterval, (Option.some.inj h).symm⟩
  · cases h

-- The input of a step is an external one, or it comes from a posted execution.
theorem input_cases {input : Input} (h : p.input event = some input) :
    event = .receive input ∨ ∃ index session locks freed request sequence,
      event = .perform index session locks freed ∧ p.jobs[index]? = some (.execute request sequence) ∧
      sequence % checkpointInterval = 0 ∧
      input = .checkpointReachedLocally sequence (Service.serviceStateHash sequence) freed := by
  cases event with
  | receive received =>
      left
      exact congrArg Event.receive (Option.some.inj h)
  | perform index session locks freed =>
      right
      unfold Process.input at h
      dsimp only at h
      split at h
      · rename_i request sequence hjob
        obtain ⟨hinterval, hinput⟩ := executeHandler_cases h
        exact ⟨index, session, locks, freed, request, sequence, rfl, hjob, hinterval, hinput⟩
      · cases h
      · cases h

theorem act_swarm (lib : Library) (parse : Bytes → Option Request) (s : System) (o : Occurrence) :
    (s.act lib parse o).swarm = match s.action o with
      | some a => s.swarm.act lib a
      | none => s.swarm := by
  have hreplica : ∀ n, ((s.act lib parse o).processes n).replica =
      Function.update (fun n => (s.processes n).replica) o.uuid
        ((s.processes o.uuid).next lib parse o.event).replica n := by
    intro n
    by_cases hn : n = o.uuid
    · subst hn
      simp [System.act]
    · simp [System.act, Function.update_of_ne hn]
  have hstate : (s.act lib parse o).swarm =
      ⟨Function.update (fun n => (s.processes n).replica) o.uuid
        ((s.processes o.uuid).next lib parse o.event).replica, (s.act lib parse o).sent⟩ :=
    congrArg (Swarm.mk · _) (funext hreplica)
  rw [hstate, Process.next_replica]
  cases hinput : (s.processes o.uuid).input o.event with
  | some input =>
      simp only [System.action, hinput, Option.map_some, System.act, Process.effects]
      rfl
  | none =>
      simp only [System.action, hinput, Option.map_none, System.act, Process.effects, List.filterMap_nil,
        List.append_nil]
      exact congrArg (Swarm.mk · _) (Function.update_eq_self o.uuid _)

-- Without the services, the whole is a swarm of replicas.
theorem system_refines (lib : Library) (parse : Bytes → Option Request) (f : Nat) (members faulty : Finset Uuid) :
    Machine.Refines (system lib parse f members faulty) (swarm lib f members faulty) System.swarm System.action where
  init := fun s hinit => hinit.1
  moves := by
    intro s o a henabled haction
    obtain ⟨hmember, hcorrect, hpossible⟩ := henabled
    refine ⟨?_, ?_⟩
    · obtain ⟨input, hinput, rfl⟩ := Option.map_eq_some_iff.mp haction
      refine ⟨hmember, hcorrect, ?_⟩
      rcases input_cases hinput with hevent | ⟨_, _, _, _, _, sequence, _, _, _, rfl⟩
      · rw [hevent] at hpossible
        exact hpossible.2
      · exact trivial
    · have hswarm := act_swarm lib parse s o
      rw [haction] at hswarm
      exact hswarm
  rests := by
    intro s o _ haction
    have hswarm := act_swarm lib parse s o
    rw [haction] at hswarm
    exact hswarm

theorem swarm_run (run : (system lib parse f members faulty).Run past s) :
    (swarm lib f members faulty).Run (journal past) s.swarm := (system_refines lib parse f members faulty).run run

-- The replica of a process that is not faulty lives the life of a single one.
theorem replica_run (hmember : n ∈ members) (hcorrect : n ∉ faulty)
    (run : (system lib parse f members faulty).Run past s) :
    (lifetime lib).Run (history (journal past) n) (s.processes n).replica :=
  history_run hmember hcorrect (swarm_run run)

-- The history of a process grows by its own inputs.
theorem history_step (past : List (System × Occurrence)) (s : System) (o : Occurrence) (n : Uuid) :
    history (journal ((s, o) :: past)) n =
      if o.uuid = n then
        match (s.processes n).input o.event with
        | some input => ((s.processes n).replica, input) :: history (journal past) n
        | none => history (journal past) n
      else history (journal past) n := by
  cases hinput : (s.processes o.uuid).input o.event with
  | none =>
      have haction : s.action o = none := by simp [System.action, hinput]
      rw [journal, Machine.seen_none past haction]
      split
      · rename_i hn
        subst hn
        rw [hinput]
        rfl
      · rfl
  | some input =>
      have haction : s.action o = some ⟨o.uuid, input⟩ := by simp [System.action, hinput]
      rw [journal, Machine.seen_some past haction]
      split
      · rename_i hn
        subst hn
        rw [hinput]
        exact history_self _ s.swarm ⟨o.uuid, input⟩
      · rename_i hn
        exact history_other _ s.swarm (Ne.symm hn)

theorem handedOver_step (past : List (System × Occurrence)) (s : System) (o : Occurrence) (n : Uuid) :
    handedOver lib ((s, o) :: past) n = handedOver lib past n ++
      if o.uuid = n then appliedIn ((s.processes n).effects lib o.event) else [] := by
  unfold handedOver
  rw [history_step]
  split
  · unfold Process.effects
    cases (s.processes n).input o.event with
    | some input => exact appliedIn_append ..
    | none => simp [appliedIn]
  · simp

theorem mem_handedOver_step {op : Operation} (s : System) (o : Occurrence) (h : op ∈ handedOver lib past n) :
    op ∈ handedOver lib ((s, o) :: past) n := by
  rw [handedOver_step]
  exact List.mem_append_left _ h

end Refinement

end SwarmDB.Pbft
