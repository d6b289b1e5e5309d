import SwarmDB.Pbft.Service.Order
import SwarmDB.Pbft.System

namespace SwarmDB.Pbft

open Replica Service

variable {lib : Library} {parse : Bytes → Option Request} {f : Nat} {members faulty : Finset Uuid}
  {past : List (System × Occurrence)} {s : System} {n : Uuid} {requests : Nat → Request}

section Agreement

theorem view_of_run {past : List (Replica × Input)} {r : Replica} (run : (lifetime lib).Run past r) :
    r.view = 1 := by
  induction run with
  | start hinit =>
      obtain ⟨peers, uuid, fresh, setting, hfresh, rfl⟩ := hinit
      unfold Replica.construct at hfresh
      split at hfresh
      · cases hfresh
      · cases hfresh
        rfl
  | @step past r input run _ ih => exact (handler_unmoved (sound_of_run run).kept input).2.1.trans ih

-- What a process hands over has a number that its service takes, and the first view.
theorem handedOver_bounds (hmember : n ∈ members) (hcorrect : n ∉ faulty)
    (run : (system lib parse f members faulty).Run past s) {op : Operation} (hop : op ∈ handedOver lib past n) :
    op.view = 1 ∧ 1 ≤ op.sequence ∧ op.sequence ≤ (s.processes n).replica.highWaterMark ∧
      (s.processes n).replica.highWaterMark < 2 ^ 64 := by
  have hrun := replica_run hmember hcorrect run
  have hsupported := supported_of_run hrun
  obtain ⟨hpos, hhigh⟩ := hsupported.applied op hop
  exact ⟨(applied_view_of_run hrun op hop).trans (view_of_run hrun), hpos, hhigh, hsupported.highWaterMark⟩

-- No two processes hand over different requests under one number.
theorem handedOver_unique (hinj : Function.Injective lib.requestHash) (hfaulty : faulty.card ≤ f)
    (run : (system lib parse f members faulty).Run past s) {p q : Uuid} (hp : p ∈ members) (hpf : p ∉ faulty)
    (hq : q ∈ members) (hqf : q ∉ faulty) {op op' : Operation} (hop : op ∈ handedOver lib past p)
    (hop' : op' ∈ handedOver lib past q) (hsequence : op.sequence = op'.sequence) :
    op.request = op'.request := by
  have hswarm := swarm_run run
  have hview : op.view = op'.view :=
    (handedOver_bounds hp hpf run hop).1.trans (handedOver_bounds hq hqf run hop').1.symm
  have hcertified := certified_of_applied hswarm hp hpf hop
  have hkeys : op.key lib = op'.key lib := by
    refine hcertified.unique (certified_of_applied hswarm hq hqf hop') (card_members hswarm hp hpf) hfaulty ?_
    intro u hmember hcorrect h h'
    exact prepares_unique hinj hswarm hmember hcorrect h h' hview hsequence
  exact hinj (congrArg OperationKey.hash hkeys)

-- The request of each number, as far as anybody was handed one.
structure Agreed (lib : Library) (parse : Bytes → Option Request) (members faulty : Finset Uuid)
    (past : List (System × Occurrence)) (requests : Nat → Request) : Prop where
  agrees : ∀ n ∈ members, n ∉ faulty → ∀ op ∈ handedOver lib past n, requests op.sequence = op.request
  parses : ∀ n ∈ members, n ∉ faulty → handedOver lib past n ≠ [] →
    ∀ x, parse (requests x).serialize = some (requests x)

-- Protobuf reads back the requests that are handed over.
def Readable (lib : Library) (parse : Bytes → Option Request) (members faulty : Finset Uuid)
    (past : List (System × Occurrence)) : Prop :=
  ∀ n ∈ members, n ∉ faulty → ∀ op ∈ handedOver lib past n, parse op.request.serialize = some op.request

theorem agreed_of_run (hinj : Function.Injective lib.requestHash) (hfaulty : faulty.card ≤ f)
    (run : (system lib parse f members faulty).Run past s) (hreadable : Readable lib parse members faulty past) :
    ∃ requests, Agreed lib parse members faulty past requests := by
  by_cases hany : ∃ n ∈ members, n ∉ faulty ∧ ∃ op, op ∈ handedOver lib past n
  · obtain ⟨n₀, hmember₀, hcorrect₀, op₀, hop₀⟩ := hany
    have hchoice : ∀ x, ∃ request, (∀ n ∈ members, n ∉ faulty → ∀ op ∈ handedOver lib past n,
        op.sequence = x → request = op.request) ∧ parse request.serialize = some request := by
      intro x
      by_cases hx : ∃ n ∈ members, n ∉ faulty ∧ ∃ op ∈ handedOver lib past n, op.sequence = x
      · obtain ⟨n, hmember, hcorrect, op, hop, rfl⟩ := hx
        refine ⟨op.request, ?_, hreadable n hmember hcorrect op hop⟩
        intro n' hmember' hcorrect' op' hop' hsequence
        exact handedOver_unique hinj hfaulty run hmember hcorrect hmember' hcorrect' hop hop' hsequence.symm
      · refine ⟨op₀.request, ?_, hreadable n₀ hmember₀ hcorrect₀ op₀ hop₀⟩
        intro n hmember hcorrect op hop hsequence
        exact absurd ⟨n, hmember, hcorrect, op, hop, hsequence⟩ hx
    choose requests hrequests hparse using hchoice
    refine ⟨requests, ?_, ?_⟩
    · intro n hmember hcorrect op hop
      exact hrequests op.sequence n hmember hcorrect op hop rfl
    · intro n _ _ _
      exact hparse
  · refine ⟨fun _ => {}, ?_, ?_⟩
    · intro n hmember hcorrect op hop
      exact absurd ⟨n, hmember, hcorrect, op, hop⟩ hany
    · intro n hmember hcorrect hne
      obtain ⟨op, hop⟩ := List.exists_mem_of_ne_nil _ hne
      exact absurd ⟨n, hmember, hcorrect, op, hop⟩ hany

theorem Agreed.before (s : System) (o : Occurrence)
    (h : Agreed lib parse members faulty ((s, o) :: past) requests) :
    Agreed lib parse members faulty past requests := by
  refine ⟨?_, ?_⟩
  · intro n hmember hcorrect op hop
    exact h.agrees n hmember hcorrect op (mem_handedOver_step s o hop)
  · intro n hmember hcorrect hne
    obtain ⟨op, hop⟩ := List.exists_mem_of_ne_nil _ hne
    exact h.parses n hmember hcorrect (List.ne_nil_of_mem (mem_handedOver_step s o hop))

end Agreement

section Serving

-- A process has executed the requests below m, one after the other, each of which its replica had
-- handed over, and knows of no others.
structure Serving (requests : Nat → Request) (ops : List Operation) (reached : List Checkpoint)
    (log : List DatabaseMsg) (p : Process) (m : Nat) : Prop where
  standing : Standing requests m p.service
  low : 1 ≤ m
  executed : log = (List.range' 1 (m - 1)).map fun x => (requests x).operationOf
  database : p.service.database = log.foldl Crud.written ∅
  stored : ∀ x, (p.service.record x).isSome = true → ∃ op ∈ ops, op.sequence = x
  applied : ∀ x, 1 ≤ x → x < m → ∃ op ∈ ops, op.sequence = x
  waiting : ∀ op, .applyOperation op ∈ p.jobs → op ∈ ops
  posted : ∀ request x, .execute request x ∈ p.jobs → 1 ≤ x ∧ x < m
  reached : ∀ cp ∈ reached, 1 ≤ cp.1 ∧ cp.1 < m ∧ cp.1 % checkpointInterval = 0

variable {ops : List Operation} {reached : List Checkpoint} {log : List DatabaseMsg} {p : Process} {m m' : Nat}
  {es : List ServiceEffect}

theorem Serving.withoutJob (h : Serving requests ops reached log p m) (index : Nat) :
    Serving requests ops reached log (p.withoutJob index) m where
  standing := h.standing
  low := h.low
  executed := h.executed
  database := h.database
  stored := h.stored
  applied := h.applied
  waiting := fun op hop => h.waiting op (List.mem_of_mem_eraseIdx hop)
  posted := fun request x hx => h.posted request x (List.mem_of_mem_eraseIdx hx)
  reached := h.reached

theorem mem_jobs {effects : List Effect} {job : Job} (h : job ∈ effects.filterMap Effect.job) :
    ∃ op ∈ appliedIn effects, job = .applyOperation op := by
  obtain ⟨effect, hmem, hjob⟩ := List.mem_filterMap.mp h
  cases effect with
  | applyOperation op => exact ⟨op, List.mem_filterMap.mpr ⟨_, hmem, rfl⟩, (Option.some.inj hjob).symm⟩
  | send | forward => cases hjob

-- A call of the replica posts what is handed over, and leaves the service alone.
theorem Serving.call (h : Serving requests ops reached log p m) (lib : Library) (input : Input)
    (hreached : ∀ cp, input.checkpoint = some cp → 1 ≤ cp.1 ∧ cp.1 < m ∧ cp.1 % checkpointInterval = 0) :
    Serving requests (ops ++ appliedIn (input.handler lib p.replica).effects)
      (input.checkpoint.toList ++ reached) log (p.call lib input) m where
  standing := h.standing
  low := h.low
  executed := h.executed
  database := h.database
  stored := by
    intro x hx
    obtain ⟨op, hop, hsequence⟩ := h.stored x hx
    exact ⟨op, List.mem_append_left _ hop, hsequence⟩
  applied := by
    intro x hx hm
    obtain ⟨op, hop, hsequence⟩ := h.applied x hx hm
    exact ⟨op, List.mem_append_left _ hop, hsequence⟩
  waiting := by
    intro op hop
    rcases List.mem_append.mp hop with hold | hnew
    · exact List.mem_append_left _ (h.waiting op hold)
    · obtain ⟨op', hmem, hjob⟩ := mem_jobs hnew
      cases hjob
      exact List.mem_append_right _ hmem
  posted := by
    intro request x hx
    rcases List.mem_append.mp hx with hold | hnew
    · exact h.posted request x hold
    · obtain ⟨op', _, hjob⟩ := mem_jobs hnew
      cases hjob
  reached := by
    intro cp hcp
    rcases List.mem_append.mp hcp with hnew | hold
    · exact hreached cp (Option.mem_toList.mp hnew)
    · exact h.reached cp hold

-- The loop posts the requests that it executes.
theorem Service.Drains.posted {locks : Nat → Bool} {t t' : Service} (hdrains : Drains locks requests m t es m' t')
    (h : Standing requests m t) {request : Request} {x : Nat} (hpost : .post request x ∈ es) : m ≤ x ∧ x < m' := by
  induction hdrains with
  | done => cases hpost
  | @next m m' t t' es hsome hrest ih =>
      have hnext : t.nextRequestSequence = m := h.next.trans (Nat.mod_eq_of_lt (h.lt_of_record hsome))
      have hle := (hrest.drained (h.advance hsome)).le
      rcases List.mem_append.mp hpost with hturn | hlater
      · simp only [turn, List.mem_cons, List.not_mem_nil, or_false, ServiceEffect.post.injEq, reduceCtorEq,
          false_or] at hturn
        omega
      · have hrange := ih (h.advance hsome) hlater
        omega

theorem mem_serviceJobs {job : Job} (h : job ∈ es.filterMap ServiceEffect.job) :
    ∃ request x, .post request x ∈ es ∧ job = .execute request x := by
  obtain ⟨effect, hmem, hjob⟩ := List.mem_filterMap.mp h
  cases effect with
  | post request x => exact ⟨request, x, hmem, (Option.some.inj hjob).symm⟩
  | create | update | remove | execute => cases hjob

-- A call of the service for one of the operations goes on from where it was, if it goes on at all.
theorem Serving.serve (h : Serving requests ops reached log p m) (session : Option Session) (locks : Nat → Bool)
    (hparse : ∀ x, parse (requests x).serialize = some (requests x)) {op : Operation} (hop : op ∈ ops)
    (hrequest : requests op.sequence = op.request) (hpos : 1 ≤ op.sequence) (hlt : op.sequence < 2 ^ 64) :
    ∃ m', Serving requests ops reached
      (log ++ executedIn (applyOperation parse locks op.sequence op.request session p.service).effects)
      (p.serve parse op session locks) m' := by
  have hcall : Application.handler parse requests ⟨op.sequence, session, locks⟩ p.service =
      applyOperation parse locks op.sequence op.request session p.service := by
    simp only [Application.handler, hrequest]
  rcases handler_cases hparse h.standing ⟨op.sequence, session, locks⟩ hpos hlt with
    ⟨_, _, es, m', t', hrun, hdrains, hstanding⟩ | ⟨_, e, hrun⟩
  · rw [hcall] at hrun
    have hstored := h.standing.accept hpos hlt (by assumption) session
    have hdrained := hdrains.drained hstored
    have hle := hdrained.le
    have hexecuted : executedIn (.create (Bytes.decimal op.sequence) (requests op.sequence).serialize :: es) =
        (List.range' m (m' - m)).map fun x => (requests x).operationOf := hdrained.executed
    have hlow := h.low
    have hrange : List.range' 1 (m' - 1) = List.range' 1 (m - 1) ++ List.range' m (m' - m) :=
      range'_split hlow hle
    -- a record that was there, or the one of the operation
    have hrecords : ∀ x, ((accept op.sequence (requests op.sequence) session p.service).record x).isSome = true →
        ∃ op ∈ ops, op.sequence = x := by
      intro x hx
      rw [accept_record] at hx
      split at hx
      · rename_i hsame
        exact ⟨op, hop, hsame.symm⟩
      · exact h.stored x hx
    refine ⟨m', ?_⟩
    unfold Process.serve
    rw [hrun]
    refine ⟨hstanding, hlow.trans hle, ?_, ?_, ?_, ?_, ?_, ?_, ?_⟩
    · rw [hexecuted, h.executed, hrange, List.map_append]
    · rw [hexecuted, List.foldl_append, ← h.database]
      exact hdrained.database
    · intro x hx
      rw [show t'.record x = _ from hdrained.records x] at hx
      split at hx
      · cases hx
      · exact hrecords x hx
    · intro x hx hm
      by_cases hbefore : x < m
      · exact h.applied x hx hbefore
      · exact hrecords x (hdrained.stored x (Nat.not_lt.mp hbefore) hm)
    · intro other hother
      rcases List.mem_append.mp hother with hold | hnew
      · exact h.waiting other hold
      · obtain ⟨_, _, _, hjob⟩ := mem_serviceJobs hnew
        cases hjob
    · intro request x hx
      rcases List.mem_append.mp hx with hold | hnew
      · have hbounds := h.posted request x hold
        omega
      · obtain ⟨request', x', hpost, hjob⟩ := mem_serviceJobs hnew
        obtain ⟨rfl, rfl⟩ := Job.execute.inj hjob
        rcases List.mem_cons.mp hpost with hcreate | hpost
        · cases hcreate
        · have hbounds := hdrains.posted hstored hpost
          omega
    · intro cp hcp
      obtain ⟨hone, hbelow, hinterval⟩ := h.reached cp hcp
      exact ⟨hone, hbelow.trans_le hle, hinterval⟩
  · rw [hcall] at hrun
    refine ⟨m, ?_⟩
    unfold Process.serve
    rw [hrun]
    have hnone : executedIn [.create (Bytes.decimal op.sequence) (requests op.sequence).serialize] = [] := rfl
    rw [hnone, List.append_nil]
    refine ⟨h.standing, h.low, h.executed, h.database, h.stored, h.applied, ?_, ?_, h.reached⟩
    · simpa [ServiceEffect.job] using h.waiting
    · simpa [ServiceEffect.job] using h.posted

-- The service can be called for the operation.
structure Servable (parse : Bytes → Option Request) (requests : Nat → Request) (op : Operation) : Prop where
  request : requests op.sequence = op.request
  parses : ∀ x, parse (requests x).serialize = some (requests x)
  pos : 1 ≤ op.sequence
  fits : op.sequence < 2 ^ 64

-- One step of a process. Only an execution that was posted brings a checkpoint along.
theorem Serving.next (h : Serving requests ops reached log p m) (lib : Library) (event : Event)
    (hops : ∀ op ∈ ops, Servable parse requests op)
    (hexternal : ∀ input, event = .receive input → input.isExternal = true) :
    ∃ m', Serving requests (ops ++ appliedIn (p.effects lib event))
      (((p.input event).bind Input.checkpoint).toList ++ reached)
      (log ++ executedIn (p.serviceEffects parse event)) (p.next lib parse event) m' := by
  cases event with
  | receive input =>
      have hnone : input.checkpoint = none := by
        have hinput := hexternal input rfl
        cases input with
        | checkpointReachedLocally => cases hinput
        | message | request | membership | auditHeartbeatTimeout | failure => rfl
      have hcall := h.call lib input (by simp [hnone])
      exact ⟨m, by simpa [Process.effects, Process.input, Process.serviceEffects, Process.next, executedIn] using hcall⟩
  | perform index session locks freed =>
      cases hjob : p.jobs[index]? with
      | none =>
          refine ⟨m, ?_⟩
          simpa [Process.effects, Process.input, Process.serviceEffects, Process.next, hjob, executedIn,
            appliedIn] using h
      | some job =>
          have hmem : job ∈ p.jobs := List.mem_of_getElem? hjob
          cases job with
          | applyOperation op =>
              have hop := h.waiting op hmem
              obtain ⟨hrequest, hparse, hpos, hlt⟩ := hops op hop
              obtain ⟨m', hserve⟩ := (h.withoutJob index).serve session locks hparse hop hrequest hpos hlt
              refine ⟨m', ?_⟩
              simpa [Process.effects, Process.input, Process.serviceEffects, Process.next, hjob,
                appliedIn] using hserve
          | execute request x =>
              obtain ⟨hone, hbelow⟩ := h.posted request x hmem
              cases hhandler : executeHandler x freed with
              | none =>
                  refine ⟨m, ?_⟩
                  simpa [Process.effects, Process.input, Process.serviceEffects, Process.next, hjob, hhandler,
                    executedIn, appliedIn] using h.withoutJob index
              | some input =>
                  obtain ⟨hinterval, rfl⟩ := executeHandler_cases hhandler
                  refine ⟨m, ?_⟩
                  have hcall := (h.withoutJob index).call lib
                    (.checkpointReachedLocally x (serviceStateHash x) freed) (by
                      intro cp hcp
                      obtain rfl := Option.some.inj hcp
                      exact ⟨hone, hbelow, hinterval⟩)
                  simpa [Process.effects, Process.input, Process.serviceEffects, Process.next, hjob, hhandler,
                    executedIn] using hcall

theorem serving_fresh (requests : Nat → Request) (hjobs : p.jobs = []) (hservice : p.service = freshService n ∅) :
    Serving requests [] [] [] p 1 := by
  refine ⟨?_, le_refl 1, rfl, ?_, ?_, ?_, ?_, ?_, ?_⟩
  · rw [hservice]
    exact standing_fresh requests n ∅
  · rw [hservice, freshService_eq]
    rfl
  · intro x hx
    rw [hservice, fresh_record] at hx
    cases hx
  · intro x hx hm
    omega
  · intro op hop
    rw [hjobs] at hop
    cases hop
  · intro request x hx
    rw [hjobs] at hx
    cases hx
  · intro cp hcp
    cases hcp

theorem reachedIn_step (past : List (System × Occurrence)) (s : System) (o : Occurrence) :
    reachedIn (history (journal ((s, o) :: past)) o.uuid) =
      (((s.processes o.uuid).input o.event).bind Input.checkpoint).toList ++
        reachedIn (history (journal past) o.uuid) := by
  rw [history_step, if_pos rfl]
  cases (s.processes o.uuid).input o.event with
  | none => rfl
  | some input =>
      simp only [Option.bind_some, reachedIn, List.filterMap_cons]
      cases input.checkpoint <;> rfl

theorem serving_of_run (run : (system lib parse f members faulty).Run past s)
    (hagreed : Agreed lib parse members faulty past requests) (hmember : n ∈ members) (hcorrect : n ∉ faulty) :
    ∃ m, Serving requests (handedOver lib past n) (reachedIn (history (journal past) n))
      (executions parse past n) (s.processes n) m := by
  induction run with
  | start hinit =>
      obtain ⟨hjobs, hservice⟩ := hinit.2 n hmember hcorrect
      exact ⟨1, serving_fresh requests hjobs hservice⟩
  | @step past s o run henabled ih =>
      obtain ⟨m, hm⟩ := ih (hagreed.before s o)
      by_cases hn : o.uuid = n
      · subst hn
        have hops : ∀ op ∈ handedOver lib past o.uuid, Servable parse requests op := by
          intro op hop
          obtain ⟨_, hpos, hhigh, hlt⟩ := handedOver_bounds hmember hcorrect run hop
          have hbefore := hagreed.before s o
          exact ⟨hbefore.agrees _ hmember hcorrect op hop,
            hbefore.parses _ hmember hcorrect (List.ne_nil_of_mem hop), hpos, hhigh.trans_lt hlt⟩
        obtain ⟨m', hm'⟩ := hm.next lib o.event hops (by
          intro input hevent
          have hpossible := henabled.2.2
          rw [hevent] at hpossible
          exact hpossible.1)
        refine ⟨m', ?_⟩
        rw [handedOver_step, if_pos rfl, reachedIn_step, executions, if_pos rfl]
        change Serving requests _ _ _ ((s.act lib parse o).processes o.uuid) m'
        simpa only [System.act, Function.update_self] using hm'
      · refine ⟨m, ?_⟩
        rw [handedOver_step, if_neg hn, List.append_nil, history_step, if_neg hn, executions, if_neg hn,
          List.append_nil]
        change Serving requests _ _ _ ((s.act lib parse o).processes n) m
        simpa only [System.act, Function.update_of_ne (Ne.symm hn)] using hm

end Serving

section Replication

-- The requests that a process executes are those that its replica handed over, in the order of their
-- numbers, two processes execute the same ones as far as both get, and the databases follow from them.
structure Replicated (lib : Library) (parse : Bytes → Option Request) (past : List (System × Occurrence))
    (s : System) (p q : Uuid) : Prop where
  sourced : ∀ k msg, (executions parse past p)[k]? = some msg →
    ∃ op ∈ handedOver lib past p, op.sequence = k + 1 ∧ op.request.operationOf = msg
  ordered : executions parse past p <+: executions parse past q ∨ executions parse past q <+: executions parse past p
  database : (s.processes p).service.database = (executions parse past p).foldl Crud.written ∅
  same : (executions parse past p).length = (executions parse past q).length →
    (s.processes p).service.database = (s.processes q).service.database

theorem counted_isPrefix {m m' : Nat} (h : m ≤ m') : List.range' 1 m <+: List.range' 1 m' :=
  ⟨List.range' (1 + m) (m' - m), by rw [List.range'_append_1, Nat.add_sub_of_le h]⟩

theorem Serving.ordered {ops ops' : List Operation} {cps cps' : List Checkpoint} {log log' : List DatabaseMsg}
    {p q : Process} {m m' : Nat} (h : Serving requests ops cps log p m) (h' : Serving requests ops' cps' log' q m')
    (hle : m ≤ m') : log <+: log' := by
  rw [h.executed, h'.executed]
  exact (counted_isPrefix (by omega)).map _

theorem Serving.length {ops : List Operation} {cps : List Checkpoint} {log : List DatabaseMsg} {p : Process}
    {m : Nat} (h : Serving requests ops cps log p m) : log.length + 1 = m := by
  have hlow := h.low
  rw [h.executed, List.length_map, List.length_range']
  omega

theorem Serving.sourced {ops : List Operation} {cps : List Checkpoint} {log : List DatabaseMsg} {p : Process}
    {m k : Nat} {msg : DatabaseMsg} (h : Serving requests ops cps log p m)
    (hops : ∀ op ∈ ops, requests op.sequence = op.request) (hmsg : log[k]? = some msg) :
    ∃ op ∈ ops, op.sequence = k + 1 ∧ op.request.operationOf = msg := by
  have hlength := h.length
  have hk := (List.getElem?_eq_some_iff.mp hmsg).1
  obtain ⟨op, hop, hsequence⟩ := h.applied (k + 1) (by omega) (by omega)
  refine ⟨op, hop, hsequence, ?_⟩
  have hlog := hmsg
  rw [h.executed, List.getElem?_map, List.getElem?_range' (by omega), Option.map_some] at hlog
  rw [← hops op hop, hsequence, ← Option.some.inj hlog]
  congr 2
  omega

theorem replicated_of_run (hinj : Function.Injective lib.requestHash) (hfaulty : faulty.card ≤ f)
    (run : (system lib parse f members faulty).Run past s) (hreadable : Readable lib parse members faulty past)
    {p q : Uuid} (hp : p ∈ members) (hpf : p ∉ faulty) (hq : q ∈ members) (hqf : q ∉ faulty) :
    Replicated lib parse past s p q := by
  obtain ⟨requests, hagreed⟩ := agreed_of_run hinj hfaulty run hreadable
  obtain ⟨m, hm⟩ := serving_of_run run hagreed hp hpf
  obtain ⟨m', hm'⟩ := serving_of_run run hagreed hq hqf
  refine ⟨?_, ?_, hm.database, ?_⟩
  · intro k msg hmsg
    exact hm.sourced (hagreed.agrees p hp hpf) hmsg
  · rcases Nat.le_total m m' with hle | hle
    · exact Or.inl (hm.ordered hm' hle)
    · exact Or.inr (hm'.ordered hm hle)
  · intro hlength
    have hsame : m = m' := by
      rw [← hm.length, ← hm'.length, hlength]
    subst hsame
    rw [hm.database, hm'.database, hm.executed, hm'.executed]

-- The four members again, of which the primary sends two different preprepares.
noncomputable def freshSystem : System := ⟨fun n => ⟨freshReplica n, freshService n ∅, []⟩, []⟩

def parseRead (bytes : Bytes) : Option Request :=
  [readRequest "x", readRequest "y"].find? fun request => request.serialize == bytes

noncomputable def fourSystem : Machine System Occurrence :=
  system openLibrary parseRead 1 {"A", "B", "C", "D"} {"B"}

noncomputable instance (s : System) (o : Occurrence) : Decidable (fourSystem.enabled s o) :=
  inferInstanceAs (Decidable ((system openLibrary parseRead 1 {"A", "B", "C", "D"} {"B"}).enabled s o))

theorem fourSystem_start : fourSystem.Run [] freshSystem := by
  have hpeers : (initializeConfiguration openLibrary fourPeers).current.map Configuration.sortedPeers =
      some fourPeers := by decide +kernel
  refine .start ⟨⟨rfl, ?_⟩, fun _ _ _ => ⟨rfl, rfl⟩⟩
  intro n _ _
  exact ⟨fourPeers, freshReplica n, true, construct_four n, rfl, fourPeers, hpeers, rfl, by decide⟩

-- Two of the processes get as far as the execution.
def twoExecutions : List Occurrence :=
  (twoPreprepares.map fun a => ⟨a.uuid, .receive a.input⟩) ++
    ["A", "D"].map fun n => ⟨n, .perform 0 none (fun _ => false) (zeroedLate 0)⟩

noncomputable def twoRun : List (System × Occurrence) × System := fourSystem.replay [] freshSystem twoExecutions

theorem run_twoRun : fourSystem.Run twoRun.1 twoRun.2 := fourSystem_start.replay twoExecutions (by decide +kernel)

theorem readable_twoRun : Readable openLibrary parseRead {"A", "B", "C", "D"} {"B"} twoRun.1 := by
  intro n hmember hcorrect
  have hn : n = "A" ∨ n = "C" ∨ n = "D" := by
    simp only [Finset.mem_insert, Finset.mem_singleton] at hmember hcorrect
    tauto
  rcases hn with rfl | rfl | rfl <;> decide +kernel

theorem replicated_of_run_four : executions parseRead twoRun.1 "A" = [{ command := .read "x" }] ∧
    Replicated openLibrary parseRead twoRun.1 twoRun.2 "A" "D" :=
  ⟨by decide +kernel, replicated_of_run requestText_injective (by decide) run_twoRun readable_twoRun (by decide)
    (by decide) (by decide) (by decide)⟩

end Replication

end SwarmDB.Pbft
