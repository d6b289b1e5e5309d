import SwarmDB.Machine
import SwarmDB.Pbft.Operation
import Mathlib.Data.Finset.SDiff
import Mathlib.Data.List.TakeWhile

namespace SwarmDB.Pbft

-- A function that has been registered, by a name.
abbrev FailureHandler := Nat

-- The waits are the handlers that the timer has been given and has not called yet. Setting the timer
-- anew would cancel a wait, whose handler is called then too: handle_timeout does not look at the error.
structure FailureDetector where
  orderedRequests : List Request := []
  outstandingRequests : Finset Hash := ∅
  completedRequests : Finset Hash := ∅
  failureHandler : Option FailureHandler := none
  waits : Nat := 0
  deriving DecidableEq

namespace FailureDetector

-- The failure handler is posted to the io context.
abbrev Posting := Option FailureHandler

-- The front of an empty list is read.
inductive Fault
  | emptyFront
  deriving DecidableEq, Repr

abbrev Detection := Handler FailureDetector Posting Fault Unit

section Detector

variable (requestHash : Request → Hash)

def startTimer (detector : FailureDetector) : FailureDetector := { detector with waits := detector.waits + 1 }

def Completed (detector : FailureDetector) (req : Request) : Prop :=
  requestHash req ∈ detector.completedRequests

instance (detector : FailureDetector) (req : Request) : Decidable (detector.Completed requestHash req) :=
  inferInstanceAs (Decidable (_ ∈ _))

-- The loop that pops completed requests from the front.
def purge (detector : FailureDetector) : FailureDetector :=
  { detector with orderedRequests := detector.orderedRequests.dropWhile (detector.Completed requestHash) }

def restartTimer (detector : FailureDetector) : FailureDetector :=
  if 0 < detector.orderedRequests.length then detector.startTimer else detector

def handleTimeout : Detection := do
  match ← Handler.reads orderedRequests with
  | [] => Handler.throws .emptyFront
  | front :: _ =>
    if ← Handler.reads fun detector => decide (detector.Completed requestHash front) then
      Handler.updates (purge requestHash)
      Handler.updates restartTimer
    else
      Handler.updates startTimer
      let handler ← Handler.reads failureHandler
      Handler.emits handler

def record (detector : FailureDetector) (req : Request) : FailureDetector :=
  { detector with orderedRequests := detector.orderedRequests ++ [req],
                  outstandingRequests := insert (requestHash req) detector.outstandingRequests }

def requestSeen (req : Request) (detector : FailureDetector) : FailureDetector :=
  if requestHash req ∉ detector.outstandingRequests ∧ requestHash req ∉ detector.completedRequests then
    let recorded := detector.record requestHash req
    if recorded.orderedRequests.length = 1 then recorded.startTimer else recorded
  else detector

def requestExecuted (req : Request) (detector : FailureDetector) : FailureDetector :=
  { detector with outstandingRequests := detector.outstandingRequests.erase (requestHash req),
                  completedRequests := insert (requestHash req) detector.completedRequests }

def registerFailureHandler (handler : FailureHandler) (detector : FailureDetector) : FailureDetector :=
  { detector with failureHandler := some handler }

end Detector

-- A wait comes to its end.
def expire (detector : FailureDetector) : FailureDetector := { detector with waits := detector.waits - 1 }

-- The calls, each under the lock, and the timer calling a handler that it has been given.
inductive Event
  | requestSeen (req : Request)
  | requestExecuted (req : Request)
  | registerFailureHandler (handler : FailureHandler)
  | timeout
  deriving DecidableEq

def Event.handler (requestHash : Request → Hash) : Event → Detection
  | requestSeen req => Handler.updates (FailureDetector.requestSeen requestHash req)
  | requestExecuted req => Handler.updates (FailureDetector.requestExecuted requestHash req)
  | registerFailureHandler handler => Handler.updates (FailureDetector.registerFailureHandler handler)
  | timeout => do
    Handler.updates expire
    handleTimeout requestHash

def detection (requestHash : Request → Hash) : Machine FailureDetector Event where
  init detector := detector = {}
  enabled detector event := event = .timeout → 0 < detector.waits
  next detector event := (event.handler requestHash detector).state

instance detection.decidable (requestHash : Request → Hash) (detector : FailureDetector) (event : Event) :
    Decidable ((detection requestHash).enabled detector event) := inferInstanceAs (Decidable (_ → _))

section Runs

variable {requestHash : Request → Hash} {past : List (FailureDetector × Event)} {detector : FailureDetector}
  {front req : Request} {rest : List Request}

def hashes (requestHash : Request → Hash) (detector : FailureDetector) : List Hash :=
  detector.orderedRequests.map requestHash

def Executed (requestHash : Request → Hash) (past : List (FailureDetector × Event)) (hash : Hash) : Prop :=
  ∃ step ∈ past, ∃ req, step.2 = .requestExecuted req ∧ requestHash req = hash

-- The requests seen in a run, the earliest first.
def seenIn : List (FailureDetector × Event) → List Request
  | [] => []
  | (_, .requestSeen req) :: past => seenIn past ++ [req]
  | (_, .requestExecuted _) :: past | (_, .registerFailureHandler _) :: past | (_, .timeout) :: past => seenIn past

-- The containers and the timer after the events of a run. Requests stand in the order they were seen in,
-- and none is dropped that was not executed.
structure Watched (requestHash : Request → Hash) (past : List (FailureDetector × Event))
    (detector : FailureDetector) : Prop where
  distinct : (detector.hashes requestHash).Nodup
  outstanding : detector.outstandingRequests =
    (detector.hashes requestHash).toFinset \ detector.completedRequests
  waiting : detector.waits = if detector.orderedRequests = [] then 0 else 1
  completed : ∀ hash, hash ∈ detector.completedRequests ↔ Executed requestHash past hash
  ordered : detector.orderedRequests.Sublist (seenIn past)
  tracked : ∀ req ∈ seenIn past,
    requestHash req ∈ detector.hashes requestHash ∨ requestHash req ∈ detector.completedRequests

theorem mem_outstanding (h : Watched requestHash past detector) {hash : Hash} :
    hash ∈ detector.outstandingRequests ↔
      hash ∈ detector.hashes requestHash ∧ hash ∉ detector.completedRequests := by
  rw [h.outstanding, Finset.mem_sdiff, List.mem_toFinset]

-- The timer has been given a handler exactly while there is something to watch.
theorem exists_front (h : Watched requestHash past detector) (hwaits : 0 < detector.waits) :
    ∃ front rest, detector.orderedRequests = front :: rest := by
  cases hordered : detector.orderedRequests with
  | nil =>
      have hnone := h.waiting
      rw [if_pos hordered] at hnone
      omega
  | cons front rest => exact ⟨front, rest, rfl⟩

theorem timeout_unexecuted (hordered : detector.orderedRequests = front :: rest)
    (hopen : ¬detector.Completed requestHash front) : Event.timeout.handler requestHash detector =
      ⟨detector.expire.startTimer, [detector.failureHandler], .ok ()⟩ := by
  have hopen' : ¬detector.expire.Completed requestHash front := hopen
  simp [Event.handler, handleTimeout, Bind.bind, Handler.bind, Handler.updates, Handler.reads, Handler.emits,
    show detector.expire.orderedRequests = front :: rest from hordered, hopen']
  rfl

theorem timeout_executed (hordered : detector.orderedRequests = front :: rest)
    (hdone : detector.Completed requestHash front) : Event.timeout.handler requestHash detector =
      ⟨(detector.expire.purge requestHash).restartTimer, [], .ok ()⟩ := by
  have hdone' : detector.expire.Completed requestHash front := hdone
  simp [Event.handler, handleTimeout, Bind.bind, Handler.bind, Handler.updates, Handler.reads,
    show detector.expire.orderedRequests = front :: rest from hordered, hdone']

theorem watched_start : Watched requestHash [] {} := by
  refine ⟨List.nodup_nil, rfl, rfl, ?_, List.Sublist.refl [], by simp [seenIn]⟩
  intro hash
  simp [Executed]

theorem executed_other {event : Event} (h : ∀ req, event ≠ .requestExecuted req) (hash : Hash) :
    Executed requestHash ((detector, event) :: past) hash ↔ Executed requestHash past hash := by
  simp [Executed, h]

theorem requestSeen_new (hnew : requestHash req ∉ detector.outstandingRequests ∧
    requestHash req ∉ detector.completedRequests) : detector.requestSeen requestHash req =
      { detector.record requestHash req with
        waits := if detector.orderedRequests = [] then detector.waits + 1 else detector.waits } := by
  unfold requestSeen
  rw [if_pos hnew]
  by_cases hempty : detector.orderedRequests = []
  · simp [record, startTimer, hempty]
  · simp [record, hempty]

theorem requestSeen_known (hknown : ¬(requestHash req ∉ detector.outstandingRequests ∧
    requestHash req ∉ detector.completedRequests)) : detector.requestSeen requestHash req = detector := by
  unfold requestSeen
  rw [if_neg hknown]

theorem Watched.completed_requestSeen (h : Watched requestHash past detector) (req : Request) (hash : Hash) :
    hash ∈ detector.completedRequests ↔ Executed requestHash ((detector, .requestSeen req) :: past) hash := by
  rw [h.completed hash, executed_other (by simp)]

theorem Watched.record (h : Watched requestHash past detector) (hnew : requestHash req ∉ detector.outstandingRequests ∧
    requestHash req ∉ detector.completedRequests) :
    Watched requestHash ((detector, .requestSeen req) :: past) (detector.requestSeen requestHash req) := by
  have hfresh : requestHash req ∉ detector.hashes requestHash := by
    intro hmem
    exact hnew.1 ((mem_outstanding h).mpr ⟨hmem, hnew.2⟩)
  have hhashes : (detector.record requestHash req).hashes requestHash =
      detector.hashes requestHash ++ [requestHash req] := by simp [hashes, FailureDetector.record]
  rw [requestSeen_new hnew]
  refine ⟨?_, ?_, ?_, h.completed_requestSeen req, h.ordered.append (List.Sublist.refl [req]), ?_⟩
  · change ((detector.record requestHash req).hashes requestHash).Nodup
    rw [hhashes, ← List.concat_eq_append]
    exact h.distinct.concat hfresh
  · change insert (requestHash req) detector.outstandingRequests =
      ((detector.record requestHash req).hashes requestHash).toFinset \ detector.completedRequests
    rw [hhashes, h.outstanding]
    ext hash
    by_cases heq : hash = requestHash req
    · subst heq
      simp [hnew.2]
    · simp [heq]
  · have hwaiting := h.waiting
    by_cases hempty : detector.orderedRequests = []
    · rw [if_pos hempty] at hwaiting
      simp [FailureDetector.record, hempty, hwaiting]
    · rw [if_neg hempty] at hwaiting
      simp [FailureDetector.record, hempty, hwaiting]
  · intro other hother
    change _ ∈ (detector.record requestHash req).hashes requestHash ∨ _
    rw [hhashes]
    rcases List.mem_append.mp hother with hother | hother
    · rcases h.tracked other hother with hmem | hdone
      · exact Or.inl (List.mem_append_left _ hmem)
      · exact Or.inr hdone
    · rw [List.mem_singleton.mp hother]
      exact Or.inl (List.mem_append_right _ (List.mem_singleton_self _))

-- A request that is known is either still in the list or has been executed.
theorem Watched.requestSeen (h : Watched requestHash past detector) (req : Request) :
    Watched requestHash ((detector, .requestSeen req) :: past) (detector.requestSeen requestHash req) := by
  by_cases hnew : requestHash req ∉ detector.outstandingRequests ∧ requestHash req ∉ detector.completedRequests
  · exact h.record hnew
  · rw [requestSeen_known hnew]
    refine ⟨h.distinct, h.outstanding, h.waiting, h.completed_requestSeen req,
      h.ordered.trans (List.sublist_append_left _ _), ?_⟩
    intro other hother
    rcases List.mem_append.mp hother with hother | hother
    · exact h.tracked other hother
    · rw [List.mem_singleton.mp hother]
      by_cases hdone : requestHash req ∈ detector.completedRequests
      · exact Or.inr hdone
      · have hmem : requestHash req ∈ detector.outstandingRequests := by
          by_contra hnot
          exact hnew ⟨hnot, hdone⟩
        exact Or.inl ((mem_outstanding h).mp hmem).1

theorem Watched.requestExecuted (h : Watched requestHash past detector) (req : Request) :
    Watched requestHash ((detector, .requestExecuted req) :: past) (detector.requestExecuted requestHash req) := by
  refine ⟨h.distinct, ?_, h.waiting, ?_, h.ordered, ?_⟩
  · change detector.outstandingRequests.erase (requestHash req) =
      (detector.hashes requestHash).toFinset \ insert (requestHash req) detector.completedRequests
    rw [h.outstanding, Finset.sdiff_insert]
  · intro hash
    change hash ∈ insert (requestHash req) detector.completedRequests ↔ _
    rw [Finset.mem_insert, h.completed hash]
    constructor
    · rintro (rfl | ⟨step, hstep, hexecuted⟩)
      · exact ⟨_, List.mem_cons_self, req, rfl, rfl⟩
      · exact ⟨step, List.mem_cons_of_mem _ hstep, hexecuted⟩
    · rintro ⟨step, hstep, other, hexecuted, rfl⟩
      rcases List.mem_cons.mp hstep with rfl | hstep
      · cases hexecuted
        exact Or.inl rfl
      · exact Or.inr ⟨step, hstep, other, hexecuted, rfl⟩
  · intro other hother
    rcases h.tracked other hother with hmem | hdone
    · exact Or.inl hmem
    · exact Or.inr (Finset.mem_insert_of_mem hdone)

theorem restartTimer_eq (detector : FailureDetector) : detector.restartTimer =
    { detector with waits := if detector.orderedRequests = [] then detector.waits else detector.waits + 1 } := by
  unfold restartTimer
  by_cases hempty : detector.orderedRequests = []
  · rw [if_neg (by simp [hempty]), if_pos hempty]
  · rw [if_pos (List.length_pos_iff.mpr hempty), if_neg hempty]
    rfl

-- Only completed requests are purged.
theorem completed_or_kept (h : req ∈ detector.orderedRequests) :
    detector.Completed requestHash req ∨ req ∈ (detector.purge requestHash).orderedRequests := by
  rw [← List.takeWhile_append_dropWhile (p := fun req => decide (detector.Completed requestHash req))
    (l := detector.orderedRequests)] at h
  rcases List.mem_append.mp h with hpurged | hkept
  · have hdone := List.mem_takeWhile_imp (p := fun req => decide (detector.Completed requestHash req)) hpurged
    exact Or.inl (of_decide_eq_true hdone)
  · exact Or.inr hkept

theorem mem_hashes_purge {hash : Hash} (hopen : hash ∉ detector.completedRequests) :
    hash ∈ (detector.purge requestHash).hashes requestHash ↔ hash ∈ detector.hashes requestHash := by
  constructor
  · intro hmem
    exact ((List.dropWhile_sublist _).map requestHash).subset hmem
  · intro hmem
    obtain ⟨req, hreq, rfl⟩ := List.mem_map.mp hmem
    rcases completed_or_kept hreq with hdone | hkept
    · exact absurd hdone hopen
    · exact List.mem_map_of_mem hkept

-- What is purged has been executed, and the rest stays in its order.
theorem Watched.purge (h : Watched requestHash past detector) (hwaits : 0 < detector.waits)
    (hcompleted : ∀ hash, hash ∈ detector.completedRequests ↔
      Executed requestHash ((detector, .timeout) :: past) hash) :
    Watched requestHash ((detector, .timeout) :: past) (detector.expire.purge requestHash).restartTimer := by
  rw [restartTimer_eq]
  have hsublist : (detector.purge requestHash).orderedRequests.Sublist detector.orderedRequests :=
    List.dropWhile_sublist _
  refine ⟨h.distinct.sublist (hsublist.map requestHash), ?_, ?_, hcompleted, hsublist.trans h.ordered, ?_⟩
  · change detector.outstandingRequests =
      ((detector.purge requestHash).hashes requestHash).toFinset \ detector.completedRequests
    rw [h.outstanding]
    ext hash
    by_cases hdone : hash ∈ detector.completedRequests
    · simp [hdone]
    · simp [hdone, mem_hashes_purge hdone]
  · have hwaiting := h.waiting
    have hone : detector.waits - 1 = 0 := by
      split at hwaiting
      · omega
      · omega
    simp only [FailureDetector.purge, expire, hone, Nat.zero_add]
  · intro req hreq
    by_cases hdone : requestHash req ∈ detector.completedRequests
    · exact Or.inr hdone
    · rcases h.tracked req hreq with hmem | hmem
      · exact Or.inl ((mem_hashes_purge hdone).mpr hmem)
      · exact absurd hmem hdone

theorem Watched.timeout (h : Watched requestHash past detector) (hwaits : 0 < detector.waits) :
    Watched requestHash ((detector, .timeout) :: past) (Event.timeout.handler requestHash detector).state := by
  obtain ⟨front, rest, hordered⟩ := exists_front h hwaits
  have hcompleted : ∀ hash, hash ∈ detector.completedRequests ↔
      Executed requestHash ((detector, .timeout) :: past) hash := by
    intro hash
    rw [h.completed hash, executed_other (by simp)]
  by_cases hdone : detector.Completed requestHash front
  · rw [timeout_executed hordered hdone]
    exact h.purge hwaits hcompleted
  · rw [timeout_unexecuted hordered hdone]
    refine ⟨h.distinct, h.outstanding, ?_, hcompleted, h.ordered, h.tracked⟩
    have hwaiting := h.waiting
    rw [hwaiting] at hwaits
    simp [expire, startTimer, hordered, hwaiting]

theorem watched_of_run (run : (detection requestHash).Run past detector) : Watched requestHash past detector := by
  refine run.invariant (I := fun past detector => Watched requestHash past detector) ?_ ?_
  · rintro _ rfl
    exact watched_start
  · intro past detector event _ h henabled
    cases event with
    | requestSeen req => exact h.requestSeen req
    | requestExecuted req => exact h.requestExecuted req
    | registerFailureHandler handler =>
        have hcompleted : ∀ hash, hash ∈ detector.completedRequests ↔
            Executed requestHash ((detector, .registerFailureHandler handler) :: past) hash := by
          intro hash
          rw [h.completed hash, executed_other (by simp)]
        exact ⟨h.distinct, h.outstanding, h.waiting, hcompleted, h.ordered, h.tracked⟩
    | timeout => exact h.timeout (henabled rfl)

-- The timer calls its handler: there is a front to look at, and its execution decides about the posting.
structure TimesOut (requestHash : Request → Hash) (past : List (FailureDetector × Event))
    (detector : FailureDetector) (front : Request) : Prop where
  watches : detector.orderedRequests.head? = some front
  returns : (Event.timeout.handler requestHash detector).result = .ok ()
  silent : Executed requestHash past (requestHash front) → (Event.timeout.handler requestHash detector).effects = []
  posts : ¬Executed requestHash past (requestHash front) →
    (Event.timeout.handler requestHash detector).effects = [detector.failureHandler]

-- Whatever the order of the calls and of the timeouts, the detector keeps watch.
theorem watched_and_timesOut (run : (detection requestHash).Run past detector) :
    Watched requestHash past detector ∧
      (0 < detector.waits → ∃ front, TimesOut requestHash past detector front) := by
  have h := watched_of_run run
  refine ⟨h, ?_⟩
  intro hwaits
  obtain ⟨front, rest, hordered⟩ := exists_front h hwaits
  have hexecuted : detector.Completed requestHash front ↔ Executed requestHash past (requestHash front) :=
    h.completed (requestHash front)
  have hfront : detector.orderedRequests.head? = some front := by rw [hordered, List.head?_cons]
  by_cases hdone : detector.Completed requestHash front
  · have hrun := timeout_executed hordered hdone
    refine ⟨front, hfront, congrArg Outcome.result hrun, fun _ => congrArg Outcome.effects hrun, ?_⟩
    intro hopen
    exact absurd (hexecuted.mp hdone) hopen
  · have hrun := timeout_unexecuted hordered hdone
    refine ⟨front, hfront, congrArg Outcome.result hrun, ?_, fun _ => congrArg Outcome.effects hrun⟩
    intro hexec
    exact absurd (hexecuted.mpr hexec) hdone

-- The second request is executed before it is seen, and a third one is there when the first is purged.
def overtaken : List Event :=
  let req (client : String) : Request := { client := client }
  [.registerFailureHandler 1, .requestSeen (req "alice"), .requestExecuted (req "bob"), .timeout,
    .requestSeen (req "bob"), .requestSeen (req "carol"), .requestExecuted (req "alice"), .timeout]

theorem watched_and_timesOut_overtaken :
    let run := (detection Request.client).replay [] {} overtaken
    run.2.waits = 1 ∧ run.2.orderedRequests.map Request.client = ["carol"] ∧ Watched Request.client run.1 run.2 ∧
      ∃ front, TimesOut Request.client run.1 run.2 front := by
  have hadmits : (detection Request.client).Admits {} overtaken := by decide
  have hstart : (detection Request.client).Run [] {} := .start rfl
  have h := watched_and_timesOut (hstart.replay overtaken hadmits)
  exact ⟨by decide, by decide, h.1, h.2 (by decide)⟩

end Runs

end FailureDetector

end SwarmDB.Pbft
