import SwarmDB.Pbft.Service.Recovery

namespace SwarmDB.Pbft

open Bytes Service

variable {parse : Bytes → Option Request} {requests : Nat → Request} {locks : Nat → Bool}
  {s t u : Service} {m x : Nat} {es fs : List ServiceEffect} {past : List (Service × Application)}

section Keeping

-- A record only goes away together with the execution of its request.
structure Keeps (s : Service) (es : List ServiceEffect) (t : Service) : Prop where
  owner : t.uuid = s.uuid
  records : ∀ x, (s.record x).isSome = true → (t.record x).isSome = true ∨ x ∈ sequencesIn es

theorem Keeps.rest (s : Service) : Keeps s [] s := ⟨rfl, fun _ hx => Or.inl hx⟩

theorem Keeps.append (h : Keeps s es t) (h' : Keeps t fs u) : Keeps s (es ++ fs) u := by
  refine ⟨h'.owner.trans h.owner, ?_⟩
  intro x hx
  rw [sequencesIn_append, List.mem_append]
  rcases h.records x hx with hstored | hexecuted
  · rcases h'.records x hstored with hlater | hexecuted
    · exact Or.inl hlater
    · exact Or.inr (Or.inr hexecuted)
  · exact Or.inr (Or.inl hexecuted)

theorem Keeps.of_trail (h : Trail Keeps s es t) : Keeps s es t := by
  induction h with
  | rest => exact .rest s
  | next _ step ih => exact ih.append step

-- Whether or not there is a counter to save, the next record is the only one that a turn takes away.
theorem executeNext_keeps (parse : Bytes → Option Request) (locks : Nat → Bool) (s : Service) :
    Keeps s (executeNext parse locks s).effects (executeNext parse locks s).state := by
  cases hread : s.record s.nextRequestSequence with
  | none =>
      have hnone : s.unstable.read s.uuid (decimal s.nextRequestSequence) = none := hread
      simp [executeNext, Bind.bind, Handler.bind, Handler.reads, hnone, Handler.throws, Keeps.rest]
  | some bytes =>
      have hsome : s.unstable.read s.uuid (decimal s.nextRequestSequence) = some bytes := hread
      cases hparse : parse bytes with
      | none => simp [executeNext, Bind.bind, Handler.bind, Handler.reads, hsome, hparse, Handler.throws, Keeps.rest]
      | some request =>
          rw [executeNext_found hread hparse]
          refine ⟨rfl, ?_⟩
          intro x hx
          by_cases hnext : x = s.nextRequestSequence
          · right
            simp [sequencesIn, ServiceEffect.sequence, turn, hnext]
          · left
            have hsaved := (MemStorage.write_spec (s.unstable.erase (s.uuid, decimal s.nextRequestSequence)) s.uuid
              nextRequestSequenceKey (.update (decimal ((s.nextRequestSequence + 1) % 2 ^ 64)))).2 (s.uuid, decimal x)
            rw [if_neg (record_ne_counter s.uuid x), Finmap.lookup_erase_ne (record_ne_record s.uuid hnext)] at hsaved
            exact (congrArg Option.isSome hsaved).trans hx

theorem drain_keeps (parse : Bytes → Option Request) (locks : Nat → Bool) (turns : Nat) :
    Performs Keeps (drain parse locks turns) s fun _ _ => True := by
  induction turns generalizing s with
  | zero => exact Performs.pure trivial
  | succ turns ih =>
      apply (Performs.reads _).bind
      rintro more s ⟨rfl, _⟩
      cases more with
      | false => exact Performs.pure trivial
      | true =>
          apply Performs.bind (Performs.single (executeNext_keeps parse locks s))
          intro _ _ _
          exact ih

-- A call that gets past the storing leaves its request stored or executed.
theorem handler_keeps (parse : Bytes → Option Request) (requests : Nat → Request) (call : Application)
    (s : Service) :
    Keeps s (call.handler parse requests s).effects (call.handler parse requests s).state ∧
      ((call.handler parse requests s).result = .ok () →
        ((call.handler parse requests s).state.record call.sequence).isSome = true ∨
          call.sequence ∈ sequencesIn (call.handler parse requests s).effects) := by
  rcases MemStorage.create_cases s.uuid (decimal call.sequence) (requests call.sequence).serialize s.unstable with
    ⟨_, _, hcreate⟩ | ⟨result, hresult, hcreate⟩
  · let stored := accept call.sequence (requests call.sequence) call.session s
    let drained := drain parse call.locks stored.unstable.keys.card stored
    have hrun : call.handler parse requests s = ⟨drained.state,
        .create (decimal call.sequence) (requests call.sequence).serialize :: drained.effects, drained.result⟩ := by
      simp [Application.handler, applyOperation, Bind.bind, Handler.bind, unstableCreate, hcreate,
        Handler.updates, processAwaitingOperations, Handler.reads, drained, stored, accept]
    have hkeeps : Keeps stored drained.effects drained.state := .of_trail (drain_keeps parse call.locks _).trail
    have hwhole : sequencesIn (.create (decimal call.sequence) (requests call.sequence).serialize ::
        drained.effects) = sequencesIn drained.effects := List.filterMap_cons_none rfl
    rw [hrun]
    refine ⟨⟨hkeeps.owner, ?_⟩, ?_⟩
    · intro x hx
      rw [hwhole]
      apply hkeeps.records
      rw [accept_record]
      split
      · rfl
      · exact hx
    · intro _
      rw [hwhole]
      apply hkeeps.records
      rw [accept_record, if_pos rfl]
      rfl
  · obtain ⟨e, hrun⟩ := @handler_refused parse _ _ _ _ hresult hcreate
    rw [hrun]
    refine ⟨⟨rfl, fun _ hx => Or.inl hx⟩, ?_⟩
    intro hok
    cases hok

end Keeping

section Repeated

variable {start : Service} {call : Application} {uuid : Uuid} {database : MemStorage}

-- A call of apply_operation for this sequence number has returned.
def Returned (parse : Bytes → Option Request) (requests : Nat → Request) (past : List (Service × Application))
    (x : Nat) : Prop :=
  ∃ step ∈ past, step.2.sequence = x ∧ (step.2.handler parse requests step.1).result = .ok ()

-- What a call that repeats an earlier one should be like.
structure Harmless (parse : Bytes → Option Request) (requests : Nat → Request)
    (past : List (Service × Application)) (s : Service) (call : Application) : Prop where
  returns : (call.handler parse requests s).result = .ok ()
  once : ∀ x ∈ sequencesIn (call.handler parse requests s).effects,
    x ∉ sequencesIn (performed parse requests past)
  next : (call.handler parse requests s).state.nextRequestSequence = s.nextRequestSequence
  unstable : (call.handler parse requests s).state.unstable = s.unstable

-- What a call that returned has stored is still there or was executed.
theorem kept_of_run (run : (serving parse requests start).Run past s) (h : Returned parse requests past x) :
    (s.record x).isSome = true ∨ x ∈ sequencesIn (performed parse requests past) := by
  induction run with
  | start _ =>
      obtain ⟨step, hmem, _⟩ := h
      cases hmem
  | @step past s call run _ ih =>
      obtain ⟨hkeeps, htakes⟩ := handler_keeps parse requests call s
      rw [performed, sequencesIn_append, List.mem_append]
      have hnow : ((call.handler parse requests s).state.record x).isSome = true ∨
          x ∈ sequencesIn (call.handler parse requests s).effects ∨
            x ∈ sequencesIn (performed parse requests past) := by
        obtain ⟨step, hmem, rfl, hok⟩ := h
        rcases List.mem_cons.mp hmem with rfl | hmem
        · rcases htakes hok with hstored | hexecuted
          · exact Or.inl hstored
          · exact Or.inr (Or.inl hexecuted)
        · rcases ih ⟨step, hmem, rfl, hok⟩ with hstored | hexecuted
          · rcases hkeeps.records _ hstored with hstored | hexecuted
            · exact Or.inl hstored
            · exact Or.inr (Or.inl hexecuted)
          · exact Or.inr (Or.inr hexecuted)
      rcases hnow with hstored | hexecuted | hbefore
      · exact Or.inl hstored
      · exact Or.inr (Or.inr hexecuted)
      · exact Or.inr (Or.inl hbefore)

-- While the request is pending, its record is in the way.
theorem throws_of_record (h : (s.record call.sequence).isSome = true) :
    (call.handler parse requests s).result ≠ .ok () := by
  rcases MemStorage.create_cases s.uuid (decimal call.sequence) (requests call.sequence).serialize s.unstable with
    ⟨_, hfree, _⟩ | ⟨result, hresult, hcreate⟩
  · rw [record, hfree] at h
    cases h
  · obtain ⟨e, hrun⟩ := handler_refused hresult hcreate
    rw [hrun]
    intro hok
    cases hok

-- Once it has been executed, nothing is left to tell so, and the request is stored anew.
theorem harmless_never (run : (serving parse requests start).Run past s)
    (h : Returned parse requests past call.sequence) : ¬Harmless parse requests past s call := by
  intro hharmless
  have hreturns := hharmless.returns
  obtain ⟨hkeeps, htakes⟩ := handler_keeps parse requests call s
  rcases kept_of_run run h with hstored | hexecuted
  · exact throws_of_record hstored hreturns
  · rcases htakes hreturns with hstored | hagain
    · rw [record, hkeeps.owner, hharmless.unstable] at hstored
      exact throws_of_record hstored hreturns
    · exact hharmless.once _ hagain hexecuted

-- What a repeated call does to a service that started with nothing. The record that it stores after the
-- execution is for a number that is not waited for any more, and a further call finds it in its way.
theorem again_of_run (hparse : ∀ x, parse (requests x).serialize = some (requests x))
    (run : (serving parse requests (freshService uuid database)).Run past s)
    (hcalls : ∀ step ∈ past, 1 ≤ step.2.sequence ∧ step.2.sequence < 2 ^ 64)
    (h : Returned parse requests past call.sequence) :
    ((s.record call.sequence).isSome = true ∧ ∃ e, call.handler parse requests s =
        ⟨s, [.create (decimal call.sequence) (requests call.sequence).serialize], .error e⟩) ∨
      (call.sequence ∈ sequencesIn (performed parse requests past) ∧ call.handler parse requests s =
        ⟨accept call.sequence (requests call.sequence) call.session s,
          [.create (decimal call.sequence) (requests call.sequence).serialize], .ok ()⟩) := by
  obtain ⟨m, hm⟩ := steady_of_run hparse run hcalls
  obtain ⟨step, hmem, hsame, hok⟩ := h
  obtain ⟨hpos, hlt⟩ := hcalls step hmem
  have hkept := hm.kept step hmem hok
  rw [hsame] at hpos hlt hkept
  cases hrecord : (s.record call.sequence).isSome with
  | true =>
      left
      obtain ⟨_, hfree, _⟩ | ⟨_, hthrows⟩ := handler_cases hparse hm.standing call hpos hlt
      · rw [hfree] at hrecord
        cases hrecord
      · exact ⟨rfl, hthrows⟩
  | false =>
      right
      have hbefore : call.sequence < m := by
        rcases hkept with hbefore | hstored
        · exact hbefore
        · rw [hrecord] at hstored
          cases hstored
      have hnone : s.record call.sequence = none := by simpa using hrecord
      refine ⟨?_, ?_⟩
      · rw [hm.sequences, List.mem_range'_1]
        omega
      · obtain ⟨_, _, es, m', s', hrun, hdrains, _⟩ | ⟨hbad, _⟩ :=
          handler_cases hparse hm.standing call hpos hlt
        · -- the number that is waited for has no record, and the new one is not for it
          cases hdrains with
          | done _ => exact hrun
          | next hsome _ =>
              rw [accept_record, if_neg (by omega), hm.ended step hmem hok] at hsome
              cases hsome
        · exact absurd ⟨hm.fits _ hpos hbefore, hnone⟩ hbad

end Repeated

section Example

-- The request with the number 2 has to wait, and then the first one lets it through.
def pendingCalls : List Application := [⟨2, none, fun _ => true⟩]

def executedCalls : List Application := [⟨1, none, fun _ => true⟩, ⟨2, none, fun _ => true⟩]

theorem harmless_never_pending :
    let run := (serving parseTwo twoRequests (freshService "A" ∅)).replay [] (freshService "A" ∅) pendingCalls
    Returned parseTwo twoRequests run.1 2 ∧
      ¬Harmless parseTwo twoRequests run.1 run.2 ⟨2, none, fun _ => true⟩ := by
  intro run
  have hreturned : Returned parseTwo twoRequests run.1 2 := by
    unfold Returned
    decide +kernel
  exact ⟨hreturned, harmless_never (run_of_start _ _ _ _) hreturned⟩

-- A second call for a pending request throws, and one for an executed request stores it once more.
theorem harmless_broken :
    let pending := (serving parseTwo twoRequests (freshService "A" ∅)).replay [] (freshService "A" ∅) pendingCalls
    let executed := (serving parseTwo twoRequests (freshService "A" ∅)).replay [] (freshService "A" ∅) executedCalls
    let again : Application := ⟨2, none, fun _ => true⟩
    (Returned parseTwo twoRequests pending.1 2 ∧
        (again.handler parseTwo twoRequests pending.2).result =
          .error (.runtimeError "Failed to store pbft request! (2)") ∧
        ¬Harmless parseTwo twoRequests pending.1 pending.2 again) ∧
      (Returned parseTwo twoRequests executed.1 2 ∧
        sequencesIn (performed parseTwo twoRequests executed.1) = [1, 2] ∧
        ¬Harmless parseTwo twoRequests executed.1 executed.2 again) := by
  intro pending executed again
  refine ⟨⟨?_, ?_, ?_⟩, ?_, ?_, ?_⟩
  · unfold Returned
    decide +kernel
  · decide +kernel
  · intro h
    exact absurd h.returns (by decide +kernel)
  · unfold Returned
    decide +kernel
  · decide +kernel
  · intro h
    exact absurd (congrArg (Finmap.lookup ("A", decimal 2)) h.unstable) (by decide +kernel)

end Example

end SwarmDB.Pbft
