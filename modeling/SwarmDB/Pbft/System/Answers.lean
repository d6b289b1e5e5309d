import Mathlib.Data.Finset.Max
import SwarmDB.Pbft.System.Order

namespace SwarmDB.Pbft

open Replica Service

-- What a client is told: the number of the request that it is about, the session and the response.
structure Answer where
  sequence : Nat
  session : Session
  response : DatabaseResponse
  deriving DecidableEq

-- What a call of crud for this number answers.
def answerTo (sequence : Nat) (request : DatabaseMsg) (session : Option Session) (db : MemStorage) : List Answer :=
  ((Crud.handleRequest request session db).sent.map fun sent => ⟨sequence, sent.1, sent.2⟩).toList

-- The answers of crud while a service does all this, which starts with this database.
def answersIn (db : MemStorage) : List ServiceEffect → List Answer
  | [] => []
  | .execute sequence request session :: es =>
    answerTo sequence request session db ++ answersIn (Crud.written db request) es
  | .create .. :: es | .update .. :: es | .remove _ :: es | .post .. :: es => answersIn db es

-- What the service of a process did, in order, and the answers of its crud.
def served (parse : Bytes → Option Request) : List (System × Occurrence) → Uuid → List ServiceEffect
  | [], _ => []
  | (s, o) :: past, n => served parse past n ++
    if o.uuid = n then (s.processes n).serviceEffects parse o.event else []

def answers (parse : Bytes → Option Request) : List (System × Occurrence) → Uuid → List Answer
  | [], _ => []
  | (s, o) :: past, n => answers parse past n ++
    if o.uuid = n then
      answersIn (s.processes n).service.database ((s.processes n).serviceEffects parse o.event)
    else []

-- The answers of a single crud with a single database, which is called with one request after the other.
def told (sessions : Nat → Option Session) (sequence : Nat) (db : MemStorage) : List DatabaseMsg → List Answer
  | [] => []
  | request :: requests => answerTo sequence request (sessions sequence) db ++
    told sessions (sequence + 1) (Crud.written db request) requests

variable {lib : Library} {parse : Bytes → Option Request} {f : Nat} {members faulty : Finset Uuid}
  {past : List (System × Occurrence)} {s : System} {n : Uuid} {requests : Nat → Request}

section Single

variable {sessions : Nat → Option Session} {db : MemStorage} {es fs : List ServiceEffect} {x : Nat}

end Single

section Numbers

variable {ops : List Operation} {reached : List Checkpoint} {log : List DatabaseMsg} {p : Process} {m : Nat}

-- The numbers of what a step of a process executes go on from where it was.
theorem Serving.sequences (h : Serving requests ops reached log p m) (event : Event)
    (hops : ∀ op ∈ ops, Servable parse requests op) :
    sequencesIn (p.serviceEffects parse event) =
      List.range' m (executedIn (p.serviceEffects parse event)).length := by
  cases event with
  | receive input => rfl
  | perform index session locks freed =>
      cases hjob : p.jobs[index]? with
      | none => simp [Process.serviceEffects, hjob, sequencesIn, executedIn]
      | some job =>
          cases job with
          | execute request x => simp [Process.serviceEffects, hjob, sequencesIn, executedIn]
          | applyOperation op =>
              obtain ⟨hrequest, hparse, hpos, hlt⟩ := hops op (h.waiting op (List.mem_of_getElem? hjob))
              have hcall : Application.handler parse requests ⟨op.sequence, session, locks⟩ p.service =
                  applyOperation parse locks op.sequence op.request session p.service := by
                simp only [Application.handler, hrequest]
              simp only [Process.serviceEffects, hjob]
              rcases handler_cases hparse h.standing ⟨op.sequence, session, locks⟩ hpos hlt with
                ⟨hfits, _, es, m', t', hrun, hdrains, _⟩ | ⟨_, e, hrun⟩
              · rw [hcall] at hrun
                have hdrained := hdrains.drained (h.standing.accept hpos hlt hfits session)
                have hsequences : sequencesIn (.create (Bytes.decimal op.sequence)
                    (requests op.sequence).serialize :: es) = List.range' m (m' - m) := hdrained.sequences
                have hexecuted : executedIn (.create (Bytes.decimal op.sequence)
                    (requests op.sequence).serialize :: es) =
                      (List.range' m (m' - m)).map fun x => (requests x).operationOf := hdrained.executed
                rw [hrun, hsequences, hexecuted, List.length_map, List.length_range']
              · rw [hcall] at hrun
                rw [hrun]
                rfl

end Numbers

section Runs

end Runs

section Answering

-- A process has executed the beginning of this sequence of requests, and its clients were told what a single
-- crud tells those whose sessions it is called with.
structure Answered (parse : Bytes → Option Request) (past : List (System × Occurrence)) (n : Uuid)
    (log : List DatabaseMsg) (sessions : Nat → Option Session) : Prop where
  follows : executions parse past n <+: log
  called : ∀ x request session, .execute x request session ∈ served parse past n → sessions x = session
  answers : answers parse past n = told sessions 1 ∅ (executions parse past n)

end Answering

end SwarmDB.Pbft
