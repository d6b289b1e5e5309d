import SwarmDB.Pbft.Replica.Frame

namespace SwarmDB.Pbft

-- A checkpoint message that is sent: who signs it and for which checkpoint.
def Effect.announced : Effect → Option (Uuid × Checkpoint)
  | .send _ (.pbft envelope) =>
    if envelope.pbft.type = .checkpoint then
      some (envelope.sender, envelope.pbft.sequence, envelope.pbft.stateHash)
    else none
  | .send _ (.audit _) | .forward _ _ | .applyOperation _ => none

namespace Replica

-- Work that is not about checkpoints: it leaves the marks and the proofs alone, and hands over no
-- operation but those of one sequence number.
structure Steady (sequence : Nat) (r : Replica) (es : List Effect) (r' : Replica) : Prop where
  lowWaterMark : r'.lowWaterMark = r.lowWaterMark
  highWaterMark : r'.highWaterMark = r.highWaterMark
  stableCheckpoint : r'.stableCheckpoint = r.stableCheckpoint
  stableCheckpointProof : r'.stableCheckpointProof = r.stableCheckpointProof
  localUnstableCheckpoints : r'.localUnstableCheckpoints = r.localUnstableCheckpoints
  unstableCheckpointProofs : r'.unstableCheckpointProofs = r.unstableCheckpointProofs
  silent : ∀ e ∈ es, e.announced = none
  applied : ∀ op ∈ appliedIn es, op.sequence = sequence

variable {lib : Library} {r r' : Replica} {op : Operation} {es : List Effect} {sequence : Nat}

section Steady

theorem Steady.effects (hsilent : ∀ e ∈ es, e.announced = none)
    (happlied : ∀ op ∈ appliedIn es, op.sequence = sequence) : Steady sequence r es r :=
  ⟨rfl, rfl, rfl, rfl, rfl, rfl, hsilent, happlied⟩

theorem Steady.of_trail (h : Trail (Steady sequence) r es r') : Steady sequence r es r' := by
  induction h with
  | rest => exact .effects (by simp) (by simp [appliedIn])
  | next _ step ih =>
      refine ⟨step.lowWaterMark.trans ih.lowWaterMark, step.highWaterMark.trans ih.highWaterMark,
        step.stableCheckpoint.trans ih.stableCheckpoint,
        step.stableCheckpointProof.trans ih.stableCheckpointProof,
        step.localUnstableCheckpoints.trans ih.localUnstableCheckpoints,
        step.unstableCheckpointProofs.trans ih.unstableCheckpointProofs, ?_, ?_⟩
      · intro e he
        rcases List.mem_append.mp he with he | he
        · exact ih.silent e he
        · exact step.silent e he
      · intro op hop
        rw [appliedIn_append] at hop
        rcases List.mem_append.mp hop with hop | hop
        · exact ih.applied op hop
        · exact step.applied op hop

-- A change of the operations, of the configurations or of the next number.
theorem Steady.state (hlow : r'.lowWaterMark = r.lowWaterMark) (hhigh : r'.highWaterMark = r.highWaterMark)
    (hstable : r'.stableCheckpoint = r.stableCheckpoint)
    (hproof : r'.stableCheckpointProof = r.stableCheckpointProof)
    (hlocals : r'.localUnstableCheckpoints = r.localUnstableCheckpoints)
    (hproofs : r'.unstableCheckpointProofs = r.unstableCheckpointProofs) : Steady sequence r [] r' :=
  ⟨hlow, hhigh, hstable, hproof, hlocals, hproofs, by simp, by simp [appliedIn]⟩

theorem Steady.store (lib : Library) (op : Operation) (r : Replica) : Steady sequence r [] (store lib op r) :=
  .state rfl rfl rfl rfl rfl rfl

theorem Steady.configurations (f : ConfigStore → ConfigStore) (r : Replica) :
    Steady sequence r [] (updateConfigurations f r) := .state rfl rfl rfl rfl rfl rfl

theorem Steady.sends {wire : Wire} (h : Sends r wire es)
    (hwire : ∀ peer, (Effect.send peer wire).announced = none) : Steady sequence r es r := by
  refine .effects ?_ ?_
  · intro e he
    obtain ⟨_, _, peer, _, rfl⟩ := h e he
    exact hwire peer
  · rw [appliedIn_sends h]
    simp

theorem broadcastMsg_steady (lib : Library) {msg : PbftMsg} (h : msg.type ≠ .checkpoint) :
    Performs (Steady sequence) (broadcastMsg lib msg) r fun _ r' => r' = r := by
  refine broadcastMsg_performs lib msg ?_
  intro es hes
  refine .sends hes ?_
  intro peer
  simp [Effect.announced, h]

theorem broadcastAudit_steady (lib : Library) (msg : Uuid → AuditMessage) :
    Performs (Steady sequence) (broadcastAudit lib msg) r fun _ r' => r' = r := by
  refine (Performs.reads _).bind ?_
  rintro uuid r ⟨rfl, rfl⟩
  refine ((broadcast_performs lib (.audit (msg r.uuid))).of_still ?_).mono fun _ _ h => h.1
  intro es hes
  exact .sends hes fun _ => rfl

end Steady

section Operations

theorem findOperation_steady {view : Nat} {request : Request} (hkept : Kept lib r) :
    Performs (Steady sequence) (findOperation lib view sequence request) r fun op _ =>
      op.sequence = sequence := by
  refine (Performs.reads _).bind ?_
  rintro found r ⟨rfl, hfound⟩
  cases found with
  | some op => exact Performs.pure (congrArg OperationKey.sequence (hkept _ op hfound.symm).1)
  | none =>
      refine currentPeers_performs.bind ?_
      rintro peers r ⟨rfl, _⟩
      refine (Performs.updates (.store lib _ _)).bind ?_
      rintro _ _ rfl
      exact Performs.pure rfl

theorem withNewConfiguration_steady (lib : Library) (op : Operation) (f : Hash → ConfigStore → ConfigStore) :
    Performs (Steady sequence) (withNewConfiguration lib op f) r fun _ _ => True := by
  unfold withNewConfiguration
  split
  · refine (readConfiguration_performs lib op.request).bind ?_
    rintro config r rfl
    cases config with
    | none => exact Performs.pure trivial
    | some config => exact (Performs.updates (.configurations _ r)).mono fun _ _ _ => trivial
  · exact Performs.pure trivial

theorem doPrepared_steady (hop : op.sequence = sequence) :
    Performs (Steady sequence) (doPrepared lib op) r fun moved _ => moved.sequence = sequence := by
  refine (withNewConfiguration_steady lib op _).bind ?_
  intro _ r' _
  cases hphase : op.beginCommitPhase with
  | error e => exact Performs.throws e
  | ok moved =>
      obtain ⟨rfl, _, _⟩ := beginCommitPhase_ok hphase
      refine (Performs.updates (.store lib _ _)).bind ?_
      rintro _ _ rfl
      refine (broadcastMsg_steady lib (by simp [commonMessageSetup])).bind ?_
      rintro _ _ rfl
      exact Performs.pure hop

theorem auditCommit_steady (lib : Library) (op : Operation) :
    Performs (Steady sequence) (auditCommit lib op) r fun _ r' => r' = r := by
  refine (Performs.reads _).bind ?_
  rintro enabled r ⟨rfl, _⟩
  cases enabled with
  | false => exact Performs.pure rfl
  | true => exact broadcastAudit_steady lib _

theorem finishOperation_steady (hop : op.sequence = sequence) :
    Performs (Steady sequence) (finishOperation lib op) r fun _ _ => True := by
  refine (Performs.updates (.store lib _ _)).bind ?_
  rintro _ _ rfl
  refine (auditCommit_steady lib op).bind ?_
  rintro _ _ rfl
  -- the record that was just stored is the one that is handed over
  have hself : (Replica.store lib op r).operations (op.key lib) = some op := store_self
  have hrun := findOperation_stored hself
  have hfound : Performs (Steady sequence) (findOperation lib op.view op.sequence op.request)
      (Replica.store lib op r) fun found _ => found = op := by
    refine ⟨?_, ?_⟩
    · rw [hrun]
      exact .rest
    · intro found hresult
      rw [hrun] at hresult
      exact (Except.ok.inj hresult).symm
  refine hfound.bind ?_
  rintro _ r' rfl
  refine (Performs.emits (.effects ?_ ?_)).mono fun _ _ _ => trivial
  · simp [Effect.announced]
  · simpa [appliedIn, Effect.applied] using hop

theorem doCommitted_steady (hop : op.sequence = sequence) :
    Performs (Steady sequence) (doCommitted lib op) r fun _ _ => True := by
  refine (withNewConfiguration_steady lib op _).bind ?_
  intro _ r' _
  cases hphase : op.endCommitPhase with
  | error e => exact Performs.throws e
  | ok moved =>
      obtain ⟨rfl, _, _⟩ := endCommitPhase_ok hphase
      exact finishOperation_steady hop

theorem maybeAdvanceOperationState_steady (hop : op.sequence = sequence) :
    Performs (Steady sequence) (maybeAdvanceOperationState lib op) r fun _ _ => True := by
  have hfirst : Performs (Steady sequence)
      (if op.state = .prepare ∧ op.isPrepared = true then doPrepared lib op else pure op) r
      fun moved _ => moved.sequence = sequence := by
    split
    · exact doPrepared_steady hop
    · exact Performs.pure hop
  refine hfirst.bind ?_
  intro moved r' hmoved
  split
  · exact doCommitted_steady hmoved
  · exact Performs.pure trivial

end Operations

section Messages

variable {msg : PbftMsg} {original : Envelope}

theorem handleConfigMessage_steady (lib : Library) (msg : PbftMsg) (op : Operation) :
    Performs (Steady sequence) (handleConfigMessage lib msg op) r fun _ _ => True := by
  unfold handleConfigMessage
  split
  · refine (readConfiguration_performs lib op.request).bind ?_
    rintro config r rfl
    cases config with
    | none => exact Performs.pure trivial
    | some config => exact (Performs.updates (.configurations _ r)).mono fun _ _ _ => trivial
  · exact Performs.pure trivial

theorem handlePreprepare_steady (hkept : Kept lib r) :
    Performs (Steady msg.sequence) (handlePreprepare lib msg) r fun _ _ => True := by
  refine (Performs.reads _).bind ?_
  rintro conflict r ⟨rfl, _⟩
  cases conflict with
  | true => exact Performs.pure trivial
  | false =>
      refine (findOperation_steady hkept).bind ?_
      intro op r' hop
      refine (Performs.updates (.state rfl rfl rfl rfl rfl rfl)).bind ?_
      rintro _ _ rfl
      have hconfig : Performs (Steady msg.sequence)
          (if msg.request.isSome ∧ msg.requestOf.type = .newConfig
            then handleConfigMessage lib msg op.recordPreprepare else pure ())
          (acceptPreprepare lib op.recordPreprepare r') fun _ _ => True := by
        split
        · exact handleConfigMessage_steady lib msg _
        · exact Performs.pure trivial
      refine hconfig.bind ?_
      intro _ r'' _
      refine (broadcastMsg_steady lib (by simp [commonMessageSetup])).bind ?_
      rintro _ r'' rfl
      exact maybeAdvanceOperationState_steady hop

theorem handlePrepare_steady (original : Envelope) (hkept : Kept lib r) :
    Performs (Steady msg.sequence) (handlePrepare lib msg original) r fun _ _ => True := by
  refine (findOperation_steady hkept).bind ?_
  intro op r' hop
  refine (Performs.updates (.store lib _ _)).bind ?_
  rintro _ _ rfl
  exact maybeAdvanceOperationState_steady hop

theorem handleCommit_steady (original : Envelope) (hkept : Kept lib r) :
    Performs (Steady msg.sequence) (handleCommit lib msg original) r fun _ _ => True := by
  refine (findOperation_steady hkept).bind ?_
  intro op r' hop
  refine (Performs.updates (.store lib _ _)).bind ?_
  rintro _ _ rfl
  exact maybeAdvanceOperationState_steady hop

theorem handleMessage_steady (original : Envelope) (htype : msg.type ≠ .checkpoint) (hkept : Kept lib r) :
    Performs (Steady msg.sequence) (handleMessage lib msg original) r fun _ _ => True := by
  refine (Performs.reads _).bind ?_
  rintro filtered r ⟨rfl, _⟩
  cases filtered with
  | false => exact Performs.pure trivial
  | true =>
      cases hmsg : msg.type with
      | preprepare => exact handlePreprepare_steady hkept
      | prepare => exact handlePrepare_steady original hkept
      | commit => exact handleCommit_steady original hkept
      | checkpoint => exact absurd hmsg htype
      | undefined => exact Performs.throws _

-- What a message has handed over lies between the water marks.
theorem handleMessage_window (original : Envelope) (htype : msg.type ≠ .checkpoint) (hkept : Kept lib r)
    (hop : op ∈ appliedIn (handleMessage lib msg original r).effects) :
    r.lowWaterMark < op.sequence ∧ op.sequence ≤ r.highWaterMark := by
  have hsequence := (Steady.of_trail (handleMessage_steady original htype hkept).trail).applied op hop
  cases hfilter : preliminaryFilterMsg msg r with
  | false =>
      have hnone : (handleMessage lib msg original r).effects = [] := by
        simp [handleMessage, Bind.bind, Handler.bind, Handler.reads, hfilter, Pure.pure]
      rw [hnone] at hop
      cases hop
  | true =>
      by_cases hmsg : msg.type = .preprepare ∨ msg.type = .prepare ∨ msg.type = .commit
      · rw [hsequence]
        exact ⟨(preliminaryFilterMsg_admitted hfilter hmsg).above, preliminaryFilterMsg_below hfilter hmsg⟩
      · -- anything else is an unsupported message
        have hundefined : msg.type = .undefined := by
          cases htypes : msg.type with
          | undefined => rfl
          | preprepare | prepare | commit => simp [htypes] at hmsg
          | checkpoint => exact absurd htypes htype
        have hnone : (handleMessage lib msg original r).effects = [] := by
          simp [handleMessage, Bind.bind, Handler.bind, Handler.reads, hfilter, hundefined, Handler.throws]
        rw [hnone] at hop
        cases hop

end Messages

section Requests

-- Calls that hand over nothing at all are steady for every number, so for two different ones.
theorem none_applied (h : ∀ sequence, Steady sequence r es r') : appliedIn es = [] := by
  by_contra hne
  obtain ⟨op, hop⟩ := List.exists_mem_of_ne_nil _ hne
  have hzero := (h 0).applied op hop
  have hone := (h 1).applied op hop
  omega

theorem setupRequestOperation_steady (request : Request) (hkept : Kept lib r) :
    Performs (Steady sequence) (setupRequestOperation lib request) r fun _ _ => True := by
  refine (Performs.reads _).bind ?_
  rintro next r ⟨rfl, _⟩
  refine (Performs.updates (.state rfl rfl rfl rfl rfl rfl)).bind ?_
  rintro _ _ rfl
  refine (Performs.reads _).bind ?_
  rintro view _ ⟨rfl, _⟩
  -- the record is of another number, but it is not handed over
  refine (Performs.reads _).bind ?_
  rintro found _ ⟨rfl, _⟩
  cases found with
  | some op => exact Performs.pure trivial
  | none =>
      refine currentPeers_performs.bind ?_
      rintro peers _ ⟨rfl, _⟩
      refine (Performs.updates (.store lib _ _)).bind ?_
      rintro _ _ rfl
      exact Performs.pure trivial

theorem doPreprepare_steady (lib : Library) (op : Operation) :
    Performs (Steady sequence) (doPreprepare lib op) r fun _ _ => True :=
  (broadcastMsg_steady lib (by simp [commonMessageSetup])).mono fun _ _ _ => trivial

theorem handleRequest_steady (request : Request) (original : String) (hkept : Kept lib r) :
    Performs (Steady sequence) (handleRequest lib request original) r fun _ _ => True := by
  refine isPrimary_performs.bind ?_
  rintro primary r rfl
  cases primary with
  | true =>
      refine (setupRequestOperation_steady request hkept).bind ?_
      intro op r' _
      exact doPreprepare_steady lib op
  | false =>
      refine getPrimary_performs.bind ?_
      rintro primary r rfl
      split
      · refine (Performs.emits (.effects ?_ ?_)).mono fun _ _ _ => trivial
        · simp [Effect.announced]
        · simp [appliedIn, Effect.applied]
      · exact Performs.throws _

theorem handleJoinOrLeave_steady (type : MembershipType) (info : PeerInfo) (hkept : Kept lib r) :
    Performs (Steady sequence) (handleJoinOrLeave lib type info) r fun _ _ => True := by
  refine isPrimary_performs.bind ?_
  rintro primary r rfl
  cases primary with
  | false => exact Performs.pure trivial
  | true =>
      refine (Performs.reads _).bind ?_
      rintro current r ⟨rfl, hcurrent⟩
      cases current with
      | none => exact Performs.throws _
      | some config =>
          have hpeers : r.configured = some config.sortedPeers := by simp [configured, ← hcurrent]
          simp only
          split
          · refine (Performs.updates (.configurations _ _)).bind ?_
            rintro _ _ rfl
            refine Performs.bind (setupRequestOperation_steady _ ?_) ?_
            · intro key op hop
              rw [(add_beside hpeers _).configured]
              exact hkept key op hop
            · intro op r' _
              exact doPreprepare_steady lib op
          · exact Performs.pure trivial

theorem handleMembershipMessage_steady (msg : MembershipMsg) (hkept : Kept lib r) :
    Performs (Steady sequence) (handleMembershipMessage lib msg) r fun _ _ => True := by
  unfold handleMembershipMessage
  cases msg.peerInfo with
  | none => exact Performs.pure trivial
  | some info =>
      cases msg.type with
      | join => exact handleJoinOrLeave_steady .join info hkept
      | leave => exact handleJoinOrLeave_steady .leave info hkept
      | undefined => exact Performs.pure trivial

theorem handleAuditHeartbeatTimeout_steady (lib : Library) (canceled : Bool) :
    Performs (Steady sequence) (handleAuditHeartbeatTimeout lib canceled) r fun _ _ => True := by
  cases canceled with
  | true => exact Performs.pure trivial
  | false =>
      refine isPrimary_performs.bind ?_
      rintro primary r rfl
      refine (Performs.reads _).bind ?_
      rintro enabled r ⟨rfl, _⟩
      split
      · refine (Performs.reads _).bind ?_
        rintro view r ⟨rfl, _⟩
        exact (broadcastAudit_steady lib _).mono fun _ _ _ => trivial
      · exact Performs.pure trivial

theorem handleFailure_steady (lib : Library) :
    Performs (Steady sequence) (handleFailure lib) r fun _ _ => True := by
  refine (Performs.reads _).bind ?_
  rintro enabled r ⟨rfl, _⟩
  cases enabled with
  | true => exact (broadcastAudit_steady lib _).mono fun _ _ _ => trivial
  | false => exact Performs.pure trivial

-- The inputs that work on checkpoints.
def aboutCheckpoints : Input → Bool
  | .message msg _ => msg.type = .checkpoint
  | .checkpointReachedLocally .. => true
  | .request .. | .membership _ | .auditHeartbeatTimeout _ | .failure => false

-- Every other one leaves the checkpoints alone, and what it hands over lies between the water marks.
theorem handler_steady (lib : Library) {input : Input} (h : aboutCheckpoints input = false) (hkept : Kept lib r) :
    (∃ sequence, Steady sequence r (input.handler lib r).effects (input.handler lib r).state) ∧
      ∀ op ∈ appliedIn (input.handler lib r).effects,
        r.lowWaterMark < op.sequence ∧ op.sequence ≤ r.highWaterMark := by
  have hnone : (∀ sequence, Steady sequence r (input.handler lib r).effects (input.handler lib r).state) →
      (∃ sequence, Steady sequence r (input.handler lib r).effects (input.handler lib r).state) ∧
        ∀ op ∈ appliedIn (input.handler lib r).effects,
          r.lowWaterMark < op.sequence ∧ op.sequence ≤ r.highWaterMark := by
    intro hsteady
    refine ⟨⟨0, hsteady 0⟩, ?_⟩
    rw [none_applied hsteady]
    simp
  cases input with
  | message msg original =>
      have htype : msg.type ≠ .checkpoint := of_decide_eq_false h
      exact ⟨⟨msg.sequence, .of_trail (handleMessage_steady original htype hkept).trail⟩,
        fun op hop => handleMessage_window original htype hkept hop⟩
  | request req original => exact hnone fun _ => .of_trail (handleRequest_steady req original hkept).trail
  | membership msg => exact hnone fun _ => .of_trail (handleMembershipMessage_steady msg hkept).trail
  | checkpointReachedLocally => cases h
  | auditHeartbeatTimeout canceled =>
      exact hnone fun _ => .of_trail (handleAuditHeartbeatTimeout_steady lib canceled).trail
  | failure => exact hnone fun _ => .of_trail (handleFailure_steady lib).trail

end Requests

end Replica

end SwarmDB.Pbft
