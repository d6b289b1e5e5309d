import SwarmDB.Pbft.Replica.Journal

namespace SwarmDB.Pbft

-- The sequence number of a preprepare that is sent.
def Effect.preprepared : Effect → Option Nat
  | .send _ (.pbft envelope) =>
    if envelope.pbft.type = .preprepare then some envelope.pbft.sequence else none
  | .send _ (.audit _) | .forward _ _ | .applyOperation _ => none

namespace Replica

-- What only checkpoints and new requests change.
structure Level (r r' : Replica) : Prop where
  uuid : r'.uuid = r.uuid
  view : r'.view = r.view
  configured : r'.configured = r.configured
  nextIssuedSequenceNumber : r'.nextIssuedSequenceNumber = r.nextIssuedSequenceNumber
  lowWaterMark : r'.lowWaterMark = r.lowWaterMark
  highWaterMark : r'.highWaterMark = r.highWaterMark
  stableCheckpoint : r'.stableCheckpoint = r.stableCheckpoint
  stableCheckpointProof : r'.stableCheckpointProof = r.stableCheckpointProof
  localUnstableCheckpoints : r'.localUnstableCheckpoints = r.localUnstableCheckpoints
  unstableCheckpointProofs : r'.unstableCheckpointProofs = r.unstableCheckpointProofs

theorem Level.refl (r : Replica) : Level r r := ⟨rfl, rfl, rfl, rfl, rfl, rfl, rfl, rfl, rfl, rfl⟩

theorem Level.trans {r r' r'' : Replica} (h : Level r r') (h' : Level r' r'') : Level r r'' where
  uuid := h'.uuid.trans h.uuid
  view := h'.view.trans h.view
  configured := h'.configured.trans h.configured
  nextIssuedSequenceNumber := h'.nextIssuedSequenceNumber.trans h.nextIssuedSequenceNumber
  lowWaterMark := h'.lowWaterMark.trans h.lowWaterMark
  highWaterMark := h'.highWaterMark.trans h.highWaterMark
  stableCheckpoint := h'.stableCheckpoint.trans h.stableCheckpoint
  stableCheckpointProof := h'.stableCheckpointProof.trans h.stableCheckpointProof
  localUnstableCheckpoints := h'.localUnstableCheckpoints.trans h.localUnstableCheckpoints
  unstableCheckpointProofs := h'.unstableCheckpointProofs.trans h.unstableCheckpointProofs

-- Work on the operations of one sequence number, without a preprepare.
structure Frame (sequence : Nat) (r : Replica) (es : List Effect) (r' : Replica) : Prop
    extends Level r r' where
  records : ∀ key op, r'.operations key = some op → op.sequence = sequence ∨ r.operations key = some op
  silent : ∀ e ∈ es, e.preprepared = none

variable {lib : Library} {r r' : Replica} {op : Operation} {es : List Effect} {sequence : Nat}

section Frames

theorem Frame.quiet (h : ∀ e ∈ es, e.preprepared = none) : Frame sequence r es r :=
  ⟨.refl r, fun _ _ hop => Or.inr hop, h⟩

-- Work on one sequence number is a single step, however much of it there is.
theorem Frame.of_trail (h : Trail (Frame sequence) r es r') : Frame sequence r es r' := by
  induction h with
  | rest => exact .quiet (by simp)
  | next _ step ih =>
      refine ⟨ih.toLevel.trans step.toLevel, ?_, ?_⟩
      · intro key op hop
        rcases step.records key op hop with hsequence | hop
        · exact Or.inl hsequence
        · exact ih.records key op hop
      · intro e he
        rcases List.mem_append.mp he with he | he
        · exact ih.silent e he
        · exact step.silent e he

theorem Frame.store (lib : Library) (h : op.sequence = sequence) : Frame sequence r [] (store lib op r) := by
  refine ⟨⟨rfl, rfl, rfl, rfl, rfl, rfl, rfl, rfl, rfl, rfl⟩, ?_, by simp⟩
  intro key found hfound
  rcases store_cases hfound with ⟨_, rfl⟩ | hfound
  · exact Or.inl h
  · exact Or.inr hfound

theorem Frame.accept (lib : Library) (h : op.sequence = sequence) :
    Frame sequence r [] (acceptPreprepare lib op r) := by
  refine ⟨⟨rfl, rfl, rfl, rfl, rfl, rfl, rfl, rfl, rfl, rfl⟩, ?_, by simp⟩
  exact (Frame.store lib h).records

theorem Frame.configurations {f : ConfigStore → ConfigStore}
    (hf : (f r.configurations).current = r.configurations.current) :
    Frame sequence r [] (updateConfigurations f r) :=
  ⟨⟨rfl, rfl, congrArg (Option.map Configuration.sortedPeers) hf, rfl, rfl, rfl, rfl, rfl, rfl, rfl⟩,
    fun _ _ hop => Or.inr hop, by simp⟩

theorem silent_of_sends {wire : Wire} (h : Sends r wire es)
    (hwire : ∀ peer, (Effect.send peer wire).preprepared = none) : ∀ e ∈ es, e.preprepared = none := by
  intro e he
  obtain ⟨_, _, peer, _, rfl⟩ := h e he
  exact hwire peer

end Frames

section Operations

theorem broadcastMsg_frames (lib : Library) {msg : PbftMsg} (h : msg.type ≠ .preprepare) :
    Performs (Frame sequence) (broadcastMsg lib msg) r fun _ r' => r' = r := by
  refine broadcastMsg_performs lib msg ?_
  intro es hes
  refine .quiet (silent_of_sends hes ?_)
  intro peer
  simp [Effect.preprepared, h]

theorem broadcastAudit_frames (lib : Library) (msg : Uuid → AuditMessage) :
    Performs (Frame sequence) (broadcastAudit lib msg) r fun _ r' => r' = r := by
  refine (Performs.reads _).bind ?_
  rintro uuid r ⟨rfl, rfl⟩
  refine ((broadcast_performs lib (.audit (msg r.uuid))).of_still ?_).mono fun _ _ h => h.1
  intro es hes
  exact .quiet (silent_of_sends hes fun _ => rfl)

theorem findOperation_frames {view : Nat} {request : Request} (hkept : Kept lib r) :
    Performs (Frame sequence) (findOperation lib view sequence request) r fun op r' =>
      op.sequence = sequence ∧ r'.configured = some op.peers := by
  refine (Performs.reads _).bind ?_
  rintro found r ⟨rfl, hfound⟩
  cases found with
  | some op =>
      obtain ⟨hkey, hpeers⟩ := hkept _ op hfound.symm
      exact Performs.pure ⟨congrArg OperationKey.sequence hkey, hpeers⟩
  | none =>
      refine currentPeers_performs.bind ?_
      rintro peers r ⟨rfl, hpeers⟩
      refine (Performs.updates (.store lib rfl)).bind ?_
      rintro _ _ rfl
      exact Performs.pure ⟨rfl, hpeers⟩

theorem withNewConfiguration_frames (lib : Library) (op : Operation)
    {f : Hash → ConfigStore → ConfigStore} (hf : ∀ hash store, (f hash store).current = store.current) :
    Performs (Frame sequence) (withNewConfiguration lib op f) r fun _ _ => True := by
  unfold withNewConfiguration
  split
  · refine (readConfiguration_performs lib op.request).bind ?_
    rintro config r rfl
    cases config with
    | none => exact Performs.pure trivial
    | some config =>
        exact (Performs.updates (.configurations (hf _ _))).mono fun _ _ _ => trivial
  · exact Performs.pure trivial

theorem doPrepared_frames (hop : op.sequence = sequence) :
    Performs (Frame sequence) (doPrepared lib op) r fun moved _ => moved.sequence = sequence := by
  refine (withNewConfiguration_frames lib op fun hash store => store.current_enable hash true).bind ?_
  intro _ r' _
  cases hphase : op.beginCommitPhase with
  | error e => exact Performs.throws e
  | ok moved =>
      obtain ⟨rfl, _, _⟩ := beginCommitPhase_ok hphase
      refine (Performs.updates (.store lib hop)).bind ?_
      rintro _ _ rfl
      refine (broadcastMsg_frames lib (by simp [commonMessageSetup])).bind ?_
      rintro _ _ rfl
      exact Performs.pure hop

theorem auditCommit_frames (lib : Library) (op : Operation) :
    Performs (Frame sequence) (auditCommit lib op) r fun _ r' => r' = r := by
  refine (Performs.reads _).bind ?_
  rintro enabled r ⟨rfl, _⟩
  cases enabled with
  | false => exact Performs.pure rfl
  | true => exact broadcastAudit_frames lib _

theorem finishOperation_frames (hop : op.sequence = sequence) :
    Performs (Frame sequence) (finishOperation lib op) r fun _ _ => True := by
  refine (Performs.updates (.store lib hop)).bind ?_
  rintro _ _ rfl
  refine (auditCommit_frames lib op).bind ?_
  rintro _ _ rfl
  -- the record that was just stored is found again
  have hfound : Performs (Frame sequence) (findOperation lib op.view op.sequence op.request)
      (Replica.store lib op r) fun found r' => found = op ∧ r' = Replica.store lib op r := by
    have hstored : (Replica.store lib op r).operations (op.key lib) = some op := store_self
    have hrun := findOperation_stored hstored
    refine ⟨?_, ?_⟩
    · rw [hrun]
      exact .rest
    · intro found hresult
      rw [hrun] at hresult ⊢
      cases hresult
      exact ⟨rfl, rfl⟩
  refine hfound.bind ?_
  rintro _ _ ⟨rfl, rfl⟩
  refine (Performs.emits (.quiet ?_)).mono fun _ _ _ => trivial
  simp [Effect.preprepared]

theorem doCommitted_frames (hop : op.sequence = sequence) :
    Performs (Frame sequence) (doCommitted lib op) r fun _ _ => True := by
  refine (withNewConfiguration_frames lib op fun hash store => store.current_removePriorTo hash).bind ?_
  intro _ r' _
  cases hphase : op.endCommitPhase with
  | error e => exact Performs.throws e
  | ok moved =>
      obtain ⟨rfl, _, _⟩ := endCommitPhase_ok hphase
      exact finishOperation_frames hop

theorem maybeAdvanceOperationState_frames (hop : op.sequence = sequence) :
    Performs (Frame sequence) (maybeAdvanceOperationState lib op) r fun _ _ => True := by
  have hfirst : Performs (Frame sequence)
      (if op.state = .prepare ∧ op.isPrepared = true then doPrepared lib op else pure op) r
      fun moved _ => moved.sequence = sequence := by
    split
    · exact doPrepared_frames hop
    · exact Performs.pure hop
  refine hfirst.bind ?_
  intro moved r' hmoved
  split
  · exact doCommitted_frames hmoved
  · exact Performs.pure trivial

end Operations

section Messages

variable {msg : PbftMsg} {original : Envelope}

theorem handleConfigMessage_frames {peers : List PeerAddress} (hpeers : r.configured = some peers) :
    Performs (Frame sequence) (handleConfigMessage lib msg op) r fun _ _ => True := by
  unfold handleConfigMessage
  split
  · refine (readConfiguration_performs lib op.request).bind ?_
    rintro config r rfl
    cases config with
    | none => exact Performs.pure trivial
    | some config =>
        obtain ⟨current, hcurrent, _⟩ := Option.map_eq_some_iff.mp hpeers
        have hsame := (r.configurations.current_add hcurrent config).trans hcurrent.symm
        exact (Performs.updates (.configurations hsame)).mono fun _ _ _ => trivial
  · exact Performs.pure trivial

theorem handlePreprepare_frames (hkept : Kept lib r) :
    Performs (Frame msg.sequence) (handlePreprepare lib msg) r fun _ _ => True := by
  refine (Performs.reads _).bind ?_
  rintro conflict r ⟨rfl, _⟩
  cases conflict with
  | true => exact Performs.pure trivial
  | false =>
      refine (findOperation_frames hkept).bind ?_
      rintro op r' ⟨hop, hpeers⟩
      have hpeers' : (acceptPreprepare lib op.recordPreprepare r').configured = some op.peers := hpeers
      refine (Performs.updates (.accept lib hop)).bind ?_
      rintro _ _ rfl
      have hconfig : Performs (Frame msg.sequence)
          (if msg.request.isSome ∧ msg.requestOf.type = .newConfig
            then handleConfigMessage lib msg op.recordPreprepare else pure ())
          (acceptPreprepare lib op.recordPreprepare r') fun _ _ => True := by
        split
        · exact handleConfigMessage_frames hpeers'
        · exact Performs.pure trivial
      refine hconfig.bind ?_
      intro _ r'' _
      refine (broadcastMsg_frames lib (by simp [commonMessageSetup])).bind ?_
      rintro _ r'' rfl
      exact maybeAdvanceOperationState_frames hop

theorem handlePrepare_frames (original : Envelope) (hkept : Kept lib r) :
    Performs (Frame msg.sequence) (handlePrepare lib msg original) r fun _ _ => True := by
  refine (findOperation_frames hkept).bind ?_
  rintro op r' ⟨hop, _⟩
  refine (Performs.updates (.store lib hop)).bind ?_
  rintro _ _ rfl
  exact maybeAdvanceOperationState_frames hop

theorem handleCommit_frames (original : Envelope) (hkept : Kept lib r) :
    Performs (Frame msg.sequence) (handleCommit lib msg original) r fun _ _ => True := by
  refine (findOperation_frames hkept).bind ?_
  rintro op r' ⟨hop, _⟩
  refine (Performs.updates (.store lib hop)).bind ?_
  rintro _ _ rfl
  exact maybeAdvanceOperationState_frames hop

theorem handleMessage_frames (original : Envelope) (htype : msg.type ≠ .checkpoint) (hkept : Kept lib r) :
    Performs (Frame msg.sequence) (handleMessage lib msg original) r fun _ _ => True := by
  refine (Performs.reads _).bind ?_
  rintro filtered r ⟨rfl, _⟩
  cases filtered with
  | false => exact Performs.pure trivial
  | true =>
      cases hmsg : msg.type with
      | preprepare => exact handlePreprepare_frames hkept
      | prepare => exact handlePrepare_frames original hkept
      | commit => exact handleCommit_frames original hkept
      | checkpoint => exact absurd hmsg htype
      | undefined => exact Performs.throws _

-- What the filter lets through is at most the high water mark.
theorem preliminaryFilterMsg_below (h : preliminaryFilterMsg msg r = true)
    (htype : msg.type = .preprepare ∨ msg.type = .prepare ∨ msg.type = .commit) :
    msg.sequence ≤ r.highWaterMark := by
  unfold preliminaryFilterMsg at h
  rw [if_pos htype] at h
  split at h
  · cases h
  · split at h
    · cases h
    · split at h
      · cases h
      · rename_i hhigh
        exact not_lt.mp hhigh

-- A message about operations only makes records between the water marks.
theorem handleMessage_records (original : Envelope) (htype : msg.type ≠ .checkpoint) (hkept : Kept lib r)
    {key : OperationKey} (hop : (handleMessage lib msg original r).state.operations key = some op) :
    r.operations key = some op ∨ (r.lowWaterMark < op.sequence ∧ op.sequence ≤ r.highWaterMark) := by
  cases hfilter : preliminaryFilterMsg msg r with
  | false =>
      left
      simpa [handleMessage, Bind.bind, Handler.bind, Handler.reads, hfilter, Pure.pure] using hop
  | true =>
      by_cases hmsg : msg.type = .preprepare ∨ msg.type = .prepare ∨ msg.type = .commit
      · rcases (Frame.of_trail (handleMessage_frames original htype hkept).trail).records key op hop with
          hsequence | hold
        · right
          rw [hsequence]
          exact ⟨(preliminaryFilterMsg_admitted hfilter hmsg).above, preliminaryFilterMsg_below hfilter hmsg⟩
        · exact Or.inl hold
      · -- anything else is an unsupported message
        left
        cases hundefined : msg.type with
        | undefined =>
            simpa [handleMessage, Bind.bind, Handler.bind, Handler.reads, hfilter, hundefined,
              Handler.throws] using hop
        | preprepare | prepare | commit => simp [hundefined] at hmsg
        | checkpoint => exact absurd hundefined htype

end Messages

end Replica

end SwarmDB.Pbft
