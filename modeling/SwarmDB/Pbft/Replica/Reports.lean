import SwarmDB.Pbft.Replica.Primary

namespace SwarmDB.Pbft

def Effect.audited : Effect → Option AuditMessage
  | .send _ (.audit msg) => some msg
  | .send _ (.pbft _) | .forward _ _ | .applyOperation _ => none

namespace Replica

variable {lib : Library} {r : Replica} {op : Operation}

-- What a replica reports is true of it: it is the primary of its view, or it has a record of the operation,
-- which was prepared and is committed.
def Attests (lib : Library) (r : Replica) : AuditMessage → Prop
  | .primaryStatus view primary => view = r.view ∧ primary = r.uuid ∧ leads r = true
  | .pbftCommit hash sequence sender => sender = r.uuid ∧ ∃ op, r.operations (op.key lib) = some op ∧
    op.state = .committed ∧ op.isPrepared = true ∧ hash = lib.requestHash op.request ∧ sequence = op.sequence
  | .failureDetected sender => sender = r.uuid

section Mute

theorem currentPeers_mute : currentPeers.Mute Effect.audited := by
  refine .bind (.reads _) fun config => ?_
  cases config with
  | none => exact .throws _
  | some config => exact .pure _

theorem sendTo_mute {wire : Wire} (h : ∀ peer, (Effect.send peer wire).audited = none) (peers : List PeerAddress) :
    (sendTo lib wire peers).Mute Effect.audited := by
  induction peers with
  | nil => exact .pure _
  | cons peer rest ih =>
      unfold sendTo
      split
      · exact .bind (.emits (h peer)) fun _ => ih
      · exact .throws _

theorem broadcastMsg_mute (msg : PbftMsg) : (broadcastMsg lib msg).Mute Effect.audited :=
  .bind (.reads _) fun _ => .bind currentPeers_mute fun peers => sendTo_mute (fun _ => rfl) peers

theorem findOperation_mute (view sequence : Nat) (request : Request) :
    (findOperation lib view sequence request).Mute Effect.audited := by
  refine .bind (.reads _) fun found => ?_
  cases found with
  | some op => exact .pure _
  | none => exact .bind currentPeers_mute fun _ => .bind (.updates _) fun _ => .pure _

theorem readConfiguration_mute (request : Request) : (readConfiguration lib request).Mute Effect.audited := by
  unfold readConfiguration
  dsimp only
  split
  · exact .throws _
  · exact .pure _

theorem withNewConfiguration_mute (op : Operation) (f : Hash → ConfigStore → ConfigStore) :
    (withNewConfiguration lib op f).Mute Effect.audited := by
  unfold withNewConfiguration
  split
  · refine .bind (readConfiguration_mute op.request) fun config => ?_
    cases config with
    | none => exact .pure _
    | some config => exact .updates _
  · exact .pure _

theorem doPrepared_mute (op : Operation) : (doPrepared lib op).Mute Effect.audited := by
  refine .bind (withNewConfiguration_mute op _) fun _ => ?_
  cases op.beginCommitPhase with
  | error e => exact .throws _
  | ok op => exact .bind (.updates _) fun _ => .bind (broadcastMsg_mute _) fun _ => .pure _

theorem handleConfigMessage_mute (msg : PbftMsg) (op : Operation) :
    (handleConfigMessage lib msg op).Mute Effect.audited := by
  unfold handleConfigMessage
  split
  · refine .bind (readConfiguration_mute op.request) fun config => ?_
    cases config with
    | none => exact .pure _
    | some config => exact .updates _
  · exact .pure _

theorem isPrimary_mute : isPrimary.Mute Effect.audited := by
  refine .bind (.bind currentPeers_mute fun peers => .bind (.reads _) fun view => ?_)
    fun _ => .bind (.reads _) fun _ => .pure _
  cases peers[view % peers.length]? with
  | none => exact .throws _
  | some primary => exact .pure _

theorem setupRequestOperation_mute (request : Request) :
    (setupRequestOperation lib request).Mute Effect.audited :=
  .bind (.reads _) fun _ => .bind (.updates _) fun _ => .bind (.reads _) fun _ => findOperation_mute _ _ _

theorem handleRequest_mute (request : Request) (original : String) :
    (handleRequest lib request original).Mute Effect.audited := by
  refine .bind isPrimary_mute fun primary => ?_
  split
  · exact .bind (setupRequestOperation_mute request) fun _ => broadcastMsg_mute _
  · refine .bind ?_ fun primary => ?_
    · refine .bind currentPeers_mute fun peers => .bind (.reads _) fun view => ?_
      cases peers[view % peers.length]? with
      | none => exact .throws _
      | some primary => exact .pure _
    · split
      · exact .emits rfl
      · exact .throws _

theorem handleJoinOrLeave_mute (type : MembershipType) (info : PeerInfo) :
    (handleJoinOrLeave lib type info).Mute Effect.audited := by
  refine .bind isPrimary_mute fun primary => ?_
  split
  · refine .bind (.reads _) fun config => ?_
    cases config with
    | none => exact .throws _
    | some config =>
        dsimp only
        split
        · refine .bind (.updates _) fun _ => ?_
          exact .bind (setupRequestOperation_mute _) fun _ => broadcastMsg_mute _
        · exact .pure _
  · exact .pure _

theorem handleMembershipMessage_mute (msg : MembershipMsg) :
    (handleMembershipMessage lib msg).Mute Effect.audited := by
  unfold handleMembershipMessage
  split
  · exact .pure _
  · split
    · exact handleJoinOrLeave_mute _ _
    · exact handleJoinOrLeave_mute _ _
    · exact .pure _

theorem maybeStabilizeCheckpoint_mute (cp : Checkpoint) (freed : Option Reads) :
    (maybeStabilizeCheckpoint cp freed).Mute Effect.audited := by
  refine .bind (.reads _) fun reached => ?_
  split
  · refine .bind (.updates _) fun _ => .bind ?_ fun quorum => .bind (.reads _) fun size => ?_
    · exact .bind (.bind currentPeers_mute fun _ => .pure _) fun _ => .pure _
    · split
      · exact .pure _
      · exact .updates _
  · exact .pure _

theorem checkpointReachedLocally_mute (sequence : Nat) (stateHash : Hash) (freed : Reads) :
    (checkpointReachedLocally lib sequence stateHash freed).Mute Effect.audited :=
  .bind (.updates _) fun _ => .bind (.reads _) fun _ => .bind (broadcastMsg_mute _) fun _ =>
    maybeStabilizeCheckpoint_mute _ _

theorem handleCheckpoint_mute (msg : PbftMsg) (original : Envelope) :
    (handleCheckpoint msg original).Mute Effect.audited := by
  refine .bind (.reads _) fun stable => ?_
  split
  · exact .pure _
  · exact .bind (.updates _) fun _ => maybeStabilizeCheckpoint_mute _ _

end Mute

section Speaking

-- All that is reported on the way is so in the end.
def Speaks {α : Type} (lib : Library) (m : Call α) : Prop :=
  ∀ r, ∀ e ∈ (m r).effects, ∀ msg, e.audited = some msg → Attests lib (m r).state msg

theorem speaks_of_mute {α : Type} {m : Call α} (h : m.Mute Effect.audited) : Speaks lib m := by
  intro r e he msg hmsg
  rw [h r e he] at hmsg
  cases hmsg

theorem Speaks.after {α β : Type} {m : Call α} {k : α → Call β} (hm : m.Mute Effect.audited)
    (hk : ∀ a, Speaks lib (k a)) : Speaks lib (m >>= k) := by
  intro r e he msg hmsg
  rcases Handler.bind_cases m k r with ⟨_, _, heq⟩ | ⟨a, _, heq⟩
  · rw [heq] at he
    rw [hm r e he] at hmsg
    cases hmsg
  · rw [heq] at he ⊢
    rcases List.mem_append.mp he with hfirst | hsecond
    · rw [hm r e hfirst] at hmsg
      cases hmsg
    · exact hk a _ e hsecond msg hmsg

-- The audit messages of a broadcast, which changes nothing.
theorem sendTo_audits (msg : AuditMessage) (peers : List PeerAddress) (r : Replica) :
    (sendTo lib (.audit msg) peers r).state = r ∧
      ∀ e ∈ (sendTo lib (.audit msg) peers r).effects, e.audited = some msg := by
  induction peers with
  | nil => exact ⟨rfl, fun e he => by cases he⟩
  | cons peer rest ih =>
      unfold sendTo
      split
      · rw [Handler.emits_bind]
        refine ⟨ih.1, fun e he => ?_⟩
        rcases List.mem_cons.mp he with rfl | hrest
        · rfl
        · exact ih.2 e hrest
      · exact ⟨rfl, fun e he => by cases he⟩

theorem broadcastAudit_audits (lib : Library) (msg : Uuid → AuditMessage) (r : Replica) :
    (broadcastAudit lib msg r).state = r ∧
      ∀ e ∈ (broadcastAudit lib msg r).effects, e.audited = some (msg r.uuid) := by
  unfold broadcastAudit broadcast currentPeers
  rw [Handler.reads_bind]
  cases hcurrent : r.configurations.current with
  | none =>
      rw [Handler.bind_error (s := r) (t := r) (by rw [Handler.reads_bind, hcurrent]; rfl)]
      exact ⟨rfl, fun e he => by cases he⟩
  | some config =>
      rw [Handler.bind_ok (s := r) (t := r) (a := config.sortedPeers) (by rw [Handler.reads_bind, hcurrent]; rfl)]
      exact sendTo_audits _ _ _

theorem finishOperation_speaks (hstate : op.state = .committed) (hprepared : op.isPrepared = true) :
    Speaks lib (finishOperation lib op) := by
  intro r e he msg hmsg
  have hattests : Attests lib (store lib op r) (.pbftCommit (lib.requestHash op.request) op.sequence r.uuid) :=
    ⟨rfl, op, Function.update_self .., hstate, hprepared, rfl, rfl⟩
  -- the record is found again, and with it nothing changes any more
  have hfound : ∀ e ∈ ((findOperation lib op.view op.sequence op.request >>= fun op =>
      Handler.emits (.applyOperation op)) (store lib op r)).effects, e.audited = none := by
    exact (Handler.Mute.bind (findOperation_mute _ _ _) fun _ => .emits rfl) _
  have hstays : ((findOperation lib op.view op.sequence op.request >>= fun op =>
      Handler.emits (.applyOperation op) : Call Unit) (store lib op r)).state = store lib op r := by
    have hget : (store lib op r).operations ⟨op.view, op.sequence, lib.requestHash op.request⟩ = some op :=
      Function.update_self ..
    unfold findOperation
    rw [Handler.bind_ok (s := store lib op r) (t := store lib op r) (a := op)
      (by rw [Handler.reads_bind, hget]; rfl)]
    rfl
  unfold finishOperation auditCommit at he ⊢
  rw [Handler.updates_bind] at he ⊢
  rcases Handler.bind_cases (do
      if ← Handler.reads Replica.auditEnabled then
        broadcastAudit lib (.pbftCommit (lib.requestHash op.request) op.sequence)
      else return () : Call Unit) (fun _ => findOperation lib op.view op.sequence op.request >>= fun op =>
        Handler.emits (.applyOperation op)) (store lib op r) with ⟨_, _, heq⟩ | ⟨_, _, heq⟩
  · rw [heq] at he ⊢
    rw [Handler.reads_bind] at he ⊢
    split at he
    · rename_i haudit
      rw [if_pos haudit]
      obtain ⟨hsame, haudits⟩ := broadcastAudit_audits lib
        (.pbftCommit (lib.requestHash op.request) op.sequence) (store lib op r)
      rw [haudits e he] at hmsg
      obtain rfl := Option.some.inj hmsg
      dsimp only
      rw [hsame]
      exact hattests
    · cases he
  · rw [heq] at he ⊢
    rw [Handler.reads_bind] at he ⊢
    split at he
    · rename_i haudit
      rw [if_pos haudit]
      obtain ⟨hsame, haudits⟩ := broadcastAudit_audits lib
        (.pbftCommit (lib.requestHash op.request) op.sequence) (store lib op r)
      dsimp only at he ⊢
      rw [hsame] at he ⊢
      rw [hstays]
      rcases List.mem_append.mp he with hfirst | hsecond
      · rw [haudits e hfirst] at hmsg
        obtain rfl := Option.some.inj hmsg
        exact hattests
      · rw [hfound e hsecond] at hmsg
        cases hmsg
    · rw [hfound e he] at hmsg
      cases hmsg

theorem doCommitted_speaks (op : Operation) : Speaks lib (doCommitted lib op) := by
  refine .after (withNewConfiguration_mute op _) fun _ => ?_
  cases hend : op.endCommitPhase with
  | error e => exact speaks_of_mute (.throws _)
  | ok done =>
      unfold Operation.endCommitPhase at hend
      split at hend
      · cases hend
      · rename_i hphase
        obtain rfl := Except.ok.inj hend
        have hcommitted : op.isCommitted = true := by
          cases h : op.isCommitted with
          | true => rfl
          | false => simp [h] at hphase
        exact finishOperation_speaks rfl (Bool.and_eq_true_iff.mp hcommitted).1

theorem maybeAdvanceOperationState_speaks (op : Operation) : Speaks lib (maybeAdvanceOperationState lib op) := by
  refine .after ?_ fun op => ?_
  · split
    · exact doPrepared_mute op
    · exact .pure _
  · split
    · exact doCommitted_speaks op
    · exact speaks_of_mute (.pure _)

theorem handleMessage_speaks (msg : PbftMsg) (original : Envelope) : Speaks lib (handleMessage lib msg original) := by
  refine .after (.reads _) fun admitted => ?_
  split
  · cases msg.type with
    | preprepare =>
        refine .after (.reads _) fun conflicting => ?_
        split
        · exact speaks_of_mute (.pure _)
        · refine .after (findOperation_mute _ _ _) fun op => .after (.updates _) fun _ => .after ?_ fun _ =>
            .after (broadcastMsg_mute _) fun _ => maybeAdvanceOperationState_speaks _
          split
          · exact handleConfigMessage_mute _ _
          · exact .pure _
    | prepare | commit =>
        exact .after (findOperation_mute _ _ _) fun op => .after (.updates _) fun _ =>
          maybeAdvanceOperationState_speaks _
    | checkpoint => exact speaks_of_mute (handleCheckpoint_mute msg original)
    | undefined => exact speaks_of_mute (.throws _)
  · exact speaks_of_mute (.pure _)

theorem handleAuditHeartbeatTimeout_speaks (canceled : Bool) :
    Speaks lib (handleAuditHeartbeatTimeout lib canceled) := by
  cases canceled with
  | true => exact speaks_of_mute (.pure _)
  | false =>
      intro r e he msg hmsg
      unfold handleAuditHeartbeatTimeout at he ⊢
      rw [if_neg Bool.false_ne_true] at he ⊢
      cases hresult : (isPrimary r).result with
      | error ex =>
          rw [Handler.bind_error (Pbft.isPrimary_run hresult)] at he
          cases he
      | ok primary =>
          rw [Handler.bind_ok (Pbft.isPrimary_run hresult)] at he ⊢
          rw [List.nil_append, Handler.reads_bind] at he
          rw [Handler.reads_bind]
          split at he
          · rename_i hleads
            rw [if_pos hleads]
            rw [Handler.reads_bind] at he ⊢
            obtain ⟨hsame, haudits⟩ := broadcastAudit_audits lib (.primaryStatus r.view) r
            rw [haudits e he] at hmsg
            obtain rfl := Option.some.inj hmsg
            dsimp only
            rw [hsame]
            refine ⟨rfl, rfl, ?_⟩
            unfold leads
            rw [hresult]
            exact (Bool.and_eq_true_iff.mp hleads).1
          · cases he

theorem handleFailure_speaks : Speaks lib (handleFailure lib) := by
  intro r e he msg hmsg
  unfold handleFailure at he ⊢
  rw [Handler.reads_bind] at he ⊢
  split at he
  · rename_i haudit
    rw [if_pos haudit]
    obtain ⟨hsame, haudits⟩ := broadcastAudit_audits lib .failureDetected r
    rw [haudits e he] at hmsg
    obtain rfl := Option.some.inj hmsg
    rw [hsame]
    exact rfl
  · cases he

-- Whatever a replica reports is so.
theorem handler_speaks (lib : Library) (input : Input) : Speaks lib (input.handler lib) := by
  cases input with
  | message msg original => exact handleMessage_speaks msg original
  | request request original => exact speaks_of_mute (handleRequest_mute request original)
  | membership msg => exact speaks_of_mute (handleMembershipMessage_mute msg)
  | checkpointReachedLocally sequence stateHash freed =>
      exact speaks_of_mute (checkpointReachedLocally_mute sequence stateHash freed)
  | auditHeartbeatTimeout canceled => exact handleAuditHeartbeatTimeout_speaks canceled
  | failure => exact handleFailure_speaks

end Speaking

end Replica

end SwarmDB.Pbft
