import Mathlib.Data.List.TakeWhile
import SwarmDB.Pbft.Replica.Frame
import SwarmDB.Pbft.Replica.Safety

namespace SwarmDB.Pbft

open Replica

variable {lib : Library} {input : Input} {past : List (Replica × Input)} {r r' : Replica}
  {es : List Effect} {peers : List PeerAddress} {request : Request}

section Issuing

-- The peers that the loop of a broadcast gets to.
def reachablePeers (lib : Library) (peers : List PeerAddress) : List PeerAddress :=
  peers.takeWhile fun peer => lib.validAddress peer.host

theorem sendTo_effects (lib : Library) (wire : Wire) (peers : List PeerAddress) (r : Replica) :
    (sendTo lib wire peers r).state = r ∧
      (sendTo lib wire peers r).effects = (reachablePeers lib peers).map fun peer => .send peer wire := by
  induction peers with
  | nil => exact ⟨rfl, rfl⟩
  | cons peer rest ih =>
      by_cases hvalid : lib.validAddress peer.host = true
      · simp [sendTo, reachablePeers, hvalid, Bind.bind, Handler.bind, Handler.emits, ih.1]
        simpa [reachablePeers] using ih.2
      · simp [sendTo, reachablePeers, hvalid, Handler.throws]

theorem currentPeers_run (hpeers : r.configured = some peers) : currentPeers r = ⟨r, [], .ok peers⟩ := by
  obtain ⟨current, hcurrent, rfl⟩ := Option.map_eq_some_iff.mp hpeers
  simp [currentPeers, Bind.bind, Handler.bind, Handler.reads, hcurrent, Pure.pure]

theorem broadcastMsg_effects (lib : Library) (msg : PbftMsg) (hpeers : r.configured = some peers) :
    (broadcastMsg lib msg r).state = r ∧ (broadcastMsg lib msg r).effects =
      (reachablePeers lib peers).map fun peer => .send peer (.pbft ⟨r.uuid, msg⟩) := by
  have hsend := sendTo_effects lib (.pbft ⟨r.uuid, msg⟩) peers r
  simp [broadcastMsg, broadcast, Bind.bind, Handler.bind, Handler.reads, currentPeers_run hpeers, hsend.1,
    hsend.2]

-- Looking up or making a record cannot fail where there is a configuration.
theorem findOperation_run (view sequence : Nat) (request : Request) (hkept : Kept lib r)
    (hpeers : r.configured = some peers) :
    ∃ op r', findOperation lib view sequence request r = ⟨r', [], .ok op⟩ ∧
      op.key lib = ⟨view, sequence, lib.requestHash request⟩ ∧ Level r r' := by
  cases hfound : r.operations ⟨view, sequence, lib.requestHash request⟩ with
  | some op =>
      refine ⟨op, r, ?_, (hkept _ op hfound).1, .refl r⟩
      simp [findOperation, Bind.bind, Handler.bind, Handler.reads, hfound, Pure.pure]
  | none =>
      let op : Operation := { view := view, sequence := sequence, request := request, peers := peers }
      refine ⟨op, store lib op r, ?_, rfl, (Frame.store lib rfl).toLevel⟩
      simp [findOperation, Bind.bind, Handler.bind, Handler.reads, hfound, Pure.pure, Handler.updates,
        currentPeers_run hpeers, op]

-- A new sequence number is taken, and its preprepare goes to the peers one after the other.
structure Issued (lib : Library) (r : Replica) (es : List Effect) (r' : Replica) : Prop where
  uuid : r'.uuid = r.uuid
  view : r'.view = r.view
  configured : r'.configured = r.configured
  lowWaterMark : r'.lowWaterMark = r.lowWaterMark
  highWaterMark : r'.highWaterMark = r.highWaterMark
  next : r'.nextIssuedSequenceNumber = (r.nextIssuedSequenceNumber + 1) % 2 ^ 64
  sends : ∃ peers op, r.configured = some peers ∧ op.view = r.view ∧
    op.sequence = r.nextIssuedSequenceNumber ∧ es = (reachablePeers lib peers).map fun peer =>
      .send peer (.pbft ⟨r.uuid, commonMessageSetup op .preprepare⟩)

-- The operation has the next number, and the request.
theorem issue_run (request : Request) (hkept : Kept lib r) (hpeers : r.configured = some peers) :
    ∃ op r', (setupRequestOperation lib request >>= doPreprepare lib) r = doPreprepare lib op r' ∧
      op.key lib = ⟨r.view, r.nextIssuedSequenceNumber, lib.requestHash request⟩ ∧
      Level { r with nextIssuedSequenceNumber := (r.nextIssuedSequenceNumber + 1) % 2 ^ 64 } r' := by
  let taken : Replica := { r with nextIssuedSequenceNumber := (r.nextIssuedSequenceNumber + 1) % 2 ^ 64 }
  have hkept₀ : Kept lib taken := hkept
  obtain ⟨op, r', hfind, hkey, hlevel⟩ :=
    findOperation_run r.view r.nextIssuedSequenceNumber request hkept₀ hpeers
  have hsetup : setupRequestOperation lib request r = ⟨r', [], .ok op⟩ := by
    simp only [setupRequestOperation, Bind.bind, Handler.bind, Handler.reads, Handler.updates]
    change Outcome.mk (findOperation lib r.view r.nextIssuedSequenceNumber request taken).state _ _ = _
    rw [hfind]
    rfl
  refine ⟨op, r', ?_, hkey, hlevel⟩
  simp [Bind.bind, Handler.bind, hsetup]

theorem issue_spec (request : Request) (hkept : Kept lib r) (hpeers : r.configured = some peers) :
    Issued lib r ((setupRequestOperation lib request >>= doPreprepare lib) r).effects
      ((setupRequestOperation lib request >>= doPreprepare lib) r).state := by
  obtain ⟨op, r', hrun, hkey, hlevel⟩ := issue_run request hkept hpeers
  obtain ⟨hstate, heffects⟩ :=
    broadcastMsg_effects lib (commonMessageSetup op .preprepare) (hlevel.configured.trans hpeers)
  rw [hrun]
  unfold doPreprepare
  rw [hstate, heffects, hlevel.uuid]
  exact ⟨hlevel.uuid, hlevel.view, hlevel.configured, hlevel.lowWaterMark, hlevel.highWaterMark,
    hlevel.nextIssuedSequenceNumber, peers, op, hpeers, congrArg OperationKey.view hkey,
    congrArg OperationKey.sequence hkey, rfl⟩

-- Whatever is sent is the preprepare of this request.
theorem issue_sends {envelope : Envelope} (hkept : Kept lib r) (hpeers : r.configured = some peers)
    (hsent : Sent ((setupRequestOperation lib request >>= doPreprepare lib) r).effects envelope) :
    envelope.pbft.type = .preprepare ∧
      envelope.pbft.key lib = ⟨r.view, r.nextIssuedSequenceNumber, lib.requestHash request⟩ := by
  obtain ⟨op, r', hrun, hkey, hlevel⟩ := issue_run request hkept hpeers
  obtain ⟨_, heffects⟩ :=
    broadcastMsg_effects lib (commonMessageSetup op .preprepare) (hlevel.configured.trans hpeers)
  obtain ⟨peer, hmem⟩ := hsent
  rw [hrun] at hmem
  unfold doPreprepare at hmem
  rw [heffects] at hmem
  obtain ⟨_, _, hsend⟩ := List.mem_map.mp hmem
  cases hsend
  exact ⟨rfl, hkey⟩

end Issuing

section Silence

-- No sequence number is taken and no preprepare sent.
structure Unissued (r : Replica) (es : List Effect) (r' : Replica) : Prop where
  uuid : r'.uuid = r.uuid
  view : r'.view = r.view
  configured : r'.configured = r.configured
  next : r'.nextIssuedSequenceNumber = r.nextIssuedSequenceNumber
  silent : ∀ e ∈ es, e.preprepared = none

theorem Unissued.quiet (h : ∀ e ∈ es, e.preprepared = none) : Unissued r es r := ⟨rfl, rfl, rfl, rfl, h⟩

theorem Unissued.of_trail (h : Trail Unissued r es r') : Unissued r es r' := by
  induction h with
  | rest => exact .quiet (by simp)
  | next _ step ih =>
      refine ⟨step.uuid.trans ih.uuid, step.view.trans ih.view, step.configured.trans ih.configured,
        step.next.trans ih.next, ?_⟩
      intro e he
      rcases List.mem_append.mp he with he | he
      · exact ih.silent e he
      · exact step.silent e he

theorem Unissued.of_frame {sequence : Nat} (h : Trail (Frame sequence) r es r') : Unissued r es r' := by
  have hframe := Frame.of_trail h
  exact ⟨hframe.uuid, hframe.view, hframe.configured, hframe.nextIssuedSequenceNumber, hframe.silent⟩

theorem maybeStabilizeCheckpoint_unissued (cp : Checkpoint) (freed : Option Reads) :
    Performs Unissued (maybeStabilizeCheckpoint cp freed) r fun _ _ => True :=
  maybeStabilizeCheckpoint_performs (fun _ _ _ => True.intro)
    (fun _ => ⟨rfl, rfl, rfl, rfl, by simp⟩) fun _ _ _ _ => ⟨rfl, rfl, rfl, rfl, by simp⟩

theorem checkpointReachedLocally_unissued (lib : Library) (sequence : Nat) (stateHash : Hash) (freed : Reads) :
    Performs Unissued (checkpointReachedLocally lib sequence stateHash freed) r fun _ _ => True := by
  refine (Performs.updates ⟨rfl, rfl, rfl, rfl, by simp⟩).bind ?_
  rintro _ _ rfl
  refine (Performs.reads _).bind ?_
  rintro view _ ⟨rfl, _⟩
  refine (broadcastMsg_performs lib _ ?_).bind ?_
  · intro es hes
    exact .quiet (silent_of_sends hes fun _ => rfl)
  · rintro _ _ rfl
    exact maybeStabilizeCheckpoint_unissued _ _

theorem handleCheckpoint_unissued (msg : PbftMsg) (original : Envelope) :
    Performs Unissued (handleCheckpoint msg original) r fun _ _ => True := by
  refine (Performs.reads _).bind ?_
  rintro old r ⟨rfl, _⟩
  cases old with
  | true => exact Performs.pure trivial
  | false =>
      refine (Performs.updates ⟨rfl, rfl, rfl, rfl, by simp⟩).bind ?_
      rintro _ _ rfl
      exact maybeStabilizeCheckpoint_unissued _ _

theorem handleMessage_unissued (msg : PbftMsg) (original : Envelope) (hkept : Kept lib r) :
    Unissued r (handleMessage lib msg original r).effects (handleMessage lib msg original r).state := by
  by_cases htype : msg.type = .checkpoint
  · have hperforms : Performs Unissued (handleMessage lib msg original) r fun _ _ => True := by
      refine (Performs.reads _).bind ?_
      rintro filtered r ⟨rfl, _⟩
      cases filtered with
      | false => exact Performs.pure trivial
      | true =>
          simp only [htype]
          exact handleCheckpoint_unissued msg original
    exact .of_trail hperforms.trail
  · exact .of_frame (handleMessage_frames original htype hkept).trail

theorem broadcastAudit_unissued (lib : Library) (msg : Uuid → AuditMessage) :
    Performs Unissued (broadcastAudit lib msg) r fun _ _ => True := by
  refine (Performs.reads _).bind ?_
  rintro uuid r ⟨rfl, rfl⟩
  refine ((broadcast_performs lib (.audit (msg r.uuid))).of_still ?_).mono fun _ _ _ => trivial
  intro es hes
  exact .quiet (silent_of_sends hes fun _ => rfl)

theorem handleAuditHeartbeatTimeout_unissued (lib : Library) (canceled : Bool) :
    Performs Unissued (handleAuditHeartbeatTimeout lib canceled) r fun _ _ => True := by
  cases canceled with
  | true => exact Performs.pure trivial
  | false =>
      refine isPrimary_performs.bind ?_
      rintro primary r rfl
      refine (Performs.reads _).bind ?_
      rintro enabled r ⟨rfl, _⟩
      split
      · refine (Performs.reads _).bind ?_
        rintro view r ⟨rfl, _⟩
        exact broadcastAudit_unissued lib _
      · exact Performs.pure trivial

theorem handleFailure_unissued (lib : Library) :
    Performs Unissued (handleFailure lib) r fun _ _ => True := by
  refine (Performs.reads _).bind ?_
  rintro enabled r ⟨rfl, _⟩
  cases enabled with
  | true => exact broadcastAudit_unissued lib _
  | false => exact Performs.pure trivial

end Silence

section Requests

-- Whether the replica takes itself for the primary.
def leads (r : Replica) : Bool :=
  match (isPrimary r).result with
  | .ok primary => primary
  | .error _ => false

-- The calls that take a sequence number: a client's request, and a join or leave that can be done.
def issues (lib : Library) (r : Replica) : Input → Bool
  | .request .. => leads r
  | .membership msg =>
    match msg.peerInfo, r.configurations.current with
    | some info, some config =>
      leads r && (decide (msg.type ≠ .undefined) && (changedConfiguration lib msg.type info.address config).1)
    | _, _ => false
  | .message .. | .checkpointReachedLocally .. | .auditHeartbeatTimeout _ | .failure => false

theorem trail_of_none {P : Replica → List Effect → Replica → Prop} (hnone : ∀ r es r', ¬P r es r')
    (h : Trail P r es r') : es = [] ∧ r' = r := by
  induction h with
  | rest => exact ⟨rfl, rfl⟩
  | next _ step _ => exact absurd step (hnone _ _ _)

theorem isPrimary_run {result : Except Exception Bool} (h : (isPrimary r).result = result) :
    isPrimary r = ⟨r, [], result⟩ := by
  have hperforms : Performs (fun _ _ _ => False) isPrimary r fun _ r' => r' = r := isPrimary_performs
  have htrail := hperforms.trail
  obtain ⟨heffects, hstate⟩ := trail_of_none (fun _ _ _ h => h) htrail
  calc
    isPrimary r = ⟨(isPrimary r).state, (isPrimary r).effects, (isPrimary r).result⟩ := rfl
    _ = ⟨r, [], result⟩ := by rw [hstate, heffects, h]

-- Whoever is primary has a configuration.
theorem configured_of_primary {primary : Bool} (h : (isPrimary r).result = .ok primary) :
    ∃ peers, r.configured = some peers := by
  cases hcurrent : r.configurations.current with
  | none =>
      simp [isPrimary, getPrimary, currentPeers, Bind.bind, Handler.bind, Handler.reads, hcurrent,
        Handler.throws] at h
  | some config => exact ⟨config.sortedPeers, by simp [configured, hcurrent]⟩

theorem leads_eq (r : Replica) : leads r = match r.configured with
    | some peers =>
      match peers[r.view % peers.length]? with
      | some primary => primary.uuid == r.uuid
      | none => false
    | none => false := by
  cases hcurrent : r.configurations.current with
  | none =>
      simp [leads, isPrimary, getPrimary, currentPeers, Bind.bind, Handler.bind, Handler.reads, hcurrent,
        Handler.throws, configured]
  | some config =>
      cases hprimary : config.sortedPeers[r.view % config.sortedPeers.length]? with
      | none =>
          simp [leads, isPrimary, getPrimary, currentPeers, Bind.bind, Handler.bind, Handler.reads, hcurrent,
            Handler.throws, configured, Pure.pure, hprimary]
      | some primary =>
          simp [leads, isPrimary, getPrimary, currentPeers, Bind.bind, Handler.bind, Handler.reads, hcurrent,
            configured, Pure.pure, hprimary]

theorem isPrimary_of_leads (h : leads r = true) : (isPrimary r).result = .ok true := by
  unfold leads at h
  split at h
  · rename_i primary hresult
    rw [hresult, h]
  · cases h

theorem handleRequest_leads (request : Request) (original : String) (hprimary : (isPrimary r).result = .ok true) :
    handleRequest lib request original r = (setupRequestOperation lib request >>= doPreprepare lib) r := by
  simp [handleRequest, Bind.bind, Handler.bind, isPrimary_run hprimary]

theorem handleRequest_issued (request : Request) (original : String) (hkept : Kept lib r)
    (hprimary : (isPrimary r).result = .ok true) :
    Issued lib r (handleRequest lib request original r).effects
      (handleRequest lib request original r).state := by
  obtain ⟨peers, hpeers⟩ := configured_of_primary hprimary
  rw [handleRequest_leads request original hprimary]
  exact issue_spec request hkept hpeers

theorem forward_unissued (lib : Library) (original : String) :
    Performs Unissued (getPrimary >>= fun primary =>
      if lib.validAddress primary.host then Handler.emits (.forward primary original)
      else Handler.throws .badAddress : Call Unit) r fun _ _ => True := by
  refine getPrimary_performs.bind ?_
  rintro primary r rfl
  split
  · refine (Performs.emits (.quiet ?_)).mono fun _ _ _ => trivial
    simp [Effect.preprepared]
  · exact Performs.throws _

theorem handleRequest_issues (request : Request) (original : String) (hkept : Kept lib r) :
    (leads r = false ∧
        Unissued r (handleRequest lib request original r).effects (handleRequest lib request original r).state) ∨
      (leads r = true ∧
        Issued lib r (handleRequest lib request original r).effects (handleRequest lib request original r).state) := by
  cases hprimary : (isPrimary r).result with
  | error e =>
      left
      have hrun : handleRequest lib request original r = ⟨r, [], .error e⟩ := by
        simp [handleRequest, Bind.bind, Handler.bind, isPrimary_run hprimary]
      rw [hrun]
      exact ⟨by simp [leads, hprimary], .quiet (by simp)⟩
  | ok primary =>
      cases primary with
      | true => exact Or.inr ⟨by simp [leads, hprimary], handleRequest_issued request original hkept hprimary⟩
      | false =>
          left
          have hrun : handleRequest lib request original r = (getPrimary >>= fun primary =>
              if lib.validAddress primary.host then Handler.emits (.forward primary original)
              else Handler.throws .badAddress : Call Unit) r := by
            simp [handleRequest, Bind.bind, Handler.bind, isPrimary_run hprimary]
          rw [hrun]
          exact ⟨by simp [leads, hprimary], .of_trail (forward_unissued lib original).trail⟩

-- What does not matter for the number that is taken can have changed before.
theorem Issued.of_level {r₀ : Replica} (h : Issued lib r es r') (huuid : r.uuid = r₀.uuid)
    (hview : r.view = r₀.view) (hconfigured : r.configured = r₀.configured)
    (hlow : r.lowWaterMark = r₀.lowWaterMark) (hhigh : r.highWaterMark = r₀.highWaterMark)
    (hnext : r.nextIssuedSequenceNumber = r₀.nextIssuedSequenceNumber) : Issued lib r₀ es r' := by
  obtain ⟨peers, op, hpeers, hopview, hsequence, heffects⟩ := h.sends
  refine ⟨h.uuid.trans huuid, h.view.trans hview, h.configured.trans hconfigured,
    h.lowWaterMark.trans hlow, h.highWaterMark.trans hhigh, hnext ▸ h.next, peers, op, ?_, ?_, ?_, ?_⟩
  · rw [← hconfigured]
    exact hpeers
  · rw [← hview]
    exact hopview
  · rw [← hnext]
    exact hsequence
  · rw [← huuid]
    exact heffects

theorem issues_of_not_leads {msg : MembershipMsg} (h : leads r = false) :
    issues lib r (.membership msg) = false := by
  simp only [issues, h, Bool.false_and]
  split <;> rfl

theorem handleJoinOrLeave_issues {msg : MembershipMsg} {info : PeerInfo} (hinfo : msg.peerInfo = some info)
    (htype : msg.type ≠ .undefined) (hkept : Kept lib r) :
    (issues lib r (.membership msg) = false ∧ Unissued r (handleJoinOrLeave lib msg.type info r).effects
        (handleJoinOrLeave lib msg.type info r).state) ∨
      (issues lib r (.membership msg) = true ∧ Issued lib r (handleJoinOrLeave lib msg.type info r).effects
        (handleJoinOrLeave lib msg.type info r).state) := by
  cases hprimary : (isPrimary r).result with
  | error e =>
      left
      have hrun : handleJoinOrLeave lib msg.type info r = ⟨r, [], .error e⟩ := by
        simp [handleJoinOrLeave, Bind.bind, Handler.bind, isPrimary_run hprimary]
      rw [hrun]
      exact ⟨issues_of_not_leads (by simp [leads, hprimary]), .quiet (by simp)⟩
  | ok primary =>
      cases primary with
      | false =>
          left
          have hrun : handleJoinOrLeave lib msg.type info r = ⟨r, [], .ok ()⟩ := by
            simp [handleJoinOrLeave, Bind.bind, Handler.bind, isPrimary_run hprimary, Pure.pure]
          rw [hrun]
          exact ⟨issues_of_not_leads (by simp [leads, hprimary]), .quiet (by simp)⟩
      | true =>
          obtain ⟨peers, hpeers⟩ := configured_of_primary hprimary
          obtain ⟨config, hcurrent, _⟩ := Option.map_eq_some_iff.mp hpeers
          cases hchanged : (changedConfiguration lib msg.type info.address config).1 with
          | false =>
              left
              have hrun : handleJoinOrLeave lib msg.type info r = ⟨r, [], .ok ()⟩ := by
                simp [handleJoinOrLeave, Bind.bind, Handler.bind, isPrimary_run hprimary, Handler.reads,
                  hcurrent, hchanged, Pure.pure]
              rw [hrun]
              exact ⟨by simp [issues, hinfo, hcurrent, hchanged], .quiet (by simp)⟩
          | true =>
              right
              refine ⟨by simp [issues, hinfo, hcurrent, leads, hprimary, htype, hchanged], ?_⟩
              let config' := (changedConfiguration lib msg.type info.address config).2
              let added := updateConfigurations (fun store => store.add config') r
              have hbeside : Beside r added := add_beside hpeers config'
              let request : Request := { type := .newConfig, body := .config (config'.toString lib.toCodec) }
              have hrun : handleJoinOrLeave lib msg.type info r =
                  (setupRequestOperation lib request >>= doPreprepare lib) added := by
                simp [handleJoinOrLeave, broadcastNewConfiguration, Bind.bind, Handler.bind,
                  isPrimary_run hprimary, Handler.reads, hcurrent, hchanged, Handler.updates, added, config',
                  request]
              have hkept' : Kept lib added := by
                intro key op hop
                rw [hbeside.configured]
                exact hkept key op hop
              rw [hrun]
              exact (issue_spec request hkept' (hbeside.configured.trans hpeers)).of_level rfl rfl
                hbeside.configured rfl rfl rfl

-- What one call does about sequence numbers.
theorem handler_issues (lib : Library) (input : Input) (hkept : Kept lib r) :
    (issues lib r input = false ∧ Unissued r (input.handler lib r).effects (input.handler lib r).state) ∨
      (issues lib r input = true ∧ Issued lib r (input.handler lib r).effects (input.handler lib r).state) := by
  cases input with
  | message msg original => exact Or.inl ⟨rfl, handleMessage_unissued msg original hkept⟩
  | request req original => exact handleRequest_issues req original hkept
  | membership msg =>
      cases hinfo : msg.peerInfo with
      | none =>
          left
          simp only [Input.handler, handleMembershipMessage, hinfo]
          exact ⟨by simp [issues, hinfo], .quiet (by simp [Pure.pure])⟩
      | some info =>
          by_cases htype : msg.type = .undefined
          · left
            simp only [Input.handler, handleMembershipMessage, hinfo, htype]
            refine ⟨?_, .quiet (by simp [Pure.pure])⟩
            cases hcurrent : r.configurations.current <;> simp [issues, hinfo, hcurrent, htype]
          · have hrun : Input.handler lib (.membership msg) r = handleJoinOrLeave lib msg.type info r := by
              simp only [Input.handler, handleMembershipMessage, hinfo]
              cases hmsg : msg.type with
              | join | leave => rfl
              | undefined => exact absurd hmsg htype
            rw [hrun]
            exact handleJoinOrLeave_issues hinfo htype hkept
  | checkpointReachedLocally sequence stateHash freed =>
      exact Or.inl ⟨rfl, .of_trail (checkpointReachedLocally_unissued lib sequence stateHash freed).trail⟩
  | auditHeartbeatTimeout canceled =>
      exact Or.inl ⟨rfl, .of_trail (handleAuditHeartbeatTimeout_unissued lib canceled).trail⟩
  | failure => exact Or.inl ⟨rfl, .of_trail (handleFailure_unissued lib).trail⟩

end Requests

end SwarmDB.Pbft
