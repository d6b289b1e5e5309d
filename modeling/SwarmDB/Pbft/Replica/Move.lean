import SwarmDB.Pbft.Replica

namespace SwarmDB.Pbft

namespace Replica

def configured (r : Replica) : Option (List PeerAddress) :=
  r.configurations.current.map Configuration.sortedPeers

-- What stays the same while a replica handles operations.
structure Unmoved (r r' : Replica) : Prop where
  uuid : r'.uuid = r.uuid
  view : r'.view = r.view
  lowWaterMark : r'.lowWaterMark = r.lowWaterMark
  configured : r'.configured = r.configured

-- And what stays the same when it does something else.
structure Beside (r r' : Replica) : Prop extends Unmoved r r' where
  operations : r'.operations = r.operations
  acceptedPreprepares : r'.acceptedPreprepares = r.acceptedPreprepares

theorem Beside.refl (r : Replica) : Beside r r := ⟨⟨rfl, rfl, rfl, rfl⟩, rfl, rfl⟩

-- The operation is the replica's own record, in its view and above its low water mark.
structure Handling (lib : Library) (r : Replica) (op : Operation) : Prop where
  stored : r.operations (op.key lib) = some op
  peers : r.configured = some op.peers
  view : op.view = r.view
  above : r.lowWaterMark < op.sequence

-- Copies of one message to configured peers.
def Sends (r : Replica) (wire : Wire) (es : List Effect) : Prop :=
  ∀ e ∈ es, ∃ peers, r.configured = some peers ∧ ∃ peer ∈ peers, e = .send peer wire

end Replica

open Replica

-- Neither a vote nor a call of apply_operation.
def Effect.isQuiet : Effect → Bool
  | .send _ (.pbft envelope) => !envelope.pbft.isVote
  | .send _ (.audit _) | .forward _ _ => true
  | .applyOperation _ => false

-- What a replica does about operations while it handles an input, one thing at a time.
inductive Move (lib : Library) (input : Input) : Replica → List Effect → Replica → Prop
  | side {r r' : Replica} {es : List Effect} (hbeside : Beside r r') (hquiet : ∀ e ∈ es, e.isQuiet = true) :
      Move lib input r es r'
  | create {r : Replica} {op : Operation} (hnew : r.operations (op.key lib) = none)
      (hpeers : r.configured = some op.peers)
      (hop : op = { view := op.view, sequence := op.sequence, request := op.request, peers := op.peers }) :
      Move lib input r [] (store lib op r)
  | accept {r : Replica} {op : Operation} {msg : PbftMsg} {original : Envelope}
      (hinput : input = .message msg original) (htype : msg.type = .preprepare)
      (hkey : op.key lib = msg.key lib) (hop : Handling lib r op)
      (hfree : ∀ accepted, r.acceptedPreprepares (op.view, op.sequence) = some accepted →
        accepted.hash = lib.requestHash op.request) :
      Move lib input r [] (acceptPreprepare lib op.recordPreprepare r)
  | recordPrepare {r : Replica} {op : Operation} {msg : PbftMsg} {original : Envelope}
      (hinput : input = .message msg original) (htype : msg.type = .prepare)
      (hkey : op.key lib = msg.key lib) (hop : Handling lib r op) :
      Move lib input r [] (store lib (op.recordPrepare original.sender) r)
  | recordCommit {r : Replica} {op : Operation} {msg : PbftMsg} {original : Envelope}
      (hinput : input = .message msg original) (htype : msg.type = .commit)
      (hkey : op.key lib = msg.key lib) (hop : Handling lib r op) :
      Move lib input r [] (store lib (op.recordCommit original.sender) r)
  | sendPrepare {r : Replica} {op : Operation} {es : List Effect} (hop : Handling lib r op)
      (hseen : op.preprepareSeen = true)
      (hsends : Sends r (.pbft ⟨r.uuid, commonMessageSetup op .prepare⟩) es) : Move lib input r es r
  | beginCommit {r : Replica} {op : Operation} (hop : Handling lib r op) (hstate : op.state = .prepare)
      (hprepared : op.isPrepared = true) : Move lib input r [] (store lib { op with state := .commit } r)
  | sendCommit {r : Replica} {op : Operation} {es : List Effect} (hop : Handling lib r op)
      (hstate : op.state = .commit) (hprepared : op.isPrepared = true)
      (hsends : Sends r (.pbft ⟨r.uuid, commonMessageSetup op .commit⟩) es) : Move lib input r es r
  -- The call of apply_operation is missing where the audit message could not be sent.
  | finish {r : Replica} {op : Operation} {es tail : List Effect} (hop : Handling lib r op)
      (hstate : op.state = .commit) (hcommitted : op.isCommitted = true)
      (hquiet : ∀ e ∈ es, e.isQuiet = true)
      (htail : tail = [] ∨ tail = [.applyOperation { op with state := .committed }]) :
      Move lib input r (es ++ tail) (store lib { op with state := .committed } r)

-- What it does about checkpoints. The number of the checkpoint is read as what it is, unless the checkpoint
-- may have been erased before it is read.
inductive Clearing (erased : Prop) : Replica → List Effect → Replica → Prop
  | side {r r' : Replica} {es : List Effect} (hbeside : Beside r r') (hquiet : ∀ e ∈ es, e.isQuiet = true) :
      Clearing erased r es r'
  | clear {r : Replica} (cp : Checkpoint) (reads : Reads) (hreads : reads = .of cp ∨ erased) :
      Clearing erased r [] (stabilizeCheckpoint cp reads r)

-- The checkpoint messages of a quorum are there.
def Replica.Voted (r : Replica) (cp : Checkpoint) : Prop :=
  ∃ peers ∈ r.configured, 1 + 2 * (peers.length / 3) ≤ ((r.unstableCheckpointProofs cp).getD ∅).entries.length

instance (r : Replica) (cp : Checkpoint) : Decidable (r.Voted cp) :=
  inferInstanceAs (Decidable (∃ peers ∈ r.configured, _))

-- The replica reaches a checkpoint for which it has the messages of a quorum already. Then
-- maybe_stabilize_checkpoint erases the element of local_unstable_checkpoints that it was called with and
-- goes on reading it, unless broadcast has thrown before at a host that is no address.
def VotesFirst (lib : Library) (r : Replica) : Input → Prop
  | .checkpointReachedLocally sequence stateHash _ =>
    sequence < (sequence + 1) % 2 ^ 64 ∧ r.Voted (sequence, stateHash) ∧
      ∀ peers ∈ r.configured, ∀ peer ∈ peers, lib.validAddress peer.host = true
  | .message .. | .request .. | .membership _ | .auditHeartbeatTimeout _ | .failure => False

instance (lib : Library) (r : Replica) : (input : Input) → Decidable (VotesFirst lib r input)
  | .checkpointReachedLocally sequence stateHash _ =>
    inferInstanceAs (Decidable (sequence < (sequence + 1) % 2 ^ 64 ∧ r.Voted (sequence, stateHash) ∧
      ∀ peers ∈ r.configured, ∀ peer ∈ peers, lib.validAddress peer.host = true))
  | .message .. | .request .. | .membership _ | .auditHeartbeatTimeout _ | .failure =>
    inferInstanceAs (Decidable False)

-- An input is about operations or about checkpoints, never both.
def Turn (lib : Library) (input : Input) (r : Replica) (es : List Effect) (r' : Replica) : Prop :=
  Trail (Move lib input) r es r' ∨ Trail (Clearing (VotesFirst lib r input)) r es r'

namespace Replica

variable {lib : Library} {input : Input} {r : Replica} {op : Operation}
  {move : Replica → List Effect → Replica → Prop}

section Peers

theorem currentPeers_performs :
    Performs move currentPeers r fun peers r' => r' = r ∧ r.configured = some peers := by
  refine (Performs.reads _).bind ?_
  rintro config r ⟨rfl, hcurrent⟩
  cases config with
  | none => exact Performs.throws _
  | some config => exact Performs.pure ⟨rfl, by simp [configured, ← hcurrent]⟩

theorem getPrimary_performs : Performs move getPrimary r fun _ r' => r' = r := by
  refine currentPeers_performs.bind ?_
  rintro peers r ⟨rfl, _⟩
  refine (Performs.reads _).bind ?_
  rintro view r ⟨rfl, rfl⟩
  cases peers[r.view % peers.length]? with
  | none => exact Performs.throws _
  | some primary => exact Performs.pure rfl

theorem isPrimary_performs : Performs move isPrimary r fun _ r' => r' = r := by
  refine getPrimary_performs.bind ?_
  rintro primary r rfl
  refine (Performs.reads _).bind ?_
  rintro uuid r ⟨rfl, rfl⟩
  exact Performs.pure rfl

-- The loop of a broadcast stops at the first host that is no address.
theorem sendTo_performs (lib : Library) {wire : Wire} {P : Effect → Prop} {peers : List PeerAddress}
    (hP : ∀ peer ∈ peers, P (.send peer wire)) :
    Performs (Still P) (sendTo lib wire peers) r fun _ _ => True := by
  induction peers generalizing r with
  | nil => exact Performs.pure trivial
  | cons peer rest ih =>
      by_cases hvalid : lib.validAddress peer.host = true
      · simp only [sendTo, hvalid, if_true]
        refine (Performs.emits ⟨rfl, by simpa using hP peer (by simp)⟩).bind ?_
        rintro _ r rfl
        exact ih fun other hmem => hP other (by simp [hmem])
      · simp only [sendTo, hvalid]
        exact Performs.throws _

theorem broadcast_performs (lib : Library) (wire : Wire) :
    Performs (Still fun e => ∃ peers, r.configured = some peers ∧ ∃ peer ∈ peers, e = .send peer wire)
      (broadcast lib wire) r fun _ _ => True := by
  refine currentPeers_performs.bind ?_
  rintro peers r ⟨rfl, hpeers⟩
  exact sendTo_performs lib fun peer hmem => ⟨peers, hpeers, peer, hmem, rfl⟩

theorem broadcastMsg_performs (lib : Library) (msg : PbftMsg)
    (hmove : ∀ es, Sends r (.pbft ⟨r.uuid, msg⟩) es → move r es r) :
    Performs move (broadcastMsg lib msg) r fun _ r' => r' = r := by
  refine (Performs.reads _).bind ?_
  rintro uuid r ⟨rfl, rfl⟩
  exact ((broadcast_performs lib _).of_still hmove).mono fun _ _ h => h.1

theorem broadcastAudit_performs (lib : Library) (msg : Uuid → AuditMessage) :
    Performs (Still fun e => e.isQuiet = true) (broadcastAudit lib msg) r fun _ _ => True := by
  refine (Performs.reads _).bind ?_
  rintro uuid r ⟨rfl, rfl⟩
  refine ((broadcast_performs lib (.audit (msg r.uuid))).of_still ?_).mono fun _ _ _ => trivial
  intro es hes
  refine ⟨rfl, ?_⟩
  intro e he
  obtain ⟨_, _, peer, _, rfl⟩ := hes e he
  rfl

end Peers

section Operations

theorem store_self : (store lib op r).operations (op.key lib) = some op := Function.update_self ..

-- Storing the record again, changed, keeps it the one that is being handled.
theorem Handling.store {changed : Operation} (h : Handling lib r op) (hpeers : changed.peers = op.peers)
    (hview : changed.view = op.view) (hsequence : changed.sequence = op.sequence) :
    Handling lib (store lib changed r) changed :=
  ⟨store_self, hpeers ▸ h.peers, hview.trans h.view, hsequence ▸ h.above⟩

theorem Handling.of_beside {r' : Replica} (h : Handling lib r op) (hbeside : Beside r r') :
    Handling lib r' op := by
  refine ⟨?_, ?_, ?_, ?_⟩
  · rw [hbeside.operations]
    exact h.stored
  · rw [hbeside.configured]
    exact h.peers
  · rw [hbeside.view]
    exact h.view
  · rw [hbeside.lowWaterMark]
    exact h.above

-- Records are kept under their keys, and were made for the peers that are configured.
def Kept (lib : Library) (r : Replica) : Prop :=
  ∀ key op, r.operations key = some op → op.key lib = key ∧ r.configured = some op.peers

-- Either a record was there under the key, or a new one is there now.
theorem findOperation_performs {view sequence : Nat} {request : Request} (hkept : Kept lib r) :
    Performs (Move lib input) (findOperation lib view sequence request) r fun op r' =>
      op.key lib = ⟨view, sequence, lib.requestHash request⟩ ∧ r'.operations (op.key lib) = some op ∧
        r'.configured = some op.peers ∧ r'.view = r.view ∧ r'.lowWaterMark = r.lowWaterMark ∧
        r'.acceptedPreprepares = r.acceptedPreprepares := by
  refine (Performs.reads _).bind ?_
  rintro found r ⟨rfl, hfound⟩
  cases found with
  | some op =>
      obtain ⟨hkey, hpeers⟩ := hkept _ op hfound.symm
      exact Performs.pure ⟨hkey, by rw [hkey, ← hfound], hpeers, rfl, rfl, rfl⟩
  | none =>
      refine currentPeers_performs.bind ?_
      rintro peers r ⟨rfl, hpeers⟩
      refine (Performs.updates (.create hfound.symm hpeers rfl)).bind ?_
      rintro _ _ rfl
      exact Performs.pure ⟨rfl, store_self, hpeers, rfl, rfl, rfl⟩

theorem updateConfigurations_beside {f : ConfigStore → ConfigStore}
    (hf : (f r.configurations).current = r.configurations.current) :
    Beside r (updateConfigurations f r) :=
  ⟨⟨rfl, rfl, rfl, congrArg (Option.map Configuration.sortedPeers) hf⟩, rfl, rfl⟩

theorem readConfiguration_performs (lib : Library) (request : Request) :
    Performs move (readConfiguration lib request) r fun _ r' => r' = r := by
  simp only [readConfiguration]
  split
  · exact Performs.throws _
  · exact Performs.pure rfl

theorem withNewConfiguration_performs (lib : Library) (op : Operation)
    {f : Hash → ConfigStore → ConfigStore} (hf : ∀ hash store, (f hash store).current = store.current) :
    Performs (Move lib input) (withNewConfiguration lib op f) r fun _ r' => Beside r r' := by
  unfold withNewConfiguration
  split
  · refine (readConfiguration_performs lib op.request).bind ?_
    rintro config r rfl
    cases config with
    | none => exact Performs.pure (.refl r)
    | some config =>
        have hbeside := updateConfigurations_beside (hf config.cachedHash r.configurations)
        refine (Performs.updates (.side hbeside (by simp))).mono ?_
        rintro _ _ rfl
        exact hbeside
  · exact Performs.pure (.refl r)

theorem beginCommitPhase_ok {moved : Operation} (h : op.beginCommitPhase = .ok moved) :
    moved = { op with state := .commit } ∧ op.state = .prepare ∧ op.isPrepared = true := by
  unfold Operation.beginCommitPhase at h
  split at h
  · cases h
  · rename_i hguard
    simp only [Bool.or_eq_true, Bool.not_eq_true', decide_eq_true_eq, not_or, Bool.not_eq_false,
      not_not] at hguard
    exact ⟨(Except.ok.inj h).symm, hguard.2, hguard.1⟩

theorem endCommitPhase_ok {moved : Operation} (h : op.endCommitPhase = .ok moved) :
    moved = { op with state := .committed } ∧ op.state = .commit ∧ op.isCommitted = true := by
  unfold Operation.endCommitPhase at h
  split at h
  · cases h
  · rename_i hguard
    simp only [Bool.or_eq_true, Bool.not_eq_true', decide_eq_true_eq, not_or, Bool.not_eq_false,
      not_not] at hguard
    exact ⟨(Except.ok.inj h).symm, hguard.2, hguard.1⟩

theorem doPrepared_performs (hop : Handling lib r op) :
    Performs (Move lib input) (doPrepared lib op) r fun moved r' => Handling lib r' moved := by
  refine (withNewConfiguration_performs lib op fun hash store => store.current_enable hash true).bind ?_
  intro _ r' hbeside
  replace hop := hop.of_beside hbeside
  cases hphase : op.beginCommitPhase with
  | error e => exact Performs.throws e
  | ok moved =>
      obtain ⟨rfl, hstate, hprepared⟩ := beginCommitPhase_ok hphase
      have hmoved : Handling lib (store lib { op with state := .commit } r') { op with state := .commit } :=
        hop.store rfl rfl rfl
      refine (Performs.updates (.beginCommit hop hstate hprepared)).bind ?_
      rintro _ _ rfl
      refine (broadcastMsg_performs lib _ fun es hes => .sendCommit hmoved rfl hprepared hes).bind ?_
      rintro _ _ rfl
      exact Performs.pure hmoved

theorem auditCommit_performs (lib : Library) (op : Operation) :
    Performs (Still fun e => e.isQuiet = true) (auditCommit lib op) r fun _ _ => True := by
  refine (Performs.reads _).bind ?_
  rintro enabled r ⟨rfl, _⟩
  cases enabled with
  | false => exact Performs.pure trivial
  | true => exact broadcastAudit_performs lib _

theorem findOperation_stored (h : r.operations (op.key lib) = some op) :
    findOperation lib op.view op.sequence op.request r = ⟨r, [], .ok op⟩ := by
  change r.operations ⟨op.view, op.sequence, lib.requestHash op.request⟩ = some op at h
  simp only [findOperation, Bind.bind, Handler.bind, Handler.reads, h, Pure.pure, List.nil_append]

-- The end of do_committed is one move: nothing comes between the change of the state and the
-- call of apply_operation but the audit message.
theorem finishOperation_performs (hop : Handling lib r op) (hstate : op.state = .commit)
    (hcommitted : op.isCommitted = true) :
    Performs (Move lib input) (finishOperation lib { op with state := .committed }) r fun _ _ => True := by
  refine ⟨.one ?_, fun _ _ => trivial⟩
  let ended : Operation := { op with state := .committed }
  obtain ⟨hstill, hquiet⟩ := (auditCommit_performs (r := store lib ended r) lib ended).trail.still
  cases haudit : (auditCommit lib ended (store lib ended r)).result with
  | error e =>
      have hrun : finishOperation lib ended r =
          ⟨store lib ended r, (auditCommit lib ended (store lib ended r)).effects ++ [], .error e⟩ := by
        simp [finishOperation, Bind.bind, Handler.bind, Handler.updates, haudit, hstill]
      rw [hrun]
      exact .finish hop hstate hcommitted hquiet (Or.inl rfl)
  | ok _ =>
      have hrun : finishOperation lib ended r = ⟨store lib ended r,
          (auditCommit lib ended (store lib ended r)).effects ++ [.applyOperation ended], .ok ()⟩ := by
        simp [finishOperation, Bind.bind, Handler.bind, Handler.updates, Handler.emits, haudit, hstill,
          findOperation_stored store_self]
      rw [hrun]
      exact .finish hop hstate hcommitted hquiet (Or.inr rfl)

theorem doCommitted_performs (hop : Handling lib r op) :
    Performs (Move lib input) (doCommitted lib op) r fun _ _ => True := by
  refine (withNewConfiguration_performs lib op fun hash store => store.current_removePriorTo hash).bind ?_
  intro _ r' hbeside
  cases hphase : op.endCommitPhase with
  | error e => exact Performs.throws e
  | ok moved =>
      obtain ⟨rfl, hstate, hcommitted⟩ := endCommitPhase_ok hphase
      exact finishOperation_performs (hop.of_beside hbeside) hstate hcommitted

theorem maybeAdvanceOperationState_performs (hop : Handling lib r op) :
    Performs (Move lib input) (maybeAdvanceOperationState lib op) r fun _ _ => True := by
  have hfirst : Performs (Move lib input)
      (if op.state = .prepare ∧ op.isPrepared = true then doPrepared lib op else pure op) r
      fun moved r' => Handling lib r' moved := by
    split
    · exact doPrepared_performs hop
    · exact Performs.pure hop
  refine hfirst.bind ?_
  intro moved r' hmoved
  split
  · exact doCommitted_performs hmoved
  · exact Performs.pure trivial

end Operations

section Messages

variable {msg : PbftMsg} {original : Envelope}

-- What the filter lets through is in the view and above the low water mark.
structure Admitted (msg : PbftMsg) (r : Replica) : Prop where
  view : msg.view = r.view
  above : r.lowWaterMark < msg.sequence

theorem preliminaryFilterMsg_admitted (h : preliminaryFilterMsg msg r = true)
    (htype : msg.type = .preprepare ∨ msg.type = .prepare ∨ msg.type = .commit) : Admitted msg r := by
  unfold preliminaryFilterMsg at h
  rw [if_pos htype] at h
  split at h
  · cases h
  · rename_i hview
    split at h
    · cases h
    · rename_i hlow
      exact ⟨not_not.mp hview, not_le.mp hlow⟩

theorem findOperation_handling (hkept : Kept lib r) (hadmitted : Admitted msg r) :
    Performs (Move lib input) (findOperation lib msg.view msg.sequence msg.requestOf) r fun op r' =>
      Handling lib r' op ∧ op.key lib = msg.key lib ∧ r'.acceptedPreprepares = r.acceptedPreprepares := by
  refine (findOperation_performs hkept).mono ?_
  rintro op r' ⟨hkey, hstored, hpeers, hview, hlow, haccepted⟩
  have hopview : op.view = msg.view := congrArg OperationKey.view hkey
  have hopsequence : op.sequence = msg.sequence := congrArg OperationKey.sequence hkey
  refine ⟨⟨hstored, hpeers, ?_, ?_⟩, hkey, haccepted⟩
  · rw [hopview, hview]
    exact hadmitted.view
  · rw [hopsequence, hlow]
    exact hadmitted.above

theorem add_beside {peers : List PeerAddress} (hpeers : r.configured = some peers)
    (config : Configuration) : Beside r (updateConfigurations (fun store => store.add config) r) := by
  obtain ⟨current, hcurrent, _⟩ := Option.map_eq_some_iff.mp hpeers
  exact updateConfigurations_beside ((r.configurations.current_add hcurrent config).trans hcurrent.symm)

theorem handleConfigMessage_performs (hop : Handling lib r op) :
    Performs (Move lib input) (handleConfigMessage lib msg op) r fun _ r' => Handling lib r' op := by
  unfold handleConfigMessage
  split
  · refine (readConfiguration_performs lib op.request).bind ?_
    rintro config r rfl
    cases config with
    | none => exact Performs.pure hop
    | some config =>
        have hbeside := add_beside hop.peers config
        refine (Performs.updates (.side hbeside (by simp))).mono ?_
        rintro _ _ rfl
        exact hop.of_beside hbeside
  · exact Performs.pure hop

theorem Handling.accept (h : Handling lib r op) :
    Handling lib (acceptPreprepare lib op.recordPreprepare r) op.recordPreprepare :=
  ⟨store_self, h.peers, h.view, h.above⟩

-- The place is free, or has the same request.
theorem free_of_unconflicting {r' : Replica} (hconflict : conflictingPreprepare lib msg r = false)
    (hkey : op.key lib = msg.key lib) (haccepted : r'.acceptedPreprepares = r.acceptedPreprepares) :
    ∀ accepted, r'.acceptedPreprepares (op.view, op.sequence) = some accepted →
      accepted.hash = lib.requestHash op.request := by
  have hplace : (op.view, op.sequence) = (msg.view, msg.sequence) :=
    Prod.ext (congrArg OperationKey.view hkey) (congrArg OperationKey.sequence hkey)
  intro accepted hsome
  rw [haccepted, hplace] at hsome
  simp only [conflictingPreprepare, hsome] at hconflict
  rw [of_not_not (of_decide_eq_false hconflict)]
  exact (congrArg OperationKey.hash hkey).symm

-- What handle_preprepare does once it has accepted.
theorem acceptedPreprepare_performs (msg : PbftMsg) (hop : Handling lib r op) :
    Performs (Move lib input)
      (do
        (if msg.request.isSome ∧ msg.requestOf.type = .newConfig
          then handleConfigMessage lib msg op.recordPreprepare else pure () : Call Unit)
        doPreprepared lib op.recordPreprepare
        maybeAdvanceOperationState lib op.recordPreprepare)
      (acceptPreprepare lib op.recordPreprepare r) fun _ _ => True := by
  have hconfig : Performs (Move lib input)
      (if msg.request.isSome ∧ msg.requestOf.type = .newConfig
        then handleConfigMessage lib msg op.recordPreprepare else pure ())
      (acceptPreprepare lib op.recordPreprepare r) fun _ r' => Handling lib r' op.recordPreprepare := by
    split
    · exact handleConfigMessage_performs hop.accept
    · exact Performs.pure hop.accept
  refine hconfig.bind ?_
  intro _ r' hop'
  refine (broadcastMsg_performs lib _ fun es hes => .sendPrepare hop' rfl hes).bind ?_
  rintro _ _ rfl
  exact maybeAdvanceOperationState_performs hop'

theorem handlePreprepare_performs (hinput : input = .message msg original)
    (htype : msg.type = .preprepare) (hkept : Kept lib r) (hadmitted : Admitted msg r) :
    Performs (Move lib input) (handlePreprepare lib msg) r fun _ _ => True := by
  refine (Performs.reads _).bind ?_
  rintro conflict r ⟨rfl, hconflict⟩
  cases conflict with
  | true => exact Performs.pure trivial
  | false =>
      refine (findOperation_handling hkept hadmitted).bind ?_
      rintro op r' ⟨hop, hkey, haccepted⟩
      have hfree := free_of_unconflicting hconflict.symm hkey haccepted
      refine (Performs.updates (.accept hinput htype hkey hop hfree)).bind ?_
      rintro _ _ rfl
      exact acceptedPreprepare_performs msg hop

theorem handlePrepare_performs (hinput : input = .message msg original) (htype : msg.type = .prepare)
    (hkept : Kept lib r) (hadmitted : Admitted msg r) :
    Performs (Move lib input) (handlePrepare lib msg original) r fun _ _ => True := by
  refine (findOperation_handling hkept hadmitted).bind ?_
  rintro op r' ⟨hop, hkey, _⟩
  refine (Performs.updates (.recordPrepare hinput htype hkey hop)).bind ?_
  rintro _ _ rfl
  exact maybeAdvanceOperationState_performs (hop.store rfl rfl rfl)

theorem handleCommit_performs (hinput : input = .message msg original) (htype : msg.type = .commit)
    (hkept : Kept lib r) (hadmitted : Admitted msg r) :
    Performs (Move lib input) (handleCommit lib msg original) r fun _ _ => True := by
  refine (findOperation_handling hkept hadmitted).bind ?_
  rintro op r' ⟨hop, hkey, _⟩
  refine (Performs.updates (.recordCommit hinput htype hkey hop)).bind ?_
  rintro _ _ rfl
  exact maybeAdvanceOperationState_performs (hop.store rfl rfl rfl)

end Messages

section Requests

theorem quiet_of_sends {wire : Wire} {es : List Effect} (h : Sends r wire es)
    (hwire : ∀ peer, (Effect.send peer wire).isQuiet = true) : ∀ e ∈ es, e.isQuiet = true := by
  intro e he
  obtain ⟨_, _, peer, _, rfl⟩ := h e he
  exact hwire peer

theorem setupRequestOperation_performs (request : Request) (hkept : Kept lib r) :
    Performs (Move lib input) (setupRequestOperation lib request) r fun _ _ => True := by
  refine (Performs.reads _).bind ?_
  rintro sequence r ⟨rfl, _⟩
  refine (Performs.updates (.side ⟨⟨rfl, rfl, rfl, rfl⟩, rfl, rfl⟩ (by simp))).bind ?_
  rintro _ _ rfl
  refine (Performs.reads _).bind ?_
  rintro view _ ⟨rfl, _⟩
  refine Performs.mono (findOperation_performs ?_) fun _ _ _ => trivial
  exact hkept

theorem doPreprepare_performs (op : Operation) :
    Performs (Move lib input) (doPreprepare lib op) r fun _ _ => True := by
  refine (broadcastMsg_performs lib _ ?_).mono fun _ _ _ => trivial
  intro es hes
  exact .side (.refl r) (quiet_of_sends hes fun _ => rfl)

theorem handleRequest_performs (request : Request) (original : String) (hkept : Kept lib r) :
    Performs (Move lib input) (handleRequest lib request original) r fun _ _ => True := by
  refine isPrimary_performs.bind ?_
  rintro primary r rfl
  cases primary with
  | true =>
      refine (setupRequestOperation_performs request hkept).bind ?_
      intro op r' _
      exact doPreprepare_performs op
  | false =>
      refine getPrimary_performs.bind ?_
      rintro primary r rfl
      split
      · refine (Performs.emits (.side (.refl r) ?_)).mono fun _ _ _ => trivial
        simp [Effect.isQuiet]
      · exact Performs.throws _

theorem handleJoinOrLeave_performs (type : MembershipType) (info : PeerInfo) (hkept : Kept lib r) :
    Performs (Move lib input) (handleJoinOrLeave lib type info) r fun _ _ => True := by
  refine isPrimary_performs.bind ?_
  rintro primary r rfl
  cases primary with
  | false => exact Performs.pure trivial
  | true =>
      refine (Performs.reads _).bind ?_
      rintro current r ⟨rfl, hcurrent⟩
      cases current with
      | none => exact Performs.throws _
      | some config =>
          have hpeers : r.configured = some config.sortedPeers := by simp [configured, ← hcurrent]
          simp only
          split
          · refine (Performs.updates (.side (add_beside hpeers _) (by simp))).bind ?_
            rintro _ _ rfl
            refine Performs.bind (setupRequestOperation_performs _ ?_) ?_
            · intro key op hop
              rw [(add_beside hpeers _).configured]
              exact hkept key op hop
            · intro op r' _
              exact doPreprepare_performs op
          · exact Performs.pure trivial

theorem handleMembershipMessage_performs (msg : MembershipMsg) (hkept : Kept lib r) :
    Performs (Move lib input) (handleMembershipMessage lib msg) r fun _ _ => True := by
  unfold handleMembershipMessage
  cases msg.peerInfo with
  | none => exact Performs.pure trivial
  | some info =>
      cases msg.type with
      | join => exact handleJoinOrLeave_performs .join info hkept
      | leave => exact handleJoinOrLeave_performs .leave info hkept
      | undefined => exact Performs.pure trivial

theorem audit_performs (msg : Uuid → AuditMessage) :
    Performs (Move lib input) (broadcastAudit lib msg) r fun _ _ => True :=
  ((broadcastAudit_performs lib msg).of_still fun _ hes => .side (.refl r) hes).mono fun _ _ _ => trivial

theorem handleAuditHeartbeatTimeout_performs (canceled : Bool) :
    Performs (Move lib input) (handleAuditHeartbeatTimeout lib canceled) r fun _ _ => True := by
  cases canceled with
  | true => exact Performs.pure trivial
  | false =>
      refine isPrimary_performs.bind ?_
      rintro primary r rfl
      refine (Performs.reads _).bind ?_
      rintro enabled r ⟨rfl, _⟩
      split
      · refine (Performs.reads _).bind ?_
        rintro view r ⟨rfl, _⟩
        exact audit_performs _
      · exact Performs.pure trivial

theorem handleFailure_performs : Performs (Move lib input) (handleFailure lib) r fun _ _ => True := by
  refine (Performs.reads _).bind ?_
  rintro enabled r ⟨rfl, _⟩
  cases enabled with
  | true => exact audit_performs _
  | false => exact Performs.pure trivial

end Requests

section Checkpoints

theorem maxFaultyNodes_performs : Performs move maxFaultyNodes r fun faulty r' => r' = r ∧
    ∃ peers, r.configured = some peers ∧ faulty = peers.length / 3 := by
  refine currentPeers_performs.bind ?_
  rintro peers r ⟨rfl, hpeers⟩
  exact Performs.pure ⟨rfl, peers, hpeers, rfl⟩

theorem quorumSize_performs : Performs move quorumSize r fun quorum r' => r' = r ∧
    ∃ peers, r.configured = some peers ∧ quorum = 1 + 2 * (peers.length / 3) := by
  refine maxFaultyNodes_performs.bind ?_
  rintro faulty r ⟨rfl, peers, hpeers, rfl⟩
  exact Performs.pure ⟨rfl, peers, hpeers, rfl⟩

theorem touchProof_getD (cp : Checkpoint) (r : Replica) :
    ((touchProof cp r).unstableCheckpointProofs cp).getD ∅ = (r.unstableCheckpointProofs cp).getD ∅ := by
  simp [touchProof]

theorem stabilizeCheckpoint_low (cp : Checkpoint) (r : Replica) :
    (stabilizeCheckpoint cp (.of cp) r).lowWaterMark = max r.lowWaterMark cp.1 := by
  change (if r.lowWaterMark < cp.1 then cp.1 else r.lowWaterMark) = _
  split <;> omega

-- What comes after the clearing reads the checkpoint's number, or the checkpoint is an element that is erased.
theorem laterReads_cases (cp : Checkpoint) (freed : Option Reads) (r : Replica) :
    laterReads cp freed r = .of cp ∨
      (freed.isSome = true ∧ (cp ∈ r.localUnstableCheckpoints → cp.1 < (cp.1 + 1) % 2 ^ 64)) := by
  cases freed with
  | none => exact Or.inl rfl
  | some freed =>
      by_cases hkept : cp ∈ (clearLocalCheckpointsUntil cp r).localUnstableCheckpoints
      · left
        simp only [laterReads, if_pos hkept]
      · right
        refine ⟨rfl, ?_⟩
        intro hlocal
        by_contra hwrap
        refine hkept (Finset.mem_filter.mpr ⟨hlocal, ?_⟩)
        simp only [upTo, hwrap, decide_false, Bool.false_or, Bool.and_eq_false_iff, beq_eq_false_iff_ne]
        left
        omega

-- The number is read as what it is where the checkpoint is not an element, or where not enough have voted.
theorem maybeStabilizeCheckpoint_performs {erased : Prop} {cp : Checkpoint} {freed : Option Reads}
    (herased : freed.isSome = true → cp.1 < (cp.1 + 1) % 2 ^ 64 → r.Voted cp → erased)
    (htouch : cp ∈ r.localUnstableCheckpoints → move r [] (touchProof cp r))
    (hstable : ∀ reads, cp ∈ r.localUnstableCheckpoints → r.Voted cp → (reads = .of cp ∨ erased) →
      move (touchProof cp r) [] (stabilizeCheckpoint cp reads (touchProof cp r))) :
    Performs move (maybeStabilizeCheckpoint cp freed) r fun _ _ => True := by
  refine (Performs.reads _).bind ?_
  rintro reached r ⟨rfl, hreached⟩
  cases reached with
  | false => exact Performs.pure trivial
  | true =>
      have hlocal : cp ∈ r.localUnstableCheckpoints := of_decide_eq_true hreached.symm
      refine (Performs.updates (htouch hlocal)).bind ?_
      rintro _ _ rfl
      refine quorumSize_performs.bind ?_
      rintro quorum _ ⟨rfl, peers, hpeers, rfl⟩
      refine (Performs.reads _).bind ?_
      rintro size _ ⟨rfl, rfl⟩
      split
      · exact Performs.pure trivial
      · rename_i hsize
        rw [touchProof_getD] at hsize
        have hvoted : r.Voted cp := ⟨peers, hpeers, not_lt.mp hsize⟩
        refine (Performs.updates (f := fun r => stabilizeCheckpoint cp (laterReads cp freed r) r) ?_).mono
          fun _ _ _ => trivial
        refine hstable _ hlocal hvoted ?_
        rcases laterReads_cases cp freed (touchProof cp r) with hsame | ⟨hsome, hwrap⟩
        · exact Or.inl hsame
        · exact Or.inr (herased hsome (hwrap hlocal) hvoted)

theorem maybeStabilizeCheckpoint_clears {erased : Prop} {cp : Checkpoint} {freed : Option Reads}
    (herased : freed.isSome = true → cp.1 < (cp.1 + 1) % 2 ^ 64 → r.Voted cp → erased) :
    Performs (Clearing erased) (maybeStabilizeCheckpoint cp freed) r fun _ _ => True :=
  maybeStabilizeCheckpoint_performs herased (fun _ => .side ⟨⟨rfl, rfl, rfl, rfl⟩, rfl, rfl⟩ (by simp))
    fun reads _ _ hreads => .clear cp reads hreads

-- A broadcast that returns has found every host.
theorem sendTo_valid (lib : Library) {wire : Wire} {peers : List PeerAddress}
    (h : (sendTo lib wire peers r).result = .ok ()) : ∀ peer ∈ peers, lib.validAddress peer.host = true := by
  induction peers with
  | nil => simp
  | cons first rest ih =>
      by_cases hvalid : lib.validAddress first.host = true
      · intro peer hpeer
        simp only [sendTo, hvalid, if_true, Handler.emits_bind] at h
        rcases List.mem_cons.mp hpeer with rfl | hpeer
        · exact hvalid
        · exact ih h peer hpeer
      · simp [sendTo, hvalid, Handler.throws] at h

theorem broadcastMsg_reaches (lib : Library) (msg : PbftMsg)
    (hmove : ∀ es, Sends r (.pbft ⟨r.uuid, msg⟩) es → move r es r) :
    Performs move (broadcastMsg lib msg) r fun _ r' => r' = r ∧
      ∀ peers ∈ r.configured, ∀ peer ∈ peers, lib.validAddress peer.host = true := by
  have hsent := broadcastMsg_performs lib msg hmove
  refine ⟨hsent.trail, ?_⟩
  intro _ hresult
  refine ⟨hsent.returns () hresult, ?_⟩
  intro peers hpeers
  have hvalid : Performs (fun _ _ _ => True) (broadcastMsg lib msg) r fun _ _ =>
      ∀ peer ∈ peers, lib.validAddress peer.host = true := by
    refine (Performs.reads _).bind ?_
    rintro uuid _ ⟨rfl, _⟩
    refine currentPeers_performs.bind ?_
    rintro found _ ⟨rfl, hfound⟩
    obtain rfl := Option.some.inj (hpeers.symm.trans hfound)
    exact ⟨.one trivial, fun _ hreturned => sendTo_valid lib hreturned⟩
  exact hvalid.returns () hresult

theorem checkpointReachedLocally_performs (lib : Library) (sequence : Nat) (stateHash : Hash) (freed : Reads) :
    Performs (Clearing (VotesFirst lib r (.checkpointReachedLocally sequence stateHash freed)))
      (checkpointReachedLocally lib sequence stateHash freed) r fun _ _ => True := by
  refine (Performs.updates (.side ⟨⟨rfl, rfl, rfl, rfl⟩, rfl, rfl⟩ (by simp))).bind ?_
  rintro _ reached rfl
  refine (Performs.reads _).bind ?_
  rintro view _ ⟨rfl, _⟩
  refine (broadcastMsg_reaches lib _ ?_).bind ?_
  · intro es hes
    exact .side (.refl _) (quiet_of_sends hes fun _ => rfl)
  · rintro _ _ ⟨rfl, hvalid⟩
    refine maybeStabilizeCheckpoint_clears ?_
    intro _ hwrap hvoted
    exact ⟨hwrap, hvoted, hvalid⟩

theorem handleCheckpoint_performs {erased : Prop} (msg : PbftMsg) (original : Envelope) :
    Performs (Clearing erased) (handleCheckpoint msg original) r fun _ _ => True := by
  refine (Performs.reads _).bind ?_
  rintro old r ⟨rfl, _⟩
  cases old with
  | true => exact Performs.pure trivial
  | false =>
      refine (Performs.updates (.side ⟨⟨rfl, rfl, rfl, rfl⟩, rfl, rfl⟩ (by simp))).bind ?_
      intro _ r' _
      refine maybeStabilizeCheckpoint_clears ?_
      intro hsome
      cases hsome

end Checkpoints

theorem handleMessage_performs (msg : PbftMsg) (original : Envelope) (hkept : Kept lib r)
    (htype : msg.type ≠ .checkpoint) :
    Performs (Move lib (.message msg original)) (handleMessage lib msg original) r fun _ _ => True := by
  refine (Performs.reads _).bind ?_
  rintro filtered r ⟨rfl, hfilter⟩
  cases filtered with
  | false => exact Performs.pure trivial
  | true =>
      cases hmsg : msg.type with
      | preprepare =>
          exact handlePreprepare_performs rfl hmsg hkept
            (preliminaryFilterMsg_admitted hfilter.symm (Or.inl hmsg))
      | prepare =>
          exact handlePrepare_performs rfl hmsg hkept
            (preliminaryFilterMsg_admitted hfilter.symm (Or.inr (Or.inl hmsg)))
      | commit =>
          exact handleCommit_performs rfl hmsg hkept
            (preliminaryFilterMsg_admitted hfilter.symm (Or.inr (Or.inr hmsg)))
      | checkpoint => exact absurd hmsg htype
      | undefined => exact Performs.throws _

theorem handleMessage_clears {erased : Prop} (lib : Library) (msg : PbftMsg) (original : Envelope)
    (htype : msg.type = .checkpoint) :
    Performs (Clearing erased) (handleMessage lib msg original) r fun _ _ => True := by
  refine (Performs.reads _).bind ?_
  rintro filtered r ⟨rfl, _⟩
  cases filtered with
  | false => exact Performs.pure trivial
  | true =>
      simp only [htype]
      exact handleCheckpoint_performs msg original

-- What one call can do.
theorem handler_turn (lib : Library) (input : Input) (hkept : Kept lib r) :
    Turn lib input r (input.handler lib r).effects (input.handler lib r).state := by
  cases input with
  | message msg original =>
      by_cases htype : msg.type = .checkpoint
      · exact Or.inr (handleMessage_clears lib msg original htype).trail
      · exact Or.inl (handleMessage_performs msg original hkept htype).trail
  | request req original => exact Or.inl (handleRequest_performs req original hkept).trail
  | membership msg => exact Or.inl (handleMembershipMessage_performs msg hkept).trail
  | checkpointReachedLocally sequence stateHash freed =>
      exact Or.inr (checkpointReachedLocally_performs lib sequence stateHash freed).trail
  | auditHeartbeatTimeout canceled => exact Or.inl (handleAuditHeartbeatTimeout_performs canceled).trail
  | failure => exact Or.inl handleFailure_performs.trail

end Replica

end SwarmDB.Pbft
