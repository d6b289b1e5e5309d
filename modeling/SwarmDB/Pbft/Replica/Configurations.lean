import SwarmDB.Pbft.Replica.Move

namespace SwarmDB.Pbft

open Replica

section Proposals

variable (lib : Library)

-- The configuration that a request holds, if from_string takes it.
def Request.readable (request : Request) : Option Configuration :=
  let read := Configuration.fromString lib.toCodec request.configuration {}
  match read.result with
  | .ok true => some read.state
  | .ok false | .error _ => none

-- The configuration that is enabled when the request is prepared, and clears away the earlier ones
-- when it is committed.
def Request.proposes (request : Request) : Option Configuration :=
  if request.type = .newConfig ∧ request.hasConfig = true then request.readable lib else none

-- The configuration that an accepted preprepare adds.
def PbftMsg.brings (msg : PbftMsg) (request : Request) : Option Configuration :=
  if msg.request.isSome ∧ msg.requestOf.type = .newConfig then request.readable lib else none

def hashes (found : Option Configuration) : List Hash := (found.map Configuration.cachedHash).toList

-- What becomes of the store where there is a configuration.
def withConfiguration (f : Configuration → ConfigStore → ConfigStore) (found : Option Configuration)
    (r : Replica) : Replica :=
  match found with
  | some config => updateConfigurations (f config) r
  | none => r

@[simp] theorem withConfiguration_operations (f : Configuration → ConfigStore → ConfigStore)
    (found : Option Configuration) (r : Replica) :
    (withConfiguration f found r).operations = r.operations := by
  unfold withConfiguration
  split <;> rfl

def adding (config : Configuration) (store : ConfigStore) : ConfigStore := store.add config

def enabling (config : Configuration) (store : ConfigStore) : ConfigStore := (store.enable config.cachedHash).2

def removingPrior (config : Configuration) (store : ConfigStore) : ConfigStore :=
  (store.removePriorTo config.cachedHash).2

-- The primary adds the configuration that a peer joins or leaves by.
def addsByMembership (r : Replica) (type : MembershipType) (info : PeerInfo) : List Hash :=
  match (isPrimary r).result, r.configurations.current with
  | .ok true, some config =>
    let changed := changedConfiguration lib type info.address config
    if changed.1 then [changed.2.cachedHash] else []
  | _, _ => []

def MembershipMsg.adds (msg : MembershipMsg) (r : Replica) : List Hash :=
  match msg.peerInfo with
  | none => []
  | some info =>
    match msg.type with
    | .join | .leave => addsByMembership lib r msg.type info
    | .undefined => []

-- The hashes of the configurations that a call adds to the store.
def Input.adds (r : Replica) : Input → List Hash
  | .message msg _ =>
    if msg.type = .preprepare ∧ preliminaryFilterMsg msg r = true ∧ conflictingPreprepare lib msg r = false then
      hashes (msg.brings lib msg.requestOf)
    else []
  | .membership msg => msg.adds lib r
  | .request _ _ | .checkpointReachedLocally .. | .auditHeartbeatTimeout _ | .failure => []

end Proposals

section Progress

variable (lib : Library) (input : Input)

-- The records that a call may make: a message is about one operation, a request about any.
def Input.touches (key : OperationKey) : Input → Prop
  | .message msg _ => key = msg.key lib
  | .request _ _ | .membership _ => True
  | .checkpointReachedLocally .. | .auditHeartbeatTimeout _ | .failure => False

-- The same record with more votes.
structure SameRecord (op changed : Operation) : Prop where
  key : changed.key lib = op.key lib
  request : changed.request = op.request
  peers : changed.peers = op.peers
  state : changed.state = op.state
  preprepareSeen : changed.preprepareSeen = op.preprepareSeen

-- What a replica does about operations and configurations, one thing at a time, with the hashes of the
-- configurations it adds.
inductive Progress : Replica → List Hash → Replica → Prop
  | aside {r r' : Replica} (hoperations : r'.operations = r.operations)
      (hconfigurations : r'.configurations = r.configurations) : Progress r [] r'
  | create {r : Replica} {op : Operation} (hnew : r.operations (op.key lib) = none)
      (hpeers : r.configured = some op.peers)
      (hop : op = { view := op.view, sequence := op.sequence, request := op.request, peers := op.peers })
      (htouches : input.touches lib (op.key lib)) : Progress r [] (store lib op r)
  | record {r : Replica} {op changed : Operation} (hstored : r.operations (op.key lib) = some op)
      (hchanged : SameRecord lib op changed) : Progress r [] (store lib changed r)
  | accept {r : Replica} {op : Operation} {msg : PbftMsg} (hstored : r.operations (op.key lib) = some op)
      (hkey : op.key lib = msg.key lib) :
      Progress r (hashes (msg.brings lib op.request))
        (withConfiguration adding (msg.brings lib op.request) (acceptPreprepare lib op.recordPreprepare r))
  | propose {r : Replica} (config : Configuration) :
      Progress r [config.cachedHash] (updateConfigurations (adding config) r)
  | prepare {r : Replica} {op : Operation} (hstored : r.operations (op.key lib) = some op)
      (hstate : op.state = .prepare) (hseen : op.preprepareSeen = true) :
      Progress r [] (store lib { op with state := .commit }
        (withConfiguration enabling (op.request.proposes lib) r))
  | commit {r : Replica} {op : Operation} (hstored : r.operations (op.key lib) = some op)
      (hstate : op.state = .commit) (hseen : op.preprepareSeen = true) :
      Progress r [] (store lib { op with state := .committed }
        (withConfiguration removingPrior (op.request.proposes lib) r))

-- A step that adds nothing.
def Quietly (r : Replica) (_ : List Effect) (r' : Replica) : Prop := Progress lib input r [] r'

-- Records are kept under their keys.
def Keyed (r : Replica) : Prop := ∀ key op, r.operations key = some op → op.key lib = key

end Progress

namespace Replica

variable {lib : Library} {input : Input} {r : Replica} {op : Operation} {peers : List PeerAddress} {msg : PbftMsg}

section Steps

theorem quietly_of_still {P : Effect → Prop} {α : Type} {m : Call α} {post : α → Replica → Prop}
    (h : Performs (Still P) m r post) : Performs (Quietly lib input) m r fun _ r' => r' = r :=
  (h.of_still fun _ _ => .aside rfl rfl).mono fun _ _ hpost => hpost.1

theorem updates_quietly {f : Replica → Replica} (h : Progress lib input r [] (f r)) :
    Performs (Quietly lib input) (Handler.updates f : Call Unit) r fun _ r' => r' = f r := by
  have hquiet : Quietly lib input r [] (f r) := h
  exact Performs.updates hquiet

theorem broadcastMsg_quietly (lib : Library) (msg : PbftMsg) :
    Performs (Quietly lib input) (broadcastMsg lib msg) r fun _ r' => r' = r :=
  broadcastMsg_performs lib msg fun _ _ => .aside rfl rfl

theorem readConfiguration_run (lib : Library) (request : Request) (r : Replica) :
    (∃ e, readConfiguration lib request r = ⟨r, [], .error e⟩ ∧ request.readable lib = none) ∨
      readConfiguration lib request r = ⟨r, [], .ok (request.readable lib)⟩ := by
  unfold readConfiguration Request.readable
  simp only
  cases (Configuration.fromString lib.toCodec request.configuration {}).result with
  | error e => exact Or.inl ⟨e, rfl, rfl⟩
  | ok good => cases good <;> exact Or.inr rfl

-- Where the text throws nothing has happened yet.
theorem withNewConfiguration_run (lib : Library) (op : Operation) (f : Hash → ConfigStore → ConfigStore) (r : Replica) :
    (∃ e, withNewConfiguration lib op f r = ⟨r, [], .error e⟩) ∨
      withNewConfiguration lib op f r =
        ⟨withConfiguration (fun config => f config.cachedHash) (op.request.proposes lib) r, [], .ok ()⟩ := by
  unfold withNewConfiguration Request.proposes
  split
  · rcases readConfiguration_run lib op.request r with ⟨e, hread, _⟩ | hread
    · refine Or.inl ⟨e, ?_⟩
      simp [Bind.bind, Handler.bind, hread]
    · right
      rw [Handler.bind_ok hread]
      cases op.request.readable lib with
      | none => rfl
      | some config => rfl
  · exact Or.inr rfl

theorem findOperation_found (view sequence : Nat) (request : Request) (hkeyed : Keyed lib r)
    (hpeers : r.configured = some peers) (htouches : input.touches lib ⟨view, sequence, lib.requestHash request⟩) :
    ∃ op r', findOperation lib view sequence request r = ⟨r', [], .ok op⟩ ∧
      op.key lib = ⟨view, sequence, lib.requestHash request⟩ ∧ r'.operations (op.key lib) = some op ∧
      Progress lib input r [] r' ∧ r'.configurations = r.configurations := by
  cases hfound : r.operations ⟨view, sequence, lib.requestHash request⟩ with
  | some op =>
      have hkey := hkeyed _ op hfound
      refine ⟨op, r, ?_, hkey, ?_, .aside rfl rfl, rfl⟩
      · simp [findOperation, Bind.bind, Handler.bind, Handler.reads, hfound, Pure.pure]
      · rw [hkey, hfound]
  | none =>
      obtain ⟨current, hcurrent, hsorted⟩ := Option.map_eq_some_iff.mp hpeers
      let op : Operation := { view := view, sequence := sequence, request := request, peers := peers }
      refine ⟨op, store lib op r, ?_, rfl, store_self, .create hfound hpeers rfl htouches, rfl⟩
      simp [findOperation, Bind.bind, Handler.bind, Handler.reads, hfound, Pure.pure, Handler.updates,
        currentPeers, hcurrent, hsorted, op]

theorem findOperation_quietly (view sequence : Nat) (request : Request) (hkeyed : Keyed lib r)
    (hpeers : r.configured = some peers) (htouches : input.touches lib ⟨view, sequence, lib.requestHash request⟩) :
    Performs (Quietly lib input) (findOperation lib view sequence request) r fun op r' =>
      op.key lib = ⟨view, sequence, lib.requestHash request⟩ ∧ r'.operations (op.key lib) = some op := by
  obtain ⟨op, r', hrun, hkey, hstored, hprogress, _⟩ := findOperation_found view sequence request hkeyed hpeers htouches
  refine ⟨?_, ?_⟩
  · rw [hrun]
    exact .one hprogress
  · intro found hresult
    rw [hrun] at hresult ⊢
    obtain rfl := Except.ok.inj hresult
    exact ⟨hkey, hstored⟩

theorem doPrepared_quietly (hstored : r.operations (op.key lib) = some op) (hstate : op.state = .prepare)
    (hprepared : op.isPrepared = true) :
    Performs (Quietly lib input) (doPrepared lib op) r fun moved r' =>
      moved = { op with state := .commit } ∧ r'.operations (op.key lib) = some moved := by
  have hseen : op.preprepareSeen = true := (Bool.and_eq_true_iff.mp hprepared).1
  have hphase : op.beginCommitPhase = .ok { op with state := .commit } := by
    simp [Operation.beginCommitPhase, hprepared, hstate]
  rcases withNewConfiguration_run lib op (fun hash store => (store.enable hash).2) r with ⟨e, hwith⟩ | hwith
  · have hrun : doPrepared lib op r = ⟨r, [], .error e⟩ := by
      simp [doPrepared, Bind.bind, Handler.bind, hwith]
    refine ⟨?_, ?_⟩
    · rw [hrun]
      exact .rest
    · intro moved hresult
      rw [hrun] at hresult
      cases hresult
  · let moved : Operation := { op with state := .commit }
    refine Performs.silently (n := broadcastMsg lib (commonMessageSetup moved .commit) >>= fun _ => pure moved)
      (Progress.prepare hstored hstate hseen) ?_ ?_
    · simp [doPrepared, Bind.bind, Handler.bind, hwith, hphase, Handler.updates]
      rfl
    · apply (broadcastMsg_quietly lib _).bind
      rintro _ _ rfl
      exact Performs.pure ⟨rfl, store_self⟩

theorem doCommitted_quietly (hstored : r.operations (op.key lib) = some op) (hstate : op.state = .commit)
    (hcommitted : op.isCommitted = true) : Performs (Quietly lib input) (doCommitted lib op) r fun _ _ => True := by
  have hprepared : op.isPrepared = true := (Bool.and_eq_true_iff.mp hcommitted).1
  have hseen : op.preprepareSeen = true := (Bool.and_eq_true_iff.mp hprepared).1
  have hphase : op.endCommitPhase = .ok { op with state := .committed } := by
    simp [Operation.endCommitPhase, hcommitted, hstate]
  rcases withNewConfiguration_run lib op (fun hash store => (store.removePriorTo hash).2) r with ⟨e, hwith⟩ | hwith
  · have hrun : doCommitted lib op r = ⟨r, [], .error e⟩ := by
      simp [doCommitted, Bind.bind, Handler.bind, hwith]
    refine ⟨?_, fun _ _ => trivial⟩
    rw [hrun]
    exact .rest
  · let moved : Operation := { op with state := .committed }
    refine Performs.silently (n := auditCommit lib moved >>= fun _ =>
      findOperation lib moved.view moved.sequence moved.request >>= fun op => Handler.emits (.applyOperation op))
      (Progress.commit hstored hstate hseen) ?_ ?_
    · simp [doCommitted, finishOperation, Bind.bind, Handler.bind, hwith, hphase, Handler.updates]
      rfl
    · apply (quietly_of_still (auditCommit_performs lib moved)).bind
      rintro _ _ rfl
      refine ⟨?_, fun _ _ => trivial⟩
      have hmoved : (store lib moved (withConfiguration removingPrior (op.request.proposes lib) r)).operations
          (moved.key lib) = some moved := store_self
      rw [Handler.bind_ok (findOperation_stored hmoved)]
      exact .one (.aside rfl rfl)

theorem maybeAdvanceOperationState_quietly (hstored : r.operations (op.key lib) = some op) :
    Performs (Quietly lib input) (maybeAdvanceOperationState lib op) r fun _ _ => True := by
  have hfirst : Performs (Quietly lib input)
      (if op.state = .prepare ∧ op.isPrepared = true then doPrepared lib op else pure op) r
      fun moved r' => r'.operations (moved.key lib) = some moved := by
    split
    · rename_i hready
      apply (doPrepared_quietly hstored hready.1 hready.2).mono
      rintro _ r' ⟨rfl, hmoved⟩
      exact hmoved
    · exact Performs.pure hstored
  apply hfirst.bind
  intro moved r' hmoved
  split
  · rename_i hready
    exact doCommitted_quietly hmoved hready.1 hready.2
  · exact Performs.pure trivial

end Steps

section Handlers

variable {original : Envelope}

theorem handleConfigMessage_run (htype : msg.type = .preprepare) (r : Replica) (op : Operation) :
    (∃ e, handleConfigMessage lib msg op r = ⟨r, [], .error e⟩ ∧ op.request.readable lib = none) ∨
      handleConfigMessage lib msg op r =
        ⟨withConfiguration adding (op.request.readable lib) r, [], .ok ()⟩ := by
  unfold handleConfigMessage
  rw [if_pos htype]
  rcases readConfiguration_run lib op.request r with ⟨e, hread, hnone⟩ | hread
  · exact Or.inl ⟨e, by simp [Bind.bind, Handler.bind, hread], hnone⟩
  · right
    rw [Handler.bind_ok hread]
    cases op.request.readable lib with
    | none => rfl
    | some config => rfl

-- The preprepare is recorded and its configuration added, whether or not the prepare gets out.
theorem handlePreprepare_progress (htype : msg.type = .preprepare) (hkeyed : Keyed lib r)
    (hpeers : r.configured = some peers) (hfree : conflictingPreprepare lib msg r = false)
    (htouches : input.touches lib (msg.key lib)) :
    ∃ op : Operation, op.key lib = msg.key lib ∧
      Trail (Progress lib input) r (hashes (msg.brings lib op.request)) (handlePreprepare lib msg r).state := by
  obtain ⟨op, r₁, hrun, hkey, hstored, hfound, _⟩ :=
    findOperation_found msg.view msg.sequence msg.requestOf hkeyed hpeers htouches
  refine ⟨op, hkey, ?_⟩
  let seen := op.recordPreprepare
  let r₂ := acceptPreprepare lib seen r₁
  let config : Call Unit :=
    if msg.request.isSome ∧ msg.requestOf.type = .newConfig then handleConfigMessage lib msg seen else pure ()
  let rest : Call Unit := doPreprepared lib seen >>= fun _ => maybeAdvanceOperationState lib seen
  have hhandler : handlePreprepare lib msg r = (config >>= fun _ => rest) r₂ := by
    simp [handlePreprepare, Bind.bind, Handler.bind, Handler.reads, hfree, hrun, Handler.updates]
    rfl
  have hstep : Progress lib input r₁ (hashes (msg.brings lib op.request))
      (withConfiguration adding (msg.brings lib op.request) r₂) := .accept hstored hkey
  have haccept := Trail.next (.one hfound) hstep
  rw [List.nil_append] at haccept
  have hconfig : (∃ e, config r₂ = ⟨r₂, [], .error e⟩ ∧ msg.brings lib op.request = none) ∨
      config r₂ = ⟨withConfiguration adding (msg.brings lib op.request) r₂, [], .ok ()⟩ := by
    simp only [config, PbftMsg.brings]
    split
    · exact handleConfigMessage_run htype r₂ seen
    · exact Or.inr rfl
  rcases hconfig with ⟨e, hthrown, hnone⟩ | hdone
  · have hstate : (handlePreprepare lib msg r).state = r₂ := by
      rw [hhandler]
      simp [Bind.bind, Handler.bind, hthrown]
    rw [hstate]
    rw [hnone] at haccept ⊢
    exact haccept
  · have hstate : (handlePreprepare lib msg r).state =
        (rest (withConfiguration adding (msg.brings lib op.request) r₂)).state := by
      rw [hhandler, Handler.bind_ok hdone]
    have hrest : Performs (Quietly lib input) rest (withConfiguration adding (msg.brings lib op.request) r₂)
        fun _ _ => True := by
      apply (broadcastMsg_quietly lib _).bind
      rintro _ _ rfl
      apply maybeAdvanceOperationState_quietly
      rw [withConfiguration_operations]
      exact store_self
    rw [hstate]
    simpa using haccept.append (hrest.trail.unlabelled fun _ _ _ hstep => hstep)

theorem handlePrepare_quietly (original : Envelope) (hkeyed : Keyed lib r) (hpeers : r.configured = some peers)
    (htouches : input.touches lib (msg.key lib)) :
    Performs (Quietly lib input) (handlePrepare lib msg original) r fun _ _ => True := by
  apply (findOperation_quietly _ _ _ hkeyed hpeers htouches).bind
  rintro op r' ⟨_, hstored⟩
  have hrecord : Progress lib input r' [] (store lib (op.recordPrepare original.sender) r') :=
    .record hstored ⟨rfl, rfl, rfl, rfl, rfl⟩
  apply (updates_quietly hrecord).bind
  rintro _ _ rfl
  exact maybeAdvanceOperationState_quietly store_self

theorem handleCommit_quietly (original : Envelope) (hkeyed : Keyed lib r) (hpeers : r.configured = some peers)
    (htouches : input.touches lib (msg.key lib)) :
    Performs (Quietly lib input) (handleCommit lib msg original) r fun _ _ => True := by
  apply (findOperation_quietly _ _ _ hkeyed hpeers htouches).bind
  rintro op r' ⟨_, hstored⟩
  have hrecord : Progress lib input r' [] (store lib (op.recordCommit original.sender) r') :=
    .record hstored ⟨rfl, rfl, rfl, rfl, rfl⟩
  apply (updates_quietly hrecord).bind
  rintro _ _ rfl
  exact maybeAdvanceOperationState_quietly store_self

theorem setupRequestOperation_quietly (request : Request) (hkeyed : Keyed lib r)
    (hpeers : r.configured = some peers) (htouches : ∀ key, input.touches lib key) :
    Performs (Quietly lib input) (setupRequestOperation lib request) r fun _ _ => True := by
  apply (Performs.reads _).bind
  rintro sequence r ⟨rfl, _⟩
  have hissued : Progress lib input r [] { r with nextIssuedSequenceNumber := (sequence + 1) % 2 ^ 64 } :=
    .aside rfl rfl
  apply (updates_quietly hissued).bind
  rintro _ _ rfl
  apply (Performs.reads _).bind
  rintro view _ ⟨rfl, _⟩
  have hkeyed' : Keyed lib { r with nextIssuedSequenceNumber := (sequence + 1) % 2 ^ 64 } := hkeyed
  exact (findOperation_quietly view sequence request hkeyed' hpeers (htouches _)).mono fun _ _ _ => trivial

theorem doPreprepare_quietly (op : Operation) : Performs (Quietly lib input) (doPreprepare lib op) r fun _ _ => True :=
  (broadcastMsg_quietly lib _).mono fun _ _ _ => trivial

theorem handleRequest_quietly (request : Request) (original : String) (hkeyed : Keyed lib r)
    (hpeers : r.configured = some peers) (htouches : ∀ key, input.touches lib key) :
    Performs (Quietly lib input) (handleRequest lib request original) r fun _ _ => True := by
  apply isPrimary_performs.bind
  rintro primary r rfl
  cases primary with
  | true =>
      apply (setupRequestOperation_quietly request hkeyed hpeers htouches).bind
      intro op r' _
      exact doPreprepare_quietly op
  | false =>
      apply getPrimary_performs.bind
      rintro primary r rfl
      split
      · exact (Performs.emits (Progress.aside rfl rfl)).mono fun _ _ _ => trivial
      · exact Performs.throws _

theorem isPrimary_run (r : Replica) : isPrimary r = ⟨r, [], (isPrimary r).result⟩ := by
  unfold isPrimary getPrimary currentPeers
  simp only [Bind.bind, Handler.bind, Handler.reads]
  cases r.configurations.current with
  | none => rfl
  | some config =>
      simp only [Pure.pure]
      cases config.sortedPeers[r.view % config.sortedPeers.length]? with
      | none => rfl
      | some primary => rfl

-- The primary adds the configuration at once, before anybody has answered.
theorem handleJoinOrLeave_progress (type : MembershipType) (info : PeerInfo) (hkeyed : Keyed lib r)
    (hpeers : r.configured = some peers) (htouches : ∀ key, input.touches lib key) :
    Trail (Progress lib input) r (addsByMembership lib r type info) (handleJoinOrLeave lib type info r).state := by
  obtain ⟨config, hcurrent, _⟩ := Option.map_eq_some_iff.mp hpeers
  have hprimary := isPrimary_run r
  unfold addsByMembership
  rw [hcurrent]
  cases hresult : (isPrimary r).result with
  | error e =>
      rw [hresult] at hprimary
      have hrun : (handleJoinOrLeave lib type info r).state = r := by
        simp [handleJoinOrLeave, Bind.bind, Handler.bind, hprimary]
      rw [hrun]
      exact .rest
  | ok primary =>
      rw [hresult] at hprimary
      cases primary with
      | false =>
          have hrun : (handleJoinOrLeave lib type info r).state = r := by
            simp [handleJoinOrLeave, Bind.bind, Handler.bind, hprimary, Pure.pure]
          rw [hrun]
          exact .rest
      | true =>
          let changed := changedConfiguration lib type info.address config
          by_cases hchanged : changed.1 = true
          · have hrun : (handleJoinOrLeave lib type info r).state =
                (broadcastNewConfiguration lib changed.2 (updateConfigurations (adding changed.2) r)).state := by
              simp [handleJoinOrLeave, Bind.bind, Handler.bind, hprimary, Handler.reads, hcurrent,
                show (changedConfiguration lib type info.address config).1 = true from hchanged, Handler.updates]
              rfl
            have hpeers' : (updateConfigurations (adding changed.2) r).configured = some peers :=
              (add_beside hpeers changed.2).configured.trans hpeers
            have hrest : Performs (Quietly lib input) (broadcastNewConfiguration lib changed.2)
                (updateConfigurations (adding changed.2) r) fun _ _ => True := by
              refine (setupRequestOperation_quietly _ ?_ hpeers' htouches).bind ?_
              · exact hkeyed
              · exact fun op _ _ => doPreprepare_quietly op
            have htrail := (Trail.one (Progress.propose changed.2)).append
              (hrest.trail.unlabelled fun _ _ _ hstep => hstep)
            rw [hrun]
            simpa [changed, hchanged] using htrail
          · have hrun : (handleJoinOrLeave lib type info r).state = r := by
              simp [handleJoinOrLeave, Bind.bind, Handler.bind, hprimary, Handler.reads, hcurrent,
                show ¬(changedConfiguration lib type info.address config).1 = true from hchanged, Pure.pure]
            rw [hrun]
            simp only
            rw [if_neg hchanged]
            exact .rest

theorem handleMembershipMessage_progress (msg : MembershipMsg) (hkeyed : Keyed lib r)
    (hpeers : r.configured = some peers) (htouches : ∀ key, input.touches lib key) :
    Trail (Progress lib input) r (msg.adds lib r) (handleMembershipMessage lib msg r).state := by
  obtain ⟨type, peerInfo⟩ := msg
  cases peerInfo with
  | none => exact .rest
  | some info =>
      cases type with
      | join => exact handleJoinOrLeave_progress .join info hkeyed hpeers htouches
      | leave => exact handleJoinOrLeave_progress .leave info hkeyed hpeers htouches
      | undefined => exact .rest

theorem audit_quietly (msg : Uuid → AuditMessage) :
    Performs (Quietly lib input) (broadcastAudit lib msg) r fun _ _ => True :=
  (quietly_of_still (broadcastAudit_performs lib msg)).mono fun _ _ _ => trivial

theorem handleAuditHeartbeatTimeout_quietly (canceled : Bool) :
    Performs (Quietly lib input) (handleAuditHeartbeatTimeout lib canceled) r fun _ _ => True := by
  cases canceled with
  | true => exact Performs.pure trivial
  | false =>
      apply isPrimary_performs.bind
      rintro primary r rfl
      apply (Performs.reads _).bind
      rintro enabled r ⟨rfl, _⟩
      split
      · apply (Performs.reads _).bind
        rintro view r ⟨rfl, _⟩
        exact audit_quietly _
      · exact Performs.pure trivial

theorem handleFailure_quietly : Performs (Quietly lib input) (handleFailure lib) r fun _ _ => True := by
  apply (Performs.reads _).bind
  rintro enabled r ⟨rfl, _⟩
  cases enabled with
  | true => exact audit_quietly _
  | false => exact Performs.pure trivial

end Handlers

section Checkpoints

-- Records may go, the configurations stay.
structure Thins (r : Replica) (_ : List Effect) (r' : Replica) : Prop where
  configurations : r'.configurations = r.configurations
  operations : ∀ key op, r'.operations key = some op → r.operations key = some op

theorem Thins.of_trail {es : List Effect} {r' : Replica} (h : Trail Thins r es r') : Thins r [] r' := by
  refine h.invariant (I := fun _ r' => Thins r [] r') (p := []) ?_ ⟨rfl, fun _ _ hop => hop⟩
  intro _ r₁ _ r₂ hthins hstep
  exact ⟨hstep.configurations.trans hthins.configurations,
    fun key op hop => hthins.operations key op (hstep.operations key op hop)⟩

theorem maybeStabilizeCheckpoint_thins (cp : Checkpoint) (freed : Option Reads) :
    Performs Thins (maybeStabilizeCheckpoint cp freed) r fun _ _ => True :=
  maybeStabilizeCheckpoint_performs (fun _ _ _ => True.intro) (fun _ => ⟨rfl, fun _ _ hop => hop⟩)
    fun _ _ _ _ => ⟨rfl, fun _ _ hop => Option.eq_some_of_filter_eq_some hop⟩

theorem checkpointReachedLocally_thins (lib : Library) (sequence : Nat) (stateHash : Hash) (freed : Reads) :
    Performs Thins (checkpointReachedLocally lib sequence stateHash freed) r fun _ _ => True := by
  apply (Performs.updates (f := addLocalCheckpoint (sequence, stateHash)) ⟨rfl, fun _ _ hop => hop⟩).bind
  rintro _ _ rfl
  apply (Performs.reads _).bind
  rintro view _ ⟨rfl, _⟩
  apply (broadcastMsg_performs lib _ fun _ _ => ⟨rfl, fun _ _ hop => hop⟩).bind
  intro _ r' _
  exact maybeStabilizeCheckpoint_thins _ _

theorem handleCheckpoint_thins (msg : PbftMsg) (original : Envelope) :
    Performs Thins (handleCheckpoint msg original) r fun _ _ => True := by
  apply (Performs.reads _).bind
  rintro old r ⟨rfl, _⟩
  cases old with
  | true => exact Performs.pure trivial
  | false =>
      apply (Performs.updates (f := addProof (msg.sequence, msg.stateHash) original) ⟨rfl, fun _ _ hop => hop⟩).bind
      intro _ r' _
      exact maybeStabilizeCheckpoint_thins _ _

end Checkpoints

-- A call either goes on with the operations, and adds what can be told from the input, or only thins
-- them out.
inductive Evolves (lib : Library) (input : Input) (r r' : Replica) : Prop
  | progresses (adds : List Hash) (htrail : Trail (Progress lib input) r adds r')
      (hadds : Function.Injective lib.requestHash → adds = input.adds lib r)
  | thins (hthins : Thins r [] r') (hadds : input.adds lib r = [])

theorem Evolves.quietly {m : Call Unit} {post : Unit → Replica → Prop}
    (h : Performs (Quietly lib input) m r post) (hadds : input.adds lib r = []) : Evolves lib input r (m r).state :=
  .progresses [] (h.trail.unlabelled fun _ _ _ hstep => hstep) fun _ => hadds.symm

theorem handleMessage_admitted {original : Envelope} (hfilter : preliminaryFilterMsg msg r = true) :
    handleMessage lib msg original r =
      (match msg.type with
        | .preprepare => handlePreprepare lib msg
        | .prepare => handlePrepare lib msg original
        | .commit => handleCommit lib msg original
        | .checkpoint => handleCheckpoint msg original
        | .undefined => Handler.throws (.runtimeError "Unsupported message type")) r := by
  have hread : (Handler.reads (preliminaryFilterMsg msg) : Call Bool) r = ⟨r, [], .ok true⟩ := by
    simp [Handler.reads, hfilter]
  rw [handleMessage, Handler.bind_ok hread]
  rfl

theorem handleMessage_evolves (msg : PbftMsg) (original : Envelope) (hkeyed : Keyed lib r)
    (hpeers : r.configured = some peers) :
    Evolves lib (.message msg original) r (handleMessage lib msg original r).state := by
  have hother : msg.type ≠ .preprepare → (Input.message msg original).adds lib r = [] := by
    intro htype
    simp [Input.adds, htype]
  cases hfilter : preliminaryFilterMsg msg r with
  | false =>
      have hrun : (handleMessage lib msg original r).state = r := by
        simp [handleMessage, Bind.bind, Handler.bind, Handler.reads, hfilter, Pure.pure]
      rw [hrun]
      exact .progresses [] .rest fun _ => by simp [Input.adds, hfilter]
  | true =>
      cases hmsg : msg.type with
      | preprepare =>
          simp only [handleMessage_admitted hfilter, hmsg]
          cases hconflict : conflictingPreprepare lib msg r with
          | true =>
              have hstate : (handlePreprepare lib msg r).state = r := by
                simp [handlePreprepare, Bind.bind, Handler.bind, Handler.reads, hconflict, Pure.pure]
              rw [hstate]
              exact .progresses [] .rest fun _ => by simp [Input.adds, hconflict]
          | false =>
              have htouches : (Input.message msg original).touches lib (msg.key lib) := rfl
              obtain ⟨op, hkey, htrail⟩ := handlePreprepare_progress hmsg hkeyed hpeers hconflict htouches
              refine .progresses _ htrail ?_
              intro hinj
              have hrequest : op.request = msg.requestOf := hinj (congrArg OperationKey.hash hkey)
              simp [Input.adds, hmsg, hfilter, hconflict, hrequest]
      | prepare =>
          simp only [handleMessage_admitted hfilter, hmsg]
          exact .quietly (handlePrepare_quietly original hkeyed hpeers rfl) (hother (by simp [hmsg]))
      | commit =>
          simp only [handleMessage_admitted hfilter, hmsg]
          exact .quietly (handleCommit_quietly original hkeyed hpeers rfl) (hother (by simp [hmsg]))
      | checkpoint =>
          simp only [handleMessage_admitted hfilter, hmsg]
          exact .thins (.of_trail (handleCheckpoint_thins msg original).trail) (hother (by simp [hmsg]))
      | undefined =>
          simp only [handleMessage_admitted hfilter, hmsg]
          exact .progresses [] .rest fun _ => (hother (by simp [hmsg])).symm

theorem handler_evolves (input : Input) (hkeyed : Keyed lib r) (hpeers : r.configured = some peers) :
    Evolves lib input r (input.handler lib r).state := by
  cases input with
  | message msg original => exact handleMessage_evolves msg original hkeyed hpeers
  | request req original => exact .quietly (handleRequest_quietly req original hkeyed hpeers fun _ => trivial) rfl
  | membership msg =>
      exact .progresses _ (handleMembershipMessage_progress msg hkeyed hpeers fun _ => trivial) fun _ => rfl
  | checkpointReachedLocally sequence stateHash freed =>
      exact .thins (.of_trail (checkpointReachedLocally_thins lib sequence stateHash freed).trail) rfl
  | auditHeartbeatTimeout canceled => exact .quietly (handleAuditHeartbeatTimeout_quietly canceled) rfl
  | failure => exact .quietly handleFailure_quietly rfl

end Replica

end SwarmDB.Pbft
