import SwarmDB.Pbft.Replica.Ordering
import SwarmDB.Pbft.Replica.Primary

namespace SwarmDB.Pbft

open Replica Handler

variable {lib : Library} {r r' r'' : Replica} {op later : Operation} {es fs : List Effect}
  {key : OperationKey} {msg : PbftMsg} {original : Envelope}

section Broadcasts

-- Every configured peer was sent a message of this type for the operation.
def Spread (lib : Library) (r : Replica) (es : List Effect) (type : MsgType) (key : OperationKey) : Prop :=
  ∀ peers, r.configured = some peers → ∀ peer ∈ peers, ∃ msg : PbftMsg, msg.type = type ∧ msg.key lib = key ∧
    .send peer (.pbft ⟨r.uuid, msg⟩) ∈ es

theorem Spread.mono {type : MsgType} (h : Spread lib r es type key) (huuid : r'.uuid = r.uuid)
    (hconfigured : r'.configured = r.configured) (hes : ∀ e ∈ es, e ∈ fs) : Spread lib r' fs type key := by
  intro peers hpeers peer hpeer
  rw [hconfigured] at hpeers
  obtain ⟨msg, htype, hkey, hmem⟩ := h peers hpeers peer hpeer
  rw [huuid]
  exact ⟨msg, htype, hkey, hes _ hmem⟩

theorem sendTo_returns (lib : Library) (wire : Wire) (peers : List PeerAddress) :
    (sendTo lib wire peers).Returns r fun _ es r' => r' = r ∧ es = peers.map fun peer => .send peer wire := by
  induction peers generalizing r with
  | nil => exact Returns.pure ⟨rfl, rfl⟩
  | cons peer rest ih =>
      by_cases hvalid : lib.validAddress peer.host = true
      · simp only [sendTo, hvalid, if_true]
        refine (Returns.emits _).bind ?_
        rintro _ _ _ ⟨rfl, rfl⟩
        refine ih.mono ?_
        rintro _ es r' ⟨rfl, rfl⟩
        exact ⟨rfl, rfl⟩
      · simp only [sendTo, hvalid]
        exact Returns.throws _

theorem currentPeers_returns :
    currentPeers.Returns r fun peers es r' => es = [] ∧ r' = r ∧ r.configured = some peers := by
  refine (Returns.reads _).bind ?_
  rintro config _ _ ⟨hcurrent, rfl, rfl⟩
  cases config with
  | none => exact Returns.throws _
  | some config => exact Returns.pure ⟨rfl, rfl, by simp [configured, ← hcurrent]⟩

theorem appliedIn_sendAll (peers : List PeerAddress) (wire : Wire) :
    appliedIn (peers.map fun peer => Effect.send peer wire) = [] := by
  apply List.filterMap_eq_nil_iff.mpr
  intro e he
  obtain ⟨peer, _, rfl⟩ := List.mem_map.mp he
  rfl

-- A broadcast that returns has got to every peer.
theorem broadcastMsg_returns (lib : Library) (msg : PbftMsg) :
    (broadcastMsg lib msg).Returns r fun _ es r' => r' = r ∧ appliedIn es = [] ∧
      Spread lib r es msg.type (msg.key lib) := by
  refine (Returns.reads _).bind ?_
  rintro uuid _ _ ⟨rfl, rfl, rfl⟩
  refine currentPeers_returns.bind ?_
  rintro peers _ _ ⟨rfl, rfl, hpeers⟩
  refine (sendTo_returns lib _ peers).mono ?_
  rintro _ es r' ⟨rfl, rfl⟩
  refine ⟨rfl, appliedIn_sendAll peers _, ?_⟩
  intro others hothers peer hpeer
  obtain rfl := Option.some.inj (hpeers.symm.trans hothers)
  exact ⟨msg, rfl, rfl, List.mem_map_of_mem hpeer⟩

end Broadcasts

section Records

-- Nothing changes but the record of one operation.
structure Only (key : OperationKey) (r r' : Replica) : Prop extends Unmoved r r' where
  others : ∀ other, other ≠ key → r'.operations other = r.operations other

theorem Only.refl (key : OperationKey) (r : Replica) : Only key r r := ⟨⟨rfl, rfl, rfl, rfl⟩, fun _ _ => rfl⟩

theorem Only.trans (h : Only key r r') (h' : Only key r' r'') : Only key r r'' := by
  refine ⟨⟨h'.uuid.trans h.uuid, h'.view.trans h.view, h'.lowWaterMark.trans h.lowWaterMark,
    h'.configured.trans h.configured⟩, ?_⟩
  intro other hother
  exact (h'.others other hother).trans (h.others other hother)

theorem Only.store (h : op.key lib = key) : Only key r (Replica.store lib op r) := by
  refine ⟨⟨rfl, rfl, rfl, rfl⟩, ?_⟩
  intro other hother
  exact store_other (h ▸ hother)

theorem Only.accept (h : op.key lib = key) : Only key r (acceptPreprepare lib op r) := by
  refine ⟨⟨rfl, rfl, rfl, rfl⟩, ?_⟩
  intro other hother
  exact store_other (h ▸ hother)

theorem Only.of_beside (key : OperationKey) (h : Beside r r') : Only key r r' :=
  ⟨h.toUnmoved, fun _ _ => congrFun h.operations _⟩

-- A record for which nothing has been received.
structure Operation.Blank (op : Operation) : Prop where
  state : op.state = .prepare
  unseen : op.preprepareSeen = false

-- The record was there, or there was none and it is a new one.
def Opened (r : Replica) (key : OperationKey) (op : Operation) : Prop :=
  r.operations key = some op ∨ (r.operations key = none ∧ op.Blank)

theorem findOperation_returns (view sequence : Nat) (request : Request) :
    (findOperation lib view sequence request).Returns r fun op es r' => es = [] ∧
      Only ⟨view, sequence, lib.requestHash request⟩ r r' ∧
      Opened r ⟨view, sequence, lib.requestHash request⟩ op := by
  refine (Returns.reads _).bind ?_
  rintro found _ _ ⟨hfound, rfl, rfl⟩
  cases found with
  | some op => exact Returns.pure ⟨rfl, .refl _ _, Or.inl hfound.symm⟩
  | none =>
      refine currentPeers_returns.bind ?_
      rintro peers _ _ ⟨rfl, rfl, _⟩
      refine (Returns.updates _).bind ?_
      rintro _ _ _ ⟨rfl, rfl⟩
      exact Returns.pure ⟨rfl, .store rfl, Or.inr ⟨hfound.symm, rfl, rfl⟩⟩

theorem readConfiguration_returns (lib : Library) (request : Request) :
    (readConfiguration lib request).Returns r fun _ es r' => es = [] ∧ r' = r := by
  simp only [readConfiguration]
  split
  · exact Returns.throws _
  · exact Returns.pure ⟨rfl, rfl⟩

theorem withNewConfiguration_returns (lib : Library) (op : Operation) {f : Hash → ConfigStore → ConfigStore}
    (hf : ∀ hash store, (f hash store).current = store.current) :
    (withNewConfiguration lib op f).Returns r fun _ es r' => es = [] ∧ Beside r r' := by
  unfold withNewConfiguration
  split
  · refine (readConfiguration_returns lib op.request).bind ?_
    rintro config _ _ ⟨rfl, rfl⟩
    cases config with
    | none => exact Returns.pure ⟨rfl, .refl _⟩
    | some config =>
        refine (Returns.updates _).mono ?_
        rintro _ _ _ ⟨rfl, rfl⟩
        exact ⟨rfl, updateConfigurations_beside (hf _ _)⟩
  · exact Returns.pure ⟨rfl, .refl _⟩

theorem doPrepared_returns (hop : Handling lib r op) :
    (doPrepared lib op).Returns r fun moved es r' => moved = { op with state := .commit } ∧
      Only (op.key lib) r r' ∧ Handling lib r' moved ∧ appliedIn es = [] ∧
      Spread lib r es .commit (op.key lib) := by
  refine (withNewConfiguration_returns lib op fun hash store => store.current_enable hash true).bind ?_
  rintro _ _ r₁ ⟨rfl, hbeside⟩
  have hop₁ := hop.of_beside hbeside
  cases hphase : op.beginCommitPhase with
  | error e => exact Returns.throws e
  | ok moved =>
      obtain ⟨rfl, _, _⟩ := beginCommitPhase_ok hphase
      refine (Returns.updates _).bind ?_
      rintro _ _ _ ⟨rfl, rfl⟩
      refine (broadcastMsg_returns lib _).bind ?_
      rintro _ es _ ⟨rfl, hnone, hspread⟩
      refine Returns.pure ⟨rfl, (Only.of_beside _ hbeside).trans (.store rfl), hop₁.store rfl rfl rfl, ?_, ?_⟩
      · simpa using hnone
      · refine hspread.mono hbeside.uuid.symm hbeside.configured.symm ?_
        intro e he
        simpa using he

theorem auditCommit_returns (lib : Library) (op : Operation) :
    (auditCommit lib op).Returns r fun _ es r' => r' = r ∧ appliedIn es = [] := by
  refine (Returns.of_performs (auditCommit_performs lib op)).mono ?_
  rintro _ es r' ⟨htrail, _⟩
  obtain ⟨hstill, hquiet⟩ := htrail.still
  exact ⟨hstill, appliedIn_quiet hquiet⟩

theorem doCommitted_returns (lib : Library) (op : Operation) :
    (doCommitted lib op).Returns r fun _ es r' => Only (op.key lib) r r' ∧ op.isCommitted = true ∧
      r'.operations (op.key lib) = some { op with state := .committed } ∧
      appliedIn es = [{ op with state := .committed }] := by
  refine (withNewConfiguration_returns lib op fun hash store => store.current_removePriorTo hash).bind ?_
  rintro _ _ r₁ ⟨rfl, hbeside⟩
  cases hphase : op.endCommitPhase with
  | error e => exact Returns.throws e
  | ok moved =>
      obtain ⟨rfl, _, hcommitted⟩ := endCommitPhase_ok hphase
      refine (Returns.updates _).bind ?_
      rintro _ _ _ ⟨rfl, rfl⟩
      refine (auditCommit_returns lib _).bind ?_
      rintro _ es _ ⟨rfl, hnone⟩
      -- the record that was just stored is found again
      have hfound : (findOperation lib op.view op.sequence op.request).Returns
          (store lib { op with state := .committed } r₁) fun found es r' => es = [] ∧
            found = { op with state := .committed } ∧ r' = store lib { op with state := .committed } r₁ := by
        intro found hresult
        have hstored : (store lib { op with state := .committed } r₁).operations
            (({ op with state := .committed } : Operation).key lib) = some { op with state := .committed } := store_self
        have hrun := findOperation_stored hstored
        rw [hrun] at hresult ⊢
        exact ⟨rfl, (Except.ok.inj hresult).symm, rfl⟩
      refine hfound.bind ?_
      rintro _ _ _ ⟨rfl, rfl, rfl⟩
      refine (Returns.emits _).mono ?_
      rintro _ _ _ ⟨rfl, rfl⟩
      refine ⟨(Only.of_beside _ hbeside).trans (.store rfl), hcommitted, store_self, ?_⟩
      rw [List.nil_append, List.nil_append, appliedIn_append, hnone, List.nil_append, appliedIn_append]
      rfl

-- How far a call takes a record, which it leaves as it is but for the state.
structure Promotes (lib : Library) (r : Replica) (es : List Effect) (op later : Operation) : Prop where
  same : later = { op with state := later.state }
  preparing : later.state = .prepare → later.isPrepared = false
  committing : later.state = .commit → later.isCommitted = false
  commits : op.state = .prepare → later.state ≠ .prepare → Spread lib r es .commit (op.key lib)
  kept : op.state ≠ .prepare → later.state ≠ .prepare
  applied : (appliedIn es = [] ∧ (later.state = .committed → op.state = .committed)) ∨
    (appliedIn es = [later] ∧ later.state = .committed ∧ later.isCommitted = true)

theorem maybeAdvanceOperationState_returns (hop : Handling lib r op) :
    (maybeAdvanceOperationState lib op).Returns r fun _ es r' => ∃ later, Only (op.key lib) r r' ∧
      r'.operations (op.key lib) = some later ∧ Promotes lib r es op later := by
  unfold maybeAdvanceOperationState
  by_cases hprepared : op.state = .prepare ∧ op.isPrepared = true
  · rw [if_pos hprepared]
    refine (doPrepared_returns hop).bind ?_
    rintro _ es r₁ ⟨rfl, honly, hop₁, hnone, hspread⟩
    by_cases hcommitted : ({ op with state := .commit } : Operation).isCommitted = true
    · rw [if_pos ⟨rfl, hcommitted⟩]
      refine (doCommitted_returns lib _).mono ?_
      rintro _ fs r₂ ⟨honly', _, hstored, hone⟩
      refine ⟨_, honly.trans honly', hstored, rfl, ?_, ?_, ?_, ?_, ?_⟩
      · intro hstate
        cases hstate
      · intro hstate
        cases hstate
      · intro _ _
        exact hspread.mono rfl rfl fun e he => List.mem_append_left _ he
      · intro hstate
        exact absurd hprepared.1 hstate
      · right
        rw [appliedIn_append, hnone, hone]
        exact ⟨rfl, rfl, hcommitted⟩
    · rw [if_neg fun h => hcommitted h.2]
      refine Returns.pure ⟨_, honly, hop₁.stored, rfl, ?_, ?_, ?_, ?_, ?_⟩
      · intro hstate
        cases hstate
      · intro _
        simpa using hcommitted
      · intro _ _
        simpa using hspread
      · intro hstate
        exact absurd hprepared.1 hstate
      · left
        rw [List.append_nil]
        refine ⟨hnone, ?_⟩
        intro hstate
        cases hstate
  · rw [if_neg hprepared]
    have hsame : (pure op : Call Operation).Returns r fun moved es r' => op = moved ∧ es = [] ∧ r' = r :=
      Returns.pure ⟨rfl, rfl, rfl⟩
    refine hsame.bind ?_
    rintro _ _ _ ⟨rfl, rfl, rfl⟩
    by_cases hcommitted : op.state = .commit ∧ op.isCommitted = true
    · rw [if_pos hcommitted]
      refine (doCommitted_returns lib op).mono ?_
      rintro _ fs r₂ ⟨honly, _, hstored, hone⟩
      refine ⟨_, honly, hstored, rfl, ?_, ?_, ?_, ?_, ?_⟩
      · intro hstate
        cases hstate
      · intro hstate
        cases hstate
      · intro hstate
        rw [hcommitted.1] at hstate
        cases hstate
      · intro _ hstate
        cases hstate
      · exact Or.inr ⟨hone, rfl, hcommitted.2⟩
    · rw [if_neg hcommitted]
      refine Returns.pure ⟨_, .refl _ _, hop.stored, rfl, ?_, ?_, ?_, ?_, ?_⟩
      · intro hstate
        simpa [hstate] using hprepared
      · intro hstate
        simpa [hstate] using hcommitted
      · intro hstate hnot
        exact absurd hstate hnot
      · exact id
      · exact Or.inl ⟨rfl, id⟩

end Records

section Messages

-- What a message adds to the record of its operation.
def PbftMsg.record (msg : PbftMsg) (original : Envelope) (op : Operation) : Operation :=
  match msg.type with
  | .preprepare => op.recordPreprepare
  | .prepare => op.recordPrepare original.sender
  | .commit => op.recordCommit original.sender
  | .checkpoint | .undefined => op

@[simp] theorem record_state (msg : PbftMsg) (original : Envelope) (op : Operation) :
    (msg.record original op).state = op.state := by
  unfold PbftMsg.record
  split <;> rfl

@[simp] theorem record_key (msg : PbftMsg) (original : Envelope) (op : Operation) :
    (msg.record original op).key lib = op.key lib := by
  unfold PbftMsg.record
  split <;> rfl

-- A message about an operation that the filter lets through, and no preprepare against another one.
def takes (lib : Library) (r : Replica) : Input → Bool
  | .message msg _ => preliminaryFilterMsg msg r &&
    match msg.type with
    | .preprepare => !conflictingPreprepare lib msg r
    | .prepare | .commit => true
    | .checkpoint | .undefined => false
  | .request .. | .membership _ | .checkpointReachedLocally .. | .auditHeartbeatTimeout _ | .failure => false

-- The record of the message's operation takes it in, and goes as far as it can from there.
structure Handled (lib : Library) (msg : PbftMsg) (original : Envelope) (r : Replica) (es : List Effect)
    (r' : Replica) (earlier later : Operation) : Prop where
  only : Only (msg.key lib) r r'
  opened : Opened r (msg.key lib) earlier
  key : earlier.key lib = msg.key lib
  stored : r'.operations (msg.key lib) = some later
  promotes : Promotes lib r es (msg.record original earlier) later
  prepares : msg.type = .preprepare → Spread lib r es .prepare (msg.key lib)

theorem Promotes.mono {es' : List Effect} (h : Promotes lib r es op later) (huuid : r'.uuid = r.uuid)
    (hconfigured : r'.configured = r.configured) (hes : ∀ e ∈ es, e ∈ es') (happlied : appliedIn es' = appliedIn es) :
    Promotes lib r' es' op later where
  same := h.same
  preparing := h.preparing
  committing := h.committing
  commits := fun hstate hlater => (h.commits hstate hlater).mono huuid hconfigured hes
  kept := h.kept
  applied := by
    rw [happlied]
    exact h.applied

theorem opens_handling (hkept : Kept lib r) (hadmitted : Admitted msg r) :
    (findOperation lib msg.view msg.sequence msg.requestOf).Returns r fun op es r' => es = [] ∧
      Only (msg.key lib) r r' ∧ Opened r (msg.key lib) op ∧ Handling lib r' op ∧ op.key lib = msg.key lib := by
  have hperforms := Returns.of_performs (@findOperation_handling lib .failure r _ hkept hadmitted)
  refine ((findOperation_returns msg.view msg.sequence msg.requestOf).both hperforms).mono ?_
  rintro op es r' ⟨⟨hnone, honly, hopened⟩, _, hop, hkey, _⟩
  exact ⟨hnone, honly, hopened, hop, hkey⟩

-- A vote is recorded, and the record taken on.
theorem vote_returns (original : Envelope) (hkept : Kept lib r) (hadmitted : Admitted msg r)
    (htype : msg.type ≠ .preprepare) :
    (findOperation lib msg.view msg.sequence msg.requestOf >>= fun op => do
      Handler.updates (store lib (msg.record original op))
      maybeAdvanceOperationState lib (msg.record original op) : Call Unit).Returns r fun _ es r' =>
        ∃ earlier later, Handled lib msg original r es r' earlier later := by
  refine (opens_handling hkept hadmitted).bind ?_
  rintro op _ r₁ ⟨rfl, honly, hopened, hop, hkey⟩
  refine (Returns.updates _).bind ?_
  rintro _ _ _ ⟨rfl, rfl⟩
  have hrecord : Handling lib (store lib (msg.record original op) r₁) (msg.record original op) := by
    unfold PbftMsg.record
    split <;> exact hop.store rfl rfl rfl
  refine (maybeAdvanceOperationState_returns hrecord).mono ?_
  rintro _ es r₂ ⟨later, honly', hstored, hpromotes⟩
  rw [record_key, hkey] at honly' hstored
  have hstore : Only (msg.key lib) r₁ (store lib (msg.record original op) r₁) :=
    .store ((record_key msg original op).trans hkey)
  refine ⟨op, later, (honly.trans hstore).trans honly', hopened, hkey, hstored, ?_, ?_⟩
  · exact hpromotes.mono honly.uuid.symm honly.configured.symm (by simp) (by simp)
  · intro hpreprepare
    exact absurd hpreprepare htype

theorem handleConfigMessage_returns (msg : PbftMsg) (hop : Handling lib r op) :
    (handleConfigMessage lib msg op).Returns r fun _ es r' => es = [] ∧ Beside r r' := by
  unfold handleConfigMessage
  split
  · refine (readConfiguration_returns lib op.request).bind ?_
    rintro config _ _ ⟨rfl, rfl⟩
    cases config with
    | none => exact Returns.pure ⟨rfl, .refl _⟩
    | some config =>
        refine (Returns.updates _).mono ?_
        rintro _ _ _ ⟨rfl, rfl⟩
        exact ⟨rfl, add_beside hop.peers config⟩
  · exact Returns.pure ⟨rfl, .refl _⟩

theorem handlePreprepare_returns (original : Envelope) (hkept : Kept lib r) (hadmitted : Admitted msg r)
    (htype : msg.type = .preprepare) (hfree : conflictingPreprepare lib msg r = false) :
    (handlePreprepare lib msg).Returns r fun _ es r' =>
      ∃ earlier later, Handled lib msg original r es r' earlier later := by
  refine (Returns.reads _).bind ?_
  rintro conflict _ _ ⟨rfl, rfl, rfl⟩
  simp only [hfree, Bool.false_eq_true, if_false]
  refine (opens_handling hkept hadmitted).bind ?_
  rintro op _ r₁ ⟨rfl, honly, hopened, hop, hkey⟩
  have hrecord : msg.record original op = op.recordPreprepare := by simp only [PbftMsg.record, htype]
  refine (Returns.updates _).bind ?_
  rintro _ _ _ ⟨rfl, rfl⟩
  have haccept : Only (msg.key lib) r₁ (acceptPreprepare lib op.recordPreprepare r₁) := .accept hkey
  have hconfig : (if msg.request.isSome ∧ msg.requestOf.type = .newConfig
      then handleConfigMessage lib msg op.recordPreprepare else pure () : Call Unit).Returns
        (acceptPreprepare lib op.recordPreprepare r₁) fun _ es r' => es = [] ∧
          Beside (acceptPreprepare lib op.recordPreprepare r₁) r' := by
    split
    · exact handleConfigMessage_returns msg hop.accept
    · exact Returns.pure ⟨rfl, .refl _⟩
  refine hconfig.bind ?_
  rintro _ _ _ ⟨rfl, hbeside⟩
  have hop₂ := hop.accept.of_beside hbeside
  refine (broadcastMsg_returns lib _).bind ?_
  rintro _ es₂ r₂ ⟨rfl, hnone', hspread⟩
  refine (maybeAdvanceOperationState_returns hop₂).mono ?_
  rintro _ es₃ r₃ ⟨later, honly₃, hstored, hpromotes⟩
  have hall := (honly.trans haccept).trans (.of_beside _ hbeside)
  change Only (op.key lib) _ _ at honly₃
  change r₃.operations (op.key lib) = _ at hstored
  rw [hkey] at honly₃ hstored
  refine ⟨op, later, hall.trans honly₃, hopened, hkey, hstored, ?_, ?_⟩
  · rw [hrecord]
    refine hpromotes.mono hall.uuid.symm hall.configured.symm ?_ ?_
    · intro e he
      simp [he]
    · simp [hnone']
  · intro _
    have hspread' : Spread lib r₂ es₂ .prepare (msg.key lib) := hkey ▸ hspread
    refine hspread'.mono hall.uuid.symm hall.configured.symm ?_
    intro e he
    simp [he]

theorem handleMessage_returns (hkept : Kept lib r) (h : takes lib r (.message msg original) = true) :
    (handleMessage lib msg original).Returns r fun _ es r' =>
      ∃ earlier later, Handled lib msg original r es r' earlier later := by
  obtain ⟨hfilter, htake⟩ := Bool.and_eq_true_iff.mp h
  refine (Returns.reads _).bind ?_
  rintro filtered _ _ ⟨rfl, rfl, rfl⟩
  simp only [hfilter, if_true, List.nil_append]
  cases htype : msg.type with
  | preprepare =>
      have hadmitted := preliminaryFilterMsg_admitted hfilter (Or.inl htype)
      exact handlePreprepare_returns original hkept hadmitted htype (by simpa [htype] using htake)
  | prepare =>
      have hadmitted := preliminaryFilterMsg_admitted hfilter (Or.inr (Or.inl htype))
      have hvote := vote_returns original hkept hadmitted (by simp [htype])
      simp only [PbftMsg.record, htype] at hvote
      exact hvote
  | commit =>
      have hadmitted := preliminaryFilterMsg_admitted hfilter (Or.inr (Or.inr htype))
      have hvote := vote_returns original hkept hadmitted (by simp [htype])
      simp only [PbftMsg.record, htype] at hvote
      exact hvote
  | checkpoint => simp [htype] at htake
  | undefined => simp [htype] at htake

end Messages

end SwarmDB.Pbft
