import SwarmDB.Pbft.Replica.Returning

namespace SwarmDB.Pbft

open Replica Handler

variable {lib : Library} {input : Input} {past : List (Replica × Input)} {r r' : Replica}
  {op later : Operation} {es fs : List Effect} {key : OperationKey} {msg : PbftMsg} {original : Envelope}

section Bystanding

-- No record is taken further. There may be new ones, and others may be erased below the low water
-- mark.
structure Bystands (r : Replica) (es : List Effect) (r' : Replica) : Prop where
  uuid : r'.uuid = r.uuid
  configured : r'.configured = r.configured
  low : r.lowWaterMark ≤ r'.lowWaterMark
  old : ∀ key op, r'.operations key = some op → r.operations key = some op ∨ op.Blank
  kept : ∀ key op, r.operations key = some op → r'.operations key = some op ∨ op.sequence ≤ r'.lowWaterMark
  applied : appliedIn es = []

theorem Bystands.rest (h : appliedIn es = []) : Bystands r es r :=
  ⟨rfl, rfl, le_refl _, fun _ _ => Or.inl, fun _ _ => Or.inl, h⟩

theorem Bystands.of_trail (h : Trail Bystands r es r') : Bystands r es r' := by
  induction h with
  | rest => exact .rest rfl
  | next _ step ih =>
      refine ⟨step.uuid.trans ih.uuid, step.configured.trans ih.configured, ih.low.trans step.low, ?_, ?_, ?_⟩
      · intro key op hop
        rcases step.old key op hop with hold | hblank
        · exact ih.old key op hold
        · exact Or.inr hblank
      · intro key op hop
        rcases ih.kept key op hop with hkept | hlow
        · exact step.kept key op hkept
        · exact Or.inr (hlow.trans step.low)
      · rw [appliedIn_append, ih.applied, step.applied]
        rfl

theorem Bystands.of_beside (h : Beside r r') : Bystands r [] r' := by
  refine ⟨h.uuid, h.configured, h.lowWaterMark.ge, ?_, ?_, rfl⟩
  · intro key op hop
    rw [h.operations] at hop
    exact Or.inl hop
  · intro key op hop
    rw [h.operations]
    exact Or.inl hop

theorem Bystands.quiet (h : ∀ e ∈ es, e.isQuiet = true) : Bystands r es r := .rest (appliedIn_quiet h)

theorem Bystands.sends {wire : Wire} (h : Sends r wire es) : Bystands r es r := .rest (appliedIn_sends h)

-- A record that is found is not touched, and a new one is blank.
theorem findOperation_bystands (view sequence : Nat) (request : Request) :
    Performs Bystands (findOperation lib view sequence request) r fun _ _ => True := by
  refine (Performs.reads _).bind ?_
  rintro found _ ⟨rfl, hfound⟩
  cases found with
  | some op => exact Performs.pure trivial
  | none =>
      refine currentPeers_performs.bind ?_
      rintro peers r ⟨rfl, _⟩
      refine (Performs.updates ?_).bind fun _ _ _ => Performs.pure trivial
      refine ⟨rfl, rfl, le_refl _, ?_, ?_, rfl⟩
      · intro key op hop
        rcases store_cases hop with ⟨_, rfl⟩ | hold
        · exact Or.inr ⟨rfl, rfl⟩
        · exact Or.inl hold
      · intro key op hop
        left
        refine (store_other ?_).trans hop
        rintro rfl
        exact absurd (hop.symm.trans hfound.symm) (by simp)

theorem setupRequestOperation_bystands (request : Request) :
    Performs Bystands (setupRequestOperation lib request) r fun _ _ => True := by
  refine (Performs.reads _).bind ?_
  rintro sequence _ ⟨rfl, _⟩
  refine (Performs.updates (.of_beside ⟨⟨rfl, rfl, rfl, rfl⟩, rfl, rfl⟩)).bind ?_
  rintro _ _ rfl
  refine (Performs.reads _).bind ?_
  rintro view _ ⟨rfl, _⟩
  exact findOperation_bystands _ _ _

theorem doPreprepare_bystands (op : Operation) :
    Performs Bystands (doPreprepare lib op) r fun _ _ => True :=
  (broadcastMsg_performs lib _ fun _ hes => .sends hes).mono fun _ _ _ => trivial

theorem handleRequest_bystands (request : Request) (original : String) :
    Performs Bystands (handleRequest lib request original) r fun _ _ => True := by
  refine isPrimary_performs.bind ?_
  rintro primary _ rfl
  cases primary with
  | true => exact (setupRequestOperation_bystands request).bind fun op _ _ => doPreprepare_bystands op
  | false =>
      refine getPrimary_performs.bind ?_
      rintro primary _ rfl
      by_cases hvalid : lib.validAddress primary.host = true
      · simp only [hvalid, if_true]
        exact (Performs.emits (.rest rfl)).mono fun _ _ _ => trivial
      · simp only [hvalid]
        exact Performs.throws _

theorem handleJoinOrLeave_bystands (type : MembershipType) (info : PeerInfo) :
    Performs Bystands (handleJoinOrLeave lib type info) r fun _ _ => True := by
  refine isPrimary_performs.bind ?_
  rintro primary _ rfl
  cases primary with
  | false => exact Performs.pure trivial
  | true =>
      refine (Performs.reads _).bind ?_
      rintro current r₁ ⟨rfl, hcurrent⟩
      cases current with
      | none => exact Performs.throws _
      | some config =>
          have hpeers : r₁.configured = some config.sortedPeers := by simp [configured, ← hcurrent]
          simp only
          split
          · refine (Performs.updates (.of_beside (add_beside hpeers _))).bind ?_
            rintro _ _ rfl
            exact (setupRequestOperation_bystands _).bind fun op _ _ => doPreprepare_bystands op
          · exact Performs.pure trivial

theorem handleMembershipMessage_bystands (msg : MembershipMsg) :
    Performs Bystands (handleMembershipMessage lib msg) r fun _ _ => True := by
  unfold handleMembershipMessage
  cases msg.peerInfo with
  | none => exact Performs.pure trivial
  | some info =>
      cases msg.type with
      | join => exact handleJoinOrLeave_bystands .join info
      | leave => exact handleJoinOrLeave_bystands .leave info
      | undefined => exact Performs.pure trivial

theorem broadcastAudit_bystands (lib : Library) (msg : Uuid → AuditMessage) :
    Performs Bystands (broadcastAudit lib msg) r fun _ _ => True :=
  ((broadcastAudit_performs lib msg).of_still fun _ hes => .quiet hes).mono fun _ _ _ => trivial

theorem handleAuditHeartbeatTimeout_bystands (lib : Library) (canceled : Bool) :
    Performs Bystands (handleAuditHeartbeatTimeout lib canceled) r fun _ _ => True := by
  cases canceled with
  | true => exact Performs.pure trivial
  | false =>
      refine isPrimary_performs.bind ?_
      rintro primary _ rfl
      refine (Performs.reads _).bind ?_
      rintro enabled _ ⟨rfl, _⟩
      split
      · refine (Performs.reads _).bind ?_
        rintro view _ ⟨rfl, _⟩
        exact broadcastAudit_bystands lib _
      · exact Performs.pure trivial

theorem handleFailure_bystands (lib : Library) : Performs Bystands (handleFailure lib) r fun _ _ => True := by
  refine (Performs.reads _).bind ?_
  rintro enabled _ ⟨rfl, _⟩
  cases enabled with
  | true => exact broadcastAudit_bystands lib _
  | false => exact Performs.pure trivial

-- A stable checkpoint raises the low water mark over everything it erases, if its number can still be read.
theorem Clearing.bystands {erased : Prop} (hkept : ¬erased) (h : Trail (Clearing erased) r es r') :
    Bystands r es r' := by
  induction h with
  | rest => exact .rest rfl
  | @next _ _ middle _ _ step ih =>
      refine .of_trail ((Trail.one ih).append ?_)
      cases step with
      | side hbeside hquiet =>
          have hside := (Trail.one (Bystands.of_beside hbeside)).next (Bystands.quiet hquiet)
          simpa using hside
      | clear cp reads hreads =>
          obtain rfl := hreads.resolve_right hkept
          have hlow := stabilizeCheckpoint_low cp middle
          refine .one ⟨rfl, rfl, by omega, ?_, ?_, rfl⟩
          · intro key op hop
            exact Or.inl (Option.eq_some_of_filter_eq_some hop)
          · intro key op hop
            by_cases hcp : cp.1 < op.sequence
            · left
              change (middle.operations key).filter (fun op => decide (cp.1 < op.sequence)) = some op
              rw [hop, Option.filter_some, if_pos (decide_eq_true hcp)]
            · exact Or.inr (by omega)

-- A message that is turned down changes nothing.
theorem handleMessage_bystands (h : takes lib r (.message msg original) = false) (htype : msg.type ≠ .checkpoint) :
    Bystands r (handleMessage lib msg original r).effects (handleMessage lib msg original r).state := by
  have hdropped : (handleMessage lib msg original r).effects = [] ∧ (handleMessage lib msg original r).state = r := by
    cases hfilter : preliminaryFilterMsg msg r with
    | false => simp [handleMessage, Bind.bind, Handler.bind, Handler.reads, hfilter, Pure.pure]
    | true =>
        cases hmsg : msg.type with
        | preprepare =>
            have hrejects : takesPreprepare lib msg r = false := by
              simpa [takes, takesPreprepare, hfilter, hmsg] using h
            rw [handleMessage_rejects original hmsg hrejects]
            exact ⟨rfl, rfl⟩
        | prepare => simp [takes, hfilter, hmsg] at h
        | commit => simp [takes, hfilter, hmsg] at h
        | checkpoint => exact absurd hmsg htype
        | undefined =>
            simp [handleMessage, Bind.bind, Handler.bind, Handler.reads, hfilter, hmsg, Handler.throws]
  rw [hdropped.1, hdropped.2]
  exact .rest rfl

-- Every call that takes no message leaves the records that there are as they are.
theorem handler_bystands (input : Input) (hkept : ¬VotesFirst lib r input) (h : takes lib r input = false) :
    Bystands r (input.handler lib r).effects (input.handler lib r).state := by
  cases input with
  | message msg original =>
      by_cases htype : msg.type = .checkpoint
      · exact Clearing.bystands not_false (handleMessage_clears lib msg original htype).trail
      · exact handleMessage_bystands h htype
  | request req original => exact .of_trail (handleRequest_bystands req original).trail
  | membership msg => exact .of_trail (handleMembershipMessage_bystands msg).trail
  | checkpointReachedLocally sequence stateHash freed =>
      exact Clearing.bystands hkept (checkpointReachedLocally_performs lib sequence stateHash freed).trail
  | auditHeartbeatTimeout canceled => exact .of_trail (handleAuditHeartbeatTimeout_bystands lib canceled).trail
  | failure => exact .of_trail (handleFailure_bystands lib).trail

end Bystanding

section Carried

-- What has been done about a record: it has gone as far as what was received takes it, and each of
-- the steps was told to everybody.
structure Carried (lib : Library) (r : Replica) (es : List Effect) (op : Operation) : Prop where
  prepares : op.preprepareSeen = true → Spread lib r es .prepare (op.key lib)
  commits : op.state ≠ .prepare → Spread lib r es .commit (op.key lib)
  preparing : op.state = .prepare → op.isPrepared = false
  committing : op.state = .commit → op.isCommitted = false
  applied : op.state = .committed → ∃ other ∈ appliedIn es, other.key lib = op.key lib

theorem Operation.Blank.carried (h : op.Blank) : Carried lib r es op := by
  refine ⟨?_, ?_, ?_, ?_, ?_⟩
  · intro hseen
    rw [h.unseen] at hseen
    cases hseen
  · intro hstate
    exact absurd h.state hstate
  · intro _
    simp [Operation.isPrepared, h.unseen]
  · intro hstate
    rw [h.state] at hstate
    cases hstate
  · intro hstate
    rw [h.state] at hstate
    cases hstate

theorem Carried.mono (h : Carried lib r es op) (huuid : r'.uuid = r.uuid) (hconfigured : r'.configured = r.configured) :
    Carried lib r' (es ++ fs) op := by
  have hes : ∀ e ∈ es, e ∈ es ++ fs := fun e he => List.mem_append_left _ he
  refine ⟨?_, ?_, h.preparing, h.committing, ?_⟩
  · intro hseen
    exact (h.prepares hseen).mono huuid hconfigured hes
  · intro hstate
    exact (h.commits hstate).mono huuid hconfigured hes
  · intro hstate
    obtain ⟨other, hother, hkey⟩ := h.applied hstate
    rw [appliedIn_append]
    exact ⟨other, List.mem_append_left _ hother, hkey⟩

theorem record_preprepareSeen (h : (msg.record original op).preprepareSeen = true) :
    msg.type = .preprepare ∨ op.preprepareSeen = true := by
  unfold PbftMsg.record at h
  cases htype : msg.type with
  | preprepare => exact Or.inl rfl
  | prepare | commit | checkpoint | undefined =>
      rw [htype] at h
      exact Or.inr h

variable {earlier : Operation}

theorem Handled.later_key (h : Handled lib msg original r es r' earlier later) :
    later.key lib = msg.key lib := by
  have hsame : later.key lib = (msg.record original earlier).key lib := by
    rw [h.promotes.same]
    rfl
  rw [hsame, record_key, h.key]

theorem Handled.carried (h : Handled lib msg original r es r' earlier later) (hearlier : Carried lib r fs earlier) :
    Carried lib r' (fs ++ es) later := by
  have hkey := h.later_key
  have hes : ∀ e ∈ es, e ∈ fs ++ es := fun e he => List.mem_append_right _ he
  have hfs : ∀ e ∈ fs, e ∈ fs ++ es := fun e he => List.mem_append_left _ he
  refine ⟨?_, ?_, h.promotes.preparing, h.promotes.committing, ?_⟩
  · intro hseen
    rw [h.promotes.same] at hseen
    rw [hkey]
    rcases record_preprepareSeen hseen with htype | hold
    · exact (h.prepares htype).mono h.only.uuid h.only.configured hes
    · rw [← h.key]
      exact (hearlier.prepares hold).mono h.only.uuid h.only.configured hfs
  · intro hstate
    rw [hkey]
    by_cases hfirst : earlier.state = .prepare
    · have hspread := h.promotes.commits (by simpa using hfirst) hstate
      rw [record_key, h.key] at hspread
      exact hspread.mono h.only.uuid h.only.configured hes
    · rw [← h.key]
      exact (hearlier.commits hfirst).mono h.only.uuid h.only.configured hfs
  · intro hstate
    rw [appliedIn_append]
    rcases h.promotes.applied with ⟨_, hbefore⟩ | ⟨hone, _, _⟩
    · have hcommitted := hbefore hstate
      rw [record_state] at hcommitted
      obtain ⟨other, hother, hotherKey⟩ := hearlier.applied hcommitted
      exact ⟨other, List.mem_append_left _ hother, hotherKey.trans (h.key.trans hkey.symm)⟩
    · rw [hone]
      exact ⟨later, List.mem_append_right _ List.mem_cons_self, rfl⟩

end Carried

section Recorded

-- The record has what the message brought.
def Records (msg : PbftMsg) (original : Envelope) (op : Operation) : Prop :=
  match msg.type with
  | .preprepare => op.preprepareSeen = true
  | .prepare => original.sender ∈ op.preparesSeen
  | .commit => original.sender ∈ op.commitsSeen
  | .checkpoint | .undefined => True

-- A record keeps the messages it has.
structure Operation.Within (op later : Operation) : Prop where
  preprepareSeen : op.preprepareSeen = true → later.preprepareSeen = true
  preparesSeen : op.preparesSeen ⊆ later.preparesSeen
  commitsSeen : op.commitsSeen ⊆ later.commitsSeen

theorem Operation.Within.refl (op : Operation) : op.Within op := ⟨id, Finset.Subset.refl _, Finset.Subset.refl _⟩

theorem record_within (msg : PbftMsg) (original : Envelope) (op : Operation) : op.Within (msg.record original op) := by
  unfold PbftMsg.record
  cases msg.type with
  | preprepare => exact ⟨fun _ => rfl, Finset.Subset.refl _, Finset.Subset.refl _⟩
  | prepare => exact ⟨id, Finset.subset_insert _ _, Finset.Subset.refl _⟩
  | commit => exact ⟨id, Finset.Subset.refl _, Finset.subset_insert _ _⟩
  | checkpoint | undefined => exact .refl op

theorem record_records (msg : PbftMsg) (original : Envelope) (op : Operation) :
    Records msg original (msg.record original op) := by
  unfold Records PbftMsg.record
  cases msg.type with
  | preprepare => rfl
  | prepare | commit => exact Finset.mem_insert_self _ _
  | checkpoint | undefined => trivial

theorem Records.within (h : Records msg original op) (hwithin : op.Within later) : Records msg original later := by
  unfold Records at h ⊢
  cases htype : msg.type with
  | preprepare =>
      rw [htype] at h
      exact hwithin.preprepareSeen h
  | prepare =>
      rw [htype] at h
      exact hwithin.preparesSeen h
  | commit =>
      rw [htype] at h
      exact hwithin.commitsSeen h
  | checkpoint | undefined => trivial

variable {earlier : Operation}

theorem Promotes.within (h : Promotes lib r es op later) : op.Within later := by
  rw [h.same]
  exact ⟨id, Finset.Subset.refl _, Finset.Subset.refl _⟩

theorem Operation.Within.trans {latest : Operation} (h : op.Within later) (h' : later.Within latest) :
    op.Within latest :=
  ⟨fun hseen => h'.preprepareSeen (h.preprepareSeen hseen), h.preparesSeen.trans h'.preparesSeen,
    h.commitsSeen.trans h'.commitsSeen⟩

-- No record loses anything when a message is handled.
theorem Handled.grows (h : Handled lib msg original r es r' earlier later) {found : Operation}
    (hfound : r.operations key = some found) : ∃ latest, r'.operations key = some latest ∧ found.Within latest := by
  by_cases hkey : key = msg.key lib
  · subst hkey
    refine ⟨later, h.stored, ?_⟩
    rcases h.opened with hopened | ⟨hnone, _⟩
    · obtain rfl := Option.some.inj (hopened.symm.trans hfound)
      exact (record_within msg original _).trans h.promotes.within
    · rw [hnone] at hfound
      cases hfound
  · exact ⟨found, (h.only.others key hkey).trans hfound, .refl found⟩

end Recorded

section Runs

-- The call returns, it does not throw.
def returns (lib : Library) (r : Replica) (input : Input) : Bool :=
  match (input.handler lib r).result with
  | .ok () => true
  | .error _ => false

theorem result_of_returns (h : returns lib r input = true) : (input.handler lib r).result = .ok () := by
  unfold returns at h
  split at h
  · assumption
  · cases h

-- Nothing that was received waits: every record has been carried on, what was handed over had been
-- told to everybody, and a message that was taken is in its record until a checkpoint erases that.
structure Prompt (lib : Library) (past : List (Replica × Input)) (r : Replica) : Prop where
  carried : ∀ key op, r.operations key = some op → Carried lib r (done lib past) op
  handed : ∀ op ∈ appliedIn (done lib past), Spread lib r (done lib past) .prepare (op.key lib) ∧
    Spread lib r (done lib past) .commit (op.key lib)
  recorded : ∀ step ∈ past, ∀ msg original, step.2 = .message msg original → takes lib step.1 step.2 = true →
    msg.sequence ≤ r.lowWaterMark ∨ ∃ op, r.operations (msg.key lib) = some op ∧ Records msg original op

theorem Prompt.bystand (h : Prompt lib past r) (hkept : Kept lib r) (htakes : takes lib r input = false)
    (hbystands : Bystands r (input.handler lib r).effects (input.handler lib r).state) :
    Prompt lib ((r, input) :: past) (input.handler lib r).state := by
  have hes : ∀ e ∈ done lib past, e ∈ done lib ((r, input) :: past) := fun e he => List.mem_append_left _ he
  refine ⟨?_, ?_, ?_⟩
  · intro key op hop
    rcases hbystands.old key op hop with hold | hblank
    · exact (h.carried key op hold).mono hbystands.uuid hbystands.configured
    · exact hblank.carried
  · intro op hop
    rw [done, appliedIn_append, hbystands.applied, List.append_nil] at hop
    obtain ⟨hprepares, hcommits⟩ := h.handed op hop
    exact ⟨hprepares.mono hbystands.uuid hbystands.configured hes,
      hcommits.mono hbystands.uuid hbystands.configured hes⟩
  · intro step hstep msg original hinput htaken
    rcases List.mem_cons.mp hstep with rfl | hstep
    · rw [htakes] at htaken
      cases htaken
    · rcases h.recorded step hstep msg original hinput htaken with hlow | ⟨op, hop, hrecords⟩
      · exact Or.inl (hlow.trans hbystands.low)
      · rcases hbystands.kept _ op hop with hstill | hlow
        · exact Or.inr ⟨op, hstill, hrecords⟩
        · have hsequence : op.sequence = msg.sequence := congrArg OperationKey.sequence (hkept _ op hop).1
          exact Or.inl (hsequence ▸ hlow)

theorem Prompt.handle (h : Prompt lib past r) {earlier : Operation}
    (hhandled : Handled lib msg original r (handleMessage lib msg original r).effects
      (handleMessage lib msg original r).state earlier later) :
    Prompt lib ((r, .message msg original) :: past) (handleMessage lib msg original r).state := by
  have honly := hhandled.only
  have hes : ∀ e ∈ done lib past, e ∈ done lib ((r, .message msg original) :: past) :=
    fun e he => List.mem_append_left _ he
  have hearlier : Carried lib r (done lib past) earlier := by
    rcases hhandled.opened with hfound | ⟨_, hblank⟩
    · exact h.carried _ earlier hfound
    · exact hblank.carried
  have hlater := hhandled.carried hearlier
  refine ⟨?_, ?_, ?_⟩
  · intro key op hop
    by_cases hkey : key = msg.key lib
    · subst hkey
      obtain rfl := Option.some.inj (hhandled.stored.symm.trans hop)
      exact hlater
    · rw [honly.others key hkey] at hop
      exact (h.carried key op hop).mono honly.uuid honly.configured
  · intro op hop
    rw [done, appliedIn_append] at hop
    rcases List.mem_append.mp hop with hold | hnew
    · obtain ⟨hprepares, hcommits⟩ := h.handed op hold
      exact ⟨hprepares.mono honly.uuid honly.configured hes, hcommits.mono honly.uuid honly.configured hes⟩
    · rcases hhandled.promotes.applied with ⟨hnone, _⟩ | ⟨hone, hstate, hcommitted⟩
      · change op ∈ appliedIn (handleMessage lib msg original r).effects at hnew
        rw [hnone] at hnew
        cases hnew
      · change op ∈ appliedIn (handleMessage lib msg original r).effects at hnew
        rw [hone] at hnew
        obtain rfl := List.mem_singleton.mp hnew
        have hseen : op.preprepareSeen = true :=
          (Bool.and_eq_true_iff.mp (Bool.and_eq_true_iff.mp hcommitted).1).1
        exact ⟨hlater.prepares hseen, hlater.commits (by simp [hstate])⟩
  · intro step hstep msg' original' hinput htaken
    rw [honly.lowWaterMark]
    rcases List.mem_cons.mp hstep with rfl | hstep
    · cases hinput
      exact Or.inr ⟨later, hhandled.stored, (record_records _ _ earlier).within hhandled.promotes.within⟩
    · rcases h.recorded step hstep msg' original' hinput htaken with hlow | ⟨op, hop, hrecords⟩
      · exact Or.inl hlow
      · obtain ⟨latest, hlatest, hwithin⟩ := hhandled.grows hop
        exact Or.inr ⟨latest, hlatest, hrecords.within hwithin⟩

theorem prompt_of_run (run : ((lifetime lib).guard fun r input => returns lib r input = true ∧
    ¬VotesFirst lib r input).Run past r) : Prompt lib past r := by
  induction run with
  | start hinit =>
      refine ⟨?_, by simp [done, appliedIn], by simp⟩
      intro key op hop
      rw [(construct_fresh hinit).1] at hop
      cases hop
  | @step past r input run henabled ih =>
      have hkept := (sound_of_run run.of_guard).kept
      cases htakes : takes lib r input with
      | false => exact ih.bystand hkept htakes (handler_bystands input henabled.2.2 htakes)
      | true =>
          cases input with
          | message msg original =>
              obtain ⟨earlier, later, hhandled⟩ :=
                handleMessage_returns hkept htakes () (result_of_returns henabled.2.1)
              exact ih.handle hhandled
          | request | membership | checkpointReachedLocally | auditHeartbeatTimeout | failure => cases htakes

end Runs

section Arrivals

-- What a replica does not go back on.
structure Onward (r r' : Replica) : Prop where
  low : r.lowWaterMark ≤ r'.lowWaterMark
  accepted : ∀ place key, r.acceptedPreprepares place = some key → r'.acceptedPreprepares place = some key

theorem handler_onward (hsound : Sound lib r) (input : Input) (hkept : ¬VotesFirst lib r input) :
    Onward r (input.handler lib r).state := by
  refine ⟨?_, fun place key => handler_accepted_kept hsound input⟩
  refine (handler_turn lib input hsound.kept).keeps (P := fun r' => r.lowWaterMark ≤ r'.lowWaterMark) ?_ ?_
    (le_refl _)
  · intro r₁ es r₂ hmove h
    exact h.trans hmove.unmoved.lowWaterMark.ge
  · intro r₁ es r₂ hclear h
    cases hclear with
    | side hbeside _ => exact h.trans hbeside.lowWaterMark.ge
    | clear cp reads hreads =>
        obtain rfl := hreads.resolve_right hkept
        have hlow := stabilizeCheckpoint_low cp r₁
        omega

theorem onward_of_run (run : (keepsCheckpoints lib).Run past r) : ∀ step ∈ past, Onward step.1 r := by
  induction run with
  | start => simp
  | @step past r input run henabled ih =>
      have hcall := handler_onward (sound_of_run run.of_guard) input henabled.2
      intro step hstep
      rcases List.mem_cons.mp hstep with rfl | hstep
      · exact hcall
      · have hbefore := ih step hstep
        refine ⟨hbefore.low.trans hcall.low, ?_⟩
        intro place key hkey
        exact hcall.accepted place key (hbefore.accepted place key hkey)

-- What arrives in time, and is not a preprepare against another one, is in its record at the end,
-- unless the low water mark has passed it.
theorem Prompt.arrived (h : Prompt lib past r) (run : (keepsCheckpoints lib).Run past r) {step : Replica × Input}
    (hstep : step ∈ past) (hinput : step.2 = .message msg original) (hview : msg.view = step.1.view)
    (hhigh : msg.sequence ≤ step.1.highWaterMark)
    (htype : msg.type = .preprepare ∨ msg.type = .prepare ∨ msg.type = .commit)
    (hfree : msg.type = .preprepare → conflictingPreprepare lib msg step.1 = false) :
    msg.sequence ≤ r.lowWaterMark ∨ ∃ op, r.operations (msg.key lib) = some op ∧ Records msg original op := by
  by_cases hlow : msg.sequence ≤ step.1.lowWaterMark
  · exact Or.inl (hlow.trans (onward_of_run run step hstep).low)
  · refine h.recorded step hstep msg original hinput ?_
    have hfilter : preliminaryFilterMsg msg step.1 = true := by
      simp only [preliminaryFilterMsg, htype, if_true, hview, ne_eq, not_true, if_false, hlow, not_lt.mpr hhigh]
    rw [hinput]
    rcases htype with htype | htype | htype
    · simp [takes, hfilter, htype, hfree htype]
    · simp [takes, hfilter, htype]
    · simp [takes, hfilter, htype]

end Arrivals

section Issuing

theorem setupRequestOperation_returns (request : Request) :
    (setupRequestOperation lib request).Returns r fun _ es r' => es = [] ∧ r'.uuid = r.uuid ∧
      r'.configured = r.configured := by
  refine (Returns.reads _).bind ?_
  rintro sequence _ _ ⟨rfl, rfl, rfl⟩
  refine (Returns.updates _).bind ?_
  rintro _ _ _ ⟨rfl, rfl⟩
  refine (Returns.reads _).bind ?_
  rintro view _ _ ⟨rfl, rfl, rfl⟩
  refine (findOperation_returns _ _ _).mono ?_
  rintro op _ r' ⟨rfl, honly, _⟩
  exact ⟨rfl, honly.uuid, honly.configured⟩

theorem issue_returns (request : Request) :
    (setupRequestOperation lib request >>= doPreprepare lib).Returns r fun _ es _ =>
      ∃ key, Spread lib r es .preprepare key := by
  refine (setupRequestOperation_returns request).bind ?_
  rintro op _ r₁ ⟨rfl, huuid, hconfigured⟩
  refine (broadcastMsg_returns lib _).mono ?_
  rintro _ es r₂ ⟨rfl, _, hspread⟩
  exact ⟨_, hspread.mono huuid.symm hconfigured.symm fun e he => he⟩

-- A call that takes a number and returns has told everybody.
theorem issues_spread (h : issues lib r input = true) :
    (input.handler lib).Returns r fun _ es _ => ∃ key, Spread lib r es .preprepare key := by
  cases input with
  | request req original =>
      have hrun : handleRequest lib req original r = _ := handleRequest_leads req original (isPrimary_of_leads h)
      intro a ha
      simp only [Input.handler, hrun] at ha ⊢
      exact issue_returns req a ha
  | membership msg =>
      cases hinfo : msg.peerInfo with
      | none => simp [issues, hinfo] at h
      | some info =>
          cases hcurrent : r.configurations.current with
          | none => simp [issues, hinfo, hcurrent] at h
          | some config =>
              simp only [issues, hinfo, hcurrent, Bool.and_eq_true, decide_eq_true_eq] at h
              obtain ⟨hleads, htype, hchanged⟩ := h
              obtain ⟨config', hconfig'⟩ : ∃ config', (changedConfiguration lib msg.type info.address config).2 =
                config' := ⟨_, rfl⟩
              have hpeers : r.configured = some config.sortedPeers := by simp [configured, hcurrent]
              have hbeside := add_beside hpeers config'
              have hrun : Input.handler lib (.membership msg) r =
                  (setupRequestOperation lib { type := .newConfig, body := .config (config'.toString lib.toCodec) } >>=
                    doPreprepare lib) (updateConfigurations (fun store => store.add config') r) := by
                have hhandler : Input.handler lib (.membership msg) r = handleJoinOrLeave lib msg.type info r := by
                  simp only [Input.handler, handleMembershipMessage, hinfo]
                  cases hmsg : msg.type with
                  | join | leave => rfl
                  | undefined => exact absurd hmsg htype
                rw [hhandler]
                simp [handleJoinOrLeave, broadcastNewConfiguration, Bind.bind, Handler.bind,
                  isPrimary_run (isPrimary_of_leads hleads), Handler.reads, hcurrent, hchanged, Handler.updates,
                  hconfig']
              intro a ha
              rw [hrun] at ha ⊢
              obtain ⟨key, hspread⟩ := issue_returns _ a ha
              exact ⟨key, hspread.mono hbeside.uuid.symm hbeside.configured.symm fun e he => he⟩
  | message | checkpointReachedLocally | auditHeartbeatTimeout | failure => cases h

-- The numbers follow one another, and the preprepare of each went to every peer and to nobody else.
structure Consecutive (past : List (Replica × Input)) (es : List Effect) (r : Replica) : Prop where
  low : 1 ≤ r.nextIssuedSequenceNumber
  high : r.nextIssuedSequenceNumber ≤ past.length + 1
  range : ∀ envelope, Sent es envelope → envelope.pbft.type = .preprepare → envelope.sender = r.uuid ∧
    envelope.pbft.view = r.view ∧ 1 ≤ envelope.pbft.sequence ∧ envelope.pbft.sequence < r.nextIssuedSequenceNumber
  once : ∀ a b, Sent es a → Sent es b → a.pbft.type = .preprepare → b.pbft.type = .preprepare →
    a.pbft.sequence = b.pbft.sequence → a = b
  spread : ∀ x, 1 ≤ x → x < r.nextIssuedSequenceNumber → ∃ envelope : Envelope, envelope.pbft.type = .preprepare ∧
    envelope.pbft.sequence = x ∧ ∀ peers, r.configured = some peers → ∀ peer ∈ peers, .send peer (.pbft envelope) ∈ es

theorem Consecutive.unissued (h : Consecutive past es r) (hnone : Unissued r fs r') :
    Consecutive ((r, input) :: past) (es ++ fs) r' := by
  have hold : ∀ envelope, Sent (es ++ fs) envelope → envelope.pbft.type = .preprepare → Sent es envelope := by
    intro envelope hsent htype
    rcases sent_append_cases hsent with hold | ⟨peer, hnew⟩
    · exact hold
    · have hsilent := hnone.silent _ hnew
      simp [Effect.preprepared, htype] at hsilent
  have hhigh := h.high
  refine ⟨?_, ?_, ?_, ?_, ?_⟩
  · rw [hnone.next]
    exact h.low
  · rw [hnone.next, List.length_cons]
    omega
  · intro envelope hsent htype
    rw [hnone.uuid, hnone.view, hnone.next]
    exact h.range envelope (hold envelope hsent htype) htype
  · intro a b ha hb htype htype' hsequence
    exact h.once a b (hold a ha htype) (hold b hb htype') htype htype' hsequence
  · intro x hpos hlt
    rw [hnone.next] at hlt
    rw [hnone.configured]
    obtain ⟨envelope, htype, hsequence, hspread⟩ := h.spread x hpos hlt
    exact ⟨envelope, htype, hsequence, fun peers hpeers peer hpeer =>
      List.mem_append_left _ (hspread peers hpeers peer hpeer)⟩

theorem Consecutive.issued (h : Consecutive past es r) (hone : Issued lib r fs r') {key : OperationKey}
    (hall : Spread lib r fs .preprepare key) (hshort : past.length < 2 ^ 64 - 2) :
    Consecutive ((r, input) :: past) (es ++ fs) r' := by
  have hlow := h.low
  have hhigh := h.high
  have hnext : r'.nextIssuedSequenceNumber = r.nextIssuedSequenceNumber + 1 := by
    rw [hone.next]
    exact Nat.mod_eq_of_lt (by omega)
  obtain ⟨peers, op, hpeers, hview, hsequence, heffects⟩ := hone.sends
  have hnew : ∀ envelope, Sent fs envelope → envelope = ⟨r.uuid, commonMessageSetup op .preprepare⟩ := by
    rintro envelope ⟨peer, hmem⟩
    rw [heffects] at hmem
    obtain ⟨_, _, hsend⟩ := List.mem_map.mp hmem
    cases hsend
    rfl
  have hnumber : ∀ envelope, Sent fs envelope → envelope.pbft.sequence = r.nextIssuedSequenceNumber := by
    intro envelope hsent
    rw [hnew envelope hsent]
    exact hsequence
  refine ⟨?_, ?_, ?_, ?_, ?_⟩
  · omega
  · rw [hnext, List.length_cons]
    omega
  · intro envelope hsent htype
    rw [hone.uuid, hone.view, hnext]
    rcases sent_append_cases hsent with hold | hfresh
    · obtain ⟨hsender, hplace, hpos, hlt⟩ := h.range envelope hold htype
      exact ⟨hsender, hplace, hpos, by omega⟩
    · have hseq := hnumber envelope hfresh
      refine ⟨?_, ?_, by omega, by omega⟩
      · rw [hnew envelope hfresh]
      · rw [hnew envelope hfresh]
        exact hview
  · intro a b ha hb htype htype' hsame
    rcases sent_append_cases ha with hold | hfresh
    · have hbefore := (h.range a hold htype).2.2.2
      rcases sent_append_cases hb with hold' | hfresh'
      · exact h.once a b hold hold' htype htype' hsame
      · have hseq := hnumber b hfresh'
        omega
    · rcases sent_append_cases hb with hold' | hfresh'
      · have hbefore := (h.range b hold' htype').2.2.2
        have hseq := hnumber a hfresh
        omega
      · rw [hnew a hfresh, hnew b hfresh']
  · intro x hpos hlt
    rw [hone.configured]
    by_cases hx : x < r.nextIssuedSequenceNumber
    · obtain ⟨envelope, htype, hseq, hspread⟩ := h.spread x hpos hx
      exact ⟨envelope, htype, hseq, fun peers hpeers peer hpeer =>
        List.mem_append_left _ (hspread peers hpeers peer hpeer)⟩
    · refine ⟨⟨r.uuid, commonMessageSetup op .preprepare⟩, rfl, ?_, ?_⟩
      · change op.sequence = x
        omega
      · intro others hothers peer hpeer
        obtain ⟨msg, _, _, hmem⟩ := hall others hothers peer hpeer
        have hsame := hnew _ ⟨peer, hmem⟩
        rw [hsame] at hmem
        exact List.mem_append_right _ hmem

theorem consecutive_of_run (run : ((lifetime lib).guard fun r input => returns lib r input = true).Run past r)
    (hshort : past.length < 2 ^ 64 - 1) : Consecutive past (done lib past) r := by
  induction run with
  | start hinit =>
      obtain ⟨peers, uuid, fresh, setting, hfresh, rfl⟩ := hinit
      unfold construct at hfresh
      split at hfresh
      · cases hfresh
      · cases hfresh
        refine ⟨le_refl 1, le_refl 1, ?_, ?_, ?_⟩
        · rintro envelope ⟨_, hmem⟩
          cases hmem
        · rintro a b ⟨_, hmem⟩
          cases hmem
        · intro x hpos hlt
          change x < 1 at hlt
          omega
  | @step past r input run henabled ih =>
      rw [List.length_cons] at hshort
      have hbefore := ih (by omega)
      rcases handler_issues lib input (sound_of_run run.of_guard).kept with ⟨_, hnone⟩ | ⟨hissues, hone⟩
      · exact hbefore.unissued hnone
      · obtain ⟨key, hspread⟩ := issues_spread hissues () (result_of_returns henabled.2)
        exact hbefore.issued hone hspread (by omega)

end Issuing

end SwarmDB.Pbft
