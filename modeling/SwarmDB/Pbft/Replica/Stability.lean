import SwarmDB.Pbft.Replica.Checkpoint
import SwarmDB.Pbft.Replica.Safety
import SwarmDB.Pbft.Replica.Steady

namespace SwarmDB.Pbft

open Replica Machine

-- What a replica does about checkpoints, one thing at a time.
inductive Stabilizing (erased : Prop) (input : Input) : Replica → List Effect → Replica → Prop
  | reach {r : Replica} {cp : Checkpoint} (hinput : input.checkpoint = some cp) :
      Stabilizing erased input r [] (addLocalCheckpoint cp r)
  | announce {r : Replica} {cp : Checkpoint} {es : List Effect} (hinput : input.checkpoint = some cp)
      (hsends : Sends r (.pbft ⟨r.uuid, .checkpoint, r.view, cp.1, none, cp.2⟩) es) :
      Stabilizing erased input r es r
  | hear {r : Replica} {msg : PbftMsg} {original : Envelope} (hinput : input = .message msg original)
      (htype : msg.type = .checkpoint) :
      Stabilizing erased input r [] (addProof (msg.sequence, msg.stateHash) original r)
  | touch {r : Replica} {cp : Checkpoint} (hlocal : cp ∈ r.localUnstableCheckpoints) :
      Stabilizing erased input r [] (touchProof cp r)
  | stabilize {r : Replica} {cp : Checkpoint} {reads : Reads} (hlocal : cp ∈ r.localUnstableCheckpoints)
      (hvoted : r.Voted cp) (hreads : reads = .of cp ∨ erased) :
      Stabilizing erased input r [] (stabilizeCheckpoint cp reads r)

variable {lib : Library} {input : Input} {past : List (Replica × Input)} {r r' : Replica} {cp : Checkpoint}
  {es fs : List Effect} {erased : Prop}

section Moves

theorem maybeStabilizeCheckpoint_moves {freed : Option Reads}
    (herased : freed.isSome = true → cp.1 < (cp.1 + 1) % 2 ^ 64 → r.Voted cp → erased) :
    Performs (Stabilizing erased input) (maybeStabilizeCheckpoint cp freed) r fun _ _ => True := by
  refine maybeStabilizeCheckpoint_performs herased (fun hlocal => .touch hlocal) ?_
  intro reads hlocal hvoted hreads
  refine .stabilize hlocal ?_ hreads
  unfold Replica.Voted
  rw [touchProof_getD]
  exact hvoted

theorem checkpointReachedLocally_moves (lib : Library) (sequence : Nat) (stateHash : Hash) (freed : Reads) :
    Performs (Stabilizing (VotesFirst lib r (.checkpointReachedLocally sequence stateHash freed))
        (.checkpointReachedLocally sequence stateHash freed))
      (checkpointReachedLocally lib sequence stateHash freed) r fun _ _ => True := by
  refine (Performs.updates (.reach rfl)).bind ?_
  rintro _ _ rfl
  refine (Performs.reads _).bind ?_
  rintro view _ ⟨rfl, rfl⟩
  refine (broadcastMsg_reaches lib _ fun es hes => .announce rfl hes).bind ?_
  rintro _ _ ⟨rfl, hvalid⟩
  refine maybeStabilizeCheckpoint_moves ?_
  intro _ hwrap hvoted
  exact ⟨hwrap, hvoted, hvalid⟩

theorem handleCheckpoint_moves {msg : PbftMsg} (original : Envelope) (htype : msg.type = .checkpoint) :
    Performs (Stabilizing erased (.message msg original)) (handleCheckpoint msg original) r fun _ _ => True := by
  refine (Performs.reads _).bind ?_
  rintro old r ⟨rfl, _⟩
  cases old with
  | true => exact Performs.pure trivial
  | false =>
      refine (Performs.updates (.hear rfl htype)).bind ?_
      rintro _ _ rfl
      refine maybeStabilizeCheckpoint_moves ?_
      intro hsome
      cases hsome

theorem handler_stabilizing (lib : Library) (h : aboutCheckpoints input = true) :
    Trail (Stabilizing (VotesFirst lib r input) input) r (input.handler lib r).effects
      (input.handler lib r).state := by
  cases input with
  | message msg original =>
      have htype : msg.type = .checkpoint := of_decide_eq_true h
      have hperforms : Performs (Stabilizing (VotesFirst lib r (.message msg original)) (.message msg original))
          (handleMessage lib msg original) r fun _ _ => True := by
        refine (Performs.reads _).bind ?_
        rintro filtered r ⟨rfl, _⟩
        cases filtered with
        | false => exact Performs.pure trivial
        | true =>
            simp only [htype]
            exact handleCheckpoint_moves original htype
      exact hperforms.trail
  | checkpointReachedLocally sequence stateHash freed =>
      exact (checkpointReachedLocally_moves lib sequence stateHash freed).trail
  | request | membership | auditHeartbeatTimeout | failure => cases h

end Moves

section Support

-- The envelope reached the replica as a message for the checkpoint.
def HeardFor (past : List (Replica × Input)) (cp : Checkpoint) (original : Envelope) : Prop :=
  ∃ step ∈ past, ∃ msg, step.2 = .message msg original ∧ msg.type = .checkpoint ∧
    (msg.sequence, msg.stateHash) = cp

-- Messages that were heard, each under its sender.
def Vouched (heard : Checkpoint → Envelope → Prop) (cp : Checkpoint) (proof : Proof) : Prop :=
  ∀ sender envelope, proof.lookup sender = some envelope → envelope.sender = sender ∧ heard cp envelope

-- What a replica holds about checkpoints has come from its service or from its peers, and it only
-- hands over operations below its high water mark. Nothing is assumed about the order in which
-- checkpoints are reached.
structure Supported (reached : Checkpoint → Prop) (heard : Checkpoint → Envelope → Prop) (es : List Effect)
    (r : Replica) : Prop where
  locals : ∀ cp ∈ r.localUnstableCheckpoints, reached cp
  proofs : ∀ cp proof, r.unstableCheckpointProofs cp = some proof → Vouched heard cp proof
  stable : 0 < r.stableCheckpoint.1 → reached r.stableCheckpoint ∧
    Vouched heard r.stableCheckpoint r.stableCheckpointProof ∧ HasQuorum r r.stableCheckpointProof
  highWaterMark : r.highWaterMark < 2 ^ 64
  announced : ∀ e ∈ es, ∀ sender cp, e.announced = some (sender, cp) → sender = r.uuid ∧ reached cp
  applied : ∀ op ∈ appliedIn es, 0 < op.sequence ∧ op.sequence ≤ r.highWaterMark

variable {reached : Checkpoint → Prop} {heard : Checkpoint → Envelope → Prop}

theorem Supported.mono {later : Checkpoint → Prop} {hears : Checkpoint → Envelope → Prop}
    (h : Supported reached heard es r) (hreached : ∀ cp, reached cp → later cp)
    (hheard : ∀ cp envelope, heard cp envelope → hears cp envelope) : Supported later hears es r where
  locals := fun cp hcp => hreached cp (h.locals cp hcp)
  proofs := fun cp proof hproof sender envelope hfound =>
    ⟨(h.proofs cp proof hproof sender envelope hfound).1,
      hheard _ _ (h.proofs cp proof hproof sender envelope hfound).2⟩
  stable := by
    intro hpos
    obtain ⟨hcp, hvouched, hquorum⟩ := h.stable hpos
    exact ⟨hreached _ hcp, fun sender envelope hfound =>
      ⟨(hvouched sender envelope hfound).1, hheard _ _ (hvouched sender envelope hfound).2⟩, hquorum⟩
  highWaterMark := h.highWaterMark
  announced := fun e he sender cp hsome =>
    ⟨(h.announced e he sender cp hsome).1, hreached cp (h.announced e he sender cp hsome).2⟩
  applied := h.applied

theorem vouched_empty (heard : Checkpoint → Envelope → Prop) (cp : Checkpoint) : Vouched heard cp ∅ := by
  intro sender envelope hfound
  simp at hfound

theorem Supported.getD (h : Supported reached heard es r) (cp : Checkpoint) :
    Vouched heard cp ((r.unstableCheckpointProofs cp).getD ∅) := by
  cases hproof : r.unstableCheckpointProofs cp with
  | none => exact vouched_empty heard cp
  | some proof => exact h.proofs cp proof hproof

theorem Vouched.insert {proof : Proof} {original : Envelope} (h : Vouched heard cp proof)
    (hheard : heard cp original) : Vouched heard cp (proof.insert original.sender original) := by
  intro sender envelope hfound
  by_cases hsender : sender = original.sender
  · subst hsender
    rw [AList.lookup_insert] at hfound
    cases hfound
    exact ⟨rfl, hheard⟩
  · rw [AList.lookup_insert_ne hsender] at hfound
    exact h sender envelope hfound

-- A set of messages is put in the place of another.
theorem Supported.setProof {proof : Proof} (h : Supported reached heard es r) (hproof : Vouched heard cp proof) :
    Supported reached heard es { r with
      unstableCheckpointProofs := Function.update r.unstableCheckpointProofs cp (some proof) } where
  locals := h.locals
  proofs := by
    intro other found hfound
    change Function.update r.unstableCheckpointProofs cp (some proof) other = some found at hfound
    by_cases hother : other = cp
    · subst hother
      rw [Function.update_self] at hfound
      cases hfound
      exact hproof
    · rw [Function.update_of_ne hother] at hfound
      exact h.proofs other found hfound
  stable := h.stable
  highWaterMark := h.highWaterMark
  announced := h.announced
  applied := h.applied

theorem Supported.stabilize {reads : Reads} (h : Supported reached heard es r)
    (hlocal : cp ∈ r.localUnstableCheckpoints) (hvoted : r.Voted cp) :
    Supported reached heard es (stabilizeCheckpoint cp reads r) := by
  obtain ⟨peers, hpeers, hquorum⟩ := hvoted
  have hhigh : (stabilizeCheckpoint cp reads r).highWaterMark =
      max r.highWaterMark ((reads.high + highWaterInterval) % 2 ^ 64) := rfl
  refine ⟨?_, ?_, ?_, ?_, h.announced, ?_⟩
  · intro other hother
    exact h.locals other (Finset.mem_filter.mp hother).1
  · intro other proof hproof
    change (if upTo ((reads.messages + 1) % 2 ^ 64, "") other then none
      else r.unstableCheckpointProofs other) = some proof at hproof
    split at hproof
    · cases hproof
    · exact h.proofs other proof hproof
  · intro _
    refine ⟨h.locals cp hlocal, h.getD cp, peers, hpeers, ?_⟩
    rw [card_keys]
    exact hquorum
  · rw [hhigh]
    exact max_lt h.highWaterMark (Nat.mod_lt _ (by decide))
  · intro op hop
    rw [hhigh]
    exact ⟨(h.applied op hop).1, (h.applied op hop).2.trans (le_max_left _ _)⟩

-- Each of the moves keeps it, for the checkpoint that is reached or heard of now.
theorem Supported.move (h : Supported reached heard es r)
    (hreached : ∀ cp, input.checkpoint = some cp → reached cp)
    (hheard : ∀ msg original, input = .message msg original → msg.type = .checkpoint →
      heard (msg.sequence, msg.stateHash) original)
    (hmove : Stabilizing erased input r fs r') : Supported reached heard (es ++ fs) r' := by
  cases hmove with
  | reach hinput =>
      rw [List.append_nil]
      refine ⟨?_, h.proofs, h.stable, h.highWaterMark, h.announced, h.applied⟩
      intro other hother
      rcases Finset.mem_insert.mp hother with rfl | hother
      · exact hreached _ hinput
      · exact h.locals other hother
  | announce hinput hsends =>
      refine ⟨h.locals, h.proofs, h.stable, h.highWaterMark, ?_, ?_⟩
      · intro e he sender cp hsome
        rcases List.mem_append.mp he with he | he
        · exact h.announced e he sender cp hsome
        · obtain ⟨_, _, peer, _, rfl⟩ := hsends e he
          obtain ⟨rfl, rfl⟩ := Prod.mk.inj (Option.some.inj hsome)
          exact ⟨rfl, hreached _ hinput⟩
      · rw [appliedIn_append, appliedIn_sends hsends, List.append_nil]
        exact h.applied
  | @hear msg original hinput htype =>
      rw [List.append_nil]
      exact h.setProof ((h.getD _).insert (hheard msg original hinput htype))
  | touch hlocal =>
      rw [List.append_nil]
      exact h.setProof (h.getD _)
  | stabilize hlocal hvoted _ =>
      rw [List.append_nil]
      exact h.stabilize hlocal hvoted

-- So does all other work.
theorem Supported.steady {sequence : Nat} (h : Supported reached heard es r) (hsteady : Steady sequence r fs r')
    (huuid : r'.uuid = r.uuid) (hconfigured : r'.configured = r.configured)
    (hwindow : ∀ op ∈ appliedIn fs, r.lowWaterMark < op.sequence ∧ op.sequence ≤ r.highWaterMark) :
    Supported reached heard (es ++ fs) r' := by
  refine ⟨?_, ?_, ?_, ?_, ?_, ?_⟩
  · rw [hsteady.localUnstableCheckpoints]
    exact h.locals
  · rw [hsteady.unstableCheckpointProofs]
    exact h.proofs
  · rw [hsteady.stableCheckpoint, hsteady.stableCheckpointProof]
    intro hpos
    obtain ⟨hcp, hvouched, peers, hpeers, hquorum⟩ := h.stable hpos
    exact ⟨hcp, hvouched, peers, hconfigured.trans hpeers, hquorum⟩
  · rw [hsteady.highWaterMark]
    exact h.highWaterMark
  · rw [huuid]
    intro e he sender cp hsome
    rcases List.mem_append.mp he with he | he
    · exact h.announced e he sender cp hsome
    · rw [hsteady.silent e he] at hsome
      cases hsome
  · rw [hsteady.highWaterMark, appliedIn_append]
    intro op hop
    rcases List.mem_append.mp hop with hop | hop
    · exact h.applied op hop
    · exact ⟨Nat.zero_lt_of_lt (hwindow op hop).1, (hwindow op hop).2⟩

theorem supported_fresh (hinit : (lifetime lib).init r) : Supported reached heard [] r := by
  obtain ⟨peers, uuid, fresh, setting, hfresh, rfl⟩ := hinit
  unfold construct at hfresh
  split at hfresh
  · cases hfresh
  · cases hfresh
    have hhigh : highWaterInterval < 2 ^ 64 := by decide
    refine ⟨?_, ?_, ?_, hhigh, by simp, by simp [appliedIn]⟩
    · intro cp hcp
      exact absurd hcp (Finset.notMem_empty cp)
    · intro cp proof hproof
      cases hproof
    · intro hpos
      exact absurd hpos (lt_irrefl 0)

theorem handler_unmoved (hkept : Kept lib r) (input : Input) :
    (input.handler lib r).state.uuid = r.uuid ∧ (input.handler lib r).state.view = r.view ∧
      (input.handler lib r).state.configured = r.configured := by
  refine (handler_turn lib input hkept).keeps
    (P := fun r' => r'.uuid = r.uuid ∧ r'.view = r.view ∧ r'.configured = r.configured) ?_ ?_ ⟨rfl, rfl, rfl⟩
  · rintro r₁ es r₂ hmove ⟨huuid, hview, hconfigured⟩
    have h := hmove.unmoved
    exact ⟨h.uuid.trans huuid, h.view.trans hview, h.configured.trans hconfigured⟩
  · rintro r₁ es r₂ hclear ⟨huuid, hview, hconfigured⟩
    cases hclear with
    | side hbeside _ =>
        exact ⟨hbeside.uuid.trans huuid, hbeside.view.trans hview, hbeside.configured.trans hconfigured⟩
    | clear cp => exact ⟨huuid, hview, hconfigured⟩

theorem handler_supported (hkept : Kept lib r) (h : Supported reached heard es r)
    (hreached : ∀ cp, input.checkpoint = some cp → reached cp)
    (hheard : ∀ msg original, input = .message msg original → msg.type = .checkpoint →
      heard (msg.sequence, msg.stateHash) original) :
    Supported reached heard (es ++ (input.handler lib r).effects) (input.handler lib r).state := by
  cases habout : aboutCheckpoints input with
  | true =>
      exact (handler_stabilizing lib habout).invariant
        (fun _ _ _ _ hbefore hmove => hbefore.move hreached hheard hmove) h
  | false =>
      obtain ⟨⟨sequence, hsteady⟩, hwindow⟩ := handler_steady lib habout hkept
      obtain ⟨huuid, _, hconfigured⟩ := handler_unmoved hkept input
      exact h.steady hsteady huuid hconfigured hwindow

theorem supported_of_run (run : (lifetime lib).Run past r) :
    Supported (· ∈ reachedIn past) (HeardFor past) (done lib past) r := by
  induction run with
  | start hinit => exact supported_fresh hinit
  | @step past r input run _ ih =>
      refine handler_supported (sound_of_run run).kept (ih.mono ?_ ?_) ?_ ?_
      · exact fun cp hcp => (reachedIn_sublist r input past).subset hcp
      · rintro cp envelope ⟨step, hmem, hstep⟩
        exact ⟨step, List.mem_cons_of_mem _ hmem, hstep⟩
      · intro cp hcp
        exact mem_reachedIn_self r past hcp
      · rintro msg original rfl htype
        exact ⟨_, List.mem_cons_self, msg, rfl, htype, rfl⟩

-- The low water mark is the number of a checkpoint that was reached, and the high one leaves room above the
-- stable checkpoint. That is so as long as none is read after it was erased.
structure Marked (reached : Checkpoint → Prop) (r : Replica) : Prop where
  locals : ∀ cp ∈ r.localUnstableCheckpoints, reached cp
  lowWaterMark : 0 < r.lowWaterMark → ∃ cp, reached cp ∧ r.lowWaterMark = cp.1
  highWaterMark : (∀ cp, reached cp → cp.1 + highWaterInterval < 2 ^ 64) →
    r.stableCheckpoint.1 + highWaterInterval ≤ r.highWaterMark

theorem Marked.mono {later : Checkpoint → Prop} (h : Marked reached r) (himp : ∀ cp, reached cp → later cp) :
    Marked later r where
  locals := fun cp hcp => himp cp (h.locals cp hcp)
  lowWaterMark := by
    intro hpos
    obtain ⟨cp, hcp, hlow⟩ := h.lowWaterMark hpos
    exact ⟨cp, himp cp hcp, hlow⟩
  highWaterMark := fun hfits => h.highWaterMark fun cp hcp => hfits cp (himp cp hcp)

theorem Marked.move (h : Marked reached r) (hreached : ∀ cp, input.checkpoint = some cp → reached cp)
    (hkept : ¬erased) (hmove : Stabilizing erased input r fs r') : Marked reached r' := by
  cases hmove with
  | reach hinput =>
      refine ⟨?_, h.lowWaterMark, h.highWaterMark⟩
      intro cp hcp
      rcases Finset.mem_insert.mp hcp with rfl | hcp
      · exact hreached _ hinput
      · exact h.locals cp hcp
  | announce | hear | touch => exact ⟨h.locals, h.lowWaterMark, h.highWaterMark⟩
  | @stabilize cp _ hlocal _ hreads =>
      obtain rfl := hreads.resolve_right hkept
      refine ⟨fun other hother => h.locals other (Finset.mem_filter.mp hother).1, ?_, ?_⟩
      · rw [stabilizeCheckpoint_low]
        intro hpos
        rcases Nat.le_total r.lowWaterMark _ with hle | hle
        · exact ⟨_, h.locals _ hlocal, max_eq_right hle⟩
        · rw [max_eq_left hle] at hpos ⊢
          exact h.lowWaterMark hpos
      · intro hfits
        change cp.1 + highWaterInterval ≤ max r.highWaterMark ((cp.1 + highWaterInterval) % 2 ^ 64)
        rw [Nat.mod_eq_of_lt (hfits cp (h.locals cp hlocal))]
        exact le_max_right _ _

theorem marked_of_run (run : (keepsCheckpoints lib).Run past r) : Marked (· ∈ reachedIn past) r := by
  induction run with
  | start hinit =>
      obtain ⟨peers, uuid, fresh, setting, hfresh, rfl⟩ := hinit
      unfold construct at hfresh
      split at hfresh
      · cases hfresh
      · cases hfresh
        exact ⟨fun cp hcp => absurd hcp (Finset.notMem_empty cp), fun hpos => absurd hpos (lt_irrefl 0),
          fun _ => le_refl _⟩
  | @step past r input run henabled ih =>
      have hbefore := ih.mono fun cp hcp => (reachedIn_sublist r input past).subset hcp
      cases habout : aboutCheckpoints input with
      | true =>
          refine (handler_stabilizing lib habout).invariant (p := []) (I := fun _ r' => Marked _ r') ?_ hbefore
          intro _ r₁ _ r₂ hmarked hmove
          exact hmarked.move (fun cp hcp => mem_reachedIn_self r past hcp) henabled.2 hmove
      | false =>
          obtain ⟨⟨_, hsteady⟩, _⟩ := handler_steady lib habout (sound_of_run run.of_guard).kept
          refine ⟨?_, ?_, ?_⟩
          · exact hsteady.localUnstableCheckpoints ▸ hbefore.locals
          · exact hsteady.lowWaterMark ▸ hbefore.lowWaterMark
          · exact hsteady.highWaterMark ▸ hsteady.stableCheckpoint ▸ hbefore.highWaterMark

end Support

end SwarmDB.Pbft
