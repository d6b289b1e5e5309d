import SwarmDB.Pbft.Replica.Frame
import SwarmDB.Pbft.Replica.Safety

namespace SwarmDB.Pbft

open Replica Machine

-- All of them are checkpoint messages for this checkpoint, one for each sender.
def Testifies (cp : Checkpoint) (proof : Proof) : Prop :=
  ∀ sender envelope, proof.lookup sender = some envelope → envelope.sender = sender ∧
    envelope.pbft.type = .checkpoint ∧ envelope.pbft.sequence = cp.1 ∧ envelope.pbft.stateHash = cp.2

theorem Testifies.empty (cp : Checkpoint) : Testifies cp ∅ := by
  intro sender envelope h
  simp at h

theorem Testifies.insert {cp : Checkpoint} {proof : Proof} {original : Envelope} (h : Testifies cp proof)
    (htype : original.pbft.type = .checkpoint) (hsequence : original.pbft.sequence = cp.1)
    (hhash : original.pbft.stateHash = cp.2) : Testifies cp (proof.insert original.sender original) := by
  intro sender envelope hfound
  by_cases hsender : sender = original.sender
  · subst hsender
    rw [AList.lookup_insert] at hfound
    cases hfound
    exact ⟨rfl, htype, hsequence, hhash⟩
  · rw [AList.lookup_insert_ne hsender] at hfound
    exact h sender envelope hfound

-- A quorum, by the number of configured peers.
def HasQuorum (r : Replica) (proof : Proof) : Prop :=
  ∃ peers, r.configured = some peers ∧ 1 + 2 * (peers.length / 3) ≤ proof.keys.toFinset.card

-- The checkpoints and water marks of a replica belong together, for the checkpoints that its
-- service has reached.
structure Anchored (reached : Checkpoint → Prop) (r : Replica) : Prop where
  lowWaterMark : r.lowWaterMark = r.stableCheckpoint.1
  highWaterMark : r.highWaterMark = r.lowWaterMark + highWaterInterval
  stable : 0 < r.stableCheckpoint.1 → reached r.stableCheckpoint ∧
    Testifies r.stableCheckpoint r.stableCheckpointProof ∧ HasQuorum r r.stableCheckpointProof
  operations : ∀ key op, r.operations key = some op →
    r.lowWaterMark < op.sequence ∧ op.sequence ≤ r.highWaterMark
  locals : ∀ cp ∈ r.localUnstableCheckpoints, reached cp ∧ r.stableCheckpoint.1 < cp.1
  proofs : ∀ cp proof, r.unstableCheckpointProofs cp = some proof →
    r.stableCheckpoint.1 < cp.1 ∧ Testifies cp proof

variable {lib : Library} {past : List (Replica × Input)} {r r' : Replica} {reached : Checkpoint → Prop}
  {cp : Checkpoint} {es : List Effect}

section Anchored

theorem Anchored.mono {later : Checkpoint → Prop} (h : Anchored reached r)
    (himp : ∀ cp, reached cp → later cp) : Anchored later r where
  lowWaterMark := h.lowWaterMark
  highWaterMark := h.highWaterMark
  stable := fun hpos => ⟨himp _ (h.stable hpos).1, (h.stable hpos).2⟩
  operations := h.operations
  locals := fun cp hcp => ⟨himp cp (h.locals cp hcp).1, (h.locals cp hcp).2⟩
  proofs := h.proofs

theorem testifies_getD (h : Anchored reached r) (cp : Checkpoint) :
    Testifies cp ((r.unstableCheckpointProofs cp).getD ∅) := by
  cases hproof : r.unstableCheckpointProofs cp with
  | none => exact .empty cp
  | some proof => exact (h.proofs cp proof hproof).2

-- A set of messages is put in the place of another.
theorem Anchored.setProof {proof : Proof} (h : Anchored reached r) (hcp : r.stableCheckpoint.1 < cp.1)
    (hproof : Testifies cp proof) :
    Anchored reached { r with
      unstableCheckpointProofs := Function.update r.unstableCheckpointProofs cp (some proof) } where
  lowWaterMark := h.lowWaterMark
  highWaterMark := h.highWaterMark
  stable := h.stable
  operations := h.operations
  locals := h.locals
  proofs := by
    intro other found hfound
    change Function.update r.unstableCheckpointProofs cp (some proof) other = some found at hfound
    by_cases hother : other = cp
    · subst hother
      rw [Function.update_self] at hfound
      cases hfound
      exact ⟨hcp, hproof⟩
    · rw [Function.update_of_ne hother] at hfound
      exact h.proofs other found hfound

theorem Anchored.touchProof (h : Anchored reached r) (hcp : r.stableCheckpoint.1 < cp.1) :
    Anchored reached (touchProof cp r) := h.setProof hcp (testifies_getD h cp)

theorem Anchored.addProof {original : Envelope} (h : Anchored reached r) (hcp : r.stableCheckpoint.1 < cp.1)
    (htype : original.pbft.type = .checkpoint) (hsequence : original.pbft.sequence = cp.1)
    (hhash : original.pbft.stateHash = cp.2) : Anchored reached (addProof cp original r) :=
  h.setProof hcp ((testifies_getD h cp).insert htype hsequence hhash)

theorem Anchored.addLocal (h : Anchored reached r) (hreached : reached cp)
    (hcp : r.stableCheckpoint.1 < cp.1) : Anchored reached (addLocalCheckpoint cp r) where
  lowWaterMark := h.lowWaterMark
  highWaterMark := h.highWaterMark
  stable := h.stable
  operations := h.operations
  locals := by
    intro other hother
    rcases Finset.mem_insert.mp hother with rfl | hother
    · exact ⟨hreached, hcp⟩
    · exact h.locals other hother
  proofs := h.proofs

-- What is left behind when everything up to a checkpoint is erased comes after it.
theorem lt_of_not_upTo {cp other : Checkpoint} (hwrap : cp.1 + 1 < 2 ^ 64)
    (h : upTo ((cp.1 + 1) % 2 ^ 64, "") other = false) : cp.1 < other.1 := by
  rw [Nat.mod_eq_of_lt hwrap] at h
  simp only [upTo, Bool.or_eq_false_iff, decide_eq_false_iff_not] at h
  omega

theorem card_keys (proof : Proof) : proof.keys.toFinset.card = proof.entries.length := by
  rw [List.toFinset_card_of_nodup proof.keys_nodup]
  simp [AList.keys, List.keys]

theorem Anchored.stabilize {peers : List PeerAddress} (h : Anchored reached r)
    (hlocal : cp ∈ r.localUnstableCheckpoints) (hwrap : cp.1 + highWaterInterval < 2 ^ 64)
    (hpeers : r.configured = some peers)
    (hquorum : 1 + 2 * (peers.length / 3) ≤ ((r.unstableCheckpointProofs cp).getD ∅).entries.length) :
    Anchored reached (stabilizeCheckpoint cp (.of cp) r) := by
  obtain ⟨hreached, habove⟩ := h.locals cp hlocal
  have hinterval : highWaterInterval = 200 := rfl
  have hnext : cp.1 + 1 < 2 ^ 64 := by omega
  have hlow : (stabilizeCheckpoint cp (.of cp) r).lowWaterMark = cp.1 := by
    rw [stabilizeCheckpoint_low, h.lowWaterMark]
    omega
  have hhigh : (stabilizeCheckpoint cp (.of cp) r).highWaterMark = cp.1 + highWaterInterval := by
    change max r.highWaterMark ((cp.1 + highWaterInterval) % 2 ^ 64) = _
    rw [Nat.mod_eq_of_lt hwrap, h.highWaterMark, h.lowWaterMark]
    omega
  refine ⟨hlow, by rw [hhigh, hlow], ?_, ?_, ?_, ?_⟩
  · intro _
    refine ⟨hreached, testifies_getD h cp, peers, hpeers, ?_⟩
    rw [card_keys]
    exact hquorum
  · intro key op hop
    obtain ⟨hstored, hafter⟩ := Option.filter_eq_some_iff.mp hop
    have hbelow := (h.operations key op hstored).2
    rw [hlow, hhigh]
    rw [h.highWaterMark, h.lowWaterMark] at hbelow
    exact ⟨of_decide_eq_true hafter, by omega⟩
  · intro other hother
    obtain ⟨hmem, hafter⟩ := Finset.mem_filter.mp hother
    exact ⟨(h.locals other hmem).1, lt_of_not_upTo hnext hafter⟩
  · intro other proof hproof
    change (if upTo ((cp.1 + 1) % 2 ^ 64, "") other then none
      else r.unstableCheckpointProofs other) = some proof at hproof
    split at hproof
    · cases hproof
    · rename_i hafter
      exact ⟨lt_of_not_upTo hnext (Bool.not_eq_true _ ▸ hafter), (h.proofs other proof hproof).2⟩

theorem Anchored.frame (h : Anchored reached r) (hlevel : Level r r')
    (hrecords : ∀ key op, r'.operations key = some op →
      r.operations key = some op ∨ (r.lowWaterMark < op.sequence ∧ op.sequence ≤ r.highWaterMark)) :
    Anchored reached r' := by
  constructor
  · rw [hlevel.lowWaterMark, hlevel.stableCheckpoint]
    exact h.lowWaterMark
  · rw [hlevel.highWaterMark, hlevel.lowWaterMark]
    exact h.highWaterMark
  · rw [hlevel.stableCheckpoint, hlevel.stableCheckpointProof]
    intro hpos
    obtain ⟨hreached, hproof, peers, hpeers, hquorum⟩ := h.stable hpos
    exact ⟨hreached, hproof, peers, hlevel.configured.trans hpeers, hquorum⟩
  · rw [hlevel.lowWaterMark, hlevel.highWaterMark]
    intro key op hop
    rcases hrecords key op hop with hold | hnew
    · exact h.operations key op hold
    · exact hnew
  · rw [hlevel.localUnstableCheckpoints, hlevel.stableCheckpoint]
    exact h.locals
  · rw [hlevel.unstableCheckpointProofs, hlevel.stableCheckpoint]
    exact h.proofs

end Anchored

section Calls

-- A step that keeps checkpoints and water marks together, and never goes back.
def Advances (reached : Checkpoint → Prop) (r : Replica) (_ : List Effect) (r' : Replica) : Prop :=
  Anchored reached r → Anchored reached r' ∧ r.stableCheckpoint.1 ≤ r'.stableCheckpoint.1

theorem Advances.of_trail (h : Trail (Advances reached) r es r') : Advances reached r es r' := by
  induction h with
  | rest => exact fun hr => ⟨hr, le_refl _⟩
  | next _ step ih =>
      intro hr
      obtain ⟨hmiddle, hle⟩ := ih hr
      obtain ⟨hlast, hle'⟩ := step hmiddle
      exact ⟨hlast, hle.trans hle'⟩

theorem maybeStabilizeCheckpoint_advances {freed : Option Reads}
    (hwrap : ∀ cp, reached cp → cp.1 + highWaterInterval < 2 ^ 64)
    (hkept : freed.isSome = true → cp.1 < (cp.1 + 1) % 2 ^ 64 → ¬r.Voted cp) :
    Performs (Advances reached) (maybeStabilizeCheckpoint cp freed) r fun _ _ => True := by
  refine maybeStabilizeCheckpoint_performs hkept ?_ ?_
  · intro hlocal hr
    exact ⟨hr.touchProof (hr.locals cp hlocal).2, le_refl _⟩
  · rintro reads hlocal ⟨peers, hpeers, hquorum⟩ hreads hr
    obtain rfl := hreads.resolve_right id
    obtain ⟨hreached, habove⟩ := hr.locals cp hlocal
    rw [← touchProof_getD] at hquorum
    exact ⟨hr.stabilize hlocal (hwrap cp hreached) hpeers hquorum, habove.le⟩

theorem checkpointReachedLocally_advances {sequence : Nat} {stateHash : Hash} {freed : Reads}
    (hwrap : ∀ cp, reached cp → cp.1 + highWaterInterval < 2 ^ 64) (hreached : reached (sequence, stateHash))
    (habove : r.stableCheckpoint.1 < sequence)
    (hkept : ¬VotesFirst lib r (.checkpointReachedLocally sequence stateHash freed)) :
    Performs (Advances reached) (checkpointReachedLocally lib sequence stateHash freed) r fun _ _ => True := by
  have hadd : Advances reached r [] (addLocalCheckpoint (sequence, stateHash) r) :=
    fun hr => ⟨hr.addLocal hreached habove, le_refl _⟩
  refine (Performs.updates hadd).bind ?_
  rintro _ _ rfl
  refine (Performs.reads _).bind ?_
  rintro view _ ⟨rfl, _⟩
  refine (broadcastMsg_reaches lib _ fun _ _ hr => ⟨hr, le_refl _⟩).bind ?_
  rintro _ _ ⟨rfl, hvalid⟩
  refine maybeStabilizeCheckpoint_advances hwrap ?_
  intro _ herased hvoted
  exact hkept ⟨herased, hvoted, hvalid⟩

theorem handleCheckpoint_advances {msg : PbftMsg} {original : Envelope}
    (hwrap : ∀ cp, reached cp → cp.1 + highWaterInterval < 2 ^ 64) (htype : msg.type = .checkpoint)
    (horiginal : original.pbft = msg) :
    Performs (Advances reached) (handleCheckpoint msg original) r fun _ _ => True := by
  refine (Performs.reads _).bind ?_
  rintro old r ⟨rfl, hold⟩
  cases old with
  | true => exact Performs.pure trivial
  | false =>
      have habove : r.stableCheckpoint.1 < msg.sequence := not_le.mp (of_decide_eq_false hold.symm)
      have hadd : Advances reached r [] (addProof (msg.sequence, msg.stateHash) original r) := by
        intro hr
        subst horiginal
        exact ⟨hr.addProof habove htype rfl rfl, le_refl _⟩
      refine (Performs.updates hadd).bind ?_
      rintro _ _ rfl
      refine maybeStabilizeCheckpoint_advances hwrap ?_
      intro hsome
      cases hsome

theorem handleMessage_advances {msg : PbftMsg} {original : Envelope}
    (hwrap : ∀ cp, reached cp → cp.1 + highWaterInterval < 2 ^ 64) (horiginal : original.pbft = msg)
    (hkept : Kept lib r) :
    Advances reached r (handleMessage lib msg original r).effects (handleMessage lib msg original r).state := by
  by_cases htype : msg.type = .checkpoint
  · have hperforms : Performs (Advances reached) (handleMessage lib msg original) r fun _ _ => True := by
      refine (Performs.reads _).bind ?_
      rintro filtered r ⟨rfl, _⟩
      cases filtered with
      | false => exact Performs.pure trivial
      | true =>
          simp only [htype]
          exact handleCheckpoint_advances hwrap htype horiginal
    exact .of_trail hperforms.trail
  · intro hr
    have hframe := Frame.of_trail (handleMessage_frames original htype hkept).trail
    refine ⟨hr.frame hframe.toLevel fun key op hop => handleMessage_records original htype hkept hop, ?_⟩
    rw [hframe.stableCheckpoint]

end Calls

section Runs

-- The calls the invariant is about: a message in the envelope it came in, or a checkpoint that the
-- service has reached.
def Input.IsDelivery : Input → Prop
  | .message msg original => original.pbft = msg
  | .checkpointReachedLocally .. => True
  | .request .. | .membership _ | .auditHeartbeatTimeout _ | .failure => False

instance : (input : Input) → Decidable input.IsDelivery
  | .message msg original => inferInstanceAs (Decidable (original.pbft = msg))
  | .checkpointReachedLocally .. => inferInstanceAs (Decidable True)
  | .request .. | .membership _ | .auditHeartbeatTimeout _ | .failure => inferInstanceAs (Decidable False)

-- The invariant of a run, with what it says about the way there.
structure Watermarked (past : List (Replica × Input)) (r : Replica) : Prop where
  anchored : Anchored (· ∈ reachedIn past) r
  never_back : ∀ earlier, Visited past r earlier → earlier.stableCheckpoint.1 ≤ r.stableCheckpoint.1

theorem anchored_fresh (hinit : (lifetime lib).init r) : Anchored reached r := by
  obtain ⟨peers, uuid, fresh, setting, hfresh, rfl⟩ := hinit
  unfold construct at hfresh
  split at hfresh
  · cases hfresh
  · cases hfresh
    constructor
    · rfl
    · rfl
    · intro hpos
      exact absurd hpos (lt_irrefl 0)
    · intro key op hop
      cases hop
    · intro cp hcp
      exact absurd hcp (Finset.notMem_empty cp)
    · intro cp proof hproof
      cases hproof

-- The stable checkpoint is the start, or one that the service has reached.
theorem Anchored.stable_lt (h : Anchored reached r) {sequence : Nat} (hpos : 0 < sequence)
    (hlater : ∀ cp, reached cp → cp.1 < sequence) : r.stableCheckpoint.1 < sequence := by
  rcases Nat.eq_zero_or_pos r.stableCheckpoint.1 with hzero | hstable
  · rw [hzero]
    exact hpos
  · exact hlater _ (h.stable hstable).1

theorem handler_advances {input : Input} (run : (lifetime lib).Run past r)
    (hanchored : Anchored (· ∈ reachedIn past) r) (hcall : input.IsDelivery) (hkept : ¬VotesFirst lib r input)
    (hincreasing : (reachedIn ((r, input) :: past)).Pairwise fun later earlier => earlier.1 < later.1)
    (hrange : ∀ cp ∈ reachedIn ((r, input) :: past), 0 < cp.1 ∧ cp.1 + highWaterInterval < 2 ^ 64) :
    Advances (· ∈ reachedIn ((r, input) :: past)) r (input.handler lib r).effects
      (input.handler lib r).state := by
  have hwrap : ∀ cp, cp ∈ reachedIn ((r, input) :: past) → cp.1 + highWaterInterval < 2 ^ 64 :=
    fun cp hcp => (hrange cp hcp).2
  cases input with
  | message msg original => exact handleMessage_advances hwrap hcall (sound_of_run run).kept
  | checkpointReachedLocally sequence stateHash freed =>
      have hnew : reachedIn ((r, .checkpointReachedLocally sequence stateHash freed) :: past) =
          (sequence, stateHash) :: reachedIn past := rfl
      rw [hnew] at hincreasing hrange hwrap ⊢
      have hfirst : (sequence, stateHash) ∈ (sequence, stateHash) :: reachedIn past := List.mem_cons_self
      have habove : r.stableCheckpoint.1 < sequence :=
        hanchored.stable_lt (hrange _ hfirst).1 (List.pairwise_cons.mp hincreasing).1
      exact Advances.of_trail (checkpointReachedLocally_advances hwrap hfirst habove hkept).trail
  | request | membership | auditHeartbeatTimeout | failure => exact hcall.elim

theorem reachedIn_sublist (r : Replica) (input : Input) (past : List (Replica × Input)) :
    (reachedIn past).Sublist (reachedIn ((r, input) :: past)) :=
  (List.sublist_cons_self (r, input) past).filterMap _

theorem mem_reachedIn_self (r : Replica) {input : Input} (past : List (Replica × Input))
    (h : input.checkpoint = some cp) : cp ∈ reachedIn ((r, input) :: past) :=
  List.mem_filterMap.mpr ⟨(r, input), List.mem_cons_self, h⟩

theorem watermarks_of_run (run : (keepsCheckpoints lib).Run past r) (hcalls : ∀ step ∈ past, step.2.IsDelivery)
    (hincreasing : (reachedIn past).Pairwise fun later earlier => earlier.1 < later.1)
    (hrange : ∀ cp ∈ reachedIn past, 0 < cp.1 ∧ cp.1 + highWaterInterval < 2 ^ 64) : Watermarked past r := by
  induction run with
  | start hinit =>
      refine ⟨anchored_fresh hinit, ?_⟩
      rintro earlier (rfl | ⟨_, hmem⟩)
      · exact le_refl _
      · cases hmem
  | @step past r input run henabled ih =>
      have hsub := reachedIn_sublist r input past
      have hbefore := ih (fun step hs => hcalls step (List.mem_cons_of_mem _ hs)) (hincreasing.sublist hsub)
        fun cp hcp => hrange cp (hsub.subset hcp)
      have hcall : input.IsDelivery := hcalls (r, input) List.mem_cons_self
      obtain ⟨hafter, hle⟩ := handler_advances run.of_guard hbefore.anchored hcall henabled.2 hincreasing hrange
        (hbefore.anchored.mono fun cp hcp => hsub.subset hcp)
      refine ⟨hafter, ?_⟩
      intro earlier hvisited
      rcases visited_step_cases hvisited with rfl | hvisited
      · exact le_refl _
      · exact (hbefore.never_back earlier hvisited).trans hle

theorem watermarks_of_run_fresh :
    let run := (lifetime openLibrary).replay [] (freshReplica "A") (oneRound ++ localFirst)
    run.2.stableCheckpoint = (100, "h") ∧ run.2.highWaterMark = 300 ∧ Watermarked run.1 run.2 :=
  ⟨by decide +kernel, by decide +kernel,
    watermarks_of_run ((run_of_fresh "A" (oneRound ++ localFirst)).guard_of (by decide +kernel))
      (by decide +kernel) (by decide +kernel) (by decide +kernel)⟩

-- The votes come first, and the low water mark stays where it was.
theorem watermarks_broken : ¬∀ (lib : Library) (past : List (Replica × Input)) (r : Replica),
    (lifetime lib).Run past r → (∀ step ∈ past, step.2.IsDelivery) →
      ((reachedIn past).Pairwise fun later earlier => earlier.1 < later.1) →
      (∀ cp ∈ reachedIn past, cp.1 % 100 = 0 ∧ cp.1 < 2 ^ 64) → Watermarked past r := by
  intro h
  have hall := h _ _ _ (run_of_fresh "A" votesBefore) (by decide +kernel) (by decide +kernel) (by decide +kernel)
  exact absurd hall.anchored.lowWaterMark (by decide +kernel)

end Runs

end SwarmDB.Pbft
