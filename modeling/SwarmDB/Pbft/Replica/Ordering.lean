import SwarmDB.Pbft.Replica.Primary
import SwarmDB.Pbft.Replica.Reconfiguration

namespace SwarmDB.Pbft

open Replica

variable {lib : Library} {input : Input} {past : List (Replica × Input)} {r r' : Replica}
  {es : List Effect} {key : OperationKey} {msg : PbftMsg} {original : Envelope}

-- Whom get_primary names, in the view of the replica.
def primaryUuid (r : Replica) : Option Uuid :=
  match (getPrimary r).result with
  | .ok primary => some primary.uuid
  | .error _ => none

-- The preprepare is of the replica's view, between its water marks, and nothing else was accepted at
-- its place.
def takesPreprepare (lib : Library) (msg : PbftMsg) (r : Replica) : Bool :=
  preliminaryFilterMsg msg r && !conflictingPreprepare lib msg r

theorem handleMessage_rejects (original : Envelope) (htype : msg.type = .preprepare)
    (h : takesPreprepare lib msg r = false) : handleMessage lib msg original r = ⟨r, [], .ok ()⟩ := by
  cases hfilter : preliminaryFilterMsg msg r with
  | false => simp [handleMessage, Bind.bind, Handler.bind, Handler.reads, hfilter, Pure.pure]
  | true =>
      have hconflict : conflictingPreprepare lib msg r = true := by simpa [takesPreprepare, hfilter] using h
      simp [handleMessage, handlePreprepare, Bind.bind, Handler.bind, Handler.reads, hfilter, htype,
        hconflict, Pure.pure]

-- A preprepare for the key reached the replica, and the primary of its view had sent it.
def Ordered (lib : Library) (past : List (Replica × Input)) (key : OperationKey) : Prop :=
  ∃ step ∈ past, ∃ msg original, step.2 = .message msg original ∧ msg.type = .preprepare ∧
    msg.key lib = key ∧ msg.view = step.1.view ∧ primaryUuid step.1 = some original.sender

theorem Ordered.step (h : Ordered lib past key) (r : Replica) (input : Input) :
    Ordered lib ((r, input) :: past) key := by
  obtain ⟨step, hmem, hstep⟩ := h
  exact ⟨step, List.mem_cons_of_mem _ hmem, hstep⟩

-- An entry of accepted_preprepares is made, or an answer sent.
def Accepts (lib : Library) (r : Replica) (input : Input) : Prop :=
  (input.handler lib r).state.acceptedPreprepares ≠ r.acceptedPreprepares ∨
    ∃ envelope, Sent (input.handler lib r).effects envelope ∧ envelope.pbft.type = .prepare

-- Whatever was accepted or answered came from the primary, and a preprepare finds its place taken only by
-- another one of the primary's.
structure OrderedByPrimary (lib : Library) (past : List (Replica × Input)) (r : Replica) : Prop where
  accepts : ∀ step ∈ past, ∀ msg original, step.2 = .message msg original → msg.type = .preprepare →
    Accepts lib step.1 step.2 → msg.view = step.1.view ∧ primaryUuid step.1 = some original.sender
  accepted : ∀ place key, r.acceptedPreprepares place = some key →
    place = (key.view, key.sequence) ∧ Ordered lib past key
  prepares : ∀ envelope, Sent (done lib past) envelope → envelope.pbft.type = .prepare →
    Ordered lib past (envelope.pbft.key lib)
  places : ∀ step before, step :: before <:+ past → ∀ msg original, step.2 = .message msg original →
    msg.type = .preprepare → conflictingPreprepare lib msg step.1 = true →
      ∃ key, Ordered lib before key ∧ key.view = msg.view ∧ key.sequence = msg.sequence ∧
        key.hash ≠ lib.requestHash msg.requestOf

-- The request that a delivery brings to handle_preprepare for a view and a sequence number.
def preprepareAt (lib : Library) (place : Nat × Nat) (r : Replica) : Input → Option Hash
  | .message msg _ =>
    if msg.type = .preprepare ∧ preliminaryFilterMsg msg r = true ∧ (msg.view, msg.sequence) = place then
      some (lib.requestHash msg.requestOf)
    else none
  | .request .. | .membership _ | .checkpointReachedLocally .. | .auditHeartbeatTimeout _ | .failure => none

-- The one that came first.
def firstAt (lib : Library) (place : Nat × Nat) : List (Replica × Input) → Option Hash
  | [] => none
  | (r, input) :: past => (firstAt lib place past).or (preprepareAt lib place r input)

-- The preprepare that gets to handle_preprepare first for a view and a sequence number is the primary's, and so
-- is one that comes later for the same request.
def PrimaryFirst (lib : Library) : List (Replica × Input) → Prop
  | [] => True
  | (r, input) :: past => PrimaryFirst lib past ∧
    match input with
    | .message msg original => msg.type = .preprepare → preliminaryFilterMsg msg r = true →
        (∀ hash ∈ firstAt lib (msg.view, msg.sequence) past, hash = lib.requestHash msg.requestOf) →
          primaryUuid r = some original.sender
    | .request .. | .membership _ | .checkpointReachedLocally .. | .auditHeartbeatTimeout _ | .failure => True

instance (lib : Library) : (past : List (Replica × Input)) → Decidable (PrimaryFirst lib past)
  | [] => inferInstanceAs (Decidable True)
  | (r, .message msg original) :: past =>
      have := instDecidablePrimaryFirst lib past
      inferInstanceAs (Decidable (PrimaryFirst lib past ∧ (msg.type = .preprepare →
        preliminaryFilterMsg msg r = true →
          (∀ hash ∈ firstAt lib (msg.view, msg.sequence) past, hash = lib.requestHash msg.requestOf) →
            primaryUuid r = some original.sender)))
  | (_, .request ..) :: past | (_, .membership _) :: past | (_, .checkpointReachedLocally ..) :: past
  | (_, .auditHeartbeatTimeout _) :: past | (_, .failure) :: past =>
      have := instDecidablePrimaryFirst lib past
      inferInstanceAs (Decidable (PrimaryFirst lib past ∧ True))

-- A preprepare that is not turned down for its numbers or for the request that has its place is one of
-- the primary's.
def FromPrimary (lib : Library) (r : Replica) : Input → Prop
  | .message msg original => msg.type = .preprepare → takesPreprepare lib msg r = true →
      primaryUuid r = some original.sender
  | .request .. | .membership _ | .checkpointReachedLocally .. | .auditHeartbeatTimeout _ | .failure => True

instance (lib : Library) (r : Replica) : (input : Input) → Decidable (FromPrimary lib r input)
  | .message msg original => inferInstanceAs (Decidable (msg.type = .preprepare →
      takesPreprepare lib msg r = true → primaryUuid r = some original.sender))
  | .request .. | .membership _ | .checkpointReachedLocally .. | .auditHeartbeatTimeout _ | .failure =>
      inferInstanceAs (Decidable True)

theorem Move.accepted_cases (hmove : Move lib input r es r') {place : Nat × Nat}
    (h : r'.acceptedPreprepares place = some key) :
    r.acceptedPreprepares place = some key ∨
      ∃ msg original, input = .message msg original ∧ msg.type = .preprepare ∧ msg.key lib = key := by
  cases hmove with
  | side hbeside _ =>
      rw [hbeside.acceptedPreprepares] at h
      exact Or.inl h
  | @accept op msg original hinput htype hkey hop hfree =>
      by_cases hplace : place = (op.view, op.sequence)
      · subst hplace
        have hself : (acceptPreprepare lib op.recordPreprepare r).acceptedPreprepares (op.view, op.sequence) =
            some (op.key lib) := Function.update_self ..
        exact Or.inr ⟨msg, original, hinput, htype, hkey.symm.trans (Option.some.inj (hself.symm.trans h))⟩
      · exact Or.inl ((Function.update_of_ne hplace _ _).symm.trans h)
  | create | recordPrepare | recordCommit | sendPrepare | beginCommit | sendCommit | finish => exact Or.inl h

-- A call makes no entry but for the preprepare it was given.
theorem handler_accepted (hkept : Sound lib r) (input : Input) {place : Nat × Nat}
    (h : (input.handler lib r).state.acceptedPreprepares place = some key) :
    r.acceptedPreprepares place = some key ∨
      ∃ msg original, input = .message msg original ∧ msg.type = .preprepare ∧ msg.key lib = key := by
  refine (handler_turn lib input hkept.kept).keeps (P := fun r' => r'.acceptedPreprepares place = some key →
    r.acceptedPreprepares place = some key ∨
      ∃ msg original, input = .message msg original ∧ msg.type = .preprepare ∧ msg.key lib = key) ?_ ?_ Or.inl h
  · intro r₁ es r₂ hmove ih hkey
    rcases hmove.accepted_cases hkey with hold | hnew
    · exact ih hold
    · exact Or.inr hnew
  · intro r₁ es r₂ hclear ih hkey
    cases hclear with
    | side hbeside _ =>
        rw [hbeside.acceptedPreprepares] at hkey
        exact ih hkey
    | clear cp => exact ih hkey

-- The two ways in which a delivery can show that a preprepare was taken.
theorem takes_of_accepts (htype : msg.type = .preprepare) (h : Accepts lib r (.message msg original)) :
    takesPreprepare lib msg r = true := by
  by_contra hnot
  have hrun := handleMessage_rejects original htype (Bool.eq_false_iff.mpr hnot)
  rcases h with hchanged | ⟨envelope, ⟨peer, hmem⟩, _⟩
  · exact hchanged (by simp only [Input.handler, hrun])
  · simp only [Input.handler, hrun] at hmem
    cases hmem

-- Such a preprepare is of the replica's view, and the primary's where the condition holds.
theorem FromPrimary.of_accepts (h : FromPrimary lib r (.message msg original)) (htype : msg.type = .preprepare)
    (haccepts : Accepts lib r (.message msg original)) :
    msg.view = r.view ∧ primaryUuid r = some original.sender := by
  have htakes := takes_of_accepts htype haccepts
  have hfilter := (Bool.and_eq_true_iff.mp htakes).1
  exact ⟨(preliminaryFilterMsg_admitted hfilter (Or.inl htype)).view, h htype htakes⟩

theorem ordered_of_run (run : ((lifetime lib).guard (FromPrimary lib)).Run past r) :
    ∀ place key, r.acceptedPreprepares place = some key → Ordered lib past key := by
  induction run with
  | start hinit =>
      intro place key hkey
      rw [(construct_fresh hinit).2] at hkey
      cases hkey
  | @step past r input run henabled ih =>
      intro place key hkey
      have hsound := sound_of_run run.of_guard
      by_cases hold : r.acceptedPreprepares place = some key
      · exact (ih place key hold).step r input
      · obtain ⟨msg, original, rfl, htype, hmsg⟩ := (handler_accepted hsound input hkey).resolve_left hold
        have haccepts : Accepts lib r (.message msg original) := by
          left
          intro hsame
          exact hold (hsame ▸ hkey)
        obtain ⟨hview, hprimary⟩ := henabled.2.of_accepts htype haccepts
        exact ⟨_, List.mem_cons_self, msg, original, rfl, htype, hmsg, hview, hprimary⟩

theorem conflictingPreprepare_cases (h : conflictingPreprepare lib msg r = true) :
    ∃ key, r.acceptedPreprepares (msg.view, msg.sequence) = some key ∧ key.hash ≠ lib.requestHash msg.requestOf := by
  unfold conflictingPreprepare at h
  split at h
  · rename_i key hkey
    exact ⟨key, hkey, by simpa using h⟩
  · cases h

-- What had the place of a preprepare that was turned down had been accepted before.
theorem places_of_run (run : ((lifetime lib).guard (FromPrimary lib)).Run past r) {step : Replica × Input}
    {before : List (Replica × Input)} (hsuffix : step :: before <:+ past)
    (hconflict : conflictingPreprepare lib msg step.1 = true) :
    ∃ key, Ordered lib before key ∧ key.view = msg.view ∧ key.sequence = msg.sequence ∧
      key.hash ≠ lib.requestHash msg.requestOf := by
  induction run with
  | start => cases List.eq_nil_of_suffix_nil hsuffix
  | @step past r input run _ ih =>
      rcases List.suffix_cons_iff.mp hsuffix with hlast | hearlier
      · obtain ⟨rfl, rfl⟩ := List.cons.inj hlast
        obtain ⟨key, haccepted, hhash⟩ := conflictingPreprepare_cases hconflict
        have hplaced := (sound_of_run run.of_guard).placed _ key haccepted
        exact ⟨key, ordered_of_run run _ key haccepted, congrArg Prod.fst hplaced, congrArg Prod.snd hplaced, hhash⟩
      · exact ih hearlier

section Arrival

-- A preprepare that finds its place free, or its own request there, has the place from then on.
theorem handlePreprepare_accepts (hsound : Sound lib r) (hpeers : ∃ peers, r.configured = some peers)
    (hadmitted : Admitted msg r) (hfree : conflictingPreprepare lib msg r = false) :
    (handlePreprepare lib msg r).state.acceptedPreprepares (msg.view, msg.sequence) = some (msg.key lib) := by
  obtain ⟨peers, hpeers⟩ := hpeers
  obtain ⟨op, r', hfind, _⟩ := findOperation_run msg.view msg.sequence msg.requestOf hsound.kept hpeers
  have hperforms : Performs (Move lib .failure) (findOperation lib msg.view msg.sequence msg.requestOf) r _ :=
    findOperation_handling hsound.kept hadmitted
  have hpost := hperforms.returns op (by rw [hfind])
  rw [hfind] at hpost
  obtain ⟨hop, hkey, haccepted⟩ := hpost
  have hsound' : Sound lib r' := by
    have htrail := hperforms.trail
    rw [hfind] at htrail
    exact htrail.invariant (I := fun _ r => Sound lib r) (p := []) (fun _ _ _ _ h step => step.sound h) hsound
  have hplace : (op.view, op.sequence) = (msg.view, msg.sequence) :=
    Prod.ext (congrArg OperationKey.view hkey) (congrArg OperationKey.sequence hkey)
  have hstart : (acceptPreprepare lib op.recordPreprepare r').acceptedPreprepares (msg.view, msg.sequence) =
      some (msg.key lib) := by
    rw [← hplace, ← hkey]
    exact Function.update_self ..
  have hrest : Performs (Move lib .failure) _ _ _ := acceptedPreprepare_performs msg hop
  have hkept := hrest.trail.invariant (p := [])
    (I := fun _ r => Sound lib r ∧ r.acceptedPreprepares (msg.view, msg.sequence) = some (msg.key lib))
    (fun _ _ _ _ h step => ⟨step.sound h.1, step.accepted_kept h.1 h.2⟩)
    ⟨hsound'.accept hop (free_of_unconflicting hfree hkey haccepted), hstart⟩
  simp only [handlePreprepare, Handler.reads_bind, hfree, Bool.false_eq_true, if_false, Handler.bind_ok hfind,
    Handler.updates_bind]
  exact hkept.2

-- What has a place keeps it.
theorem handler_accepted_kept (hsound : Sound lib r) (input : Input) {place : Nat × Nat}
    (h : r.acceptedPreprepares place = some key) :
    (input.handler lib r).state.acceptedPreprepares place = some key := by
  refine ((handler_turn lib input hsound.kept).keeps
    (P := fun r => Sound lib r ∧ r.acceptedPreprepares place = some key) ?_ ?_ ⟨hsound, h⟩).2
  · intro r₁ es r₂ hmove h
    exact ⟨hmove.sound h.1, hmove.accepted_kept h.1 h.2⟩
  · rintro r₁ es r₂ hclear ⟨hsound₁, hkey⟩
    refine ⟨hclear.sound hsound₁, ?_⟩
    cases hclear with
    | side hbeside _ =>
        rw [hbeside.acceptedPreprepares]
        exact hkey
    | clear => exact hkey

-- A free place is taken by what is brought for it, and by nothing else.
theorem preprepareAt_eq (hsound : Sound lib r) (hpeers : ∃ peers, r.configured = some peers) (input : Input)
    {place : Nat × Nat} (hfree : r.acceptedPreprepares place = none) :
    preprepareAt lib place r input =
      ((input.handler lib r).state.acceptedPreprepares place).map OperationKey.hash := by
  cases hafter : (input.handler lib r).state.acceptedPreprepares place with
  | some key =>
      obtain ⟨msg, original, rfl, htype, rfl⟩ :=
        (handler_accepted hsound input hafter).resolve_left (by simp [hfree])
      have hplaced := (handler_sound hsound (.message msg original)).placed place _ hafter
      have haccepts : Accepts lib r (.message msg original) := by
        left
        intro hsame
        rw [hsame, hfree] at hafter
        cases hafter
      have hfilter := (Bool.and_eq_true_iff.mp (takes_of_accepts htype haccepts)).1
      exact if_pos ⟨htype, hfilter, hplaced⟩
  | none =>
      cases input with
      | message msg original =>
          refine if_neg ?_
          rintro ⟨htype, hfilter, rfl⟩
          have hunopposed : conflictingPreprepare lib msg r = false := by simp [conflictingPreprepare, hfree]
          have haccepts := handlePreprepare_accepts hsound hpeers
            (preliminaryFilterMsg_admitted hfilter (Or.inl htype)) hunopposed
          have hrun : (handleMessage lib msg original r).state = (handlePreprepare lib msg r).state := by
            simp [handleMessage, hfilter, htype]
          simp only [Input.handler, hrun, haccepts] at hafter
          cases hafter
      | request | membership | checkpointReachedLocally | auditHeartbeatTimeout | failure => rfl

-- A place has what came first for it.
theorem firstAt_of_run (run : (lifetime lib).Run past r) (place : Nat × Nat) :
    firstAt lib place past = (r.acceptedPreprepares place).map OperationKey.hash := by
  induction run with
  | start hinit =>
      rw [(construct_fresh hinit).2]
      rfl
  | @step past r input run _ ih =>
      have hsound := sound_of_run run
      rw [firstAt, ih]
      change _ = ((input.handler lib r).state.acceptedPreprepares place).map OperationKey.hash
      cases hbefore : r.acceptedPreprepares place with
      | some key => rw [handler_accepted_kept hsound input hbefore, Option.map_some, Option.some_or]
      | none => rw [preprepareAt_eq hsound (based_of_lifetime run).configured input hbefore, Option.map_none,
          Option.none_or]

-- Nothing else is accepted than what the condition speaks of.
theorem fromPrimary_of_first (run : (lifetime lib).Run past r) (h : PrimaryFirst lib past) :
    ∀ step ∈ past, FromPrimary lib step.1 step.2 := by
  induction run with
  | start => simp
  | @step past r input run _ ih =>
      intro step hstep
      rcases List.mem_cons.mp hstep with rfl | hstep
      · cases input with
        | message msg original =>
            intro htype htakes
            obtain ⟨hfilter, hfree⟩ := Bool.and_eq_true_iff.mp htakes
            refine h.2 htype hfilter ?_
            intro hash hhash
            rw [firstAt_of_run run] at hhash
            obtain ⟨key, hkey, rfl⟩ := Option.map_eq_some_iff.mp hhash
            simpa [conflictingPreprepare, hkey] using hfree
        | request | membership | checkpointReachedLocally | auditHeartbeatTimeout | failure => trivial
      · exact ih h.1 step hstep

end Arrival

theorem orderedByPrimary_of_run (run : (lifetime lib).Run past r) (hfirst : PrimaryFirst lib past) :
    OrderedByPrimary lib past r := by
  have hguarded : ((lifetime lib).guard (FromPrimary lib)).Run past r := run.guard_of (fromPrimary_of_first run hfirst)
  have hordered := ordered_of_run hguarded
  refine ⟨?_, ?_, ?_, ?_⟩
  · rintro ⟨before, input⟩ hstep msg original hinput htype haccepts
    have hguard := hguarded.guarded _ hstep
    dsimp only at hinput haccepts hguard ⊢
    subst hinput
    exact hguard.of_accepts htype haccepts
  · intro place key hkey
    exact ⟨((sound_of_run run).placed place key hkey).symm, hordered place key hkey⟩
  · intro envelope hsent htype
    have hvote : envelope.pbft.isVote = true := by simp [PbftMsg.isVote, htype]
    obtain ⟨_, _, haccepted⟩ := votes_of_run run envelope hsent hvote
    exact hordered _ _ haccepted
  · intro step before hsuffix msg original _ _ hconflict
    exact places_of_run hguarded hsuffix hconflict

theorem orderedByPrimary_of_run_fresh :
    let run := (lifetime openLibrary).replay [] (freshReplica "A") (.first .preprepare "x" "B" ::
      [.first .preprepare "y" "D", .first .prepare "x" "C"])
    (run.2.acceptedPreprepares (1, 1)).isSome = true ∧ OrderedByPrimary openLibrary run.1 run.2 :=
  ⟨by decide +kernel, orderedByPrimary_of_run (run_of_fresh "A" _) (by decide +kernel)⟩

-- A backup is the first to fill the place, and the primary is turned down from then on.
def usurped : List Input := [.first .preprepare "x" "D", .first .preprepare "y" "B"]

theorem orderedByPrimary_broken :
    let run := (lifetime openLibrary).replay [] (freshReplica "A") usurped
    (lifetime openLibrary).Run run.1 run.2 ∧ primaryUuid (freshReplica "A") = some "B" ∧
      ¬OrderedByPrimary openLibrary run.1 run.2 := by
  refine ⟨run_of_fresh "A" usurped, by decide +kernel, ?_⟩
  intro h
  have hanswered : Accepts openLibrary (freshReplica "A") (.first .preprepare "x" "D") := by
    right
    exact ⟨⟨"A", .first .prepare "x"⟩, ⟨⟨"127.0.0.1", 50000, 8080, "alice", "A"⟩, by decide +kernel⟩, rfl⟩
  have hprimary := (h.accepts (freshReplica "A", .first .preprepare "x" "D") (by simp [usurped, Machine.replay]) _ _
    rfl rfl hanswered).2
  exact absurd hprimary (by decide +kernel)

end SwarmDB.Pbft
