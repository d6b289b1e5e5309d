import SwarmDB.Pbft.Replica.Journal

namespace SwarmDB.Pbft

open Replica

variable {lib : Library} {input : Input} {past : List (Replica × Input)} {r r' : Replica}
  {op : Operation} {es fs : List Effect}

-- A copy of the message went out to a peer.
def Sent (es : List Effect) (envelope : Envelope) : Prop := ∃ peer, .send peer (.pbft envelope) ∈ es

theorem sent_append_cases {envelope : Envelope} (h : Sent (es ++ fs) envelope) :
    Sent es envelope ∨ Sent fs envelope := by
  obtain ⟨peer, hmem⟩ := h
  rcases List.mem_append.mp hmem with hmem | hmem
  · exact Or.inl ⟨peer, hmem⟩
  · exact Or.inr ⟨peer, hmem⟩

theorem not_sent_quiet {envelope : Envelope} (h : ∀ e ∈ es, e.isQuiet = true)
    (hvote : envelope.pbft.isVote = true) : ¬Sent es envelope := by
  rintro ⟨peer, hmem⟩
  have hquiet := h _ hmem
  simp [Effect.isQuiet, hvote] at hquiet

section Votes

-- Every vote was for the request that was accepted at its place, and still is.
def Votes (lib : Library) (es : List Effect) (r : Replica) : Prop :=
  ∀ envelope, Sent es envelope → envelope.pbft.isVote = true →
    envelope.sender = r.uuid ∧ (∃ request, envelope.pbft.request = some request) ∧
      r.acceptedPreprepares (envelope.pbft.view, envelope.pbft.sequence) = some (envelope.pbft.key lib)

theorem Votes.move (h : Votes lib es r) (hsound : Sound lib r) (hmove : Move lib input r fs r') :
    Votes lib (es ++ fs) r' := by
  intro envelope hsent hvote
  rcases sent_append_cases hsent with hold | ⟨peer, hnew⟩
  · obtain ⟨hsender, hrequest, haccepted⟩ := h envelope hold hvote
    exact ⟨hsender.trans hmove.unmoved.uuid.symm, hrequest, hmove.accepted_kept hsound haccepted⟩
  · obtain ⟨rfl, hsender, op, hop, hseen, _, hmsg⟩ := hmove.vote_cases hnew hvote
    have haccepted := hsound.accepted _ _ hop.stored hseen
    refine ⟨hsender, ?_, ?_⟩
    · rcases hmsg with hmsg | ⟨hmsg, _⟩
      all_goals exact ⟨op.request, by rw [hmsg]; rfl⟩
    · rcases hmsg with hmsg | ⟨hmsg, _⟩
      all_goals
        rw [hmsg]
        exact haccepted

theorem Votes.clear {erased : Prop} (h : Votes lib es r) (hclear : Clearing erased r fs r') :
    Votes lib (es ++ fs) r' := by
  intro envelope hsent hvote
  rcases sent_append_cases hsent with hold | hnew
  · cases hclear with
    | side hbeside _ =>
        rw [hbeside.uuid, hbeside.acceptedPreprepares]
        exact h envelope hold hvote
    | clear cp => exact h envelope hold hvote
  · exact absurd hnew (not_sent_quiet hclear.quiet hvote)

theorem votes_of_run (run : (lifetime lib).Run past r) : Votes lib (done lib past) r := by
  refine (journal_of_run ?_ ?_ ?_ run).2
  · rintro r _ envelope ⟨_, hmem⟩
    cases hmem
  · intro input es r fs r' hsound h hmove
    exact h.move hsound hmove
  · intro _ es r fs r' _ h hclear
    exact h.clear hclear

-- Two votes at one place are for the same request.
theorem vote_unique (hinj : Function.Injective lib.requestHash) (run : (lifetime lib).Run past r)
    {a b : Envelope} (ha : Sent (done lib past) a) (hb : Sent (done lib past) b)
    (hvote : a.pbft.isVote = true) (hvote' : b.pbft.isVote = true) (hview : a.pbft.view = b.pbft.view)
    (hsequence : a.pbft.sequence = b.pbft.sequence) : a.pbft.request = b.pbft.request := by
  obtain ⟨_, ⟨request, hrequest⟩, haccepted⟩ := votes_of_run run a ha hvote
  obtain ⟨_, ⟨request', hrequest'⟩, haccepted'⟩ := votes_of_run run b hb hvote'
  rw [hview, hsequence, haccepted'] at haccepted
  have hhash := congrArg OperationKey.hash (Option.some.inj haccepted)
  have hsame := hinj hhash
  simp only [PbftMsg.requestOf, hrequest, hrequest', Option.getD_some] at hsame
  rw [hrequest, hrequest', hsame]

-- The record that a commit message speaks for: accepted, and prepared by enough senders.
structure Backed (lib : Library) (r : Replica) (msg : PbftMsg) (op : Operation) : Prop where
  stored : r.operations (msg.key lib) = some op
  request : msg.request = some op.request
  preprepareSeen : op.preprepareSeen = true
  accepted : r.acceptedPreprepares (msg.view, msg.sequence) = some (op.key lib)
  configured : r.configured = some op.peers
  prepares : 2 * ((op.peers.length - 1) / 3) < op.preparesSeen.card

structure NoEquivocation (lib : Library) (past : List (Replica × Input)) (r : Replica) : Prop where
  oneRequest : ∀ a b, Sent (done lib past) a → Sent (done lib past) b →
    a.pbft.isVote = true → b.pbft.isVote = true → a.pbft.view = b.pbft.view →
    a.pbft.sequence = b.pbft.sequence → a.pbft.request = b.pbft.request
  commits : ∀ step ∈ past, ∀ envelope, Sent (step.2.handler lib step.1).effects envelope →
    envelope.pbft.type = .commit → ∃ op, Backed lib (step.2.handler lib step.1).state envelope.pbft op
  accepted : ∀ key op, r.operations key = some op → op.preprepareSeen = true →
    op.key lib = key ∧ r.acceptedPreprepares (op.view, op.sequence) = some (op.key lib)

theorem prepares_of_isPrepared {peer : PeerAddress} (hpeer : peer ∈ op.peers)
    (h : op.isPrepared = true) : 2 * ((op.peers.length - 1) / 3) < op.preparesSeen.card := by
  have hcount := of_decide_eq_true (Bool.and_eq_true_iff.mp h).2
  have hlength : op.peers.length ≠ 0 := (List.length_pos_of_mem hpeer).ne'
  simpa only [Operation.faultyNodesBound, hlength, if_false] using hcount

-- While operations are handled, no record gets lost.
def CommitsBacked (lib : Library) (es : List Effect) (r : Replica) : Prop :=
  ∀ envelope, Sent es envelope → envelope.pbft.type = .commit →
    ∃ op, r.operations (envelope.pbft.key lib) = some op ∧ envelope.pbft.request = some op.request ∧
      op.preprepareSeen = true ∧ 2 * ((op.peers.length - 1) / 3) < op.preparesSeen.card

theorem CommitsBacked.move (h : CommitsBacked lib es r) (hmove : Move lib input r fs r') :
    CommitsBacked lib (es ++ fs) r' := by
  intro envelope hsent htype
  rcases sent_append_cases hsent with hold | ⟨peer, hnew⟩
  · obtain ⟨op, hstored, hrequest, hseen, hprepares⟩ := h envelope hold htype
    obtain ⟨later, hlater, hgrows⟩ := hmove.grows hstored
    refine ⟨later, hlater, ?_, hgrows.preprepareSeen hseen, ?_⟩
    · rw [hgrows.request]
      exact hrequest
    · rw [hgrows.peers]
      exact hprepares.trans_le (Finset.card_le_card hgrows.preparesSeen)
  · have hvote : envelope.pbft.isVote = true := by simp [PbftMsg.isVote, htype]
    obtain ⟨rfl, _, op, hop, hseen, hpeer, hmsg⟩ := hmove.vote_cases hnew hvote
    rcases hmsg with hmsg | ⟨hmsg, hprepared⟩
    · rw [hmsg] at htype
      cases htype
    · refine ⟨op, ?_, ?_, hseen, prepares_of_isPrepared hpeer hprepared⟩
      · rw [hmsg]
        exact hop.stored
      · rw [hmsg]
        rfl

theorem commit_backed (hsound : Sound lib r) (input : Input) {envelope : Envelope}
    (hsent : Sent (input.handler lib r).effects envelope) (htype : envelope.pbft.type = .commit) :
    ∃ op, Backed lib (input.handler lib r).state envelope.pbft op := by
  have hvote : envelope.pbft.isVote = true := by simp [PbftMsg.isVote, htype]
  rcases handler_turn lib input hsound.kept with htrail | htrail
  · obtain ⟨hsound', hbacked⟩ := htrail.invariant (p := [])
      (I := fun es r => Sound lib r ∧ CommitsBacked lib es r)
      (by
        rintro es r fs r' ⟨hsound, h⟩ hmove
        exact ⟨hmove.sound hsound, h.move hmove⟩)
      ⟨hsound, by rintro _ ⟨_, hmem⟩; cases hmem⟩
    obtain ⟨op, hstored, hrequest, hseen, hprepares⟩ := hbacked envelope hsent htype
    obtain ⟨hkey, hconfigured⟩ := hsound'.kept _ op hstored
    have haccepted := hsound'.accepted _ op hstored hseen
    have hview : op.view = envelope.pbft.view := congrArg OperationKey.view hkey
    have hsequence : op.sequence = envelope.pbft.sequence := congrArg OperationKey.sequence hkey
    rw [hview, hsequence] at haccepted
    exact ⟨op, hstored, hrequest, hseen, haccepted, hconfigured, hprepares⟩
  · have hquiet : ∀ e ∈ (input.handler lib r).effects, e.isQuiet = true := by
      refine htrail.invariant (p := []) (I := fun es _ => ∀ e ∈ es, e.isQuiet = true) ?_ (by simp)
      intro es r fs r' h hclear e he
      rcases List.mem_append.mp he with he | he
      · exact h e he
      · exact hclear.quiet e he
    exact absurd hsent (not_sent_quiet hquiet hvote)

theorem noEquivocation_of_run (hinj : Function.Injective lib.requestHash)
    (run : (lifetime lib).Run past r) : NoEquivocation lib past r := by
  refine ⟨?_, ?_, ?_⟩
  · intro a b ha hb hvote hvote' hview hsequence
    exact vote_unique hinj run ha hb hvote hvote' hview hsequence
  · intro step hstep envelope hsent htype
    obtain ⟨before, hbefore⟩ := run.visited (Or.inr ⟨step.2, hstep⟩)
    exact commit_backed (sound_of_run hbefore) step.2 hsent htype
  · intro key op hop hseen
    have hsound := sound_of_run run
    exact ⟨(hsound.kept key op hop).1, hsound.accepted key op hop hseen⟩

theorem noEquivocation_of_run_fresh :
    Sent (done openLibrary ((lifetime openLibrary).replay [] (freshReplica "A") oneRound).1)
        ⟨"A", .first .commit "x"⟩ ∧
      NoEquivocation openLibrary ((lifetime openLibrary).replay [] (freshReplica "A") oneRound).1
        ((lifetime openLibrary).replay [] (freshReplica "A") oneRound).2 :=
  ⟨⟨⟨"127.0.0.1", 50000, 8080, "alice", "A"⟩, by decide +kernel⟩,
    noEquivocation_of_run requestText_injective (run_of_fresh "A" oneRound)⟩

end Votes

section Applied

-- What is handed over belongs to the view.
theorem applied_view_of_run (run : (lifetime lib).Run past r) :
    ∀ op ∈ appliedIn (done lib past), op.view = r.view := by
  refine (journal_of_run (I := fun es r => ∀ op ∈ appliedIn es, op.view = r.view) ?_ ?_ ?_ run).2
  · intro r _ op hop
    cases hop
  · intro input es r fs r' _ h hmove op hop
    rw [hmove.unmoved.view]
    rw [appliedIn_append] at hop
    rcases List.mem_append.mp hop with hold | hnew
    · exact h op hold
    · rcases hmove.applied_cases with hnone | ⟨committed, hcommitted, _, _, hone, _⟩
      · rw [hnone] at hnew
        cases hnew
      · rw [hone] at hnew
        obtain rfl := List.mem_singleton.mp hnew
        exact hcommitted.view
  · intro erased es r fs r' _ h hclear op hop
    rw [appliedIn_append, appliedIn_quiet hclear.quiet, List.append_nil] at hop
    refine (h op hop).trans ?_
    cases hclear with
    | side hbeside _ => exact hbeside.view.symm
    | clear => rfl

-- What was handed to the service is below the low water mark, or its record says so.
structure Settled (lib : Library) (r : Replica) (op : Operation) : Prop where
  view : op.view = r.view
  recorded : op.sequence ≤ r.lowWaterMark ∨ ∃ record, r.operations (op.key lib) = some record ∧
    record.preprepareSeen = true ∧ record.state = .committed

structure AppliedOnce (lib : Library) (es : List Effect) (r : Replica) : Prop where
  settled : ∀ op ∈ appliedIn es, Settled lib r op
  once : ((appliedIn es).map Operation.sequence).Nodup

theorem Settled.move (h : Settled lib r op) (hmove : Move lib input r es r') : Settled lib r' op := by
  refine ⟨h.view.trans hmove.unmoved.view.symm, ?_⟩
  rcases h.recorded with hlow | ⟨record, hstored, hseen, hcommitted⟩
  · rw [hmove.unmoved.lowWaterMark]
    exact Or.inl hlow
  · obtain ⟨later, hlater, hgrows⟩ := hmove.grows hstored
    exact Or.inr ⟨later, hlater, hgrows.preprepareSeen hseen, hgrows.committed hcommitted⟩

-- A record that a stable checkpoint erases is below the new low water mark.
theorem Settled.clear {erased : Prop} (h : Settled lib r op) (hsound : Sound lib r)
    (hclear : Clearing erased r es r') (hkept : ¬erased) : Settled lib r' op := by
  cases hclear with
  | side hbeside _ =>
      refine ⟨h.view.trans hbeside.view.symm, ?_⟩
      rw [hbeside.lowWaterMark, hbeside.operations]
      exact h.recorded
  | clear cp reads hreads =>
      obtain rfl := hreads.resolve_right hkept
      refine ⟨h.view, ?_⟩
      rw [stabilizeCheckpoint_low]
      rcases h.recorded with hlow | ⟨record, hstored, hseen, hcommitted⟩
      · exact Or.inl (hlow.trans (le_max_left _ _))
      · have hsequence : record.sequence = op.sequence :=
          congrArg OperationKey.sequence (hsound.kept _ _ hstored).1
        by_cases hcp : cp.1 < op.sequence
        · refine Or.inr ⟨record, ?_, hseen, hcommitted⟩
          change (r.operations (op.key lib)).filter (fun op => decide (cp.1 < op.sequence)) = some record
          rw [hstored, Option.filter_some, hsequence, if_pos (decide_eq_true hcp)]
        · exact Or.inl ((not_lt.mp hcp).trans (le_max_right _ _))

-- Two committed records at one sequence number would both be the accepted one.
theorem Settled.sequence_ne {earlier : Operation} (h : Settled lib r earlier) (hsound : Sound lib r)
    (hop : Handling lib r op) (hseen : op.preprepareSeen = true) (hstate : op.state = .commit) :
    earlier.sequence ≠ op.sequence := by
  intro hsequence
  rcases h.recorded with hlow | ⟨record, hstored, hrecord, hcommitted⟩
  · have habove := hop.above
    omega
  · have hkey := (hsound.kept _ _ hstored).1
    have hview : record.view = op.view :=
      (congrArg OperationKey.view hkey).trans (h.view.trans hop.view.symm)
    have hplace : record.sequence = op.sequence :=
      (congrArg OperationKey.sequence hkey).trans hsequence
    have haccepted := hsound.accepted _ _ hstored hrecord
    rw [hview, hplace, hsound.accepted _ _ hop.stored hseen] at haccepted
    have hsame : op.key lib = earlier.key lib := (Option.some.inj haccepted).trans hkey
    have hstored' := hop.stored
    rw [hsame, hstored] at hstored'
    cases hstored'
    rw [hstate] at hcommitted
    cases hcommitted

theorem AppliedOnce.move (h : AppliedOnce lib es r) (hsound : Sound lib r)
    (hmove : Move lib input r fs r') : AppliedOnce lib (es ++ fs) r' := by
  have hold : ∀ op ∈ appliedIn es, Settled lib r' op := fun op hop => (h.settled op hop).move hmove
  rcases hmove.applied_cases with hnone | ⟨op, hop, hstate, hcommitted, hone, rfl⟩
  · refine ⟨?_, ?_⟩
    · rw [appliedIn_append, hnone, List.append_nil]
      exact hold
    · rw [appliedIn_append, hnone, List.append_nil]
      exact h.once
  · have hseen : op.preprepareSeen = true :=
      (Bool.and_eq_true_iff.mp (Bool.and_eq_true_iff.mp hcommitted).1).1
    refine ⟨?_, ?_⟩
    · intro earlier hearlier
      rw [appliedIn_append, hone] at hearlier
      rcases List.mem_append.mp hearlier with hmem | hmem
      · exact hold earlier hmem
      · obtain rfl := List.mem_singleton.mp hmem
        exact ⟨hop.view, Or.inr ⟨_, store_self, hseen, rfl⟩⟩
    · rw [appliedIn_append, hone, List.map_append]
      refine List.Nodup.append h.once (List.nodup_singleton _) ?_
      intro sequence hmem hnew
      obtain ⟨earlier, hearlier, rfl⟩ := List.mem_map.mp hmem
      obtain hsequence := List.mem_singleton.mp hnew
      exact (h.settled earlier hearlier).sequence_ne hsound hop hseen hstate hsequence

theorem AppliedOnce.clear {erased : Prop} (h : AppliedOnce lib es r) (hsound : Sound lib r)
    (hclear : Clearing erased r fs r') (hkept : ¬erased) : AppliedOnce lib (es ++ fs) r' := by
  have hnone := appliedIn_quiet hclear.quiet
  refine ⟨?_, ?_⟩
  · rw [appliedIn_append, hnone, List.append_nil]
    exact fun op hop => (h.settled op hop).clear hsound hclear hkept
  · rw [appliedIn_append, hnone, List.append_nil]
    exact h.once

-- No checkpoint is read after it was erased.
def keepsCheckpoints (lib : Library) : Machine Replica Input :=
  (lifetime lib).guard fun r input => ¬VotesFirst lib r input

theorem appliedOnce_of_run (run : (keepsCheckpoints lib).Run past r) : AppliedOnce lib (done lib past) r := by
  refine (journal_of_guard ?_ ?_ ?_ run).2
  · intro r _
    exact ⟨by simp [appliedIn], by simp [appliedIn]⟩
  · intro input es r fs r' hsound h hmove
    exact h.move hsound hmove
  · intro _ _ hkept es r fs r' hsound h hclear
    exact h.clear hsound hclear hkept

theorem applied_once_of_run (run : (keepsCheckpoints lib).Run past r) :
    ((appliedIn (done lib past)).map Operation.sequence).Nodup ∧
      ∀ op ∈ appliedIn (done lib past), ∀ op' ∈ appliedIn (done lib past),
        op.sequence = op'.sequence → op.request = op'.request := by
  have honce := (appliedOnce_of_run run).once
  refine ⟨honce, ?_⟩
  intro op hop op' hop' hsequence
  rw [List.inj_on_of_nodup_map honce hop hop' hsequence]

-- A round, a checkpoint that becomes stable, and the same round once more.
def replayedRound (stable : List Input) : List Input := oneRound ++ stable ++ oneRound

-- The checkpoint is reached, and the others say so later.
def localFirst : List Input := .checkpointReachedLocally 100 "h" (zeroedLate 100) :: checkpointVotes 100

theorem applied_once_of_run_fresh :
    let run := (lifetime openLibrary).replay [] (freshReplica "A") (replayedRound localFirst)
    run.2.lowWaterMark = 100 ∧
      (appliedIn (done openLibrary run.1)).map Operation.request = [readRequest "x"] ∧
      ((appliedIn (done openLibrary run.1)).map Operation.sequence).Nodup :=
  ⟨by decide +kernel, by decide +kernel, (applied_once_of_run
    ((run_of_fresh "A" (replayedRound localFirst)).guard_of (by decide +kernel))).1⟩

-- The others said so before. The operations are erased, but the low water mark stays where it was, and the
-- second round has its request applied again.
def votesBefore : List Input := checkpointVotes 100 ++ [.checkpointReachedLocally 100 "h" (zeroedLate 100)]

theorem applied_once_broken : ¬∀ (lib : Library) (past : List (Replica × Input)) (r : Replica),
    (lifetime lib).Run past r →
      ((reachedIn past).Pairwise fun later earlier => earlier.1 < later.1) →
      ((appliedIn (done lib past)).map Operation.sequence).Nodup := by
  intro h
  have honce := h _ _ _ (run_of_fresh "A" (replayedRound votesBefore)) (by decide +kernel)
  exact absurd honce (by decide +kernel)

end Applied

section Tally

-- The replica got a prepare message for the key from this sender.
def Heard (lib : Library) (past : List (Replica × Input)) (sender : Uuid) (key : OperationKey) : Prop :=
  ∃ step ∈ past, ∃ msg original, step.2 = .message msg original ∧ msg.type = .prepare ∧
    msg.key lib = key ∧ original.sender = sender

-- Who is recorded as having prepared was heard.
structure Tallied (lib : Library) (heard : Uuid → OperationKey → Prop) (es : List Effect)
    (r : Replica) : Prop where
  records : ∀ key op, r.operations key = some op → ∀ sender ∈ op.preparesSeen, heard sender key
  applied : ∀ op ∈ appliedIn es, op.isPrepared = true ∧ r.configured = some op.peers ∧
    ∀ sender ∈ op.preparesSeen, heard sender (op.key lib)

variable {heard : Uuid → OperationKey → Prop}

theorem heard_store (h : ∀ key op, r.operations key = some op → ∀ sender ∈ op.preparesSeen, heard sender key)
    (hop : ∀ sender ∈ op.preparesSeen, heard sender (op.key lib)) :
    ∀ key found, (store lib op r).operations key = some found →
      ∀ sender ∈ found.preparesSeen, heard sender key := by
  intro key found hfound
  rcases store_cases hfound with ⟨rfl, rfl⟩ | hfound
  · exact hop
  · exact h key found hfound

theorem Tallied.records_move (h : Tallied lib heard es r) (hmove : Move lib input r fs r')
    (hheard : ∀ msg original, input = .message msg original → msg.type = .prepare →
      heard original.sender (msg.key lib)) :
    ∀ key op, r'.operations key = some op → ∀ sender ∈ op.preparesSeen, heard sender key := by
  cases hmove with
  | side hbeside _ =>
      rw [hbeside.operations]
      exact h.records
  | create _ _ hop =>
      refine heard_store h.records ?_
      rw [hop]
      intro sender hmem
      simp at hmem
  | recordPrepare hinput htype hkey hop =>
      refine heard_store h.records ?_
      intro sender hmem
      rcases Finset.mem_insert.mp hmem with rfl | hmem
      · rw [Operation.key_recordPrepare, hkey]
        exact hheard _ _ hinput htype
      · exact h.records _ _ hop.stored sender hmem
  | accept _ _ _ hop _ | recordCommit _ _ _ hop | beginCommit hop _ _ | finish hop _ _ _ _ =>
      have hold := h.records _ _ hop.stored
      exact heard_store h.records hold
  | sendPrepare | sendCommit => exact h.records

theorem Tallied.move (h : Tallied lib heard es r) (hmove : Move lib input r fs r')
    (hheard : ∀ msg original, input = .message msg original → msg.type = .prepare →
      heard original.sender (msg.key lib)) : Tallied lib heard (es ++ fs) r' := by
  refine ⟨h.records_move hmove hheard, ?_⟩
  intro op hop
  rw [hmove.unmoved.configured]
  rw [appliedIn_append] at hop
  rcases List.mem_append.mp hop with hold | hnew
  · exact h.applied op hold
  · rcases hmove.applied_cases with hnone | ⟨committed, hcommitted, _, hquorum, hone, _⟩
    · rw [hnone] at hnew
      cases hnew
    · rw [hone] at hnew
      obtain rfl := List.mem_singleton.mp hnew
      have hheard := h.records _ _ hcommitted.stored
      exact ⟨(Bool.and_eq_true_iff.mp hquorum).1, hcommitted.peers, hheard⟩

theorem Tallied.clear {erased : Prop} (h : Tallied lib heard es r) (hclear : Clearing erased r fs r') :
    Tallied lib heard (es ++ fs) r' := by
  have hnone := appliedIn_quiet hclear.quiet
  cases hclear with
  | side hbeside _ =>
      refine ⟨?_, ?_⟩
      · rw [hbeside.operations]
        exact h.records
      · rw [appliedIn_append, hnone, List.append_nil, hbeside.configured]
        exact h.applied
  | clear cp =>
      refine ⟨?_, ?_⟩
      · intro key op hop
        exact h.records key op (Option.eq_some_of_filter_eq_some hop)
      · rw [appliedIn_append, hnone, List.append_nil]
        exact h.applied

theorem Heard.step {sender : Uuid} {key : OperationKey} (h : Heard lib past sender key)
    (r : Replica) (input : Input) : Heard lib ((r, input) :: past) sender key := by
  obtain ⟨step, hmem, hstep⟩ := h
  exact ⟨step, List.mem_cons_of_mem _ hmem, hstep⟩

theorem tallied_of_run (run : (lifetime lib).Run past r) :
    Tallied lib (Heard lib past) (done lib past) r := by
  induction run with
  | start hinit =>
      refine ⟨?_, by simp [done, appliedIn]⟩
      intro key op hop
      rw [(construct_fresh hinit).1] at hop
      cases hop
  | @step past r input run _ ih =>
      have hsound := sound_of_run run
      have hlater : Tallied lib (Heard lib ((r, input) :: past)) (done lib past) r := by
        refine ⟨?_, ?_⟩
        · intro key op hop sender hmem
          exact (ih.records key op hop sender hmem).step r input
        · intro op hop
          obtain ⟨hprepared, hpeers, hheard⟩ := ih.applied op hop
          exact ⟨hprepared, hpeers, fun sender hmem => (hheard sender hmem).step r input⟩
      refine ((handler_turn lib input hsound.kept).invariant ?_ ?_ hsound hlater).2
      · intro es r' fs r'' _ h hmove
        refine h.move hmove ?_
        intro msg original hinput htype
        exact ⟨_, List.mem_cons_self, msg, original, hinput, htype, rfl, rfl⟩
      · intro es r fs r' _ h hclear
        exact h.clear hclear

end Tally

end SwarmDB.Pbft
