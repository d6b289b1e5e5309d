import SwarmDB.Pbft.Replica.Primary
import SwarmDB.Pbft.Replica.Stability

namespace SwarmDB.Pbft

open Replica

variable {lib : Library} {input : Input} {past : List (Replica × Input)} {r r' : Replica}

section Window

-- How many sequence numbers have been taken.
def taken (lib : Library) (past : List (Replica × Input)) : Nat := past.countP fun step => issues lib step.1 step.2

-- Fewer than two hundred numbers above the stable checkpoint have been taken when the next one is, and the
-- service only reaches what the primary has taken a number for.
def Paced (lib : Library) : List (Replica × Input) → Prop
  | [] => True
  | (r, input) :: past => Paced lib past ∧
    (issues lib r input = true → taken lib past < r.stableCheckpoint.1 + highWaterInterval) ∧
      ∀ cp ∈ input.checkpoint, cp.1 ≤ taken lib past ∧ cp.1 + highWaterInterval < 2 ^ 64

instance (lib : Library) : (past : List (Replica × Input)) → Decidable (Paced lib past)
  | [] => inferInstanceAs (Decidable True)
  | (r, input) :: past =>
      have := instDecidablePaced lib past
      inferInstanceAs (Decidable (Paced lib past ∧
        (issues lib r input = true → taken lib past < r.stableCheckpoint.1 + highWaterInterval) ∧
          ∀ cp ∈ input.checkpoint, cp.1 ≤ taken lib past ∧ cp.1 + highWaterInterval < 2 ^ 64))

-- The sequence numbers that a call broadcasts preprepares for, and those of a whole run.
def issuedBy (lib : Library) (r : Replica) (input : Input) : List Nat :=
  ((input.handler lib r).effects.filterMap Effect.preprepared).dedup

def issuedIn (lib : Library) : List (Replica × Input) → List Nat
  | [] => []
  | (r, input) :: past => issuedIn lib past ++ issuedBy lib r input

-- Every preprepare lies between the water marks of its sender, which would let it through, and
-- the numbers have no gaps.
structure WithinMarks (lib : Library) (past : List (Replica × Input)) : Prop where
  marks : ∀ step ∈ past, ∀ envelope, Sent (step.2.handler lib step.1).effects envelope →
    envelope.pbft.type = .preprepare → step.1.lowWaterMark < envelope.pbft.sequence ∧
      envelope.pbft.sequence ≤ step.1.highWaterMark ∧ preliminaryFilterMsg envelope.pbft step.1 = true
  consecutive : ∃ count, issuedIn lib past = List.range' 1 count

theorem Unissued.issuedBy (h : Unissued r (input.handler lib r).effects (input.handler lib r).state) :
    issuedBy lib r input = [] := by
  have hnone : (input.handler lib r).effects.filterMap Effect.preprepared = [] :=
    List.filterMap_eq_nil_iff.mpr h.silent
  rw [Pbft.issuedBy, hnone, List.dedup_nil]

-- Whether a broadcast gets to anybody.
def reaches (lib : Library) (r : Replica) : Bool :=
  match r.configured with
  | some peers => !(reachablePeers lib peers).isEmpty
  | none => false

theorem dedup_const (peers : List PeerAddress) (sequence : Nat) :
    (peers.map fun _ => sequence).dedup = if peers = [] then [] else [sequence] := by
  induction peers with
  | nil => rfl
  | cons peer rest ih =>
      rw [List.map_cons]
      by_cases hrest : rest = []
      · simp [hrest]
      · have hmem : sequence ∈ rest.map fun _ => sequence := by simpa using hrest
        rw [List.dedup_cons_of_mem hmem, ih]
        simp [hrest]

theorem Issued.issuedBy (h : Issued lib r (input.handler lib r).effects (input.handler lib r).state) :
    issuedBy lib r input = if reaches lib r then [r.nextIssuedSequenceNumber] else [] := by
  obtain ⟨peers, op, hpeers, _, hsequence, heffects⟩ := h.sends
  have hnumbers : (input.handler lib r).effects.filterMap Effect.preprepared =
      (reachablePeers lib peers).map fun _ => r.nextIssuedSequenceNumber := by
    rw [heffects, List.filterMap_map, ← hsequence]
    have hsome : ∀ peer, Effect.preprepared (.send peer (.pbft ⟨r.uuid, commonMessageSetup op .preprepare⟩)) =
        some op.sequence := fun _ => rfl
    induction reachablePeers lib peers with
    | nil => rfl
    | cons peer rest ih => simp [hsome]
  rw [Pbft.issuedBy, hnumbers, dedup_const]
  simp only [reaches, hpeers]
  cases reachablePeers lib peers with
  | nil => simp
  | cons peer rest => simp

theorem reaches_congr (h : r'.configured = r.configured) : reaches lib r' = reaches lib r := by
  unfold reaches
  rw [h]

-- What is reached has a number that was taken.
theorem Paced.reached (h : Paced lib past) :
    ∀ cp ∈ reachedIn past, cp.1 ≤ taken lib past ∧ cp.1 + highWaterInterval < 2 ^ 64 := by
  induction past with
  | nil =>
      intro cp hcp
      cases hcp
  | cons step past ih =>
      obtain ⟨hbefore, _, hnow⟩ := h
      have hmore : taken lib past ≤ taken lib (step :: past) := (List.sublist_cons_self step past).countP_le
      intro cp hcp
      obtain ⟨hle, hfits⟩ : cp.1 ≤ taken lib past ∧ cp.1 + highWaterInterval < 2 ^ 64 := by
        obtain ⟨other, hother, hreached⟩ := List.mem_filterMap.mp hcp
        rcases List.mem_cons.mp hother with rfl | hother
        · exact hnow cp hreached
        · exact ih hbefore cp (List.mem_filterMap.mpr ⟨other, hother, hreached⟩)
      exact ⟨hle.trans hmore, hfits⟩

-- Where the marks are when the next number is taken.
theorem Paced.marks (h : Paced lib past) (run : (keepsCheckpoints lib).Run past r)
    (hroom : taken lib past < r.stableCheckpoint.1 + highWaterInterval) :
    r.lowWaterMark < taken lib past + 1 ∧ taken lib past + 1 ≤ r.highWaterMark ∧ r.highWaterMark < 2 ^ 64 := by
  have hmarked := marked_of_run run
  have hhigh := hmarked.highWaterMark fun cp hcp => (h.reached cp hcp).2
  refine ⟨?_, by omega, (supported_of_run run.of_guard).highWaterMark⟩
  rcases Nat.eq_zero_or_pos r.lowWaterMark with hzero | hpos
  · omega
  · obtain ⟨cp, hcp, hlow⟩ := hmarked.lowWaterMark hpos
    have hle := (h.reached cp hcp).1
    omega

theorem taken_step (past : List (Replica × Input)) (r : Replica) (input : Input) :
    taken lib ((r, input) :: past) = if issues lib r input then taken lib past + 1 else taken lib past := by
  simp only [taken, List.countP_cons]
  split <;> rfl

-- The next number is the one after those that were taken, and the numbers form a row.
theorem issuedIn_of_run (run : (keepsCheckpoints lib).Run past r) (hpaced : Paced lib past) :
    r.nextIssuedSequenceNumber = (taken lib past + 1) % 2 ^ 64 ∧
      issuedIn lib past = if reaches lib r then List.range' 1 (taken lib past) else [] := by
  induction run with
  | start hinit =>
      obtain ⟨peers, uuid, fresh, setting, hfresh, rfl⟩ := hinit
      unfold construct at hfresh
      split at hfresh
      · cases hfresh
      · cases hfresh
        refine ⟨rfl, ?_⟩
        split <;> rfl
  | @step past r input run henabled ih =>
      obtain ⟨hbefore, hroom, _⟩ := hpaced
      obtain ⟨hnext, hissued⟩ := ih hbefore
      have hkept := (sound_of_run run.of_guard).kept
      rw [taken_step, issuedIn]
      rcases handler_issues lib input hkept with ⟨hissues, hnone⟩ | ⟨hissues, hone⟩
      · have hsame : reaches lib ((keepsCheckpoints lib).next r input) = reaches lib r :=
          reaches_congr hnone.configured
        rw [hnone.issuedBy, List.append_nil, hissued, hsame, hissues]
        exact ⟨hnone.next.trans hnext, rfl⟩
      · have hmarks := hbefore.marks run (hroom hissues)
        have hsame : reaches lib ((keepsCheckpoints lib).next r input) = reaches lib r :=
          reaches_congr hone.configured
        rw [Nat.mod_eq_of_lt (by omega)] at hnext
        rw [hone.issuedBy, hissued, hnext, hsame, hissues]
        refine ⟨hnext ▸ hone.next, ?_⟩
        split
        · rw [if_pos rfl, List.range'_1_concat, Nat.add_comm 1 (taken lib past)]
        · rfl

-- A call that takes a number sends it between the marks.
theorem marks_of_issue (run : (keepsCheckpoints lib).Run past r) (hpaced : Paced lib ((r, input) :: past))
    {envelope : Envelope} (hsent : Sent (input.handler lib r).effects envelope)
    (htype : envelope.pbft.type = .preprepare) :
    r.lowWaterMark < envelope.pbft.sequence ∧ envelope.pbft.sequence ≤ r.highWaterMark ∧
      preliminaryFilterMsg envelope.pbft r = true := by
  obtain ⟨hbefore, hroom, _⟩ := hpaced
  obtain ⟨peer, hmem⟩ := hsent
  rcases handler_issues lib input (sound_of_run run.of_guard).kept with ⟨_, hnone⟩ | ⟨hissues, hone⟩
  · have hsilent := hnone.silent _ hmem
    simp [Effect.preprepared, htype] at hsilent
  · obtain ⟨hlow, hhigh, hfits⟩ := hbefore.marks run (hroom hissues)
    obtain ⟨hnext, _⟩ := issuedIn_of_run run hbefore
    rw [Nat.mod_eq_of_lt (by omega)] at hnext
    obtain ⟨peers, op, _, hview, hsequence, heffects⟩ := hone.sends
    rw [heffects] at hmem
    obtain ⟨_, _, hsend⟩ := List.mem_map.mp hmem
    cases hsend
    rw [hnext] at hsequence
    simp only [commonMessageSetup, hsequence, hview]
    refine ⟨hlow, hhigh, ?_⟩
    simp only [preliminaryFilterMsg, true_or, if_true, ne_eq, not_true, if_false, not_le.mpr hlow, not_lt.mpr hhigh]

theorem withinMarks_of_run (run : (keepsCheckpoints lib).Run past r) (hpaced : Paced lib past) :
    WithinMarks lib past := by
  refine ⟨?_, ?_⟩
  · induction run with
    | start => simp
    | step run _ ih =>
        intro step hstep envelope hsent htype
        rcases List.mem_cons.mp hstep with rfl | hstep
        · exact marks_of_issue run hpaced hsent htype
        · exact ih hpaced.1 step hstep envelope hsent htype
  · have hissued := (issuedIn_of_run run hpaced).2
    cases hreach : reaches lib r with
    | true =>
        rw [hreach] at hissued
        exact ⟨taken lib past, hissued⟩
    | false =>
        rw [hreach] at hissued
        exact ⟨0, hissued⟩

theorem withinMarks_of_run_fresh :
    let run := (lifetime openLibrary).replay [] (freshReplica "B")
      (["x", "y", "x"].map fun key => .request (readRequest key) "")
    issuedIn openLibrary run.1 = [1, 2, 3] ∧ WithinMarks openLibrary run.1 :=
  ⟨by decide +kernel, withinMarks_of_run ((run_of_fresh "B" _).guard_of (by decide +kernel)) (by decide +kernel)⟩

end Window

section Burst

-- The same request from a client, again and again.
def burst (count : Nat) : List Input := List.replicate count (.request (readRequest "x") "")

-- Nothing stops the primary from taking one number after the other.
theorem burst_spec (count : Nat) (run : (lifetime lib).Run past r) (hleads : leads r = true)
    (hfits : r.nextIssuedSequenceNumber + count < 2 ^ 64) :
    let after := ((lifetime lib).replay past r (burst count)).2
    leads after = true ∧ after.configured = r.configured ∧ after.highWaterMark = r.highWaterMark ∧
      after.nextIssuedSequenceNumber = r.nextIssuedSequenceNumber + count := by
  induction count generalizing past r with
  | zero => exact ⟨hleads, rfl, rfl, rfl⟩
  | succ count ih =>
      have hone : Issued lib r ((Input.request (readRequest "x") "").handler lib r).effects
          ((lifetime lib).next r (.request (readRequest "x") "")) :=
        handleRequest_issued _ _ (sound_of_run run).kept (isPrimary_of_leads hleads)
      have hnext := hone.next
      rw [Nat.mod_eq_of_lt (by omega)] at hnext
      have hstill : leads ((lifetime lib).next r (.request (readRequest "x") "")) = true := by
        rw [leads_eq, hone.configured, hone.view, hone.uuid, ← leads_eq]
        exact hleads
      obtain ⟨hlead, hconfigured, hhigh, hnumber⟩ := ih (.step run trivial) hstill (by omega)
      refine ⟨hlead, hconfigured.trans hone.configured, hhigh.trans hone.highWaterMark, ?_⟩
      change ((lifetime lib).replay _ _ (burst count)).2.nextIssuedSequenceNumber = _
      omega

-- After two hundred requests without a checkpoint the next one gets a number that everybody drops.
theorem withinMarks_broken : ¬∀ (lib : Library) (past : List (Replica × Input)) (r : Replica),
    (lifetime lib).Run past r → WithinMarks lib past := by
  intro h
  obtain ⟨past, r, hrun, hleads, hhigh, hnext⟩ : ∃ past r, (lifetime openLibrary).Run past r ∧
      leads r = true ∧ r.highWaterMark = 200 ∧ r.nextIssuedSequenceNumber = 201 := by
    have hstart : (lifetime openLibrary).Run [] (freshReplica "B") := run_of_fresh "B" []
    obtain ⟨hleads, _, hhigh, hnext⟩ := burst_spec 200 hstart (by decide +kernel) (by decide +kernel)
    have hmark : (freshReplica "B").highWaterMark = 200 := by decide +kernel
    have hnumber : (freshReplica "B").nextIssuedSequenceNumber + 200 = 201 := by decide +kernel
    exact ⟨_, _, run_of_fresh "B" (burst 200), hleads, hhigh.trans hmark, hnext.trans hnumber⟩
  have hlast : (lifetime openLibrary).enabled r (.request (readRequest "x") "") := trivial
  have hwithin := h _ _ _ (hrun.step hlast)
  have hone := handleRequest_issued (readRequest "x") "" (sound_of_run hrun).kept (isPrimary_of_leads hleads)
  obtain ⟨peers, op, hpeers, _, hsequence, heffects⟩ := hone.sends
  obtain ⟨peer, hpeer⟩ : ∃ peer, peer ∈ peers := by
    rw [leads_eq, hpeers] at hleads
    dsimp only at hleads
    split at hleads
    · rename_i primary hprimary
      exact ⟨primary, List.mem_of_getElem? hprimary⟩
    · cases hleads
  have hall : reachablePeers openLibrary peers = peers := List.takeWhile_eq_self_iff.mpr fun _ _ => rfl
  have hreachable : peer ∈ reachablePeers openLibrary peers := by
    rw [hall]
    exact hpeer
  have hsent : Sent ((Input.request (readRequest "x") "").handler openLibrary r).effects
      ⟨r.uuid, commonMessageSetup op .preprepare⟩ := ⟨peer, heffects ▸ List.mem_map_of_mem hreachable⟩
  have hbelow := (hwithin.marks _ List.mem_cons_self _ hsent rfl).2.1
  simp only [commonMessageSetup] at hbelow
  omega

end Burst

end SwarmDB.Pbft
