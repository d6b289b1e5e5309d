import SwarmDB.Pbft.System.Order

namespace SwarmDB.Pbft

open Replica

variable {lib : Library} {parse : Bytes → Option Request} {f : Nat} {members faulty : Finset Uuid}
  {past : List (System × Occurrence)} {s : System} {n : Uuid} {cp : Checkpoint} {original : Envelope}

section Witnesses

-- Whoever was heard to be at a checkpoint is a member, and is there if it is not faulty.
theorem reached_of_heard (run : (system lib parse f members faulty).Run past s)
    (h : HeardFor (history (journal past) n) cp original) :
    original.sender ∈ members ∧
      (original.sender ∉ faulty → cp ∈ reachedIn (history (journal past) original.sender)) := by
  have hswarm := swarm_run run
  obtain ⟨step, hmem, msg, hinput, htype, rfl⟩ := h
  obtain ⟨whole, hwhole, _, rfl⟩ := Machine.mem_life hmem
  obtain ⟨rfl, hmember, hauthentic⟩ := received_of_run hswarm hwhole hinput
  refine ⟨hmember, ?_⟩
  intro hcorrect
  obtain ⟨m, hm, hmcorrect, peer, hsent⟩ := sent_of_run hswarm (hauthentic.resolve_left hcorrect)
  have hannounced : (Effect.send peer (.pbft original)).announced =
      some (original.sender, original.pbft.sequence, original.pbft.stateHash) := by
    simp [Effect.announced, htype]
  obtain ⟨hsender, hreached⟩ := (supported_of_run (history_run hm hmcorrect hswarm)).announced _ hsent _ _ hannounced
  rw [(identity_of_run hm hmcorrect hswarm).uuid] at hsender
  rw [hsender]
  exact hreached

-- The senders of a quorum of checkpoint messages that are not faulty.
theorem witnesses_of_stable (hfaulty : faulty.card ≤ f) (hmember : n ∈ members) (hcorrect : n ∉ faulty)
    (run : (system lib parse f members faulty).Run past s) (hpos : 0 < (s.processes n).replica.stableCheckpoint.1) :
    ∃ witnesses ⊆ members \ faulty, f + 1 ≤ witnesses.card ∧ ∀ q ∈ witnesses,
      (s.processes n).replica.stableCheckpoint ∈ reachedIn (history (journal past) q) := by
  obtain ⟨_, hvouched, peers, hpeers, hquorum⟩ := (supported_of_run (replica_run hmember hcorrect run)).stable hpos
  obtain ⟨peers', hconfigured, hlength, _⟩ := (identity_of_run hmember hcorrect (swarm_run run)).configured
  obtain rfl : peers = peers' := Option.some.inj (hpeers.symm.trans hconfigured)
  obtain ⟨senders, hsenders⟩ : ∃ senders, (s.processes n).replica.stableCheckpointProof.keys.toFinset = senders :=
    ⟨_, rfl⟩
  rw [hsenders] at hquorum
  have hsender : ∀ q ∈ senders, q ∈ members ∧
      (q ∉ faulty → (s.processes n).replica.stableCheckpoint ∈ reachedIn (history (journal past) q)) := by
    intro q hq
    have hkey := List.mem_toFinset.mp (hsenders ▸ hq)
    obtain ⟨envelope, hfound⟩ := Option.isSome_iff_exists.mp (AList.lookup_isSome.mpr hkey)
    obtain ⟨rfl, hheard⟩ := hvouched q envelope hfound
    exact reached_of_heard run hheard
  refine ⟨senders \ faulty, ?_, ?_, ?_⟩
  · intro q hq
    obtain ⟨hmem, hnot⟩ := Finset.mem_sdiff.mp hq
    exact Finset.mem_sdiff.mpr ⟨(hsender q hmem).1, hnot⟩
  · have hcard : senders.card ≤ (senders \ faulty).card + faulty.card := Finset.card_le_card_sdiff_add_card
    have hfull : 2 * f + 1 ≤ senders.card := by omega
    omega
  · intro q hq
    obtain ⟨hmem, hnot⟩ := Finset.mem_sdiff.mp hq
    exact (hsender q hmem).2 hnot

end Witnesses

-- A process executes below its high water mark. What it has made stable, it has executed, and more than f
-- processes that are not faulty have, in the same way. Its low water mark is not above what it has executed
-- unless the mark was read from a checkpoint that had been erased.
structure Checkpointed (lib : Library) (parse : Bytes → Option Request) (f : Nat) (members faulty : Finset Uuid)
    (past : List (System × Occurrence)) (n : Uuid) (r : Replica) : Prop where
  low : (∀ step ∈ history (journal past) n, ¬VotesFirst lib step.1 step.2) →
    r.lowWaterMark ≤ (executions parse past n).length
  high : (executions parse past n).length ≤ r.highWaterMark
  stable : 0 < r.stableCheckpoint.1 → r.stableCheckpoint.1 % checkpointInterval = 0 ∧
    r.stableCheckpoint.1 ≤ (executions parse past n).length ∧
      ∃ witnesses ⊆ members \ faulty, f + 1 ≤ witnesses.card ∧ ∀ q ∈ witnesses,
        r.stableCheckpoint.1 ≤ (executions parse past q).length ∧
          (executions parse past q).take r.stableCheckpoint.1 = (executions parse past n).take r.stableCheckpoint.1

theorem checkpointed_of_run (hinj : Function.Injective lib.requestHash) (hfaulty : faulty.card ≤ f)
    (run : (system lib parse f members faulty).Run past s) (hreadable : Readable lib parse members faulty past)
    (hmember : n ∈ members) (hcorrect : n ∉ faulty) :
    Checkpointed lib parse f members faulty past n (s.processes n).replica := by
  obtain ⟨requests, hagreed⟩ := agreed_of_run hinj hfaulty run hreadable
  obtain ⟨m, hm⟩ := serving_of_run run hagreed hmember hcorrect
  have hrun := replica_run hmember hcorrect run
  have hsupported := supported_of_run hrun
  have hlength := hm.length
  refine ⟨?_, ?_, ?_⟩
  · intro hkept
    rcases Nat.eq_zero_or_pos (s.processes n).replica.lowWaterMark with hzero | hpos
    · omega
    · obtain ⟨cp, hcp, hlow⟩ := (marked_of_run (hrun.guard_of hkept)).lowWaterMark hpos
      obtain ⟨_, hbelow, _⟩ := hm.reached cp hcp
      omega
  · -- the last of the executed requests was handed over below the mark
    rcases Nat.eq_or_lt_of_le hm.low with hone | hlater
    · omega
    · obtain ⟨op, hop, hsequence⟩ := hm.applied (m - 1) (by omega) (by omega)
      obtain ⟨_, _, hhigh, _⟩ := handedOver_bounds hmember hcorrect run hop
      omega
  · intro hpos
    obtain ⟨hreached, _⟩ := hsupported.stable hpos
    obtain ⟨_, hbelow, hinterval⟩ := hm.reached _ hreached
    obtain ⟨witnesses, hsub, hcard, hwitness⟩ := witnesses_of_stable hfaulty hmember hcorrect run hpos
    refine ⟨hinterval, by omega, witnesses, hsub, hcard, ?_⟩
    intro q hq
    obtain ⟨hqm, hqf⟩ := Finset.mem_sdiff.mp (hsub hq)
    obtain ⟨m', hm'⟩ := serving_of_run run hagreed hqm hqf
    obtain ⟨_, hbelow', _⟩ := hm'.reached _ (hwitness q hq)
    have hlength' := hm'.length
    refine ⟨by omega, ?_⟩
    rcases Nat.le_total m m' with hle | hle
    · obtain ⟨rest, hrest⟩ := hm.ordered hm' hle
      rw [← hrest, List.take_append_of_le_length (by omega)]
    · obtain ⟨rest, hrest⟩ := hm'.ordered hm hle
      rw [← hrest, List.take_append_of_le_length (by omega)]

theorem checkpointed_of_run_four : (executions parseRead twoRun.1 "D").length = 1 ∧
    Checkpointed openLibrary parseRead 1 {"A", "B", "C", "D"} {"B"} twoRun.1 "D" (twoRun.2.processes "D").replica :=
  ⟨by decide +kernel, checkpointed_of_run requestText_injective (by decide) run_twoRun readable_twoRun (by decide)
    (by decide)⟩

end SwarmDB.Pbft
