import SwarmDB.Pbft.Configuration.Peers
import SwarmDB.Pbft.Replica.Primary
import SwarmDB.Pbft.Replica.Reconfiguration
import SwarmDB.Quorum

namespace SwarmDB.Pbft

open Replica

variable {r : Replica} {peers : List PeerAddress}

section Votes

theorem quorumSize_run (hpeers : r.configured = some peers) :
    quorumSize r = ⟨r, [], .ok (1 + 2 * (peers.length / 3))⟩ := by
  simp [quorumSize, maxFaultyNodes, Bind.bind, Handler.bind, Pure.pure, currentPeers_run hpeers]

theorem faultyNodesBound_eq (op : Operation) (hne : op.peers ≠ []) :
    op.faultyNodesBound = (op.peers.length - 1) / 3 := by
  have hpos := List.length_pos_iff.mpr hne
  unfold Operation.faultyNodesBound
  rw [if_neg (by omega)]

theorem isPrepared_iff (op : Operation) (hseen : op.preprepareSeen = true) :
    op.isPrepared = true ↔ 2 * op.faultyNodesBound + 1 ≤ op.preparesSeen.card := by
  simp only [Operation.isPrepared, hseen, Bool.true_and, decide_eq_true_eq]
  omega

theorem isCommitted_iff (op : Operation) (hprepared : op.isPrepared = true) :
    op.isCommitted = true ↔ 2 * op.faultyNodesBound + 1 ≤ op.commitsSeen.card := by
  simp only [Operation.isCommitted, hprepared, Bool.true_and, decide_eq_true_eq]
  omega

end Votes

section Arithmetic

def uuidsOf (peers : List PeerAddress) : Finset Uuid := (peers.map PeerAddress.uuid).toFinset

-- The number q is the quorum for a checkpoint and for both phases of an operation. The correct peers
-- reach it by themselves, and no two quorums meet in the faulty peers alone.
structure QuorumArithmetic (r : Replica) (peers : List PeerAddress) (q : Nat) : Prop where
  stabilizes : (quorumSize r).result = .ok q
  prepares : ∀ op : Operation, op.peers = peers → op.preprepareSeen = true →
    (op.isPrepared = true ↔ q ≤ op.preparesSeen.card)
  commits : ∀ op : Operation, op.peers = peers → op.isPrepared = true →
    (op.isCommitted = true ↔ q ≤ op.commitsSeen.card)
  attainable : ∀ op : Operation, op.peers = peers → q ≤ peers.length - op.faultyNodesBound
  intersecting : ∀ op : Operation, op.peers = peers → ∀ A ⊆ uuidsOf peers, ∀ B ⊆ uuidsOf peers,
    A.card = q → B.card = q → op.faultyNodesBound < (A ∩ B).card

variable {q : Nat}

theorem card_uuidsOf (hdistinct : (peers.map PeerAddress.uuid).Nodup) : (uuidsOf peers).card = peers.length := by
  rw [uuidsOf, List.toFinset_card_of_nodup hdistinct, List.length_map]

-- An operation among these peers that has its preprepare and some votes.
def voted (peers : List PeerAddress) (votes : Finset Uuid) : Operation :=
  { view := 1, sequence := 1, request := {}, peers := peers, preprepareSeen := true, preparesSeen := votes }

theorem remainder_of_arithmetic (hpeers : r.configured = some peers) (hne : peers ≠ [])
    (hdistinct : (peers.map PeerAddress.uuid).Nodup) (h : QuorumArithmetic r peers q) : peers.length % 3 = 1 := by
  have hpos := List.length_pos_iff.mpr hne
  have hcard := card_uuidsOf hdistinct
  have hq : 1 + 2 * (peers.length / 3) = q := by
    have hsize := h.stabilizes
    rw [quorumSize_run hpeers] at hsize
    exact Except.ok.inj hsize
  have hbound : (voted peers ∅).faultyNodesBound = (peers.length - 1) / 3 := faultyNodesBound_eq _ hne
  -- where three divides their number, an operation is content with two votes less
  have hzero : peers.length % 3 ≠ 0 := by
    intro hzero
    obtain ⟨votes, _, hvotes⟩ :=
      Finset.exists_subset_card_eq (s := uuidsOf peers) (n := 2 * ((peers.length - 1) / 3) + 1) (by omega)
    have hprepared := h.prepares (voted peers votes) rfl rfl
    rw [isPrepared_iff _ rfl, faultyNodesBound_eq _ hne] at hprepared
    change 2 * ((peers.length - 1) / 3) + 1 ≤ votes.card ↔ q ≤ votes.card at hprepared
    omega
  -- where one peer is left over beyond 3f + 1, two quorums may share just f of them
  have htwo : peers.length % 3 ≠ 2 := by
    intro htwo
    have hoverlap := (Quorum.overlap_iff (uuidsOf peers) _ (by omega)).mp (h.intersecting (voted peers ∅) rfl)
    omega
  omega

theorem arithmetic_of_remainder (hpeers : r.configured = some peers) (hne : peers ≠ [])
    (hdistinct : (peers.map PeerAddress.uuid).Nodup) (h : peers.length % 3 = 1) :
    QuorumArithmetic r peers (1 + 2 * (peers.length / 3)) := by
  have hbound : ∀ op : Operation, op.peers = peers → op.faultyNodesBound = peers.length / 3 := by
    intro op hop
    rw [faultyNodesBound_eq op (hop ▸ hne), hop]
    omega
  refine ⟨by rw [quorumSize_run hpeers], ?_, ?_, ?_, ?_⟩
  · intro op hop hseen
    rw [isPrepared_iff op hseen, hbound op hop, Nat.add_comm]
  · intro op hop hprepared
    rw [isCommitted_iff op hprepared, hbound op hop, Nat.add_comm]
  · intro op hop
    rw [hbound op hop]
    omega
  · intro op hop
    have hcard := card_uuidsOf hdistinct
    rw [Quorum.overlap_iff (uuidsOf peers) _ (by omega), hbound op hop]
    omega

variable {codec : Codec} {config : Configuration} {past : List (Configuration × Configuration.Edit)}

-- The peers of a configuration that its own functions have built are distinct.
theorem distinct_of_run (built : (Configuration.edits codec).Run past config) :
    (config.sortedPeers.map PeerAddress.uuid).Nodup := by
  have hincreasing := (Configuration.sound_of_run built).increasing
  exact List.pairwise_map.mpr (hincreasing.imp fun hlt => ne_of_lt hlt)

-- The quorums of a replica are sound just where it is configured for 3f + 1 peers.
theorem quorum_arithmetic_iff (built : (Configuration.edits codec).Run past config)
    (hcurrent : r.configurations.current = some config) (hpeers : config.sortedPeers ≠ []) :
    (∃ q, QuorumArithmetic r config.sortedPeers q) ↔ config.sortedPeers.length % 3 = 1 := by
  have hdistinct := distinct_of_run built
  have hconfigured : r.configured = some config.sortedPeers := by simp [Replica.configured, hcurrent]
  constructor
  · rintro ⟨q, h⟩
    exact remainder_of_arithmetic hconfigured hpeers hdistinct h
  · intro h
    exact ⟨_, arithmetic_of_remainder hconfigured hpeers hdistinct h⟩

-- The configuration that a replica starts with is built by adding peers.
theorem run_gather (codec : Codec) (built : (Configuration.edits codec).Run past config)
    (peers : List PeerAddress) (hfit : ∀ peer ∈ peers, Configuration.PortsFit peer) :
    ∃ past, (Configuration.edits codec).Run past (config.gather codec peers) := by
  induction peers generalizing config past with
  | nil => exact ⟨past, built⟩
  | cons peer rest ih =>
      have hadd : (Configuration.edits codec).enabled config (.addPeer peer) := hfit peer List.mem_cons_self
      exact ih (built.step hadd) fun other hother => hfit other (List.mem_cons_of_mem _ hother)

-- A replica of a swarm of some of the four peers.
noncomputable def replicaOf (peers : List PeerAddress) : Replica :=
  { freshReplica "A" with configurations := initializeConfiguration openLibrary peers }

noncomputable def configurationOf (peers : List PeerAddress) : Configuration :=
  ({} : Configuration).gather openLibrary.toCodec peers

theorem current_replicaOf (peers : List PeerAddress) :
    (replicaOf peers).configurations.current = some (configurationOf peers) := by
  rw [replicaOf, initializeConfiguration_eq]
  simp [ConfigStore.current, configurationOf]

theorem quorum_arithmetic_iff_four :
    ∃ q, QuorumArithmetic (replicaOf fourPeers) (configurationOf fourPeers).sortedPeers q := by
  obtain ⟨_, built⟩ := run_gather openLibrary.toCodec (.start rfl) fourPeers (by decide)
  exact (quorum_arithmetic_iff built (current_replicaOf fourPeers) (by decide +kernel)).mpr (by decide +kernel)

-- Of three peers, one vote prepares an operation where three make a checkpoint stable.
theorem quorum_arithmetic_broken : ¬∃ q,
    QuorumArithmetic (replicaOf (fourPeers.take 3)) (configurationOf (fourPeers.take 3)).sortedPeers q := by
  rintro ⟨q, h⟩
  have hconfigured : (replicaOf (fourPeers.take 3)).configured =
      some (configurationOf (fourPeers.take 3)).sortedPeers := by simp [Replica.configured, current_replicaOf]
  have hremainder := remainder_of_arithmetic hconfigured (by decide +kernel) (by decide +kernel) h
  exact absurd hremainder (by decide +kernel)

end Arithmetic

end SwarmDB.Pbft
