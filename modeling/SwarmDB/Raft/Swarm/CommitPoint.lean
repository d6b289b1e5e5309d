import SwarmDB.Raft.Swarm.Agreement

namespace SwarmDB.Raft

open Quorum

-- The active sets of a leader: one, or an old and a new one that differ by a peer. It is in the old one.
inductive Active (n : Uuid) : List (List Uuid) → Prop
  | single (quorum : List Uuid) (hmem : n ∈ quorum) : Active n [quorum]
  | added (old new : List Uuid) (peer : Uuid) (hmem : n ∈ old) (hpeer : peer ∉ old)
      (hnew : new.toFinset = insert peer old.toFinset) : Active n [old, new]
  | removed (old new : List Uuid) (peer : Uuid) (hmem : n ∈ old) (hpeer : peer ∈ old) (hne : new ≠ [])
      (hnew : new.toFinset = old.toFinset.erase peer) : Active n [old, new]

-- A leader over a log, with match indexes that are true. Of the members, the given ones have its first entry.
structure Leading (s : Swarm) (n : Uuid) (log : RaftLog) (quorums : List (List Uuid)) (rooted : Finset Uuid) :
    Prop where
  leader : (s.nodes n).currentState = .leader
  log_eq : (s.nodes n).log = log
  own : (s.nodes n).matchIndexOf n = 1
  truthful : ∀ peer, peer ≠ n → s.Shares peer n ((s.nodes n).matchIndexOf peer)
  roots : ∀ quorum ∈ quorums, ∀ peer ∈ quorum, (s.Shares peer n 1 ↔ peer ∈ rooted)

-- The commit point that the leader works out: every position it reads is in its vector, and in every
-- active set more than half of the members hold that many of the leader's entries.
structure HeldByMajorities (s : Swarm) (n : Uuid) (quorums : List (List Uuid)) : Prop where
  inside : ∀ quorum ∈ quorums, (quorum.length + 1) / 2 < quorum.length
  held : ∀ stray node m, (s.nodes n).lastMajorityReplicatedLogIndex stray = .ok (node, m) →
    ∀ quorum ∈ quorums, Majority quorum fun peer => s.Shares peer n m

-- Where that cannot go wrong. Either so few members of some set have the first entry that nothing is
-- committed, or a majority of every set does, and the leader is only missing from sets of odd size.
structure Sound (n : Uuid) (log : RaftLog) (quorums : List (List Uuid)) (rooted : Finset Uuid) : Prop where
  pairs : ∀ quorum ∈ quorums, 2 ≤ quorum.length
  counts : (∃ quorum ∈ quorums, quorum.countP (· ∈ rooted) < quorum.length / 2) ∨
    ((∀ quorum ∈ quorums, Majority quorum (· ∈ rooted)) ∧
      (log.size < 2 ∨ ∀ quorum ∈ quorums, n ∈ quorum ∨ Odd quorum.length))

variable {s : Swarm} {n : Uuid} {log : RaftLog} {quorums : List (List Uuid)} {quorum : List Uuid}
  {rooted : Finset Uuid}

theorem Swarm.Shares.le {peer : Uuid} {count m : Nat} (h : s.Shares peer n count) (hle : m ≤ count) :
    s.Shares peer n m :=
  ⟨hle.trans h.1, hle.trans h.2.1, ReplicatedLog.take_eq_of_take_eq h.2.2 hle⟩

theorem Swarm.shares_self {count : Nat} (hle : count ≤ (s.nodes n).log.size) : s.Shares n n count :=
  ⟨hle, hle, rfl⟩

theorem Swarm.shares_zero (s : Swarm) (peer n : Uuid) : s.Shares peer n 0 :=
  ⟨Nat.zero_le _, Nat.zero_le _, rfl⟩

theorem exists_of_map_ok {A B : Type} {f : A → B} {x : Except Exception A} {b : B} (h : x.map f = .ok b) :
    ∃ a, x = .ok a ∧ f a = b := by
  cases x with
  | error e => cases h
  | ok a => exact ⟨a, rfl, Except.ok.inj h⟩

theorem nodup_uuids (peers : Option (List PeerJson)) : (uuids peers).Nodup := List.nodup_dedup _

theorem nodup_of_active (hquorums : getActiveQuorum log = .ok quorums) (hmem : quorum ∈ quorums) : quorum.Nodup := by
  unfold getActiveQuorum at hquorums
  split at hquorums
  · cases hquorums
  · split at hquorums
    · obtain ⟨peers, _, rfl⟩ := exists_of_map_ok hquorums
      obtain rfl := List.mem_singleton.mp hmem
      exact nodup_uuids peers
    · obtain ⟨peers, _, rfl⟩ := exists_of_map_ok hquorums
      rcases List.mem_pair.mp hmem with rfl | rfl
      · exact nodup_uuids peers.1
      · exact nodup_uuids peers.2

-- The leader's own index is too low for any entry behind the first.
theorem Leading.shares_of_reached (h : Leading s n log quorums rooted) {peer : Uuid} {m : Nat} (hm : 2 ≤ m)
    (hreached : m ≤ (s.nodes n).matchIndexOf peer) : peer ≠ n ∧ s.Shares peer n m := by
  have hne : peer ≠ n := by
    rintro rfl
    rw [h.own] at hreached
    omega
  exact ⟨hne, (h.truthful peer hne).le hreached⟩

theorem Leading.median_le_size (h : Leading s n log quorums rooted) (stray : Nat → Nat) (hlen : 2 ≤ quorum.length)
    (hm : 2 ≤ (s.nodes n).medianMatchIndex stray quorum) :
    (s.nodes n).medianMatchIndex stray quorum ≤ (s.nodes n).log.size := by
  have hmem := List.mem_of_getElem? (medianMatchIndex_eq (s.nodes n) stray quorum hlen)
  rw [List.mem_insertionSort] at hmem
  obtain ⟨peer, _, hvalue⟩ := List.mem_map.mp hmem
  exact (h.shares_of_reached hm hvalue.ge).2.2.1

theorem Leading.majority_with (h : Leading s n log quorums rooted) (stray : Nat → Nat) (hlen : 2 ≤ quorum.length)
    (hmem : n ∈ quorum) (hm : 2 ≤ (s.nodes n).medianMatchIndex stray quorum) :
    Majority quorum fun peer => s.Shares peer n ((s.nodes n).medianMatchIndex stray quorum) := by
  refine majority_of_median quorum (s.nodes n).matchIndexOf _ (medianMatchIndex_eq _ stray quorum hlen) ?_ hmem ?_ ?_
  · intro peer _ hreached
    exact (h.shares_of_reached hm hreached).2
  · rw [h.own]
    exact hm
  · exact Swarm.shares_self (h.median_le_size stray hlen hm)

theorem Leading.majority_without (h : Leading s n log quorums rooted) (stray : Nat → Nat) {old : List Uuid}
    (hperm : old.Perm (n :: quorum)) (hlen : 2 ≤ old.length) (hodd : Odd quorum.length)
    (hm : 2 ≤ (s.nodes n).medianMatchIndex stray old) :
    Majority quorum fun peer => s.Shares peer n ((s.nodes n).medianMatchIndex stray old) := by
  refine majority_of_median_without old quorum (s.nodes n).matchIndexOf _ hperm
    (medianMatchIndex_eq _ stray old hlen) ?_ ?_ hodd
  · intro peer _ hreached
    exact (h.shares_of_reached hm hreached).2
  · rw [h.own]
    exact hm

-- The old set of a leader that is not in the new one.
theorem Active.old_of_notMem (h : Active n quorums) (hnodup : ∀ quorum ∈ quorums, quorum.Nodup)
    (hmem : quorum ∈ quorums) (hn : n ∉ quorum) : ∃ old ∈ quorums, old.Perm (n :: quorum) ∧
      ∀ other ∈ quorums, other = old ∨ other = quorum := by
  cases h with
  | single only hin =>
      obtain rfl := List.mem_singleton.mp hmem
      exact absurd hin hn
  | added old new peer hin hpeer hnew =>
      rcases List.mem_pair.mp hmem with rfl | rfl
      · exact absurd hin hn
      · refine absurd ?_ hn
        rw [← List.mem_toFinset, hnew]
        exact Finset.mem_insert_of_mem (List.mem_toFinset.mpr hin)
  | removed old new peer hin hpeer hne hnew =>
      rcases List.mem_pair.mp hmem with rfl | rfl
      · exact absurd hin hn
      · obtain rfl : n = peer := by
          by_contra hother
          apply hn
          rw [← List.mem_toFinset, hnew]
          exact Finset.mem_erase.mpr ⟨hother, List.mem_toFinset.mpr hin⟩
        refine ⟨old, List.mem_cons_self, ?_, fun other hother => List.mem_pair.mp hother⟩
        refine List.perm_of_nodup_nodup_toFinset_eq (hnodup old List.mem_cons_self) ?_ ?_
        · exact List.nodup_cons.mpr ⟨hn, hnodup _ hmem⟩
        · rw [List.toFinset_cons, hnew, Finset.insert_erase (List.mem_toFinset.mpr hin)]

theorem Active.exists_mem (h : Active n quorums) : ∃ quorum ∈ quorums, n ∈ quorum := by
  cases h with
  | single only hin => exact ⟨only, List.mem_cons_self, hin⟩
  | added old new peer hin | removed old new peer hin => exact ⟨old, List.mem_cons_self, hin⟩

section Enough

theorem commitPoint_eq {node node' : Node} {stray : Nat → Nat} {m : Nat}
    (hquorums : getActiveQuorum node.log = .ok quorums)
    (h : node.lastMajorityReplicatedLogIndex stray = .ok (node', m)) :
    m = quorums.foldl (fun result quorum => min result (node.medianMatchIndex stray quorum)) (2 ^ 32 - 1) := by
  unfold Node.lastMajorityReplicatedLogIndex at h
  obtain ⟨found, hfound, hpair⟩ := exists_of_map_ok h
  obtain rfl : quorums = found := Except.ok.inj (hquorums.symm.trans hfound)
  exact (Prod.ext_iff.mp hpair).2.symm

-- Who reaches the first entry has it.
theorem Leading.rooted_of_reached (h : Leading s n log quorums rooted) (hmem : quorum ∈ quorums) {peer : Uuid}
    (hpeer : peer ∈ quorum) (hreached : 1 ≤ (s.nodes n).matchIndexOf peer) : peer ∈ rooted := by
  apply (h.roots quorum hmem peer hpeer).mp
  by_cases hn : peer = n
  · subst hn
    exact Swarm.shares_self (RaftLog.size_pos _)
  · exact (h.truthful peer hn).le hreached

-- With too few members that have the first entry, the median is zero.
theorem Leading.median_eq_zero (h : Leading s n log quorums rooted) (stray : Nat → Nat) (hmem : quorum ∈ quorums)
    (hlen : 2 ≤ quorum.length) (hfew : quorum.countP (· ∈ rooted) < quorum.length / 2) :
    (s.nodes n).medianMatchIndex stray quorum = 0 := by
  by_contra hpos
  have hcount := countP_ge_insertionSort _ _ _ (medianMatchIndex_eq (s.nodes n) stray quorum hlen)
  rw [List.length_map, List.countP_map] at hcount
  have hmono : quorum.countP ((fun x => decide ((s.nodes n).medianMatchIndex stray quorum ≤ x)) ∘
      (s.nodes n).matchIndexOf) ≤ quorum.countP (· ∈ rooted) := by
    apply List.countP_mono_left
    intro peer hpeer hreached
    simp only [Function.comp_apply, decide_eq_true_eq] at hreached
    exact decide_eq_true (h.rooted_of_reached hmem hpeer (by omega))
  omega

-- Entries behind the first one: a majority of every set reaches them.
theorem Leading.held_behind (h : Leading s n log quorums rooted) (hactive : Active n quorums)
    (hnodup : ∀ quorum ∈ quorums, quorum.Nodup) (hpairs : ∀ quorum ∈ quorums, 2 ≤ quorum.length)
    (hodd : n ∈ quorum ∨ Odd quorum.length) (stray : Nat → Nat) {m : Nat} (hm : 2 ≤ m)
    (hle : ∀ quorum ∈ quorums, m ≤ (s.nodes n).medianMatchIndex stray quorum) (hmem : quorum ∈ quorums) :
    Majority quorum fun peer => s.Shares peer n m := by
  by_cases hn : n ∈ quorum
  · have hmajority := h.majority_with stray (hpairs quorum hmem) hn (hm.trans (hle quorum hmem))
    exact hmajority.mono fun peer _ hshares => hshares.le (hle quorum hmem)
  · obtain ⟨old, hold, hperm, _⟩ := hactive.old_of_notMem hnodup hmem hn
    have hmajority := h.majority_without stray hperm (hpairs old hold) (hodd.resolve_left hn)
      (hm.trans (hle old hold))
    exact hmajority.mono fun peer _ hshares => hshares.le (hle old hold)

theorem Leading.heldByMajorities (h : Leading s n log quorums rooted) (hquorums : getActiveQuorum log = .ok quorums)
    (hactive : Active n quorums) (hsound : Sound n log quorums rooted) : HeldByMajorities s n quorums := by
  have hnodup : ∀ quorum ∈ quorums, quorum.Nodup := fun quorum hmem => nodup_of_active hquorums hmem
  constructor
  case inside =>
    intro quorum hmem
    have := hsound.pairs quorum hmem
    omega
  case held =>
    intro stray node m hpoint quorum hmem
    rw [← h.log_eq] at hquorums
    obtain rfl := commitPoint_eq hquorums hpoint
    have hle := (Node.foldl_min_le quorums ((s.nodes n).medianMatchIndex stray) (2 ^ 32 - 1)).2
    obtain ⟨m, hm⟩ : ∃ m, m = quorums.foldl
      (fun result quorum => min result ((s.nodes n).medianMatchIndex stray quorum)) (2 ^ 32 - 1) := ⟨_, rfl⟩
    rw [← hm] at hle ⊢
    have hne : quorum ≠ [] := by
      rintro rfl
      exact absurd (hsound.pairs [] hmem) (by simp)
    rcases Nat.lt_or_ge m 1 with hzero | hpos
    · obtain rfl : m = 0 := by omega
      exact majority_of_all hne fun peer _ => s.shares_zero peer n
    rcases hsound.counts with ⟨few, hfew, hcount⟩ | ⟨hmajority, hodd⟩
    · have := h.median_eq_zero stray hfew (hsound.pairs few hfew) hcount
      have := hle few hfew
      omega
    rcases Nat.lt_or_ge m 2 with hone | htwo
    · obtain rfl : m = 1 := by omega
      exact (hmajority quorum hmem).mono fun peer hpeer hin => (h.roots quorum hmem peer hpeer).mpr hin
    · refine h.held_behind hactive hnodup hsound.pairs ?_ stray htwo hle hmem
      refine (hodd.resolve_left ?_) quorum hmem
      obtain ⟨member, hmember, _⟩ := hactive.exists_mem
      have hsize := h.median_le_size stray (hsound.pairs member hmember) (htwo.trans (hle member hmember))
      have := hle member hmember
      rw [h.log_eq] at hsize
      omega

end Enough

section Needed

-- A leader that knows of some peers that they have two entries, and of others that they have one.
def leaderOf (n : Uuid) (log : RaftLog) (rooted full : Finset Uuid) : Node :=
  { Node.construct n [] false false "" log with
    currentState := .leader,
    peerMatchIndex := fun peer =>
      some (if peer = n then 1 else if peer ∈ full then 2 else if peer ∈ rooted then 1 else 0) }

-- And the logs of the peers: all of the leader's, its first entry, or an entry of another term.
def logOf (log : RaftLog) (rooted full : Finset Uuid) (peer : Uuid) : RaftLog :=
  let first := log.entries.head log.entries_ne
  if peer ∈ full then log
  else if peer ∈ rooted then startLog first
  else startLog { first with term := first.term + 1 }

def swarmOf (n : Uuid) (log : RaftLog) (rooted full : Finset Uuid) : Swarm where
  nodes peer :=
    if peer = n then leaderOf n log rooted full
    else Node.construct peer [] false false "" (logOf log rooted full peer)
  network := []

variable {full : Finset Uuid}

theorem swarmOf_leader : (swarmOf n log rooted full).nodes n = leaderOf n log rooted full := if_pos rfl

theorem swarmOf_log {peer : Uuid} (hne : peer ≠ n) :
    ((swarmOf n log rooted full).nodes peer).log = logOf log rooted full peer :=
  congrArg Node.log (if_neg hne)

theorem swarmOf_matchIndex {peer : Uuid} (hne : peer ≠ n) :
    ((swarmOf n log rooted full).nodes n).matchIndexOf peer =
      if peer ∈ full then 2 else if peer ∈ rooted then 1 else 0 := by
  rw [swarmOf_leader]
  simp [leaderOf, Node.matchIndexOf, hne]

theorem swarmOf_own : ((swarmOf n log rooted full).nodes n).matchIndexOf n = 1 := by
  rw [swarmOf_leader]
  simp [leaderOf, Node.matchIndexOf]

theorem take_one_cores (log : RaftLog) :
    (log.entries.map LogEntry.core).take 1 = [(log.entries.head log.entries_ne).core] := by
  obtain ⟨entries, hne⟩ := log
  cases entries with
  | nil => exact absurd rfl hne
  | cons first rest => rfl

theorem swarmOf_shares_one {peer : Uuid} (hne : peer ≠ n) (hfull : full ⊆ rooted) :
    (swarmOf n log rooted full).Shares peer n 1 ↔ peer ∈ rooted := by
  unfold Swarm.Shares Swarm.cores
  rw [swarmOf_log hne, swarmOf_leader]
  have hown : (leaderOf n log rooted full).log = log := rfl
  rw [hown, take_one_cores, take_one_cores]
  have hpos := log.size_pos
  by_cases hin : peer ∈ full
  · refine iff_of_true ?_ (hfull hin)
    simp only [logOf, if_pos hin]
    exact ⟨hpos, hpos, trivial⟩
  · by_cases hroot : peer ∈ rooted
    · refine iff_of_true ?_ hroot
      simp only [logOf, if_neg hin, if_pos hroot]
      exact ⟨Nat.le_refl 1, hpos, rfl⟩
    · simp [logOf, hin, hroot, startLog, LogEntry.core]

theorem swarmOf_shares_two {peer : Uuid} (hne : peer ≠ n) :
    (swarmOf n log rooted full).Shares peer n 2 ↔ peer ∈ full ∧ 2 ≤ log.size := by
  unfold Swarm.Shares Swarm.cores
  rw [swarmOf_log hne, swarmOf_leader]
  have hown : (leaderOf n log rooted full).log = log := rfl
  rw [hown]
  by_cases hin : peer ∈ full
  · simp [logOf, hin]
  · by_cases hroot : peer ∈ rooted
    · simp [logOf, hin, hroot, startLog, RaftLog.size]
    · simp [logOf, hin, hroot, startLog, RaftLog.size]

theorem swarmOf_leading (hn : n ∈ rooted) (hfull : full ⊆ rooted) (htwo : full = ∅ ∨ 2 ≤ log.size) :
    Leading (swarmOf n log rooted full) n log quorums rooted := by
  constructor
  case leader =>
    rw [swarmOf_leader]
    rfl
  case log_eq =>
    rw [swarmOf_leader]
    rfl
  case own => exact swarmOf_own
  case truthful =>
    intro peer hne
    rw [swarmOf_matchIndex hne]
    split
    · rename_i hin
      refine (swarmOf_shares_two hne).mpr ⟨hin, htwo.resolve_left ?_⟩
      rintro rfl
      simp at hin
    · split
      · rename_i hroot
        exact (swarmOf_shares_one hne hfull).mpr hroot
      · exact Swarm.shares_zero _ _ _
  case roots =>
    intro quorum _ peer _
    by_cases hne : peer = n
    · subst hne
      exact iff_of_true (Swarm.shares_self (RaftLog.size_pos _)) hn
    · exact swarmOf_shares_one hne hfull

-- A value that enough members of every set reach is no larger than the commit point.
theorem le_commitPoint {node : Node} (hquorums : getActiveQuorum node.log = .ok quorums)
    (hpairs : ∀ quorum ∈ quorums, 2 ≤ quorum.length) (stray : Nat → Nat) {v : Nat} (hv : v ≤ 2)
    (hreached : ∀ quorum ∈ quorums,
      quorum.length - (quorum.length + 1) / 2 ≤ quorum.countP fun peer => decide (v ≤ node.matchIndexOf peer)) :
    ∃ node' m, node.lastMajorityReplicatedLogIndex stray = .ok (node', m) ∧ v ≤ m := by
  have hpoint : node.lastMajorityReplicatedLogIndex stray = .ok (quorums.flatten.foldl Node.touchMatchIndex node,
      quorums.foldl (fun result quorum => min result (node.medianMatchIndex stray quorum)) (2 ^ 32 - 1)) := by
    unfold Node.lastMajorityReplicatedLogIndex
    rw [hquorums]
    rfl
  refine ⟨_, _, hpoint, ?_⟩
  have hmedians : ∀ quorum ∈ quorums, v ≤ node.medianMatchIndex stray quorum := by
    intro quorum hmem
    apply le_of_countP_insertionSort _ (medianMatchIndex_eq node stray quorum (hpairs quorum hmem))
    rw [List.length_map, List.countP_map]
    exact hreached quorum hmem
  clear hreached hpairs hpoint hquorums
  have hstart : v ≤ 2 ^ 32 - 1 := by omega
  generalize 2 ^ 32 - 1 = start at hstart
  induction quorums generalizing start with
  | nil => exact hstart
  | cons first rest ih =>
      apply ih (fun quorum hmem => hmedians quorum (List.mem_cons_of_mem _ hmem)) _
      exact le_min hstart (hmedians first List.mem_cons_self)

theorem countP_mem_of_subset {members : List Uuid} (hnodup : members.Nodup) {chosen : Finset Uuid}
    (hsub : chosen ⊆ members.toFinset) : members.countP (· ∈ chosen) = chosen.card := by
  have hfilter : (members.filter (· ∈ chosen)).toFinset = chosen := by
    ext peer
    rw [List.toFinset_filter, Finset.mem_filter, decide_eq_true_eq]
    exact ⟨fun h => h.2, fun h => ⟨hsub h, h⟩⟩
  rw [List.countP_eq_length_filter, ← List.toFinset_card_of_nodup (hnodup.filter _), hfilter]

variable (hquorums : getActiveQuorum log = .ok quorums) (hn : n ∈ rooted)
  (hall : ∀ s, Leading s n log quorums rooted → HeldByMajorities s n quorums)

include hn hall

theorem pairs_of_held : ∀ quorum ∈ quorums, 2 ≤ quorum.length := by
  intro quorum hmem
  have hinside := (hall _ (swarmOf_leading hn (Finset.empty_subset rooted) (Or.inl rfl))).inside quorum hmem
  omega

include hquorums

-- When every member that has the first entry is known to have it.
theorem majority_of_held (hmany : ∀ quorum ∈ quorums, quorum.length / 2 ≤ quorum.countP (· ∈ rooted)) :
    ∀ quorum ∈ quorums, Majority quorum (· ∈ rooted) := by
  have hleading : Leading (swarmOf n log rooted ∅) n log quorums rooted :=
    swarmOf_leading hn (Finset.empty_subset rooted) (Or.inl rfl)
  have hindex : ∀ peer, decide (1 ≤ ((swarmOf n log rooted ∅).nodes n).matchIndexOf peer) =
      decide (peer ∈ rooted) := by
    intro peer
    rw [decide_eq_decide]
    by_cases hne : peer = n
    · subst hne
      rw [swarmOf_own]
      exact iff_of_true (Nat.le_refl 1) hn
    · rw [swarmOf_matchIndex hne]
      by_cases hroot : peer ∈ rooted
      · simp [hroot]
      · simp [hroot]
  have hquorums' := hquorums
  rw [← hleading.log_eq] at hquorums'
  obtain ⟨node, m, hpoint, hm⟩ := le_commitPoint hquorums' (pairs_of_held hn hall) (fun _ => 0) (v := 1) (by omega)
    (by
      intro quorum hmem
      simp only [hindex]
      have := hmany quorum hmem
      omega)
  intro quorum hmem
  have hheld := (hall _ hleading).held (fun _ => 0) node m hpoint quorum hmem
  exact hheld.mono fun peer hpeer hshares => (hleading.roots quorum hmem peer hpeer).mp (hshares.le hm)

-- When the leader is missing from a set of even size, half of that set can reach the second entry.
theorem odd_of_held (hactive : Active n quorums) (hsize : 2 ≤ log.size) (hmem : quorum ∈ quorums) (hout : n ∉ quorum)
    (hmajority : Majority quorum (· ∈ rooted)) : Odd quorum.length := by
  have hnodup : ∀ quorum ∈ quorums, quorum.Nodup := fun quorum hmem => nodup_of_active hquorums hmem
  obtain ⟨old, hold, hperm, honly⟩ := hactive.old_of_notMem hnodup hmem hout
  by_contra heven
  obtain ⟨half, hhalf⟩ := Nat.not_odd_iff_even.mp heven
  have hcount := majority_iff.mp hmajority
  obtain ⟨full, hsub, hcard⟩ : ∃ full ⊆ quorum.toFinset.filter (· ∈ rooted), full.card = half := by
    apply Finset.exists_subset_card_eq
    rw [← countP_mem_of_subset (hnodup quorum hmem) (Finset.filter_subset _ _)]
    have hsame : quorum.countP (· ∈ quorum.toFinset.filter (· ∈ rooted)) = quorum.countP (· ∈ rooted) := by
      apply List.countP_congr
      intro peer hpeer
      simp [hpeer]
    omega
  have hroots : full ⊆ rooted := fun peer hpeer => (Finset.mem_filter.mp (hsub hpeer)).2
  have hmembers : full ⊆ quorum.toFinset := fun peer hpeer => (Finset.mem_filter.mp (hsub hpeer)).1
  have hleading : Leading (swarmOf n log rooted full) n log quorums rooted :=
    swarmOf_leading hn hroots (Or.inr hsize)
  -- exactly the chosen half of the set reaches the second entry
  have hreached : quorum.countP (fun peer =>
      decide (2 ≤ ((swarmOf n log rooted full).nodes n).matchIndexOf peer)) = half := by
    rw [← hcard, ← countP_mem_of_subset (hnodup quorum hmem) hmembers]
    apply List.countP_congr
    intro peer hpeer
    have hne : peer ≠ n := ne_of_mem_of_not_mem hpeer hout
    rw [swarmOf_matchIndex hne, decide_eq_true_eq, decide_eq_true_eq]
    by_cases hfull : peer ∈ full
    · simp [hfull]
    · simp only [hfull, if_false, iff_false]
      split
      · omega
      · omega
  have hold' : old.countP (fun peer =>
      decide (2 ≤ ((swarmOf n log rooted full).nodes n).matchIndexOf peer)) = half := by
    rw [hperm.countP_eq, List.countP_cons_of_neg, hreached]
    rw [swarmOf_own]
    simp
  have hquorums' := hquorums
  rw [← hleading.log_eq] at hquorums'
  obtain ⟨node, m, hpoint, hm⟩ := le_commitPoint hquorums' (pairs_of_held hn hall) (fun _ => 0) (v := 2) (by omega)
    (by
      intro other hother
      rcases honly other hother with rfl | rfl
      · have hlen := hperm.length_eq
        rw [List.length_cons] at hlen
        omega
      · omega)
  have hheld := (hall _ hleading).held (fun _ => 0) node m hpoint quorum hmem
  have hfew : Majority quorum (· ∈ full) := hheld.mono fun peer hpeer hshares =>
    ((swarmOf_shares_two (ne_of_mem_of_not_mem hpeer hout)).mp (hshares.le hm)).1
  have hfew := majority_iff.mp hfew
  rw [countP_mem_of_subset (hnodup quorum hmem) hmembers, hcard] at hfew
  omega

theorem sound_of_held (hactive : Active n quorums) : Sound n log quorums rooted := by
  refine ⟨pairs_of_held hn hall, ?_⟩
  by_cases hfew : ∃ quorum ∈ quorums, quorum.countP (· ∈ rooted) < quorum.length / 2
  · exact Or.inl hfew
  · push Not at hfew
    have hmajority := majority_of_held hquorums hn hall hfew
    refine Or.inr ⟨hmajority, ?_⟩
    by_cases hsize : log.size < 2
    · exact Or.inl hsize
    · refine Or.inr fun quorum hmem => ?_
      by_cases hin : n ∈ quorum
      · exact Or.inl hin
      · exact Or.inr (odd_of_held hquorums hn hall hactive (Nat.not_lt.mp hsize) hmem hin (hmajority quorum hmem))

end Needed

-- The commit point of a leader is held by majorities, whatever its match indexes and the logs of its peers
-- are as long as the indexes are true, exactly when its active sets are sound.
theorem heldByMajorities_iff (log : RaftLog) (n : Uuid) (quorums : List (List Uuid)) (rooted : Finset Uuid)
    (hquorums : getActiveQuorum log = .ok quorums) (hactive : Active n quorums) (hn : n ∈ rooted) :
    (∀ s, Leading s n log quorums rooted → HeldByMajorities s n quorums) ↔ Sound n log quorums rooted :=
  ⟨fun hall => sound_of_held hquorums hn hall hactive,
    fun hsound _ hleading => hleading.heldByMajorities hquorums hactive hsound⟩

def threeLog : RaftLog := startLog (createDatFile threePeers)

theorem heldByMajorities_iff_three :
    getActiveQuorum threeLog = .ok [["A", "B", "C"]] ∧
      ((∀ s, Leading s "A" threeLog [["A", "B", "C"]] {"A", "B", "C"} → HeldByMajorities s "A" [["A", "B", "C"]]) ↔
        Sound "A" threeLog [["A", "B", "C"]] {"A", "B", "C"}) :=
  ⟨rfl, heldByMajorities_iff threeLog "A" [["A", "B", "C"]] {"A", "B", "C"} rfl (.single _ (by simp)) (by simp)⟩

-- The leader has removed itself from the three.
def leavingLog : RaftLog :=
  threeLog.leaderAppendEntry ⟨.jointQuorum, 1, 1, .jointQuorum
    (some [⟨"127.0.0.1", 50000, 8080, "alice", some "A", none⟩, ⟨"127.0.0.1", 50001, 8081, "bob", some "B", none⟩,
      ⟨"127.0.0.1", 50002, 8082, "carol", some "C", none⟩])
    (some [⟨"127.0.0.1", 50001, 8081, "bob", some "B", none⟩, ⟨"127.0.0.1", 50002, 8082, "carol", some "C", none⟩])⟩

-- Of the two that stay, only one has got the entry. The commit point is behind it all the same.
theorem heldByMajorities_broken : ¬∀ (log : RaftLog) (n : Uuid) (quorums : List (List Uuid)) (rooted : Finset Uuid),
    getActiveQuorum log = .ok quorums → Active n quorums → n ∈ rooted →
      ∀ s, Leading s n log quorums rooted → HeldByMajorities s n quorums := by
  intro hall
  have hactive : Active "A" [["A", "B", "C"], ["B", "C"]] :=
    .removed ["A", "B", "C"] ["B", "C"] "A" (by simp) (by simp) (by simp) (by decide)
  have hheld := (hall leavingLog "A" [["A", "B", "C"], ["B", "C"]] {"A", "B", "C"} rfl hactive (by simp)
    (swarmOf "A" leavingLog {"A", "B", "C"} {"B"}) (swarmOf_leading (by simp) (by simp) (Or.inr (by decide)))).held
  have hmajority := majority_iff.mp (hheld (fun _ => 0) _ 2 rfl ["B", "C"] (by simp))
  revert hmajority
  decide +kernel

end SwarmDB.Raft
