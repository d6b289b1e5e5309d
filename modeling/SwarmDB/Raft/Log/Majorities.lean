import SwarmDB.Raft.Log.Lemmas

namespace SwarmDB.Raft

-- How far a change of the peers has come.
inductive Stage
  | before
  | between
  | after
  deriving DecidableEq, Repr

namespace Stage

variable (old new : Option (List PeerJson))

-- The quorum entry that is the last one of the log at this stage.
def quorum : Stage → LogEntryType × JsonMessage
  | before => (.singleQuorum, .singleQuorum old)
  | between => (.jointQuorum, .jointQuorum old new)
  | after => (.singleQuorum, .singleQuorum new)

def lists : Stage → List (Option (List PeerJson))
  | before => [old]
  | between => [old, new]
  | after => [new]

-- One node can be at the one stage while another is at the other.
def Near : Stage → Stage → Prop
  | before, after | after, before => False
  | before, before | before, between | between, before | between, between | between, after | after, between
  | after, after => True

end Stage

variable {old new peers : Option (List PeerJson)} {log other : RaftLog} {stage stage' : Stage}

-- The active quorum of this log is that of the stage.
def RaftLog.StandsAt (log : RaftLog) (quorum : LogEntryType × JsonMessage) : Prop :=
  ∃ entry, log.lastQuorumEntry = .ok entry ∧ entry.entryType = quorum.1 ∧ entry.msg = quorum.2

theorem RaftLog.StandsAt.activeQuorum (h : log.StandsAt (stage.quorum old new)) :
    getActiveQuorum log = .ok ((stage.lists old new).map uuids) := by
  obtain ⟨entry, hlast, htype, hmsg⟩ := h
  unfold getActiveQuorum
  rw [hlast]
  dsimp only
  rw [htype, hmsg]
  cases stage <;> rfl

-- Stages that meet have a list in common.
theorem Stage.Near.exists_shared (h : stage.Near stage') (old new : Option (List PeerJson)) :
    ∃ peers ∈ stage.lists old new, peers ∈ stage'.lists old new := by
  cases stage <;> cases stage' <;> simp_all [Stage.Near, Stage.lists]

-- The change of the peers takes the log through the stages.
theorem quorum_between (old : Option (List PeerJson)) (peer : PeerJson) :
    createJointQuorumByAddingPeer (Stage.before.quorum old (some (old.getD [] ++ [peer]))).2 peer =
      .ok (Stage.between.quorum old (some (old.getD [] ++ [peer]))).2 := rfl

theorem quorum_after (old new : Option (List PeerJson)) :
    createSingleQuorumFromJointQuorum (Stage.between.quorum old new).2 = .ok (Stage.after.quorum old new).2 := rfl

theorem isMajority_empty {quorums : List (List Uuid)} (hq : getActiveQuorum log = .ok quorums) (hempty : [] ∈ quorums)
    (votes : Finset Uuid) : isMajority log votes = .ok false := by
  cases hmajority : isMajority log votes with
  | error e => simp [isMajority, hq, Except.map] at hmajority
  | ok passed =>
      cases passed with
      | false => rfl
      | true =>
          have hnone := (isMajority_iff hq votes).mp hmajority [] hempty
          exact absurd hnone (by simp [Quorum.majority_iff])

-- Votes that pass at stages that meet share a member of every list the stages share.
theorem majorities_intersect (hnear : stage.Near stage') (hlog : log.StandsAt (stage.quorum old new))
    (hother : other.StandsAt (stage'.quorum old new)) :
    (∃ peers ∈ stage.lists old new, peers ∈ stage'.lists old new) ∧
      (∀ votes votes' : Finset Uuid, isMajority log votes = .ok true → isMajority other votes' = .ok true →
        ∀ peers ∈ stage.lists old new, peers ∈ stage'.lists old new →
          ∃ uuid ∈ uuids peers, uuid ∈ votes ∧ uuid ∈ votes') ∧
      ((∃ peers ∈ stage.lists old new, uuids peers = []) →
        ∀ votes : Finset Uuid, isMajority log votes = .ok false) := by
  refine ⟨hnear.exists_shared old new, ?_, ?_⟩
  · intro votes votes' hmajority hmajority' peers hpeers hpeers'
    have hvotes := (isMajority_iff hlog.activeQuorum votes).mp hmajority _ (List.mem_map_of_mem hpeers)
    have hvotes' := (isMajority_iff hother.activeQuorum votes').mp hmajority' _ (List.mem_map_of_mem hpeers')
    exact hvotes.exists_common hvotes'
  · rintro ⟨peers, hpeers, hempty⟩ votes
    refine isMajority_empty hlog.activeQuorum ?_ votes
    rw [← hempty]
    exact List.mem_map_of_mem hpeers

-- Two of three peers, and these with one more of four.
theorem majorities_intersect_of_three :
    let peer (uuid : Uuid) : PeerJson := ⟨"127.0.0.1", 8080, 80, uuid, some uuid, none⟩
    let old := [peer "a", peer "b", peer "c"]
    ∃ uuid ∈ uuids (some old), uuid ∈ ({"a", "b", "z"} : Finset Uuid) ∧ uuid ∈ ({"b", "c", "d"} : Finset Uuid) := by
  intro peer old
  let new := old ++ [peer "d"]
  let log (quorum : LogEntryType × JsonMessage) : RaftLog := ⟨[⟨quorum.1, 0, 0, quorum.2⟩], by simp⟩
  have hstands : ∀ stage : Stage, (log (stage.quorum (some old) (some new))).StandsAt
      (stage.quorum (some old) (some new)) := by
    intro stage
    cases stage <;> exact ⟨_, rfl, rfl, rfl⟩
  have hnear : Stage.Near .before .between := trivial
  exact (majorities_intersect hnear (hstands _) (hstands _)).2.1
    {"a", "b", "z"} {"b", "c", "d"} (by decide) (by decide) _ List.mem_cons_self List.mem_cons_self

end SwarmDB.Raft
