import SwarmDB.Raft.Log

namespace SwarmDB.Raft

namespace RaftLog

theorem size_pos (log : RaftLog) : 0 < log.size :=
  List.length_pos_iff.mpr log.entries_ne

-- An accepted request continues the log exactly at its end, or the lookup was out of range.
theorem entryAccepted_cases (log : RaftLog) (prevIndex prevTerm stray : Nat)
    (h : log.entryAccepted prevIndex prevTerm stray = true) :
    (prevIndex + 1 = log.size ∧ ∃ prev, log.entries[prevIndex]? = some prev ∧ prev.term = prevTerm) ∨
      (log.size ≤ prevIndex ∧ prevTerm = stray) := by
  have hpos := log.size_pos
  unfold entryAccepted at h
  split at h
  · cases h
  · rename_i hge
    cases hprev : log.entries[prevIndex]? with
    | some prev =>
        have hlt : prevIndex < log.size := (List.getElem?_eq_some_iff.mp hprev).1
        simp only [hprev, Option.map_some, Option.getD_some, beq_iff_eq] at h
        exact Or.inl ⟨by omega, prev, rfl, h.symm⟩
    | none =>
        have hlt : log.size ≤ prevIndex := List.getElem?_eq_none_iff.mp hprev
        exact Or.inr ⟨hlt, by simpa [hprev] using h⟩

theorem followerInsertEntry_end (log : RaftLog) (entry : LogEntry) :
    log.followerInsertEntry log.size entry = .ok ⟨log.entries ++ [entry], by simp⟩ := by
  have hnone : log.entries[log.size]? = none := by simp [size]
  simp [followerInsertEntry, hnone]

theorem followerInsertEntry_beyond (log : RaftLog) (index : Nat) (entry : LogEntry)
    (h : log.size < index) :
    log.followerInsertEntry index entry = .error .tryingToInsertInvalidEntry := by
  have hnone : log.entries[index]? = none := by
    simp only [size] at h
    simp only [List.getElem?_eq_none_iff]
    omega
  simp [followerInsertEntry, hnone, show ¬index = log.size by omega]

end RaftLog

section FixedQuorum

-- The log of a node that has seen nothing yet.
def startLog (first : LogEntry) : RaftLog := ⟨[first], by simp⟩

-- The members of the single quorum that the first entry lists.
def members (first : LogEntry) : List Uuid :=
  match first.msg.peers with
  | .ok peers => uuids peers
  | .error _ => []

-- Neither stored as a quorum nor taken for one by whoever receives it.
def LogEntry.Plain (entry : LogEntry) : Prop :=
  entry.entryType.isQuorum = false ∧ (deduceTypeFromMessage entry.msg).isQuorum = false

-- No entry behind the first one is about the quorum.
def RaftLog.PlainAfter (first : LogEntry) (log : RaftLog) : Prop :=
  ∃ rest, log.entries = first :: rest ∧ ∀ entry ∈ rest, entry.Plain

variable {first : LogEntry} {log : RaftLog}

theorem RaftLog.PlainAfter.lastQuorumEntry (h : log.PlainAfter first)
    (hfirst : first.entryType = .singleQuorum) : log.lastQuorumEntry = .ok first := by
  obtain ⟨rest, hlog, hplain⟩ := h
  have hrest : rest.reverse.find? (fun entry => entry.entryType.isQuorum) = none := by
    apply List.find?_eq_none.mpr
    intro entry hentry
    simp [(hplain entry (List.mem_reverse.mp hentry)).1]
  have hquorum : first.entryType.isQuorum = true := by
    rw [hfirst]
    rfl
  simp [RaftLog.lastQuorumEntry, hlog, hrest, hquorum]

theorem RaftLog.PlainAfter.mem_tail (h : log.PlainAfter first) {i : Nat} {entry : LogEntry}
    (hi : log.entries[i + 1]? = some entry) : entry.Plain := by
  obtain ⟨rest, hlog, hplain⟩ := h
  rw [hlog, List.getElem?_cons_succ] at hi
  exact hplain entry (List.mem_of_getElem? hi)

theorem RaftLog.PlainAfter.append (h : log.PlainAfter first) {next : RaftLog} {added : List LogEntry}
    (hlog : next.entries = log.entries ++ added) (hadded : ∀ entry ∈ added, entry.Plain) :
    next.PlainAfter first := by
  obtain ⟨rest, hrest, hplain⟩ := h
  refine ⟨rest ++ added, by rw [hlog, hrest, List.cons_append], ?_⟩
  intro entry hentry
  rcases List.mem_append.mp hentry with he | he
  · exact hplain entry he
  · exact hadded entry he

theorem startLog_plain (first : LogEntry) : (startLog first).PlainAfter first := ⟨[], rfl, by simp⟩

theorem getActiveQuorum_plain (h : log.PlainAfter first) (hfirst : first.entryType = .singleQuorum)
    {quorums : List (List Uuid)} (hq : getActiveQuorum log = .ok quorums) :
    quorums = [members first] := by
  unfold getActiveQuorum at hq
  simp only [h.lastQuorumEntry hfirst, hfirst] at hq
  unfold members
  cases hp : first.msg.peers with
  | error e => simp [hp, Except.map] at hq
  | ok peers => simpa [hp, Except.map] using hq.symm

theorem getAllPeers_plain (h : log.PlainAfter first) (hfirst : first.entryType = .singleQuorum) :
    getAllPeers log = getAllPeers (startLog first) := by
  unfold getAllPeers
  rw [h.lastQuorumEntry hfirst, (startLog_plain first).lastQuorumEntry hfirst]

theorem inQuorum_plain (h : log.PlainAfter first) (hfirst : first.entryType = .singleQuorum)
    {uuid : Uuid} (hin : inQuorum log uuid = .ok true) : uuid ∈ members first := by
  unfold inQuorum at hin
  cases hq : getActiveQuorum log with
  | error e => simp [hq, Except.map] at hin
  | ok quorums =>
      rw [getActiveQuorum_plain h hfirst hq] at hq
      simpa [hq, Except.map] using hin

theorem isMajority_iff {quorums : List (List Uuid)} (hq : getActiveQuorum log = .ok quorums) (votes : Finset Uuid) :
    isMajority log votes = .ok true ↔ ∀ quorum ∈ quorums, Quorum.Majority quorum (· ∈ votes) := by
  have hcount : ∀ quorum : List Uuid,
      (!decide ((quorum.filter (fun uuid => uuid ∈ votes)).length * 2 ≤ quorum.length)) = true ↔
        Quorum.Majority quorum (· ∈ votes) := by
    intro quorum
    rw [Quorum.majority_iff, List.countP_eq_length_filter, Bool.not_eq_true', decide_eq_false_iff_not]
    omega
  simp only [isMajority, hq, Except.map, Except.ok.injEq, List.all_eq_true, hcount]

theorem isMajority_plain (h : log.PlainAfter first) (hfirst : first.entryType = .singleQuorum)
    {votes : Finset Uuid} (hmajority : isMajority log votes = .ok true) :
    Quorum.Majority (members first) (· ∈ votes) := by
  cases hq : getActiveQuorum log with
  | error e => simp [isMajority, hq, Except.map] at hmajority
  | ok quorums =>
      have hall := (isMajority_iff hq votes).mp hmajority
      rw [getActiveQuorum_plain h hfirst hq] at hall
      exact hall _ List.mem_cons_self

end FixedQuorum

end SwarmDB.Raft
