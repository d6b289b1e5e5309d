import SwarmDB.Raft.Node.Move

namespace SwarmDB.Raft

-- The position that entry_accepted reads, if it gets as far as that.
def RaftLog.lookedUp (log : RaftLog) (previousIndex : Nat) : Option Nat :=
  if previousIndex < log.size - 1 then none else some previousIndex

theorem RaftLog.entryAccepted_eq (log : RaftLog) (previousIndex previousTerm stray : Nat) :
    log.entryAccepted previousIndex previousTerm stray = match log.lookedUp previousIndex with
      | none => false
      | some i => previousTerm == (log.entries[i]?.map LogEntry.term).getD stray := by
  unfold entryAccepted lookedUp
  split
  · rfl
  · rfl

def Outcome.Accepted (outcome : Outcome) : Prop :=
  ∃ sender term matchIndex,
    Effect.reply (.raft ⟨sender, term, .appendEntriesReply true matchIndex⟩) ∈ outcome.effects

namespace Node

-- What an AppendEntries has to do to a log: it is taken exactly where the log holds the entry before
-- it, that entry and those before it stay, and those behind it stay if the one it names was there.
structure ReceiverRule (log : RaftLog) (prevIndex prevTerm : Nat) (entries : JsonMessage) (entryTerm : Nat)
    (outcome : Outcome) : Prop where
  accepts : outcome.Accepted ↔ ∃ prev, log.entryAt prevIndex = some prev ∧ prev.term = prevTerm
  inside : ∀ i, log.lookedUp prevIndex = some i → i < log.size
  inserts : outcome.Accepted → entries.isEmpty = false → outcome.node.log.entries =
    log.entries.take (prevIndex + 1) ++
      ⟨deduceTypeFromMessage entries, prevIndex + 1, entryTerm, entries⟩ ::
        if (log.entryAt (prevIndex + 1)).map LogEntry.term = some entryTerm then log.entries.drop (prevIndex + 2)
        else []
  keeps : ¬outcome.Accepted → outcome.node.log = log

variable {env : Env} {node : Node} {msg : Message} {prevIndex prevTerm : Nat} {entries : JsonMessage}
  {entryTerm commitIndex : Nat} {stray : Nat → Nat}

-- An entry that follows one of the log goes in without an exception.
theorem insertAccepted_inside (log : RaftLog) (prevTerm stray : Nat) (entries : JsonMessage) (entryTerm : Nat)
    (hinside : prevIndex < log.size) :
    ∃ next, insertAccepted log (log.entryAccepted prevIndex prevTerm stray) (prevIndex + 1) entries entryTerm =
      .ok next := by
  unfold insertAccepted
  split
  · rename_i hinsert
    rcases log.entryAccepted_cases _ _ _ hinsert.1 with ⟨hend, _⟩ | ⟨hbeyond, _⟩
    · rw [hend, RaftLog.followerInsertEntry_end]
      exact ⟨_, rfl⟩
    · omega
  · exact ⟨_, rfl⟩

variable (env msg prevTerm entries entryTerm commitIndex stray) in
theorem handleWsAppendEntries_inside (hstate : node.currentState = .follower) (hinside : prevIndex < node.log.size) :
    ∃ log count, node.Appending msg prevIndex prevTerm entries entryTerm commitIndex (stray prevIndex)
      (node.handleWsAppendEntries env msg prevIndex prevTerm entries entryTerm commitIndex stray) log count := by
  obtain ⟨log, hlog⟩ := insertAccepted_inside node.log prevTerm (stray prevIndex) entries entryTerm hinside
  obtain ⟨count, tracked, hnode, heffects, hcommits⟩ := answerAndCommit_spec env
    { node with inASwarm := node.inASwarm || decide (msg.sender ≠ node.uuid), leader := msg.sender, log := log }
    (node.log.entryAccepted prevIndex prevTerm (stray prevIndex)) (prevIndex + 1) commitIndex hstate
  unfold handleWsAppendEntries
  dsimp only
  rw [if_neg (by simp [hstate]), hlog]
  exact ⟨log, count, hstate, ⟨_, tracked, hnode⟩, insertAccepted_ok hlog, heffects, hcommits⟩

theorem Appending.accepted_iff {outcome : Outcome} {log : RaftLog} {count stray : Nat}
    (h : node.Appending msg prevIndex prevTerm entries entryTerm commitIndex stray outcome log count) :
    outcome.Accepted ↔ node.log.entryAccepted prevIndex prevTerm stray = true := by
  unfold Outcome.Accepted
  rw [h.effects_eq]
  constructor
  · rintro ⟨sender, term, matchIndex, hmem⟩
    rcases List.mem_cons.mp hmem with heq | hcommit
    · simp only [createAppendEntriesResponse, Effect.reply.injEq, Wire.raft.injEq, Message.mk.injEq,
        Command.appendEntriesReply.injEq] at heq
      exact heq.2.2.1.symm
    · simp [commitEffects] at hcommit
  · intro haccepted
    rw [haccepted]
    exact ⟨_, _, _, List.mem_cons_self⟩

theorem not_accepted_behind (log : RaftLog) (prevTerm stray : Nat) (hbehind : prevIndex + 1 < log.size) :
    log.entryAccepted prevIndex prevTerm stray = false := by
  have hnone : log.lookedUp prevIndex = none := by
    rw [RaftLog.lookedUp, if_pos (by omega)]
  rw [RaftLog.entryAccepted_eq, hnone]

theorem accepted_end_iff (log : RaftLog) (prevTerm stray : Nat) (hend : prevIndex + 1 = log.size) :
    log.entryAccepted prevIndex prevTerm stray = true ↔
      ∃ prev, log.entryAt prevIndex = some prev ∧ prev.term = prevTerm := by
  have hlast : prevIndex < log.entries.length := by
    unfold RaftLog.size at hend
    omega
  have hread : log.lookedUp prevIndex = some prevIndex := by
    rw [RaftLog.lookedUp, if_neg (by omega)]
  rw [RaftLog.entryAccepted_eq, hread, RaftLog.entryAt]
  simp only [List.getElem?_eq_getElem hlast, Option.map_some, Option.getD_some, beq_iff_eq, Option.some.injEq]
  constructor
  · intro hterm
    exact ⟨_, rfl, hterm.symm⟩
  · rintro ⟨prev, rfl, hterm⟩
    exact hterm.symm

-- Where the entry before the new one is the last of the log, everything is as it should be.
theorem Appending.receiverRule_end {outcome : Outcome} {log : RaftLog} {count stray : Nat}
    (h : node.Appending msg prevIndex prevTerm entries entryTerm commitIndex stray outcome log count)
    (hend : prevIndex + 1 = node.log.size) :
    ReceiverRule node.log prevIndex prevTerm entries entryTerm outcome := by
  obtain ⟨swarm, tracked, hnode⟩ := h.node_eq
  have hlog : outcome.node.log = log := by rw [hnode]
  constructor
  case accepts => rw [h.accepted_iff, accepted_end_iff node.log prevTerm stray hend]
  case inside =>
    intro i hi
    unfold RaftLog.lookedUp at hi
    split at hi
    · cases hi
    · cases hi
      omega
  case inserts =>
    intro haccepted hentries
    rcases h.log_eq with ⟨_, hnothing⟩ | ⟨_, _, _, hinserted⟩
    · exact absurd ⟨h.accepted_iff.mp haccepted, hentries⟩ hnothing
    · have hnone : node.log.entryAt (prevIndex + 1) = none := by
        rw [hend]
        exact List.getElem?_eq_none (le_refl _)
      have htake : node.log.entries.take (prevIndex + 1) = node.log.entries := by
        rw [hend]
        exact List.take_length
      rw [hlog, hinserted, hnone, htake]
      rfl
  case keeps =>
    intro hrejected
    rw [hlog]
    rcases h.log_eq with ⟨hsame, _⟩ | ⟨haccepted, _⟩
    · exact hsame
    · exact absurd (h.accepted_iff.mpr haccepted) hrejected

-- An entry that belongs further up the log is always turned away.
theorem Appending.receiverRule_behind_iff {outcome : Outcome} {log : RaftLog} {count stray : Nat}
    (h : node.Appending msg prevIndex prevTerm entries entryTerm commitIndex stray outcome log count)
    (hbehind : prevIndex + 1 < node.log.size) :
    ReceiverRule node.log prevIndex prevTerm entries entryTerm outcome ↔
      ∀ prev, node.log.entryAt prevIndex = some prev → prev.term ≠ prevTerm := by
  obtain ⟨swarm, tracked, hnode⟩ := h.node_eq
  have hlog : outcome.node.log = log := by rw [hnode]
  have hrejected : ¬outcome.Accepted := by
    rw [h.accepted_iff, not_accepted_behind node.log prevTerm stray hbehind]
    exact Bool.false_ne_true
  constructor
  · intro hrule prev hprev hterm
    exact hrejected (hrule.accepts.mpr ⟨prev, hprev, hterm⟩)
  · intro hdiffers
    constructor
    case accepts =>
      apply iff_of_false hrejected
      rintro ⟨prev, hprev, hterm⟩
      exact hdiffers prev hprev hterm
    case inside =>
      intro i hi
      rw [RaftLog.lookedUp, if_pos (by omega)] at hi
      cases hi
    case inserts => exact fun haccepted => absurd haccepted hrejected
    case keeps =>
      intro _
      rw [hlog]
      rcases h.log_eq with ⟨hsame, _⟩ | ⟨haccepted, _⟩
      · exact hsame
      · exact absurd (h.accepted_iff.mpr haccepted) hrejected

-- A follower deals with an AppendEntries of its term as it should exactly when the entry before the new
-- one is the last of its log, or stands further up and has another term.
theorem receiverRule_iff (env : Env) (node : Node) (sender : Uuid) (prevIndex prevTerm : Nat)
    (entries : JsonMessage) (entryTerm commitIndex : Nat) (stray : Nat → Nat)
    (hstate : node.currentState = .follower) :
    ReceiverRule node.log prevIndex prevTerm entries entryTerm
        (node.handleWsAppendEntries env
          ⟨sender, node.currentTerm, .appendEntries prevIndex prevTerm entries entryTerm commitIndex⟩
          prevIndex prevTerm entries entryTerm commitIndex stray) ↔
      prevIndex + 1 = node.log.size ∨
        (prevIndex + 1 < node.log.size ∧ ∀ prev, node.log.entryAt prevIndex = some prev → prev.term ≠ prevTerm) := by
  rcases Nat.lt_trichotomy (prevIndex + 1) node.log.size with hbehind | hend | hbeyond
  · obtain ⟨log, count, h⟩ := handleWsAppendEntries_inside env _ prevTerm entries entryTerm commitIndex stray
      hstate (Nat.lt_of_succ_lt hbehind)
    rw [h.receiverRule_behind_iff hbehind]
    simp [hbehind, hbehind.ne]
  · have hinside : prevIndex < node.log.size := by omega
    obtain ⟨log, count, h⟩ := handleWsAppendEntries_inside env _ prevTerm entries entryTerm commitIndex stray
      hstate hinside
    exact iff_of_true (h.receiverRule_end hend) (Or.inl hend)
  · refine iff_of_false ?_ (by omega)
    intro hrule
    have hread : node.log.lookedUp prevIndex = some prevIndex := by
      rw [RaftLog.lookedUp, if_neg (by omega)]
    have hin := hrule.inside prevIndex hread
    omega

-- A follower with an entry of a leader of term 1.
def divergedLog : RaftLog :=
  ⟨[createDatFile threePeers, ⟨.database, 1, 1, .database "x"⟩], by simp⟩

def divergedFollower : Node := { freshNode "B" with currentTerm := 2, log := divergedLog }

-- What the leader of term 2 sends it, for the place behind an entry of the follower's log.
def replaced (prevIndex prevTerm : Nat) : Outcome :=
  divergedFollower.handleWsAppendEntries openEnv ⟨"A", 2, .appendEntries prevIndex prevTerm (.database "y") 2 1⟩
    prevIndex prevTerm (.database "y") 2 1 fun _ => 0

theorem receiverRule_iff_diverged :
    divergedFollower.currentState = .follower ∧
      (ReceiverRule divergedLog 1 1 (.database "y") 2 (replaced 1 1) ↔
        1 + 1 = divergedLog.size ∨
          (1 + 1 < divergedLog.size ∧ ∀ prev, divergedLog.entryAt 1 = some prev → prev.term ≠ 1)) :=
  ⟨rfl, receiverRule_iff openEnv divergedFollower "A" 1 1 (.database "y") 2 1 (fun _ => 0) rfl⟩

-- Its entry goes behind the first one, which the two logs share. It is turned away.
theorem receiverRule_broken : ¬∀ (env : Env) (node : Node) (sender : Uuid) (prevIndex prevTerm : Nat)
    (entries : JsonMessage) (entryTerm commitIndex : Nat) (stray : Nat → Nat), node.currentState = .follower →
      ReceiverRule node.log prevIndex prevTerm entries entryTerm
        (node.handleWsAppendEntries env
          ⟨sender, node.currentTerm, .appendEntries prevIndex prevTerm entries entryTerm commitIndex⟩
          prevIndex prevTerm entries entryTerm commitIndex stray) := by
  intro hall
  have hrule : ReceiverRule divergedLog 0 0 (.database "y") 2 (replaced 0 0) :=
    hall openEnv divergedFollower "A" 0 0 (.database "y") 2 1 (fun _ => 0) rfl
  obtain ⟨sender, term, matchIndex, hmem⟩ := hrule.accepts.mpr ⟨createDatFile threePeers, rfl, rfl⟩
  have heffects : (replaced 0 0).effects = [.reply (.raft ⟨"B", 2, .appendEntriesReply false 2⟩)] := rfl
  rw [heffects] at hmem
  simp at hmem

end Node

end SwarmDB.Raft
