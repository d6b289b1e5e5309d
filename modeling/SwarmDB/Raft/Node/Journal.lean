import SwarmDB.Raft.Node.Move

namespace SwarmDB.Raft

def Effect.isCommit : Effect → Bool
  | .commit _ _ => true
  | _ => false

namespace Node

variable (env : Env) (node : Node)

section Growth

-- Where the entries at the end of the log come from: the node is a leader, or it accepted
-- an AppendEntries that continues its log.
inductive LogMove (input : Input) (outcome : Outcome) : Prop
  | lead (added : List LogEntry) (hlead : node.Leading outcome.node.log added)
      (hcause : added ≠ [] → (∃ msg pick, input = .management msg pick ∧ msg.isMembership = true) ∨
        (∃ msg entryType, input = .appendLog msg entryType ∧
          ∀ entry ∈ added, entry.entryType = entryType ∧ entry.msg = msg) ∨
        ∃ entry ∈ node.log.entries, entry.entryType = .jointQuorum)
  | follow (msg : Message) (stray : Nat → Nat) (prevIndex prevTerm : Nat) (entries : JsonMessage)
      (entryTerm commitIndex : Nat) (hears : node.Hears input msg stray)
      (hcmd : msg.cmd = .appendEntries prevIndex prevTerm entries entryTerm commitIndex)
      (haccepted : node.log.entryAccepted prevIndex prevTerm (stray prevIndex) = true)
      (hentries : entries.isEmpty = false) (hend : prevIndex + 1 = node.log.size)
      (hlog : outcome.node.log.entries =
        node.log.entries ++ [⟨deduceTypeFromMessage entries, prevIndex + 1, entryTerm, entries⟩])

variable {env node} {input : Input} {outcome : Outcome}

theorem LogMove.same (h : outcome.node.log = node.log) : node.LogMove input outcome := by
  refine .lead [] ?_ (by simp)
  rw [h]
  exact .none node

theorem Move.log (h : node.Move env input outcome) : node.LogMove input outcome := by
  cases h with
  | idle hidle _ =>
      obtain ⟨leader, swarm, hnode⟩ := hidle.node_eq
      exact .same (by rw [hnode])
  | manage msg pick hinput hmember hmanaged =>
      obtain ⟨log, added, _, hlead, hnode⟩ := hmanaged.node_eq
      exact .lead added (by rw [hnode]; exact hlead) fun _ => Or.inl ⟨msg, pick, hinput, hmember⟩
  | append msg entryType log added hinput hnode hlead hadded _ =>
      exact .lead added (by rw [hnode]; exact hlead)
        fun _ => Or.inr (Or.inl ⟨msg, entryType, hinput, hadded⟩)
  | beat _ _ hbeat => exact .same (by rw [hbeat.node_eq])
  | win _ _ _ inner _ _ _ _ houtcome hbeat =>
      exact .same (by rw [houtcome, closing_node, hbeat.node_eq]; rfl)
  | accept msg stray prevIndex prevTerm entries entryTerm commitIndex log count hears _ hcmd happending =>
      obtain ⟨swarm, tracked, hnode⟩ := happending.node_eq
      rcases happending.log_eq with ⟨rfl, _⟩ | ⟨haccepted, hentries, hend, hlog⟩
      · exact .same (by rw [hnode])
      · exact .follow msg stray prevIndex prevTerm entries entryTerm commitIndex hears hcmd haccepted
          hentries hend (by rw [hnode]; exact hlog)
  | record _ _ _ _ inner tracked count added _ _ _ houtcome hrecording =>
      obtain ⟨turns, hcommitting⟩ := hrecording.committing
      refine .lead added ?_ fun hne => Or.inr (Or.inr (hcommitting.joint hne))
      rw [houtcome, closing_node]
      exact ⟨hcommitting.log_eq, hcommitting.leads, hcommitting.fresh⟩
  | campaign _ hnode | refuse _ _ _ _ _ _ _ _ hnode | vote _ _ _ _ _ _ _ _ _ hnode
  | voteAhead _ _ _ _ _ _ _ _ hnode | stepDown _ _ _ _ _ hnode | rollBack _ _ _ _ hnode
  | retire _ _ _ _ _ hnode | countNo _ _ _ _ hnode | countYes _ _ _ _ _ hnode =>
      exact .same (by rw [hnode])

theorem LogMove.added (h : node.LogMove input outcome) :
    ∃ added, outcome.node.log.entries = node.log.entries ++ added ∧
      ∀ j entry, added[j]? = some entry → entry.logIndex = node.log.size + j := by
  cases h with
  | lead added hlead _ => exact ⟨added, hlead.log_eq, fun j entry hj => (hlead.fresh j entry hj).2⟩
  | follow _ _ prevIndex _ entries entryTerm _ _ _ _ _ hend hlog =>
      refine ⟨_, hlog, fun j entry hj => ?_⟩
      cases j with
      | zero =>
          obtain rfl : _ = entry := by simpa using hj
          exact hend
      | succ j => simp at hj

variable (env node input)

theorem step_log_grows : node.log.entries <+: (node.step env input).node.log.entries := by
  obtain ⟨added, hlog, _⟩ := (step_move env node input).log.added
  exact ⟨added, hlog.symm⟩

end Growth

section Commits

-- The entries that a step hands to the commit handler.
structure Commits (outcome : Outcome) (count : Nat) : Prop where
  index_eq : outcome.node.commitIndex = node.commitIndex + count
  inside : 0 < count → node.commitIndex + count ≤ outcome.node.log.size
  effects_eq : outcome.effects.filter Effect.isCommit = commitEffects node.commitIndex
    ((outcome.node.log.entries.drop node.commitIndex).take count)

theorem filter_commitEffects (first : Nat) (entries : List LogEntry) :
    (commitEffects first entries).filter Effect.isCommit = commitEffects first entries := by
  apply List.filter_eq_self.mpr
  intro effect heffect
  obtain ⟨entry, _, rfl⟩ := List.mem_map.mp heffect
  rfl

theorem filter_closing (outcome : Outcome) :
    (closing outcome).effects.filter Effect.isCommit = outcome.effects.filter Effect.isCommit := by
  unfold closing
  split
  · rfl
  · simp [Effect.isCommit]

theorem Gossip.isCommit {node : Node} {input : Input} {effect : Effect} (h : node.Gossip input effect) :
    effect.isCommit = false := by
  cases h <;> rfl

variable {env node} {input : Input} {outcome : Outcome}

theorem Commits.none (hindex : outcome.node.commitIndex = node.commitIndex)
    (h : ∀ effect ∈ outcome.effects, effect.isCommit = false) : node.Commits outcome 0 := by
  refine ⟨hindex, by simp, ?_⟩
  have hnil : outcome.effects.filter Effect.isCommit = [] := by
    apply List.filter_eq_nil_iff.mpr
    intro effect heffect
    simp [h effect heffect]
  simp [hnil, commitEffects]

theorem Beating.commits {tracked : Uuid → Option Nat} (hbeat : node.Beating outcome tracked) :
    node.Commits outcome 0 := by
  refine .none (by rw [hbeat.node_eq]) fun effect heffect => ?_
  obtain ⟨peer, msg, rfl, _⟩ := hbeat.sends effect heffect
  rfl

theorem Move.commits (h : node.Move env input outcome) : ∃ count, node.Commits outcome count := by
  cases h with
  | idle hidle _ =>
      obtain ⟨leader, swarm, hnode⟩ := hidle.node_eq
      exact ⟨0, .none (by rw [hnode]) fun effect he => (hidle.gossip effect he).isCommit⟩
  | manage _ _ _ _ hmanaged =>
      obtain ⟨_, _, _, _, hnode⟩ := hmanaged.node_eq
      exact ⟨0, .none (by rw [hnode]) fun effect he => (hmanaged.gossip effect he).isCommit⟩
  | beat _ _ hbeat => exact ⟨0, hbeat.commits⟩
  | win _ _ _ inner _ _ _ _ houtcome hbeat =>
      have hinner := hbeat.commits
      subst houtcome
      refine ⟨0, ?_, by simp, ?_⟩
      · rw [closing_node]
        exact hinner.index_eq
      · rw [filter_closing, hinner.effects_eq]
        rfl
  | campaign _ hnode hsends =>
      refine ⟨0, .none (by rw [hnode]) fun effect he => ?_⟩
      rcases hsends effect he with hm | ⟨peer, _, rfl⟩
      · exact hm.isCommit
      · rfl
  | stepDown _ _ _ _ _ hnode heffects =>
      refine ⟨0, .none (by rw [hnode]) fun effect he => ?_⟩
      rw [heffects effect he]
      rfl
  | accept msg stray prevIndex prevTerm entries entryTerm commitIndex log count _ _ _ happending =>
      obtain ⟨swarm, tracked, hnode⟩ := happending.node_eq
      refine ⟨count, by rw [hnode], ?_, ?_⟩
      · intro hpos
        rw [hnode]
        exact (happending.commits hpos).2.2
      · rw [happending.effects_eq, hnode, List.filter_cons_of_neg (by simp [Effect.isCommit])]
        exact filter_commitEffects _ _
  | record _ _ _ _ inner tracked count added _ _ _ houtcome hrecording =>
      obtain ⟨turns, hcommitting⟩ := hrecording.committing
      subst houtcome
      refine ⟨count, ?_, ?_, ?_⟩
      · rw [closing_node, hcommitting.node_eq]
      · rw [closing_node]
        exact hcommitting.inside
      · rw [filter_closing, closing_node, hcommitting.effects_eq]
        exact filter_commitEffects _ _
  | retire _ _ _ _ _ hnode hquiet | countNo _ _ _ _ hnode hquiet | countYes _ _ _ _ _ hnode hquiet =>
      exact ⟨0, .none (by rw [hnode]) fun effect he => by rw [hquiet effect he]; rfl⟩
  | append _ _ _ _ _ hnode _ _ heffects | refuse _ _ _ _ _ _ _ _ hnode heffects
  | vote _ _ _ _ _ _ _ _ _ hnode heffects | voteAhead _ _ _ _ _ _ _ _ hnode heffects
  | rollBack _ _ _ _ hnode heffects =>
      exact ⟨0, .none (by rw [hnode]) (by simp [heffects, Effect.isCommit])⟩

-- The commit index only moves on in the two commit loops.
theorem step_commits (env : Env) (node : Node) (input : Input) :
    (node.step env input).node.commitIndex = node.commitIndex ∨
    (∃ msg stray prevIndex prevTerm entries entryTerm commitIndex log count, node.Hears input msg stray ∧
      msg.term = node.currentTerm ∧
      msg.cmd = .appendEntries prevIndex prevTerm entries entryTerm commitIndex ∧
      node.Appending msg prevIndex prevTerm entries entryTerm commitIndex (stray prevIndex)
        (node.step env input) log count) ∨
    ∃ msg stray success matchIndex inner tracked count added, node.Hears input msg stray ∧
      msg.term = node.currentTerm ∧ msg.cmd = .appendEntriesReply success matchIndex ∧
      node.step env input = closing inner ∧
      node.Recording msg success matchIndex stray inner tracked count added := by
  cases step_move env node input with
  | accept msg stray prevIndex prevTerm entries entryTerm commitIndex log count hears hterm hcmd happending =>
      exact Or.inr (Or.inl ⟨msg, stray, prevIndex, prevTerm, entries, entryTerm, commitIndex, log, count,
        hears, hterm, hcmd, happending⟩)
  | record msg stray success matchIndex inner tracked count added hears hterm hcmd houtcome hrecording =>
      exact Or.inr (Or.inr ⟨msg, stray, success, matchIndex, inner, tracked, count, added, hears, hterm, hcmd,
        houtcome, hrecording⟩)
  | idle hidle _ =>
      obtain ⟨leader, swarm, hnode⟩ := hidle.node_eq
      exact Or.inl (by rw [hnode])
  | manage _ _ _ _ hmanaged =>
      obtain ⟨_, _, _, _, hnode⟩ := hmanaged.node_eq
      exact Or.inl (by rw [hnode])
  | beat _ _ hbeat => exact Or.inl (by rw [hbeat.node_eq])
  | win _ _ _ inner _ _ _ _ houtcome hbeat =>
      exact Or.inl (by rw [houtcome, closing_node, hbeat.node_eq]; rfl)
  | append _ _ _ _ _ hnode | campaign _ hnode | refuse _ _ _ _ _ _ _ _ hnode
  | vote _ _ _ _ _ _ _ _ _ hnode | voteAhead _ _ _ _ _ _ _ _ hnode | stepDown _ _ _ _ _ hnode
  | rollBack _ _ _ _ hnode | retire _ _ _ _ _ hnode | countNo _ _ _ _ hnode
  | countYes _ _ _ _ _ hnode =>
      exact Or.inl (by rw [hnode])

end Commits

end Node

section CommitSequence

variable {env : Env} {past : List (Node × Input)} {node : Node}

open Machine (Visited origin)

-- All calls of the commit handler so far, the first one first.
def handled (env : Env) : List (Node × Input) → List Effect
  | [] => []
  | (node, input) :: past => handled env past ++ (node.step env input).effects.filter Effect.isCommit

structure CommitSequence (env : Env) (past : List (Node × Input)) (node : Node) : Prop where
  bounds : 1 ≤ node.commitIndex ∧ node.commitIndex ≤ node.log.size
  indexed : ∀ i entry, (origin past node).log.size ≤ i → node.log.entries[i]? = some entry →
    entry.logIndex = i
  handled_eq : handled env past =
    Node.commitEffects 1 ((node.log.entries.drop 1).take (node.commitIndex - 1))
  kept : ∀ earlier, Visited past node earlier → ∀ i < earlier.commitIndex,
    node.log.entries[i]? = earlier.log.entries[i]?

theorem commitEffects_append (first : Nat) (entries later : List LogEntry) :
    Node.commitEffects first entries ++ Node.commitEffects (first + entries.length) later =
      Node.commitEffects first (entries ++ later) := by
  simp [Node.commitEffects, List.zipIdx_append]

-- The entries before the old commit index and those the step commits are the ones before the new.
theorem take_committed (log added : List LogEntry) (commitIndex count : Nat) (hpos : 1 ≤ commitIndex)
    (hle : commitIndex ≤ log.length) :
    (((log ++ added).drop 1).take (commitIndex + count - 1)) =
      (log.drop 1).take (commitIndex - 1) ++ ((log ++ added).drop commitIndex).take count := by
  have hsplit : commitIndex + count - 1 = (commitIndex - 1) + count := by omega
  have hdrop : 1 + (commitIndex - 1) = commitIndex := by omega
  have hinside : commitIndex - 1 ≤ (log.drop 1).length := by
    rw [List.length_drop]
    omega
  rw [hsplit, List.take_add, List.drop_drop, hdrop, List.drop_append_of_le_length (by omega),
    List.take_append_of_le_length hinside]

theorem log_grows_of_run {earlier : Node} (run : (lifetime env).Run past node)
    (h : Visited past node earlier) : earlier.log.entries <+: node.log.entries := by
  induction run with
  | start =>
      rcases h with rfl | ⟨_, hmem⟩
      · exact List.prefix_rfl
      · simp at hmem
  | @step past node input _ _ ih =>
      rcases Machine.visited_step_cases h with rfl | h
      · exact List.prefix_rfl
      · exact (ih h).trans (Node.step_log_grows env node input)

theorem commitIndex_bounds (run : (lifetime env).Run past node) :
    1 ≤ node.commitIndex ∧ node.commitIndex ≤ node.log.size := by
  induction run with
  | start hinit =>
      obtain ⟨uuid, peers, enableAudit, enablePeerValidation, signedKey, log, rfl⟩ := hinit
      exact ⟨le_refl _, log.size_pos⟩
  | @step past node input _ _ ih =>
      obtain ⟨count, hcommits⟩ := (Node.step_move env node input).commits
      have hsize : node.log.size ≤ (node.step env input).node.log.size :=
        (Node.step_log_grows env node input).length_le
      change 1 ≤ (node.step env input).node.commitIndex ∧
        (node.step env input).node.commitIndex ≤ (node.step env input).node.log.size
      rw [hcommits.index_eq]
      refine ⟨by omega, ?_⟩
      rcases Nat.eq_zero_or_pos count with rfl | hpos
      · omega
      · exact hcommits.inside hpos

theorem logIndex_of_run (run : (lifetime env).Run past node) :
    ∀ i entry, (origin past node).log.size ≤ i → node.log.entries[i]? = some entry →
      entry.logIndex = i := by
  induction run with
  | start =>
      intro i entry hi he
      have hlt := (List.getElem?_eq_some_iff.mp he).1
      simp only [origin, List.getLast?_nil, Option.map_none, Option.getD_none, RaftLog.size] at hi
      omega
  | @step past node input _ _ ih =>
      obtain ⟨added, hlog, hindex⟩ := (Node.step_move env node input).log.added
      intro i entry hi he
      change (node.step env input).node.log.entries[i]? = some entry at he
      rw [Machine.origin_step] at hi
      rw [hlog] at he
      by_cases hold : i < node.log.entries.length
      · rw [List.getElem?_append_left hold] at he
        exact ih i entry hi he
      · rw [List.getElem?_append_right (by omega)] at he
        have hi' := hindex _ entry he
        simp only [RaftLog.size] at hi'
        omega

theorem handled_of_run (run : (lifetime env).Run past node) : handled env past =
    Node.commitEffects 1 ((node.log.entries.drop 1).take (node.commitIndex - 1)) := by
  induction run with
  | start hinit =>
      obtain ⟨uuid, peers, enableAudit, enablePeerValidation, signedKey, log, rfl⟩ := hinit
      simp [handled, Node.construct, Node.commitEffects]
  | @step past node input run _ ih =>
      obtain ⟨added, hlog, _⟩ := (Node.step_move env node input).log.added
      obtain ⟨count, hcommits⟩ := (Node.step_move env node input).commits
      obtain ⟨hlow, hhigh⟩ := commitIndex_bounds run
      simp only [RaftLog.size] at hhigh
      have hnext : 1 + ((node.log.entries.drop 1).take (node.commitIndex - 1)).length =
          node.commitIndex := by
        simp only [List.length_take, List.length_drop]
        omega
      have hfirst := commitEffects_append 1 ((node.log.entries.drop 1).take (node.commitIndex - 1))
        (((node.log.entries ++ added).drop node.commitIndex).take count)
      rw [hnext] at hfirst
      change handled env past ++ _ = Node.commitEffects 1
        (((node.step env input).node.log.entries.drop 1).take ((node.step env input).node.commitIndex - 1))
      rw [ih, hcommits.effects_eq, hcommits.index_eq, hlog, hfirst, take_committed _ _ _ _ hlow hhigh]

theorem commitSequence_of_run (run : (lifetime env).Run past node) : CommitSequence env past node := by
  refine ⟨commitIndex_bounds run, logIndex_of_run run, handled_of_run run, ?_⟩
  intro earlier hvisited i hi
  obtain ⟨before, hbefore⟩ := run.visited hvisited
  have hlt : i < earlier.log.entries.length := hi.trans_le (commitIndex_bounds hbefore).2
  obtain ⟨added, hadded⟩ := log_grows_of_run run hvisited
  rw [← hadded, List.getElem?_append_left hlt]

-- A leader that got its second entry to one of the two others.
def oneCommit : List Input :=
  [.electionTimeout false 0, .message (createRequestVoteResponse "B" 1 true) fun _ => 0,
    .appendLog (.database "x") .database, .message (createAppendEntriesResponse "B" 1 true 2) fun _ => 0]

theorem commitSequence_of_run_fresh :
    ((lifetime openEnv).replay [] (freshNode "A") oneCommit).2.commitIndex = 2 ∧
      CommitSequence openEnv ((lifetime openEnv).replay [] (freshNode "A") oneCommit).1
        ((lifetime openEnv).replay [] (freshNode "A") oneCommit).2 :=
  ⟨by decide, commitSequence_of_run (run_of_fresh "A" oneCommit)⟩

end CommitSequence

end SwarmDB.Raft
