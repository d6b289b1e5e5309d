import SwarmDB.Raft.Node.Move

namespace SwarmDB.Raft

namespace Node

variable (env : Env) (node : Node)

section Terms

-- A quorum member's message carries a term that the node has already left behind.
def RollsBack : Input → Prop
  | .message msg _ => inQuorum node.log msg.sender = .ok true ∧ msg.term < node.currentTerm
  | _ => False

instance : (input : Input) → Decidable (node.RollsBack input)
  | .message msg _ =>
    inferInstanceAs (Decidable (inQuorum node.log msg.sender = .ok true ∧ msg.term < node.currentTerm))
  | .management .. | .electionTimeout .. | .heartbeatTimeout _ | .appendLog .. =>
    inferInstanceAs (Decidable False)

-- The 32-bit term counter is about to run over.
def Wraps (input : Input) : Prop := node.Campaigns env input ∧ 2 ^ 32 ≤ node.currentTerm + 1

instance (input : Input) : Decidable (node.Wraps env input) :=
  inferInstanceAs (Decidable (_ ∧ _))

theorem nextTerm_of_not_wraps {input : Input} (hwraps : ¬node.Wraps env input)
    (hcampaign : node.Campaigns env input) : node.nextTerm = node.currentTerm + 1 := by
  apply Nat.mod_eq_of_lt
  by_contra hge
  exact hwraps ⟨hcampaign, by omega⟩

theorem step_of_rollsBack (input : Input) (h : node.RollsBack input) :
    (node.step env input).node.currentTerm < node.currentTerm := by
  cases input with
  | message msg stray =>
      obtain ⟨hmember, hterm⟩ := h
      have hne : node.currentTerm ≠ msg.term := by omega
      have hnlt : ¬node.currentTerm < msg.term := by omega
      simpa [step, handleRaftMessage, hmember, hne, hnlt, handleLowerTerm, done, updateRaftState] using hterm
  | management | electionTimeout | heartbeatTimeout | appendLog => exact absurd h id

-- Away from the two defects of the term, it never falls, and a vote given in it stays given.
theorem step_keeps_term (input : Input) (hback : ¬node.RollsBack input) (hwraps : ¬node.Wraps env input) :
    node.currentTerm ≤ (node.step env input).node.currentTerm ∧
      ((node.step env input).node.currentTerm = node.currentTerm → node.votedFor.isSome = true →
        (node.step env input).node.votedFor.isSome = true) := by
  cases step_move env node input with
  | idle hidle _ =>
      obtain ⟨leader, swarm, hnode⟩ := hidle.node_eq
      rw [hnode]
      exact ⟨le_refl _, fun _ h => h⟩
  | manage _ _ _ _ hmanaged =>
      obtain ⟨_, _, _, _, hnode⟩ := hmanaged.node_eq
      rw [hnode]
      exact ⟨le_refl _, fun _ h => h⟩
  | beat tracked _ hbeat =>
      rw [hbeat.node_eq]
      exact ⟨le_refl _, fun _ h => h⟩
  | campaign hcampaign hnode _ =>
      rw [hnode]
      have hnext := nextTerm_of_not_wraps env node hwraps hcampaign
      refine ⟨?_, fun _ _ => rfl⟩
      dsimp only
      omega
  | vote _ _ _ _ _ _ _ _ _ hnode _ =>
      rw [hnode]
      exact ⟨le_refl _, fun _ _ => rfl⟩
  | voteAhead _ _ _ _ _ _ _ hterm hnode _ =>
      rw [hnode]
      exact ⟨hterm.le, fun _ _ => rfl⟩
  | stepDown _ _ _ _ hterm hnode _ =>
      rw [hnode]
      exact ⟨hterm.le, fun heq => absurd heq hterm.ne'⟩
  | rollBack msg stray hears hterm _ _ =>
      obtain rfl := hears.input_eq
      exact absurd ⟨hears.member, hterm⟩ hback
  | win msg stray tracked inner _ _ _ _ houtcome hbeat =>
      rw [houtcome, closing_node, hbeat.node_eq]
      exact ⟨le_refl _, fun _ h => h⟩
  | accept _ _ _ _ _ _ _ _ _ _ _ _ happending =>
      obtain ⟨swarm, tracked, hnode⟩ := happending.node_eq
      rw [hnode]
      exact ⟨le_refl _, fun _ h => h⟩
  | record _ _ _ _ inner _ _ _ _ _ _ houtcome hrecording =>
      obtain ⟨turns, hcommitting⟩ := hrecording.committing
      rw [houtcome, closing_node, hcommitting.node_eq]
      exact ⟨le_refl _, fun _ h => h⟩
  | append _ _ _ _ _ hnode | refuse _ _ _ _ _ _ _ _ hnode | retire _ _ _ _ _ hnode
  | countNo _ _ _ _ hnode | countYes _ _ _ _ _ hnode =>
      rw [hnode]
      exact ⟨le_refl _, fun _ h => h⟩

-- The term goes back exactly on a late message of a quorum member.
theorem currentTerm_le_step_iff (input : Input) (hwraps : ¬node.Wraps env input) :
    node.currentTerm ≤ (node.step env input).node.currentTerm ↔ ¬node.RollsBack input := by
  constructor
  · intro hle hback
    have hlt := step_of_rollsBack env node input hback
    omega
  · intro hback
    exact (step_keeps_term env node input hback hwraps).1

end Terms

end Node

namespace Node

-- Two elections in a row, then an answer to the first one arrives.
def lateAnswer : Input := .message (createRequestVoteResponse "B" 1 true) fun _ => 0

def twiceCandidate : Node :=
  let once := ((freshNode "A").step openEnv (.electionTimeout false 0)).node
  (once.step openEnv (.electionTimeout false 0)).node

theorem currentTerm_falls : ¬∀ (env : Env) (node : Node) (input : Input), ¬node.Wraps env input →
    node.currentTerm ≤ (node.step env input).node.currentTerm := by
  intro h
  have hlate : ¬twiceCandidate.Wraps openEnv lateAnswer := by
    rintro ⟨⟨pick, hinput, _⟩, _⟩
    cases hinput
  exact absurd (h openEnv twiceCandidate lateAnswer hlate) (by decide)

theorem currentTerm_le_step_iff_third : twiceCandidate.currentTerm ≤
    (twiceCandidate.step openEnv (.electionTimeout false 0)).node.currentTerm := by
  refine (currentTerm_le_step_iff openEnv twiceCandidate (.electionTimeout false 0) ?_).mpr id
  rintro ⟨_, hge⟩
  exact absurd hge (by decide)

section Ballots

variable (env : Env) (node : Node)

-- The step answers the message with a granted ResponseVote of this term.
def Grants (input : Input) (msg : Message) (term : Nat) : Prop :=
  (∃ stray, input = .message msg stray) ∧ ∃ effect ∈ (node.step env input).effects, ∃ reply,
    effect.raftMessage = some reply ∧ reply.cmd = .responseVote true ∧ reply.term = term

-- The vote of a node in a term goes to whom it grants it, or to itself as a candidate.
def Casts (input : Input) (term : Nat) (candidate : Uuid) : Prop :=
  (∃ msg, node.Grants env input msg term ∧ msg.sender = candidate) ∨
    (node.Campaigns env input ∧ (node.step env input).node.currentTerm = term ∧ node.uuid = candidate)

variable {env node} {input : Input} {msg : Message} {term : Nat} {candidate : Uuid}

theorem grants_spec (h : node.Grants env input msg term) :
    inQuorum node.log msg.sender = .ok true ∧ msg.term = term ∧
      (node.step env input).node.currentTerm = term ∧
      (node.step env input).node.votedFor.isSome = true ∧
      ∃ uuid lastLogIndex lastLogTerm, msg.cmd = .requestVote uuid lastLogIndex lastLogTerm ∧
        (node.currentTerm < term ∨
          (term = node.currentTerm ∧ node.votedFor = none ∧ node.log.size ≤ lastLogIndex)) := by
  obtain ⟨⟨stray, rfl⟩, effect, hmem, reply, hraft, hcmd, rfl⟩ := h
  cases (step_move env node _).sends hmem hraft with
  | requestVote _ _ _ _ hsent =>
      rw [hsent] at hcmd
      cases hcmd
  | responseVote heard _ uuid lastLogIndex lastLogTerm granted hears hrequest _ hsent hterm hvoted hgranted =>
      obtain ⟨rfl, _⟩ := Input.message.inj hears.input_eq
      have hyes : granted = true := by simpa [hsent, createRequestVoteResponse] using hcmd
      have hreply : reply.term = msg.term := by rw [hsent]; rfl
      rw [hreply]
      exact ⟨hears.member, rfl, hterm, hvoted hyes, uuid, lastLogIndex, lastLogTerm, hrequest, hgranted hyes⟩
  | appendEntries _ _ _ hdescribes =>
      obtain ⟨_, _, _, _, happend, _⟩ := hdescribes.content
      rw [hcmd] at happend
      cases happend
  | appendEntriesReply _ _ _ _ _ _ _ _ _ _ _ _ _ _ hsent | outOfSync _ _ _ _ _ hsent =>
      rw [hsent] at hcmd
      cases hcmd

theorem campaigns_spec (hcampaign : node.Campaigns env input) (hwraps : ¬node.Wraps env input) :
    (node.step env input).node = { node with
      votedFor := some node.uuid, yesVotes := {node.uuid}, noVotes := ∅,
      currentTerm := node.currentTerm + 1, currentState := .candidate, leader := "" } := by
  rw [← nextTerm_of_not_wraps env node hwraps hcampaign]
  obtain ⟨pick, rfl, _⟩ := hcampaign
  cases step_move env node (.electionTimeout false pick) with
  | campaign _ hnode _ => exact hnode
  | idle _ hidle => exact absurd ⟨pick, rfl, by assumption⟩ hidle
  | manage _ _ hinput | append _ _ _ _ hinput | beat _ hinput => cases hinput
  | refuse _ _ _ _ _ hears | vote _ _ _ _ _ hears | voteAhead _ _ _ _ _ hears | stepDown _ _ _ hears
  | rollBack _ _ hears | retire _ _ _ _ hears | countNo _ _ _ hears | countYes _ _ hears
  | win _ _ _ _ hears | accept _ _ _ _ _ _ _ _ _ hears | record _ _ _ _ _ _ _ _ hears =>
      cases hears.input_eq

-- A vote is cast in the term the node comes to be in, and only if it had none in that term.
theorem casts_spec (h : node.Casts env input term candidate) (hwraps : ¬node.Wraps env input) :
    (node.step env input).node.currentTerm = term ∧
      (node.step env input).node.votedFor.isSome = true ∧
      (node.currentTerm < term ∨ (term = node.currentTerm ∧ node.votedFor = none)) := by
  rcases h with ⟨msg, hgrants, _⟩ | ⟨hcampaign, hterm, _⟩
  · obtain ⟨_, _, hafter, hvoted, _, _, _, _, hfree⟩ := grants_spec hgrants
    refine ⟨hafter, hvoted, ?_⟩
    rcases hfree with hlt | ⟨heq, hnone, _⟩
    · exact Or.inl hlt
    · exact Or.inr ⟨heq, hnone⟩
  · have hnode := campaigns_spec hcampaign hwraps
    refine ⟨hterm, by rw [hnode]; rfl, Or.inl ?_⟩
    rw [hnode] at hterm
    dsimp only at hterm
    omega

theorem casts_unique {other : Uuid} {term' : Nat} (h : node.Casts env input term candidate)
    (h' : node.Casts env input term' other) : candidate = other := by
  rcases h with ⟨msg, ⟨⟨stray, rfl⟩, _⟩, rfl⟩ | ⟨⟨pick, rfl, _⟩, _, rfl⟩
  · rcases h' with ⟨msg', ⟨⟨stray', hinput⟩, _⟩, rfl⟩ | ⟨⟨pick', hinput, _⟩, _, _⟩
    · rw [(Input.message.inj hinput).1]
    · cases hinput
  · rcases h' with ⟨msg', ⟨⟨stray', hinput⟩, _⟩, _⟩ | ⟨_, _, rfl⟩
    · cases hinput
    · rfl

-- The answers a node counts for itself: its own vote, and then one grant after the other.
theorem step_yesVotes (env : Env) (node : Node) (input : Input) :
    node.Campaigns env input ∨ (node.step env input).node.yesVotes = node.yesVotes ∨
      ∃ msg stray, node.Hears input msg stray ∧ msg.cmd = .responseVote true ∧
        msg.term = node.currentTerm ∧
        (node.step env input).node.yesVotes = insert msg.sender node.yesVotes := by
  cases step_move env node input with
  | campaign hcampaign => exact Or.inl hcampaign
  | idle hidle _ =>
      obtain ⟨leader, swarm, hnode⟩ := hidle.node_eq
      exact Or.inr (Or.inl (by rw [hnode]))
  | manage _ _ _ _ hmanaged =>
      obtain ⟨_, _, _, _, hnode⟩ := hmanaged.node_eq
      exact Or.inr (Or.inl (by rw [hnode]))
  | beat _ _ hbeat => exact Or.inr (Or.inl (by rw [hbeat.node_eq]))
  | win msg stray tracked inner hears hcmd hterm _ houtcome hbeat =>
      refine Or.inr (Or.inr ⟨msg, stray, hears, hcmd, hterm, ?_⟩)
      rw [houtcome, closing_node, hbeat.node_eq]
      rfl
  | countYes msg stray hears hcmd hterm hnode _ =>
      exact Or.inr (Or.inr ⟨msg, stray, hears, hcmd, hterm, by rw [hnode]⟩)
  | accept _ _ _ _ _ _ _ _ _ _ _ _ happending =>
      obtain ⟨swarm, tracked, hnode⟩ := happending.node_eq
      exact Or.inr (Or.inl (by rw [hnode]))
  | record _ _ _ _ inner _ _ _ _ _ _ houtcome hrecording =>
      obtain ⟨turns, hcommitting⟩ := hrecording.committing
      exact Or.inr (Or.inl (by rw [houtcome, closing_node, hcommitting.node_eq]))
  | append _ _ _ _ _ hnode | refuse _ _ _ _ _ _ _ _ hnode | vote _ _ _ _ _ _ _ _ _ hnode
  | voteAhead _ _ _ _ _ _ _ _ hnode | stepDown _ _ _ _ _ hnode | rollBack _ _ _ _ hnode
  | retire _ _ _ _ _ hnode | countNo _ _ _ _ hnode =>
      exact Or.inr (Or.inl (by rw [hnode]))

-- A leader gets a vote request of a later term, which it grants without stepping down.
def StaysLeader (node : Node) : Input → Prop
  | .message ⟨sender, term, .requestVote ..⟩ _ =>
    inQuorum node.log sender = .ok true ∧ node.currentState = .leader ∧ node.currentTerm < term
  | _ => False

instance (node : Node) : (input : Input) → Decidable (node.StaysLeader input)
  | .message ⟨sender, term, .requestVote ..⟩ _ => inferInstanceAs (Decidable
    (inQuorum node.log sender = .ok true ∧ node.currentState = .leader ∧ node.currentTerm < term))
  | .message ⟨_, _, .responseVote _⟩ _ | .message ⟨_, _, .appendEntries ..⟩ _
  | .message ⟨_, _, .appendEntriesReply ..⟩ _ | .message ⟨_, _, .unknown⟩ _
  | .management .. | .electionTimeout .. | .heartbeatTimeout _ | .appendLog .. =>
    inferInstanceAs (Decidable False)

-- Otherwise a node leads because it led in that term before, or because it has won it.
theorem step_leader (env : Env) (node : Node) (input : Input) (hstays : ¬node.StaysLeader input)
    (hleader : (node.step env input).node.currentState = .leader) :
    (node.step env input).node.currentTerm = node.currentTerm ∧ (node.currentState = .leader ∨
      ∃ msg stray, node.Hears input msg stray ∧ msg.cmd = .responseVote true ∧
        msg.term = node.currentTerm ∧
        isMajority node.log (insert msg.sender node.yesVotes) = .ok true) := by
  cases step_move env node input with
  | idle hidle _ =>
      obtain ⟨leader, swarm, hnode⟩ := hidle.node_eq
      rw [hnode] at hleader ⊢
      exact ⟨rfl, Or.inl hleader⟩
  | manage _ _ _ _ hmanaged =>
      obtain ⟨_, _, _, _, hnode⟩ := hmanaged.node_eq
      rw [hnode] at hleader ⊢
      exact ⟨rfl, Or.inl hleader⟩
  | beat _ _ hbeat =>
      rw [hbeat.node_eq] at hleader ⊢
      exact ⟨rfl, Or.inl hleader⟩
  | win msg stray tracked inner hears hcmd hterm hmajority houtcome hbeat =>
      refine ⟨?_, Or.inr ⟨msg, stray, hears, hcmd, hterm, hmajority⟩⟩
      rw [houtcome, closing_node, hbeat.node_eq]
      rfl
  | voteAhead msg stray uuid lastLogIndex lastLogTerm hears hcmd hterm hnode _ =>
      rw [hnode] at hleader
      obtain rfl := hears.input_eq
      obtain ⟨sender, term, cmd⟩ := msg
      dsimp only at hcmd
      subst hcmd
      exact absurd ⟨hears.member, hleader, hterm⟩ hstays
  | accept _ _ _ _ _ _ _ _ _ _ _ _ happending =>
      obtain ⟨swarm, tracked, hnode⟩ := happending.node_eq
      rw [hnode] at hleader ⊢
      exact ⟨rfl, Or.inl hleader⟩
  | record _ _ _ _ inner _ _ _ _ _ _ houtcome hrecording =>
      obtain ⟨turns, hcommitting⟩ := hrecording.committing
      rw [houtcome, closing_node, hcommitting.node_eq] at hleader ⊢
      exact ⟨rfl, Or.inl hleader⟩
  | campaign _ hnode | stepDown _ _ _ _ _ hnode | rollBack _ _ _ _ hnode | retire _ _ _ _ _ hnode =>
      rw [hnode] at hleader
      cases hleader
  | append _ _ _ _ _ hnode | refuse _ _ _ _ _ _ _ _ hnode | vote _ _ _ _ _ _ _ _ _ hnode
  | countNo _ _ _ _ hnode | countYes _ _ _ _ _ hnode =>
      rw [hnode] at hleader ⊢
      exact ⟨rfl, Or.inl hleader⟩

end Ballots

end Node

section Discipline

variable {env : Env} {past : List (Node × Input)} {node : Node}

-- The votes that were cast on the way.
def Voted (env : Env) (past : List (Node × Input)) (term : Nat) (candidate : Uuid) : Prop :=
  ∃ step ∈ past, step.1.Casts env step.2 term candidate

def Steady (env : Env) (node : Node) (input : Input) : Prop :=
  ¬node.RollsBack input ∧ ¬node.Wraps env input

instance (env : Env) (node : Node) (input : Input) : Decidable (Steady env node input) :=
  inferInstanceAs (Decidable (_ ∧ _))

theorem voted_cons {input : Input} {term : Nat} {candidate : Uuid}
    (h : Voted env ((node, input) :: past) term candidate) :
    node.Casts env input term candidate ∨ Voted env past term candidate := by
  obtain ⟨step, hs, hcasts⟩ := h
  rcases List.mem_cons.mp hs with rfl | hs
  · exact Or.inl hcasts
  · exact Or.inr ⟨step, hs, hcasts⟩

-- A vote lies in the past or is recorded in voted_for.
theorem voted_bound (run : ((lifetime env).guard (Steady env)).Run past node) :
    ∀ term candidate, Voted env past term candidate →
      term ≤ node.currentTerm ∧ (term = node.currentTerm → node.votedFor.isSome = true) := by
  induction run with
  | start => simp [Voted]
  | @step past node input run henabled ih =>
      obtain ⟨-, hback, hwraps⟩ := henabled
      intro term candidate hvoted
      change term ≤ (node.step env input).node.currentTerm ∧
        (term = (node.step env input).node.currentTerm → _)
      rcases voted_cons hvoted with hcasts | hold
      · obtain ⟨hterm, hsome, _⟩ := Node.casts_spec hcasts hwraps
        exact ⟨hterm.ge, fun _ => hsome⟩
      · obtain ⟨hle, hheld⟩ := ih term candidate hold
        obtain ⟨hmono, hkeeps⟩ := Node.step_keeps_term env node input hback hwraps
        refine ⟨hle.trans hmono, fun heq => ?_⟩
        have hsame : term = node.currentTerm := by omega
        exact hkeeps (by omega) (hheld hsame)

theorem voted_unique (run : ((lifetime env).guard (Steady env)).Run past node) :
    ∀ term a b, Voted env past term a → Voted env past term b → a = b := by
  induction run with
  | start => simp [Voted]
  | @step past node input run henabled ih =>
      obtain ⟨-, hback, hwraps⟩ := henabled
      -- a new vote meets no old one in its term
      have hnew : ∀ term a b, node.Casts env input term a → ¬Voted env past term b := by
        intro term a b hcasts hold
        obtain ⟨hle, hheld⟩ := voted_bound run term b hold
        obtain ⟨_, _, hlt | ⟨heq, hnone⟩⟩ := Node.casts_spec hcasts hwraps
        · omega
        · simpa [hnone] using hheld heq
      intro term a b ha hb
      rcases voted_cons ha with hca | hoa
      · rcases voted_cons hb with hcb | hob
        · exact Node.casts_unique hca hcb
        · exact absurd hob (hnew term a b hca)
      · rcases voted_cons hb with hcb | hob
        · exact absurd hoa (hnew term b a hcb)
        · exact ih term a b hoa hob

-- One vote in each term, and none for a candidate whose log looks shorter than the voter's.
structure VoteDiscipline (env : Env) (past : List (Node × Input)) : Prop where
  once : ∀ term a b, Voted env past term a → Voted env past term b → a = b
  upToDate : ∀ step ∈ past, ∀ msg term, step.1.Grants env step.2 msg term →
    ∃ uuid lastLogIndex lastLogTerm, msg.cmd = .requestVote uuid lastLogIndex lastLogTerm ∧
      step.1.log.size ≤ lastLogIndex

-- A vote request of a later term from a candidate whose log looks shorter.
def Node.VotesBlindly (node : Node) : Input → Prop
  | .message ⟨sender, term, .requestVote _ lastLogIndex _⟩ _ =>
    inQuorum node.log sender = .ok true ∧ node.currentTerm < term ∧ lastLogIndex < node.log.size
  | _ => False

theorem voteDiscipline_of_run (run : ((lifetime env).guard fun node input =>
    Steady env node input ∧ ¬node.VotesBlindly input).Run past node) : VoteDiscipline env past := by
  have hguard := run.guarded
  refine ⟨voted_unique (run.of_guard.guard_of fun step hs => (hguard step hs).1), ?_⟩
  intro step hs msg term hgrants
  obtain ⟨hmember, hterm, _, _, uuid, lastLogIndex, lastLogTerm, hcmd, hfree⟩ := Node.grants_spec hgrants
  refine ⟨uuid, lastLogIndex, lastLogTerm, hcmd, ?_⟩
  rcases hfree with hlt | ⟨_, _, hsize⟩
  · obtain ⟨⟨stray, hinput⟩, _⟩ := hgrants
    by_contra hshort
    apply (hguard step hs).2
    obtain ⟨sender, msgTerm, cmd⟩ := msg
    dsimp only at hcmd hterm
    rw [hinput, hcmd]
    exact ⟨hmember, by omega, by omega⟩
  · exact hsize

-- A candidate whose log holds the first entry only.
def voteRequest (candidate : Uuid) (term : Nat) : Input :=
  .message (createRequestVoteRequest candidate term 1 0) fun _ => 0

theorem casts_of_voteRequest (node : Node) (candidate : Uuid) (term : Nat)
    (h : Effect.reply (.raft (createRequestVoteResponse node.uuid term true)) ∈
      (node.step openEnv (voteRequest candidate term)).effects) :
    node.Casts openEnv (voteRequest candidate term) term candidate :=
  Or.inl ⟨_, ⟨⟨_, rfl⟩, _, h, _, rfl, rfl, rfl⟩, rfl⟩

-- B's requests of terms 1 and 2 are granted. C's delayed one of term 1 takes the voter back
-- there, and its next one gets a second vote in term 2.
def twoVotes : List Input :=
  [voteRequest "B" 1, voteRequest "B" 2, voteRequest "C" 1, voteRequest "C" 2]

theorem voteDiscipline_broken : ¬∀ (env : Env) (past : List (Node × Input)) (node : Node),
    (lifetime env).Run past node → VoteDiscipline env past := by
  intro h
  have hrun := h _ _ _ (run_of_fresh "A" twoVotes)
  have hb : Voted openEnv ((lifetime openEnv).replay [] (freshNode "A") twoVotes).1 2 "B" :=
    ⟨_, .tail _ (.tail _ (.head _)), casts_of_voteRequest _ "B" 2 (by decide)⟩
  have hc : Voted openEnv ((lifetime openEnv).replay [] (freshNode "A") twoVotes).1 2 "C" :=
    ⟨_, .head _, casts_of_voteRequest _ "C" 2 (by decide)⟩
  exact absurd (hrun.once 2 "B" "C" hb hc) (by decide)

theorem voteDiscipline_of_run_fresh :
    Voted openEnv [(freshNode "A", voteRequest "B" 1)] 1 "B" ∧
      VoteDiscipline openEnv [(freshNode "A", voteRequest "B" 1)] := by
  refine ⟨⟨_, .head _, casts_of_voteRequest _ "B" 1 (by decide)⟩, voteDiscipline_of_run
    (.step (.start ⟨_, _, _, _, _, _, rfl⟩) ⟨trivial, ⟨?_, ?_⟩, ?_⟩)⟩
  · exact fun h => absurd h.2 (by decide)
  · rintro ⟨⟨pick, hinput, _⟩, _⟩
    cases hinput
  · exact fun h => absurd h.2.2 (by decide)

end Discipline

end SwarmDB.Raft
