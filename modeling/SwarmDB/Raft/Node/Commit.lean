import SwarmDB.Raft.Membership

namespace SwarmDB.Raft.Node

-- The commit handler's calls for these entries, the first of which has this log index.
def commitEffects (first : Nat) (entries : List LogEntry) : List Effect :=
  (entries.zipIdx first).map fun entry => .commit entry.2 entry.1.msg

-- What running a commit loop did: it committed so many entries in a row, and as a leader it
-- may have added entries at the end of its log on the way. Nothing else changed.
structure Committing (node : Node) (turns : Nat) (outcome : Outcome) (count : Nat)
    (added : List LogEntry) : Prop where
  bounded : count ≤ turns
  node_eq : outcome.node = { node with commitIndex := node.commitIndex + count, log := outcome.node.log }
  log_eq : outcome.node.log.entries = node.log.entries ++ added
  effects_eq : outcome.effects = commitEffects node.commitIndex
    ((outcome.node.log.entries.drop node.commitIndex).take count)
  inside : 0 < count → node.commitIndex + count ≤ outcome.node.log.size
  fresh : ∀ j entry, added[j]? = some entry →
    entry.term = node.currentTerm ∧ entry.logIndex = node.log.size + j
  leads : added ≠ [] → node.currentState = .leader
  joint : added ≠ [] → ∃ entry ∈ node.log.entries, entry.entryType = .jointQuorum

theorem Committing.stopped (node : Node) (turns : Nat) (thrown : Option Exception) :
    Committing node turns ⟨node, [], thrown⟩ 0 [] where
  bounded := Nat.zero_le _
  node_eq := rfl
  log_eq := by simp
  effects_eq := by simp [commitEffects]
  inside := by simp
  fresh := by simp
  leads := by simp
  joint := by simp

-- One turn on an entry that is there.
theorem Committing.turn (node : Node) (turns : Nat) (entry : LogEntry) (outcome : Outcome)
    (added : List LogEntry) (hentry : node.log.entryAt node.commitIndex = some entry)
    (hnode : outcome.node = { node with commitIndex := node.commitIndex + 1, log := outcome.node.log })
    (hlog : outcome.node.log.entries = node.log.entries ++ added)
    (heffects : outcome.effects = [.commit node.commitIndex entry.msg])
    (hfresh : ∀ j entry, added[j]? = some entry →
      entry.term = node.currentTerm ∧ entry.logIndex = node.log.size + j)
    (hleads : added ≠ [] → node.currentState = .leader ∧ entry.entryType = .jointQuorum) :
    Committing node (turns + 1) outcome 1 added where
  bounded := by omega
  node_eq := hnode
  log_eq := hlog
  effects_eq := by
    obtain ⟨hi, he⟩ := List.getElem?_eq_some_iff.mp hentry
    have hlen : node.commitIndex < (node.log.entries ++ added).length := by
      rw [List.length_append]
      omega
    rw [heffects, hlog, List.drop_eq_getElem_cons hlen, List.getElem_append_left hi, he]
    simp [commitEffects]
  inside := by
    intro _
    have hi : node.commitIndex < node.log.entries.length := (List.getElem?_eq_some_iff.mp hentry).1
    simp only [RaftLog.size, hlog, List.length_append]
    omega
  fresh := hfresh
  leads := fun h => (hleads h).1
  joint := fun h => ⟨entry, List.mem_of_getElem? hentry, (hleads h).2⟩

theorem performCommit_spec (env : Env) (node : Node) (turns : Nat) (entry : LogEntry)
    (hentry : node.log.entryAt node.commitIndex = some entry) :
    ∃ count added, Committing node (turns + 1) (node.performCommit env entry) count added ∧
      ((node.performCommit env entry).thrown = none → count = 1) := by
  unfold performCommit
  split
  · exact ⟨0, [], .stopped node (turns + 1) _, by simp [throws]⟩
  · dsimp only
    split
    · rename_i hjoint
      split
      · exact ⟨1, [], .turn node turns entry _ [] hentry rfl (by simp) rfl (by simp) (by simp), by simp⟩
      · rename_i msg _
        refine ⟨1, [⟨.singleQuorum, node.log.size, node.currentTerm, msg⟩],
          .turn node turns entry _ _ hentry ?_ ?_ rfl ?_ (fun _ => hjoint), fun _ => rfl⟩
        · simp [appendLogUnsafe, hjoint.1]
        · simp [appendLogUnsafe, hjoint.1, RaftLog.leaderAppendEntry]
        · intro j added hj
          cases j with
          | zero =>
              obtain rfl : _ = added := by simpa using hj
              exact ⟨rfl, rfl⟩
          | succ j => simp at hj
    · exact ⟨1, [], .turn node turns entry _ [] hentry rfl (by simp) rfl (by simp) (by simp), fun _ => rfl⟩

-- A finished turn followed by the rest of the loop.
theorem Committing.next {node : Node} {turns count : Nat} {first rest : Outcome}
    {added later : List LogEntry} (hone : Committing node (turns + 1) first 1 added)
    (hrest : Committing first.node turns rest count later) :
    Committing node (turns + 1) ⟨rest.node, first.effects ++ rest.effects, rest.thrown⟩ (1 + count)
      (added ++ later) := by
  have hindex : first.node.commitIndex = node.commitIndex + 1 := by rw [hone.node_eq]
  have hstate : first.node.currentState = node.currentState := by rw [hone.node_eq]
  have hterm : first.node.currentTerm = node.currentTerm := by rw [hone.node_eq]
  have hsize : first.node.log.size = node.log.size + added.length := by
    simp only [RaftLog.size, hone.log_eq, List.length_append]
  have hlog : rest.node.log.entries = node.log.entries ++ (added ++ later) := by
    rw [hrest.log_eq, hone.log_eq, List.append_assoc]
  have hsizes : first.node.log.size ≤ rest.node.log.size := by
    simp only [RaftLog.size, hrest.log_eq, List.length_append]
    omega
  have hfirst : node.commitIndex + 1 ≤ first.node.log.size := hone.inside (by omega)
  constructor
  · have := hrest.bounded
    omega
  · dsimp only
    rw [hrest.node_eq, hindex, hone.node_eq]
    simp only [Node.mk.injEq, true_and, and_true]
    omega
  · exact hlog
  · -- the entry of the first turn still stands at its place in the final log
    have hlt : node.commitIndex < first.node.log.entries.length := hfirst
    have hlt' : node.commitIndex < rest.node.log.entries.length := by
      simp only [RaftLog.size] at hsizes
      omega
    have hsame : rest.node.log.entries[node.commitIndex] = first.node.log.entries[node.commitIndex] := by
      simp only [hrest.log_eq, List.getElem_append_left hlt]
    rw [hone.effects_eq, hrest.effects_eq, hindex, List.drop_eq_getElem_cons hlt,
      List.drop_eq_getElem_cons hlt', Nat.add_comm 1 count, hsame]
    simp only [commitEffects, List.take_succ_cons, List.take_zero, List.zipIdx_cons, List.zipIdx_nil,
      List.map_cons, List.map_nil, List.cons_append, List.nil_append]
  · intro _
    rcases Nat.eq_zero_or_pos count with rfl | hpos
    · simpa using hfirst.trans hsizes
    · have := hrest.inside hpos
      dsimp only
      omega
  · intro j entry hj
    rcases Nat.lt_or_ge j added.length with hlt | hge
    · rw [List.getElem?_append_left hlt] at hj
      exact hone.fresh j entry hj
    · rw [List.getElem?_append_right hge] at hj
      have hf := hrest.fresh _ entry hj
      rw [hterm, hsize] at hf
      exact ⟨hf.1, by omega⟩
  · intro hne
    by_cases ha : added = []
    · rw [← hstate]
      exact hrest.leads (by simpa [ha] using hne)
    · exact hone.leads ha
  · intro hne
    by_cases ha : added = []
    · obtain ⟨entry, hmem, hjoint⟩ := hrest.joint (by simpa [ha] using hne)
      rw [hone.log_eq, ha, List.append_nil] at hmem
      exact ⟨entry, hmem, hjoint⟩
    · exact hone.joint ha

theorem Committing.log_of_not_leader {node : Node} {turns count : Nat} {outcome : Outcome}
    {added : List LogEntry} (h : Committing node turns outcome count added)
    (hstate : node.currentState ≠ .leader) : outcome.node.log = node.log := by
  have hadded : added = [] := by
    by_contra hne
    exact hstate (h.leads hne)
  have hlog := h.log_eq
  rw [hadded, List.append_nil] at hlog
  exact RaftLog.ext hlog

theorem commitLoop_spec (env : Env) (turns : Nat) (node : Node) :
    ∃ count added, Committing node turns (commitLoop env turns node) count added := by
  induction turns generalizing node with
  | zero => exact ⟨0, [], .stopped node 0 none⟩
  | succ turns ih =>
      unfold commitLoop
      split
      · exact ⟨0, [], .stopped node (turns + 1) _⟩
      · rename_i entry hentry
        obtain ⟨count, added, hone, hcount⟩ := performCommit_spec env node turns entry hentry
        dsimp only
        split
        · exact ⟨count, added, hone⟩
        · rename_i hnone
          obtain rfl := hcount hnone
          obtain ⟨more, later, hrest⟩ := ih (node.performCommit env entry).node
          exact ⟨1 + more, added ++ later, hone.next hrest⟩

end SwarmDB.Raft.Node
