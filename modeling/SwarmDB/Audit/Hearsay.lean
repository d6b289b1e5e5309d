import SwarmDB.Audit.Window

namespace SwarmDB.Audit

variable {settings : AuditSettings} {audit : Audit} {event : Event} {container : Container}
  {number : Nat} {reported recorded description : String}

namespace Container

def conflictMetricName : Container → String
  | leaders => leaderConflictMetricName
  | raftCommits => raftCommitConflictMetricName
  | primaries => primaryConflictMetricName
  | pbftCommits => pbftCommitConflictMetricName

def conflict (number : Nat) (reported recorded : String) : Container → String
  | leaders => conflictingLeader { term := number, leader := reported } recorded
  | raftCommits => conflictingRaftCommit { logIndex := number, operation := reported } recorded
  | primaries => conflictingPrimary { view := number, primary := reported } recorded
  | pbftCommits => conflictingPbftCommit { sequenceNumber := number, operation := reported } recorded

theorem conflictMetricName_inj {other : Container}
    (h : statsdNamespacePrefix settings ++ container.conflictMetricName =
      statsdNamespacePrefix settings ++ other.conflictMetricName) : container = other := by
  have hname := String.append_right_inj _ |>.mp h
  cases container <;> cases other <;> first | rfl | exact absurd hname (by decide)

end Container

-- An alarm of a conflict is about what is heard now and what is recorded under its number.
theorem sounds_conflict
    (h : (statsdNamespacePrefix settings ++ container.conflictMetricName, description) ∈
      event.sounds settings audit) :
    ∃ number reported recorded, event.heard container = some (number, reported) ∧
      (container.held audit).get number = some recorded ∧ recorded ≠ reported ∧
      description = container.conflict number reported recorded := by
  have hconflict : ∀ {other : Container} {number : Nat} {reported : String},
      (statsdNamespacePrefix settings ++ container.conflictMetricName, description) ∈
        conflictAlarm settings (other.held audit) number reported other.conflictMetricName
          (fun recorded => other.conflict number reported recorded) →
      event.heard = only other number reported →
      ∃ number reported recorded, event.heard container = some (number, reported) ∧
        (container.held audit).get number = some recorded ∧ recorded ≠ reported ∧
        description = container.conflict number reported recorded := by
    intro other number reported hmem hheard
    obtain ⟨hmetric, recorded, hget, hne, hdescription⟩ := mem_conflictAlarm.mp hmem
    obtain rfl := Container.conflictMetricName_inj hmetric
    exact ⟨number, reported, recorded, by rw [hheard, only, if_pos rfl], hget, hne, hdescription⟩
  -- the errors of the timers have names of their own
  have htimer : ∀ {name text : String},
      (statsdNamespacePrefix settings ++ container.conflictMetricName, description) =
        (statsdNamespacePrefix settings ++ name, text) → container.conflictMetricName = name := by
    intro name text heq
    exact (String.append_right_inj _).mp (Prod.mk.inj heq).1
  cases event with
  | start => cases h
  | leaderAliveTimeout canceled | primaryAliveTimeout canceled | leaderProgressTimeout canceled =>
      cases canceled with
      | true => cases h
      | false =>
          have hname := htimer (List.mem_singleton.mp h)
          cases container <;> exact absurd hname (by decide)
  | message msg =>
      cases msg with
      | unset | failureDetected _ => cases h
      | leaderStatus status =>
          unfold Event.sounds at h
          dsimp only at h
          split at h
          · cases h
          · exact @hconflict .leaders _ _ h rfl
      | raftCommit commit =>
          unfold Event.sounds at h
          dsimp only at h
          split at h
          · cases h
          · exact @hconflict .raftCommits _ _ h rfl
      | primaryStatus status =>
          unfold Event.sounds at h
          dsimp only at h
          split at h
          · exact @hconflict .primaries _ _ h rfl
          · cases h
      | pbftCommit commit =>
          unfold Event.sounds at h
          dsimp only at h
          split at h
          · exact @hconflict .pbftCommits _ _ h rfl
          · cases h

theorem eq_of_only {other : Container} {number' : Nat} {reported' : String}
    (h : only container number reported other = some (number', reported')) :
    other = container ∧ number' = number ∧ reported' = reported := by
  unfold only at h
  split at h
  · rename_i hother
    obtain ⟨rfl, rfl⟩ := Prod.mk.inj (Option.some.inj h)
    exact ⟨hother, rfl, rfl⟩
  · cases h

def Event.tells : Event → Bool
  | .message _ => true
  | .start | .leaderAliveTimeout _ | .primaryAliveTimeout _ | .leaderProgressTimeout _ => false

theorem heard_of_not_tells (h : event.tells = false) : event.heard = fun _ => none := by
  cases event with
  | message msg => cases h
  | start | leaderAliveTimeout _ | primaryAliveTimeout _ | leaderProgressTimeout _ => rfl

-- Everything that is recorded has been said by someone whose word this is.
structure Vouched (settings : AuditSettings) (said : Container → Nat → String → Prop) (audit : Audit) : Prop where
  tidy : Tidy settings audit
  said : ∀ (container : Container) number recorded,
    (container.held audit).get number = some recorded → said container number recorded

variable {said : Container → Nat → String → Prop}

theorem vouched_fresh (settings : AuditSettings) (said : Container → Nat → String → Prop) :
    Vouched settings said {} where
  tidy := (kept_start settings).tidy
  said container number recorded h := by
    cases container <;> cases h

theorem Vouched.mono (h : Vouched settings said audit) {said' : Container → Nat → String → Prop}
    (hmono : ∀ container number reported, said container number reported → said' container number reported) :
    Vouched settings said' audit :=
  ⟨h.tidy, fun container number recorded hget => hmono _ _ _ (h.said container number recorded hget)⟩

theorem get_after {memSize : Nat} {m : OrderedMap Nat String} {report : Option (Nat × String)}
    (h : (container.after memSize m report).get number = some recorded) :
    m.get number = some recorded ∨ report = some (number, recorded) := by
  cases report with
  | none => exact Or.inl h
  | some said =>
      obtain ⟨other, reported⟩ := said
      cases hget : m.get other with
      | some known =>
          rw [after_known hget] at h
          exact Or.inl h
      | none =>
          rw [after_new hget] at h
          have hput : (m.put other reported).get number = some recorded := by
            split at h
            · exact OrderedMap.get_eq_some.mpr ((shed_sublist _ _).subset (OrderedMap.get_eq_some.mp h))
            · exact h
          rw [OrderedMap.get_put] at hput
          split at hput
          · rename_i hsame
            rw [hsame, ← Option.some.inj hput]
            exact Or.inr rfl
          · exact Or.inl hput

theorem Vouched.step (h : Vouched settings said audit)
    (hheard : ∀ container number reported, event.heard container = some (number, reported) →
      said container number reported) :
    Vouched settings said (event.handler settings audit).state := by
  obtain ⟨hturn, _⟩ := acts_event settings event audit h.tidy
  refine ⟨hturn.tidy, ?_⟩
  intro container number recorded hget
  rw [hturn.held] at hget
  rcases get_after hget with hold | hnew
  · exact h.said container number recorded hold
  · unfold Event.reports at hnew
    split at hnew
    · exact hheard container number recorded hnew
    · cases hnew

-- Of two reports that conflict, both have been made.
theorem Vouched.conflict (h : Vouched settings said audit)
    (hheard : ∀ container number reported, event.heard container = some (number, reported) →
      said container number reported)
    (herror : .error (statsdNamespacePrefix settings ++ container.conflictMetricName) description ∈
      (event.handler settings audit).effects) :
    ∃ number reported recorded, reported ≠ recorded ∧ said container number reported ∧
      said container number recorded ∧ description = container.conflict number reported recorded := by
  obtain ⟨_, halarms⟩ := acts_event settings event audit h.tidy
  rw [← mem_alarms, halarms] at herror
  obtain ⟨number, reported, recorded, hreported, hrecorded, hne, hdescription⟩ := sounds_conflict herror
  exact ⟨number, reported, recorded, hne.symm, hheard _ _ _ hreported, h.said _ _ _ hrecorded, hdescription⟩

end SwarmDB.Audit
