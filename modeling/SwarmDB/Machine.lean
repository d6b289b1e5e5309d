import Mathlib.Data.List.Basic

namespace SwarmDB

-- The environment picks an action that is enabled, and the next state follows from it.
structure Machine (σ α : Type) where
  init : σ → Prop
  enabled : σ → α → Prop
  next : σ → α → σ

namespace Machine

variable {σ α : Type} {M : Machine σ α} {past : List (σ × α)} {s t : σ} {a : α}

-- A run remembers each of its steps, the latest first, as the state the step
-- was taken in and the action.
inductive Run (M : Machine σ α) : List (σ × α) → σ → Prop
  | start {s : σ} (hinit : M.init s) : Run M [] s
  | step {past : List (σ × α)} {s : σ} {a : α} (run : Run M past s) (henabled : M.enabled s a) :
      Run M ((s, a) :: past) (M.next s a)

-- The same machine, restricted to the steps that meet a condition.
def guard (M : Machine σ α) (P : σ → α → Prop) : Machine σ α :=
  { M with enabled := fun s a => M.enabled s a ∧ P s a }

def Visited (past : List (σ × α)) (s t : σ) : Prop :=
  t = s ∨ ∃ a, (t, a) ∈ past

-- The state a run started in.
def origin (past : List (σ × α)) (s : σ) : σ := (past.getLast?.map Prod.fst).getD s

theorem origin_step (past : List (σ × α)) (s : σ) (a : α) (next : σ) :
    origin ((s, a) :: past) next = origin past s := by
  cases past with
  | nil => rfl
  | cons first rest => simp [origin, List.getLast?_cons]

theorem Visited.step (h : Visited past s t) (a : α) (next : σ) :
    Visited ((s, a) :: past) next t := by
  rcases h with rfl | ⟨b, hb⟩
  · exact Or.inr ⟨a, by simp⟩
  · exact Or.inr ⟨b, by simp [hb]⟩

theorem visited_step_cases {next : σ} (h : Visited ((s, a) :: past) next t) :
    t = next ∨ Visited past s t := by
  rcases h with rfl | ⟨b, hb⟩
  · exact Or.inl rfl
  · rcases List.mem_cons.mp hb with he | hb
    · exact Or.inr (Or.inl (congrArg Prod.fst he))
    · exact Or.inr (Or.inr ⟨b, hb⟩)

-- What holds at the start and survives every enabled step holds in every run.
theorem Run.invariant {I : List (σ × α) → σ → Prop} (hinit : ∀ s, M.init s → I [] s)
    (hstep : ∀ past s a, M.Run past s → I past s → M.enabled s a → I ((s, a) :: past) (M.next s a))
    (run : M.Run past s) : I past s := by
  induction run with
  | start h => exact hinit _ h
  | step run henabled ih => exact hstep _ _ _ run ih henabled

-- Every state on the way is the end of a run of its own.
theorem Run.visited (run : M.Run past s) (h : Visited past s t) : ∃ before, M.Run before t := by
  induction run with
  | start hinit =>
      rcases h with rfl | ⟨_, hmem⟩
      · exact ⟨[], .start hinit⟩
      · cases hmem
  | step run henabled ih =>
      rcases visited_step_cases h with rfl | h
      · exact ⟨_, .step run henabled⟩
      · exact ih h

theorem Run.of_guard {P : σ → α → Prop} (run : (M.guard P).Run past s) : M.Run past s := by
  induction run with
  | start h => exact .start h
  | step _ h ih => exact .step ih h.1

theorem Run.guarded {P : σ → α → Prop} (run : (M.guard P).Run past s) :
    ∀ step ∈ past, P step.1 step.2 := by
  induction run with
  | start => simp
  | step _ h ih =>
      intro step hs
      rcases List.mem_cons.mp hs with rfl | hs
      · exact h.2
      · exact ih step hs

theorem Run.guard_of {P : σ → α → Prop} (run : M.Run past s)
    (h : ∀ step ∈ past, P step.1 step.2) : (M.guard P).Run past s := by
  induction run with
  | start hinit => exact .start hinit
  | step run henabled ih =>
      refine .step (ih fun step hs => h step (List.mem_cons_of_mem _ hs)) ⟨henabled, ?_⟩
      exact h _ List.mem_cons_self

section Within

variable {ι : Type} {L : Machine σ ι} {input : α → Option ι}

-- The steps of a run that are steps of another machine on the same states.
def within (input : α → Option ι) (past : List (σ × α)) : List (σ × ι) :=
  past.filterMap fun step => (input step.2).map fun i => (step.1, i)

-- Where every action of M is an action of L or does nothing, a run of M is one of L.
theorem Run.within (hinit : ∀ s, M.init s → L.init s)
    (hmoves : ∀ s a i, input a = some i → L.enabled s i ∧ M.next s a = L.next s i)
    (hrests : ∀ s a, input a = none → M.next s a = s) (run : M.Run past s) :
    L.Run (Machine.within input past) s := by
  induction run with
  | start h => exact .start (hinit _ h)
  | @step past s a _ _ ih =>
      cases hinput : input a with
      | some i =>
          obtain ⟨henabled, hnext⟩ := hmoves s a i hinput
          rw [hnext]
          simpa [Machine.within, hinput] using ih.step henabled
      | none =>
          rw [hrests s a hinput]
          simpa [Machine.within, hinput] using ih

end Within

section Member

variable {τ ι κ : Type} [DecidableEq κ] {L : Machine τ ι} {state : σ → κ → τ} {owner : α → κ}
  {input : α → ι} {n : κ} {step : τ × ι}

-- What one member of a population goes through: the actions that are its own, each with the
-- state it took them in.
def life (state : σ → κ → τ) (owner : α → κ) (input : α → ι) (past : List (σ × α)) (n : κ) : List (τ × ι) :=
  past.filterMap fun step => if owner step.2 = n then some (state step.1 n, input step.2) else none

theorem life_self (past : List (σ × α)) (s : σ) (a : α) : life state owner input ((s, a) :: past) (owner a) =
    (state s (owner a), input a) :: life state owner input past (owner a) := by
  simp [life]

theorem life_other (past : List (σ × α)) (s : σ) (h : n ≠ owner a) :
    life state owner input ((s, a) :: past) n = life state owner input past n := by
  simp [life, h.symm]

theorem mem_life (h : step ∈ life state owner input past n) :
    ∃ whole ∈ past, owner whole.2 = n ∧ step = (state whole.1 n, input whole.2) := by
  obtain ⟨whole, hmem, hsome⟩ := List.mem_filterMap.mp h
  split at hsome
  · rename_i howner
    exact ⟨whole, hmem, howner, (Option.some.inj hsome).symm⟩
  · cases hsome

theorem mem_life_step (s : σ) (a : α) (h : step ∈ life state owner input past n) :
    step ∈ life state owner input ((s, a) :: past) n := by
  by_cases hn : n = owner a
  · subst hn
    rw [life_self]
    exact List.mem_cons_of_mem _ h
  · rw [life_other past s hn]
    exact h

-- A member of the population of M that moves as L does: an action of M is its own or leaves it alone.
structure Member (M : Machine σ α) (L : Machine τ ι) (state : σ → κ → τ) (owner : α → κ) (input : α → ι)
    (n : κ) : Prop where
  init : ∀ s, M.init s → L.init (state s n)
  moves : ∀ s a, M.enabled s a → owner a = n →
    L.enabled (state s n) (input a) ∧ state (M.next s a) n = L.next (state s n) (input a)
  rests : ∀ s a, owner a ≠ n → state (M.next s a) n = state s n

-- Seen by itself, a member lives a run of its own machine.
theorem Member.run (member : Member M L state owner input n) (run : M.Run past s) :
    L.Run (life state owner input past n) (state s n) := by
  induction run with
  | start hinit => exact .start (member.init _ hinit)
  | @step past s a _ henabled ih =>
      by_cases hn : n = owner a
      · subst hn
        obtain ⟨hmoves, hnext⟩ := member.moves s a henabled rfl
        rw [life_self, hnext]
        exact .step ih hmoves
      · rw [life_other past s hn, member.rests s a (Ne.symm hn)]
        exact ih

end Member

section Refinement

variable {τ ι : Type} {L : Machine τ ι} {view : σ → τ} {input : σ → α → Option ι} {step : τ × ι}

-- The part of a run that another machine sees, whose actions may depend on the state.
def seen (view : σ → τ) (input : σ → α → Option ι) (past : List (σ × α)) : List (τ × ι) :=
  past.filterMap fun step => (input step.1 step.2).map fun i => (view step.1, i)

theorem seen_some {i : ι} (past : List (σ × α)) (h : input s a = some i) :
    seen view input ((s, a) :: past) = (view s, i) :: seen view input past := by
  simp [seen, h]

theorem seen_none (past : List (σ × α)) (h : input s a = none) :
    seen view input ((s, a) :: past) = seen view input past := by
  simp [seen, h]

theorem mem_seen (h : step ∈ seen view input past) :
    ∃ whole ∈ past, input whole.1 whole.2 = some step.2 ∧ step.1 = view whole.1 := by
  obtain ⟨whole, hmem, hsome⟩ := List.mem_filterMap.mp h
  obtain ⟨i, hinput, rfl⟩ := Option.map_eq_some_iff.mp hsome
  exact ⟨whole, hmem, hinput, rfl⟩

-- Every action of M is one of L, or changes nothing that L sees.
structure Refines (M : Machine σ α) (L : Machine τ ι) (view : σ → τ) (input : σ → α → Option ι) : Prop where
  init : ∀ s, M.init s → L.init (view s)
  moves : ∀ s a i, M.enabled s a → input s a = some i →
    L.enabled (view s) i ∧ view (M.next s a) = L.next (view s) i
  rests : ∀ s a, M.enabled s a → input s a = none → view (M.next s a) = view s

theorem Refines.run (refines : Refines M L view input) (run : M.Run past s) :
    L.Run (seen view input past) (view s) := by
  induction run with
  | start hinit => exact .start (refines.init _ hinit)
  | @step past s a _ henabled ih =>
      cases hinput : input s a with
      | some i =>
          obtain ⟨hmoves, hnext⟩ := refines.moves s a i henabled hinput
          rw [seen_some past hinput, hnext]
          exact .step ih hmoves
      | none =>
          rw [seen_none past hinput, refines.rests s a henabled hinput]
          exact ih

theorem Refines.visited (refines : Refines M L view input) (run : M.Run past s) (h : Visited past s t) :
    Visited (seen view input past) (view s) (view t) := by
  induction run with
  | start _ =>
      rcases h with rfl | ⟨_, hmem⟩
      · exact Or.inl rfl
      · cases hmem
  | @step past s a _ henabled ih =>
      rcases visited_step_cases h with rfl | hbefore
      · exact Or.inl rfl
      · cases hinput : input s a with
        | some i =>
            rw [seen_some past hinput]
            exact (ih hbefore).step i _
        | none =>
            rw [seen_none past hinput, refines.rests s a henabled hinput]
            exact ih hbefore

end Refinement

-- Running a list of actions from the front, on top of a run.
def replay (M : Machine σ α) : List (σ × α) → σ → List α → List (σ × α) × σ
  | past, s, [] => (past, s)
  | past, s, a :: rest => replay M ((s, a) :: past) (M.next s a) rest

theorem replay_actions (actions : List α) (past : List (σ × α)) (s : σ) :
    (M.replay past s actions).1.map Prod.snd = actions.reverse ++ past.map Prod.snd := by
  induction actions generalizing past s with
  | nil => rfl
  | cons a rest ih => simp [replay, ih]

theorem origin_replay (actions : List α) (past : List (σ × α)) (s : σ) :
    origin (M.replay past s actions).1 (M.replay past s actions).2 = origin past s := by
  induction actions generalizing past s with
  | nil => rfl
  | cons a rest ih => exact (ih _ _).trans (origin_step past s a _)

def Admits (M : Machine σ α) : σ → List α → Prop
  | _, [] => True
  | s, a :: rest => M.enabled s a ∧ Admits M (M.next s a) rest

instance Admits.decidable [∀ s a, Decidable (M.enabled s a)] :
    (s : σ) → (actions : List α) → Decidable (M.Admits s actions)
  | _, [] => inferInstanceAs (Decidable True)
  | s, a :: rest =>
      have := Admits.decidable (M.next s a) rest
      inferInstanceAs (Decidable (M.enabled s a ∧ M.Admits (M.next s a) rest))

instance guard.decidable {P : σ → α → Prop} (s : σ) (a : α) [Decidable (M.enabled s a)]
    [Decidable (P s a)] : Decidable ((M.guard P).enabled s a) :=
  inferInstanceAs (Decidable (M.enabled s a ∧ P s a))

theorem admits_of_enabled (h : ∀ s a, M.enabled s a) (s : σ) (actions : List α) :
    M.Admits s actions := by
  induction actions generalizing s with
  | nil => trivial
  | cons a rest ih => exact ⟨h s a, ih _⟩

theorem Run.replay (run : M.Run past s) (actions : List α) (h : M.Admits s actions) :
    M.Run (M.replay past s actions).1 (M.replay past s actions).2 := by
  induction actions generalizing past s with
  | nil => exact run
  | cons a rest ih => exact ih (.step run h.1) h.2

end Machine

end SwarmDB
