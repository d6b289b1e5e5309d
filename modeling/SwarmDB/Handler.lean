import Mathlib.Data.List.Basic

namespace SwarmDB

-- What a call leaves behind. The state keeps what was done to it before an exception.
structure Outcome (σ ε κ α : Type) where
  state : σ
  effects : List ε
  result : Except κ α

-- A call works on a state, does things to the outside and may throw.
def Handler (σ ε κ α : Type) : Type := σ → Outcome σ ε κ α

namespace Handler

variable {σ ε κ α β : Type}

def bind (m : Handler σ ε κ α) (k : α → Handler σ ε κ β) : Handler σ ε κ β := fun s =>
  let first := m s
  match first.result with
  | .error e => ⟨first.state, first.effects, .error e⟩
  | .ok a =>
    let second := k a first.state
    ⟨second.state, first.effects ++ second.effects, second.result⟩

instance : Monad (Handler σ ε κ) where
  pure a := fun s => ⟨s, [], .ok a⟩
  bind := bind

-- Reading a part of the state.
def reads (f : σ → α) : Handler σ ε κ α := fun s => ⟨s, [], .ok (f s)⟩

def updates (f : σ → σ) : Handler σ ε κ Unit := fun s => ⟨f s, [], .ok ()⟩

def emits (effect : ε) : Handler σ ε κ Unit := fun s => ⟨s, [effect], .ok ()⟩

def throws (e : κ) : Handler σ ε κ α := fun s => ⟨s, [], .error e⟩

-- The state after the first part and all effects survive when the rest throws.
theorem bind_cases (m : Handler σ ε κ α) (k : α → Handler σ ε κ β) (s : σ) :
    (∃ e, (m s).result = .error e ∧
      (m >>= k) s = ⟨(m s).state, (m s).effects, .error e⟩) ∨
    ∃ a, (m s).result = .ok a ∧ (m >>= k) s =
      ⟨(k a (m s).state).state, (m s).effects ++ (k a (m s).state).effects, (k a (m s).state).result⟩ := by
  change (∃ e, _ ∧ bind m k s = _) ∨ ∃ a, _ ∧ bind m k s = _
  cases h : (m s).result with
  | error e => exact Or.inl ⟨e, rfl, by simp [bind, h]⟩
  | ok a => exact Or.inr ⟨a, rfl, by simp [bind, h]⟩

theorem bind_ok {m : Handler σ ε κ α} {k : α → Handler σ ε κ β} {s t : σ} {es : List ε} {a : α}
    (h : m s = ⟨t, es, .ok a⟩) :
    (m >>= k) s = ⟨(k a t).state, es ++ (k a t).effects, (k a t).result⟩ := by
  change bind m k s = _
  simp [bind, h]

theorem bind_error {m : Handler σ ε κ α} {k : α → Handler σ ε κ β} {s t : σ} {es : List ε} {e : κ}
    (h : m s = ⟨t, es, .error e⟩) : (m >>= k) s = ⟨t, es, .error e⟩ := by
  change bind m k s = _
  simp [bind, h]

section Total

-- Where no exception exists, every call returns.
theorem result_ok (m : Handler σ ε Empty Unit) (s : σ) : (m s).result = .ok () := by
  cases h : (m s).result with
  | error e => exact e.elim
  | ok => rfl

theorem seq_eq (m : Handler σ ε Empty Unit) (k : Unit → Handler σ ε Empty Unit) (s : σ) :
    (m >>= k) s = ⟨(k () (m s).state).state, (m s).effects ++ (k () (m s).state).effects, .ok ()⟩ := by
  rcases bind_cases m k s with ⟨e, _, _⟩ | ⟨_, _, heq⟩
  · exact e.elim
  · rw [heq, result_ok (k ())]

@[simp] theorem seq_state (m : Handler σ ε Empty Unit) (k : Unit → Handler σ ε Empty Unit) (s : σ) :
    ((m >>= k) s).state = (k () (m s).state).state := by rw [seq_eq]

@[simp] theorem seq_effects (m : Handler σ ε Empty Unit) (k : Unit → Handler σ ε Empty Unit) (s : σ) :
    ((m >>= k) s).effects = (m s).effects ++ (k () (m s).state).effects := by rw [seq_eq]

end Total

@[simp] theorem reads_bind (f : σ → α) (k : α → Handler σ ε κ β) (s : σ) : (reads f >>= k) s = k (f s) s := rfl

@[simp] theorem updates_apply (f : σ → σ) (s : σ) :
    (updates f : Handler σ ε κ Unit) s = ⟨f s, [], .ok ()⟩ := rfl

@[simp] theorem emits_apply (effect : ε) (s : σ) :
    (emits effect : Handler σ ε κ Unit) s = ⟨s, [effect], .ok ()⟩ := rfl

theorem updates_bind (f : σ → σ) (k : Unit → Handler σ ε κ β) (s : σ) : (updates f >>= k) s = k () (f s) := rfl

theorem emits_bind (effect : ε) (k : Unit → Handler σ ε κ β) (s : σ) :
    (emits effect >>= k) s = ⟨(k () s).state, effect :: (k () s).effects, (k () s).result⟩ := rfl

theorem pure_bind (a : α) (k : α → Handler σ ε κ β) (s : σ) : ((pure a : Handler σ ε κ α) >>= k) s = k a s := rfl

theorem throws_bind (e : κ) (k : α → Handler σ ε κ β) (s : σ) : (throws e >>= k) s = ⟨s, [], .error e⟩ := rfl

@[simp] theorem pure_apply (a : α) (s : σ) : (pure a : Handler σ ε κ α) s = ⟨s, [], .ok a⟩ := rfl

end Handler

section Keeps

variable {σ ε κ α β γ : Type} {view : σ → γ}

-- A part of the state that a call leaves as it is, whether it throws or not.
def Handler.Keeps (view : σ → γ) (m : Handler σ ε κ α) : Prop := ∀ s, view (m s).state = view s

theorem Handler.Keeps.bind {m : Handler σ ε κ α} {k : α → Handler σ ε κ β} (hm : m.Keeps view)
    (hk : ∀ a, (k a).Keeps view) : Handler.Keeps view (m >>= k) := by
  intro s
  rcases Handler.bind_cases m k s with ⟨e, -, heq⟩ | ⟨a, -, heq⟩
  · rw [heq]
    exact hm s
  · rw [heq]
    exact (hk a _).trans (hm s)

end Keeps

section Mute

variable {σ ε κ α β ω : Type} {label : ε → Option ω}

-- A call none of whose effects has a label, whatever state it is made in.
def Handler.Mute (label : ε → Option ω) (m : Handler σ ε κ α) : Prop := ∀ s, ∀ e ∈ (m s).effects, label e = none

namespace Handler.Mute

theorem pure (a : α) : Handler.Mute label (Pure.pure a : Handler σ ε κ α) := fun _ _ h => by cases h

theorem throws (e : κ) : Handler.Mute label (Handler.throws e : Handler σ ε κ α) := fun _ _ h => by cases h

theorem reads (f : σ → α) : Handler.Mute label (Handler.reads f : Handler σ ε κ α) := fun _ _ h => by cases h

theorem updates (f : σ → σ) : Handler.Mute label (Handler.updates f : Handler σ ε κ Unit) :=
  fun _ _ h => by cases h

theorem emits {effect : ε} (h : label effect = none) :
    Handler.Mute label (Handler.emits effect : Handler σ ε κ Unit) := by
  intro s e he
  rw [List.mem_singleton.mp he]
  exact h

theorem bind {m : Handler σ ε κ α} {k : α → Handler σ ε κ β} (hm : m.Mute label) (hk : ∀ a, (k a).Mute label) :
    Handler.Mute label (m >>= k) := by
  intro s e he
  rcases Handler.bind_cases m k s with ⟨_, _, heq⟩ | ⟨a, _, heq⟩
  · rw [heq] at he
    exact hm s e he
  · rw [heq] at he
    rcases List.mem_append.mp he with hfirst | hsecond
    · exact hm s e hfirst
    · exact hk a _ e hsecond

end Handler.Mute

end Mute

section Trail

variable {σ ε κ α β : Type} {move : σ → List ε → σ → Prop} {s t u : σ} {es fs : List ε}

-- Moves one after the other, with everything they do to the outside.
inductive Trail (move : σ → List ε → σ → Prop) (s : σ) : List ε → σ → Prop
  | rest : Trail move s [] s
  | next {es fs : List ε} {t u : σ} (trail : Trail move s es t) (step : move t fs u) :
      Trail move s (es ++ fs) u

theorem Trail.one (h : move s es t) : Trail move s es t := by
  simpa using Trail.rest.next h

theorem Trail.append (h : Trail move s es t) (h' : Trail move t fs u) : Trail move s (es ++ fs) u := by
  induction h' with
  | rest => simpa using h
  | next _ step ih =>
      rw [← List.append_assoc]
      exact ih.next step

-- Moves that are steps of another kind, without any of its labels.
theorem Trail.unlabelled {ω : Type} {step : σ → List ω → σ → Prop} (h : Trail move s es t)
    (hmove : ∀ s es t, move s es t → step s [] t) : Trail step s [] t := by
  induction h with
  | rest => exact .rest
  | next _ hstep ih => exact ih.next (hmove _ _ _ hstep)

-- What every move preserves, the earlier effects in view, holds at the end of a trail.
theorem Trail.invariant {I : List ε → σ → Prop}
    (hmove : ∀ p s es t, I p s → move s es t → I (p ++ es) t) {p : List ε}
    (hs : I p s) (h : Trail move s es t) : I (p ++ es) t := by
  induction h with
  | rest => simpa using hs
  | next _ step ih =>
      rw [← List.append_assoc]
      exact hmove _ _ _ _ ih step

-- Called in this state, the handler makes a trail of moves, and where it returns the
-- result and the state it leaves meet the postcondition.
structure Performs (move : σ → List ε → σ → Prop) (m : Handler σ ε κ α) (s : σ)
    (post : α → σ → Prop) : Prop where
  trail : Trail move s (m s).effects (m s).state
  returns : ∀ a, (m s).result = .ok a → post a (m s).state

namespace Performs

variable {m : Handler σ ε κ α} {post : α → σ → Prop}

theorem pure {a : α} (h : post a s) : Performs move (Pure.pure a : Handler σ ε κ α) s post := by
  refine ⟨.rest, ?_⟩
  intro b hb
  cases hb
  exact h

theorem throws (e : κ) : Performs move (Handler.throws e : Handler σ ε κ α) s post := by
  refine ⟨.rest, ?_⟩
  intro b hb
  cases hb

theorem reads (f : σ → α) :
    Performs move (Handler.reads f : Handler σ ε κ α) s fun a t => t = s ∧ a = f s := by
  refine ⟨.rest, ?_⟩
  intro b hb
  cases hb
  exact ⟨rfl, rfl⟩

theorem updates {f : σ → σ} (hmove : move s [] (f s)) :
    Performs move (Handler.updates f : Handler σ ε κ Unit) s fun _ t => t = f s :=
  ⟨.one hmove, fun _ _ => rfl⟩

theorem emits {effect : ε} (hmove : move s [effect] s) :
    Performs move (Handler.emits effect : Handler σ ε κ Unit) s fun _ t => t = s :=
  ⟨.one hmove, fun _ _ => rfl⟩

-- All of it in one move.
theorem single (hmove : move s (m s).effects (m s).state) : Performs move m s fun _ _ => True :=
  ⟨.one hmove, fun _ _ => trivial⟩

theorem bind {k : α → Handler σ ε κ β} {after : β → σ → Prop} (h : Performs move m s post)
    (hk : ∀ a t, post a t → Performs move (k a) t after) : Performs move (m >>= k) s after := by
  rcases Handler.bind_cases m k s with ⟨e, _, heq⟩ | ⟨a, hresult, heq⟩
  · refine ⟨?_, ?_⟩
    · rw [heq]
      exact h.trail
    · intro b hb
      rw [heq] at hb
      cases hb
  · have hrest := hk a _ (h.returns a hresult)
    refine ⟨?_, ?_⟩
    · rw [heq]
      exact h.trail.append hrest.trail
    · rw [heq]
      exact hrest.returns

-- A call that begins with a silent move and goes on as another one does from there.
theorem silently {n : Handler σ ε κ α} (hmove : move s [] t) (heq : m s = n t) (h : Performs move n t post) :
    Performs move m s post := by
  refine ⟨?_, ?_⟩
  · rw [heq]
    exact (Trail.one hmove).append h.trail
  · rw [heq]
    exact h.returns

theorem mono {post' : α → σ → Prop} (h : Performs move m s post)
    (himp : ∀ a t, post a t → post' a t) : Performs move m s post' :=
  ⟨h.trail, fun a ha => himp a _ (h.returns a ha)⟩

end Performs

-- Doing something to the outside only.
def Still (P : ε → Prop) (s : σ) (es : List ε) (t : σ) : Prop := t = s ∧ ∀ e ∈ es, P e

theorem Trail.still {P : ε → Prop} (h : Trail (Still P) s es t) : Still P s es t := by
  induction h with
  | rest => exact ⟨rfl, by simp⟩
  | next _ step ih =>
      obtain ⟨rfl, hes⟩ := ih
      obtain ⟨rfl, hfs⟩ := step
      refine ⟨rfl, ?_⟩
      intro e he
      rcases List.mem_append.mp he with he | he
      · exact hes e he
      · exact hfs e he

-- All that such a handler does to the outside counts as a single move.
theorem Performs.of_still {P : ε → Prop} {m : Handler σ ε κ α} {post : α → σ → Prop}
    (h : Performs (Still P) m s post) (hmove : ∀ es, (∀ e ∈ es, P e) → move s es s) :
    Performs move m s fun a t => t = s ∧ post a s := by
  obtain ⟨hstate, heffects⟩ := h.trail.still
  refine ⟨?_, ?_⟩
  · rw [hstate]
    exact .one (hmove _ heffects)
  · intro a ha
    have hpost := h.returns a ha
    rw [hstate] at hpost
    exact ⟨hstate, hpost⟩

end Trail

section Returns

variable {σ ε κ α β : Type} {s : σ}

-- Where the call returns, its result, what it did to the outside and the state it leaves meet the
-- postcondition.
def Handler.Returns (m : Handler σ ε κ α) (s : σ) (post : α → List ε → σ → Prop) : Prop :=
  ∀ a, (m s).result = .ok a → post a (m s).effects (m s).state

namespace Handler.Returns

variable {m : Handler σ ε κ α} {post other : α → List ε → σ → Prop}

theorem pure {a : α} (h : post a [] s) : Handler.Returns (Pure.pure a : Handler σ ε κ α) s post := by
  intro b hb
  cases hb
  exact h

theorem throws (e : κ) : Handler.Returns (Handler.throws e : Handler σ ε κ α) s post := by
  intro b hb
  cases hb

theorem reads (f : σ → α) :
    Handler.Returns (Handler.reads f : Handler σ ε κ α) s fun a es t => a = f s ∧ es = [] ∧ t = s := by
  intro b hb
  cases hb
  exact ⟨rfl, rfl, rfl⟩

theorem updates (f : σ → σ) :
    Handler.Returns (Handler.updates f : Handler σ ε κ Unit) s fun _ es t => es = [] ∧ t = f s :=
  fun _ _ => ⟨rfl, rfl⟩

theorem emits (effect : ε) :
    Handler.Returns (Handler.emits effect : Handler σ ε κ Unit) s fun _ es t => es = [effect] ∧ t = s :=
  fun _ _ => ⟨rfl, rfl⟩

theorem bind {k : α → Handler σ ε κ β} {after : β → List ε → σ → Prop} (h : m.Returns s post)
    (hk : ∀ a es t, post a es t → (k a).Returns t fun b fs u => after b (es ++ fs) u) :
    Handler.Returns (m >>= k) s after := by
  intro b hb
  rcases Handler.bind_cases m k s with ⟨e, _, heq⟩ | ⟨a, hresult, heq⟩
  · rw [heq] at hb
    cases hb
  · rw [heq] at hb ⊢
    exact hk a _ _ (h a hresult) b hb

theorem mono (h : m.Returns s post) (himp : ∀ a es t, post a es t → other a es t) : m.Returns s other :=
  fun a ha => himp a _ _ (h a ha)

theorem both (h : m.Returns s post) (h' : m.Returns s other) :
    m.Returns s fun a es t => post a es t ∧ other a es t := fun a ha => ⟨h a ha, h' a ha⟩

-- What is known of the moves of a call is known of its end.
theorem of_performs {move : σ → List ε → σ → Prop} {after : α → σ → Prop} (h : Performs move m s after) :
    m.Returns s fun a es t => Trail move s es t ∧ after a t := fun a ha => ⟨h.trail, h.returns a ha⟩

end Handler.Returns

end Returns

end SwarmDB
