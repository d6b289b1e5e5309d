import SwarmDB.Quorum

-- Logs that only ever grow at their end, one for each node. An entry carries the
-- term it was created in, and each term has at most one node that creates entries.
namespace SwarmDB.ReplicatedLog

open SwarmDB.Quorum

variable {ι τ ε : Type}

section Prefix

variable {l l' : List ε}

theorem take_of_grown (h : l <+: l') {k : Nat} (hk : k ≤ l.length) : l'.take k = l.take k := by
  obtain ⟨rest, rfl⟩ := h
  exact List.take_append_of_le_length hk

theorem getElem?_of_grown (h : l <+: l') {i : Nat} {e : ε} (he : l[i]? = some e) :
    l'[i]? = some e := by
  obtain ⟨rest, rfl⟩ := h
  obtain ⟨hi, _⟩ := List.getElem?_eq_some_iff.mp he
  rw [List.getElem?_append_left hi]
  exact he

theorem getElem?_of_take_eq {k i : Nat} (h : l.take k = l'.take k) (hi : i < k) :
    l[i]? = l'[i]? := by
  rw [← List.getElem?_take_of_lt hi, h, List.getElem?_take_of_lt hi]

theorem take_eq_of_take_eq {j k : Nat} (h : l.take k = l'.take k) (hj : j ≤ k) :
    l.take j = l'.take j := by
  have hmin : min j k = j := Nat.min_eq_left hj
  rw [← hmin, ← List.take_take, h, List.take_take]

end Prefix

-- Every entry past the first stands in the log of a leader of its term, with the
-- same entries before it.
def Rooted (term : ε → τ) (led : τ → ι → Prop) (logs : ι → List ε) : Prop :=
  ∀ n i e, (logs n)[i]? = some e → i = 0 ∨
    ∃ o, led (term e) o ∧ (logs o).take (i + 1) = (logs n).take (i + 1)

section Matching

variable {term : ε → τ} {led led' : τ → ι → Prop} {logs logs' : ι → List ε}

theorem Rooted.matching (hr : Rooted term led logs)
    (hroot : ∀ n m, (logs n).take 1 = (logs m).take 1)
    (hled : ∀ t a b, led t a → led t b → a = b) {n m : ι} {i : Nat} {e e' : ε}
    (hn : (logs n)[i]? = some e) (hm : (logs m)[i]? = some e') (ht : term e = term e') :
    (logs n).take (i + 1) = (logs m).take (i + 1) := by
  rcases hr n i e hn with rfl | ⟨o, ho, hon⟩
  · exact hroot n m
  rcases hr m i e' hm with rfl | ⟨o', ho', hom⟩
  · exact hroot n m
  have hsame : o = o' := hled (term e) o o' ho (ht ▸ ho')
  rw [← hon, ← hom, hsame]

-- A new entry is either created by a leader of its term or copied, with all that
-- stands before it, from a log that already held it.
theorem Rooted.grow (hr : Rooted term led logs) (hgrow : ∀ n, logs n <+: logs' n)
    (hmono : ∀ t o, led t o → led' t o)
    (hnew : ∀ n i e, (logs n).length ≤ i → (logs' n)[i]? = some e →
      led' (term e) n ∨
        ∃ p, i < (logs p).length ∧ (logs p).take (i + 1) = (logs' n).take (i + 1)) :
    Rooted term led' logs' := by
  -- an entry that stood somewhere before keeps its root
  have hold : ∀ n i e, (logs n)[i]? = some e → i = 0 ∨
      ∃ o, led' (term e) o ∧ (logs' o).take (i + 1) = (logs n).take (i + 1) := by
    intro n i e he
    rcases hr n i e he with h | ⟨o, ho, heq⟩
    · exact Or.inl h
    · have hi := (List.getElem?_eq_some_iff.mp he).1
      have hlen := congrArg List.length heq
      simp only [List.length_take] at hlen
      exact Or.inr ⟨o, hmono _ _ ho,
        (take_of_grown (hgrow o) (by omega)).trans heq⟩
  intro n i e he
  by_cases hi : i < (logs n).length
  · have htake : (logs' n).take (i + 1) = (logs n).take (i + 1) :=
      take_of_grown (hgrow n) (by omega)
    have he' : (logs n)[i]? = some e := by
      rw [← he]
      exact getElem?_of_take_eq htake.symm (by omega)
    rcases hold n i e he' with h | ⟨o, ho, heq⟩
    · exact Or.inl h
    · exact Or.inr ⟨o, ho, heq.trans htake.symm⟩
  · rcases hnew n i e (by omega) he with hl | ⟨p, hp, heq⟩
    · exact Or.inr ⟨n, hl, rfl⟩
    · have he' : (logs p)[i]? = some e := by
        rw [← he]
        exact getElem?_of_take_eq heq (by omega)
      rcases hold p i e he' with h | ⟨o, ho, heq'⟩
      · exact Or.inl h
      · exact Or.inr ⟨o, ho, heq'.trans heq⟩

end Matching

-- A majority of the members holds the entry at this index. Logs never shrink, so
-- this is final.
noncomputable def Chosen (members : List ι) (logs : ι → List ε) (i : Nat) (e : ε) : Prop :=
  Majority members (fun u => (logs u)[i]? = some e)

section Choice

variable {members : List ι} {logs logs' : ι → List ε} {i : Nat} {e e' : ε}

theorem Chosen.grow (h : Chosen members logs i e) (hgrow : ∀ n, logs n <+: logs' n) :
    Chosen members logs' i e :=
  h.mono fun u _ hu => getElem?_of_grown (hgrow u) hu

theorem Chosen.unique (h : Chosen members logs i e) (h' : Chosen members logs i e') : e = e' := by
  obtain ⟨u, _, hu, hu'⟩ := h.exists_common h'
  exact Option.some.inj (hu.symm.trans hu')

end Choice

end SwarmDB.ReplicatedLog
