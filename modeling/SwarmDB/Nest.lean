import Mathlib.Data.List.AList

namespace SwarmDB

-- A map whose entries are walked through in some order.
abbrev Assoc (K V : Type) := AList fun _ : K => V

namespace Assoc

variable {K V P L : Type} {k : K} {v : V} {m : Assoc K V}

-- An iterator stands for the entries that are still ahead of it. The loop erases the entry it is at, or
-- leaves it with the value it has been given there, and goes on to the next one.
def sweepEntries (visit : V → Option V) : List (Sigma fun _ : K => V) → List (Sigma fun _ : K => V)
  | [] => []
  | ⟨k, v⟩ :: rest =>
    match visit v with
    | none => sweepEntries visit rest
    | some kept => ⟨k, kept⟩ :: sweepEntries visit rest

theorem sweepEntries_keys (visit : V → Option V) (entries : List (Sigma fun _ : K => V)) :
    (sweepEntries visit entries).keys.Sublist entries.keys := by
  induction entries with
  | nil => exact List.Sublist.refl _
  | cons entry rest ih =>
      obtain ⟨k, v⟩ := entry
      unfold sweepEntries
      split
      · rw [List.keys_cons]
        exact ih.cons _
      · rw [List.keys_cons, List.keys_cons]
        exact ih.cons_cons _

def sweep (visit : V → Option V) (m : Assoc K V) : Assoc K V :=
  ⟨sweepEntries visit m.entries, (sweepEntries_keys visit m.entries).nodup m.nodupKeys⟩

-- The loop around a loop: what is left of an inner map stays if there is something left.
def sweepInner {K' V' : Type} (inner : Assoc K' V' → Assoc K' V') (m : Assoc K (Assoc K' V')) :
    Assoc K (Assoc K' V') :=
  m.sweep fun v => if (inner v).entries.isEmpty then none else some (inner v)

variable [DecidableEq K]

-- What operator[] does: the entry is there afterwards, with what becomes of its value.
def alter (k : K) (fresh : V) (f : V → V) (m : Assoc K V) : Assoc K V :=
  m.insert k (f ((m.lookup k).getD fresh))

theorem lookup_alter (k : K) (fresh : V) (f : V → V) (m : Assoc K V) (other : K) :
    (m.alter k fresh f).lookup other = if other = k then some (f ((m.lookup k).getD fresh)) else m.lookup other := by
  unfold alter
  split
  · rename_i hother
    rw [hother, AList.lookup_insert]
  · rename_i hother
    rw [AList.lookup_insert_ne hother]

theorem dlookup_sweepEntries (visit : V → Option V) (entries : List (Sigma fun _ : K => V))
    (hnodup : entries.NodupKeys) (k : K) :
    (sweepEntries visit entries).dlookup k = (entries.dlookup k).bind visit := by
  induction entries with
  | nil => rfl
  | cons entry rest ih =>
      obtain ⟨first, v⟩ := entry
      obtain ⟨hfirst, hrest⟩ := List.nodupKeys_cons.mp hnodup
      have hgone : (sweepEntries visit rest).dlookup first = none :=
        List.dlookup_eq_none.mpr fun hmem => hfirst ((sweepEntries_keys visit rest).mem hmem)
      unfold sweepEntries
      by_cases hk : k = first
      · subst hk
        rw [List.dlookup_cons_eq, Option.bind_some]
        cases visit v with
        | none => exact hgone
        | some kept => exact List.dlookup_cons_eq (β := fun _ => V) _ k kept
      · rw [List.dlookup_cons_ne rest ⟨first, v⟩ hk, ← ih hrest]
        cases visit v with
        | none => rfl
        | some kept => exact List.dlookup_cons_ne (β := fun _ => V) _ ⟨first, kept⟩ hk

theorem lookup_sweep (visit : V → Option V) (m : Assoc K V) (k : K) :
    (m.sweep visit).lookup k = (m.lookup k).bind visit :=
  dlookup_sweepEntries visit m.entries m.nodupKeys k

theorem mem_entries : ⟨k, v⟩ ∈ m.entries ↔ m.lookup k = some v := AList.mem_lookup_iff.symm

def get (m : Assoc K V) (k : K) : Option V := m.lookup k

section Paths

variable {read : V → P → Option L} {f : V → V} {q : P} {leaf : Option L} {visit : V → Option V} {keep : L → Bool}

-- What stands at the end of a path through maps of maps.
def readAt (read : V → P → Option L) (m : Assoc K V) (path : K × P) : Option L :=
  (m.lookup path.1).bind fun v => read v path.2

theorem readAt_empty (read : V → P → Option L) (path : K × P) : readAt read (∅ : Assoc K V) path = none := by
  unfold readAt
  rw [AList.lookup_empty]
  rfl

-- A change at one place.
structure Sets (read : V → P → Option L) (f : V → V) (q : P) (leaf : Option L) : Prop where
  here : ∀ v, read (f v) q = leaf
  elsewhere : ∀ v p, p ≠ q → read (f v) p = read v p

theorem sets_insert (k : K) (v : V) : Sets get (AList.insert k v) k (some v) where
  here m := m.lookup_insert
  elsewhere _ _ hne := AList.lookup_insert_ne hne

theorem sets_erase (k : K) : Sets (V := Assoc K V) get (AList.erase k) k none where
  here m := m.lookup_erase k
  elsewhere _ _ hne := AList.lookup_erase_ne hne

theorem Sets.alter (h : Sets read f q leaf) {fresh : V} (hfresh : ∀ p, read fresh p = none) (k : K) :
    Sets (readAt read) (Assoc.alter k fresh f) (k, q) leaf := by
  have hself : ∀ m p, readAt read (Assoc.alter k fresh f m) (k, p) = read (f ((m.lookup k).getD fresh)) p := by
    intro m p
    rw [readAt, lookup_alter, if_pos rfl, Option.bind_some]
  constructor
  · intro m
    rw [hself, h.here]
  · rintro m ⟨other, p⟩ hne
    by_cases hother : other = k
    · subst hother
      have hp : p ≠ q := fun hp => hne (by rw [hp])
      rw [hself, h.elsewhere _ _ hp]
      unfold readAt
      cases m.lookup other with
      | none => exact hfresh p
      | some v => rfl
    · unfold readAt
      rw [lookup_alter, if_neg hother]

-- A walk that drops what is not to be kept.
def Drops (read : V → P → Option L) (visit : V → Option V) (keep : L → Bool) : Prop :=
  ∀ v p, ((visit v).bind fun kept => read kept p) = (read v p).filter keep

-- An inner map of which nothing is left counts as one that keeps nothing.
theorem drops_inner {K' V' : Type} {read : Assoc K' V' → P → Option L} {inner : Assoc K' V' → Assoc K' V'}
    (hempty : ∀ p, read ∅ p = none) (h : ∀ m p, read (inner m) p = (read m p).filter keep) :
    Drops read (fun v => if (inner v).entries.isEmpty then none else some (inner v)) keep := by
  intro m p
  dsimp only
  split
  · rename_i hnone
    have hgone : inner m = ∅ := AList.ext (List.isEmpty_iff.mp hnone)
    rw [Option.bind_none, ← h m p, hgone, hempty]
  · rw [Option.bind_some, h]

theorem get_sweep (keep : V → Bool) (m : Assoc K V) (k : K) :
    (m.sweep fun v => if keep v then some v else none).get k = (m.get k).filter keep := by
  unfold get
  rw [lookup_sweep]
  cases m.lookup k with
  | none => rfl
  | some v => simp [Option.filter]

theorem Drops.sweep (h : Drops read visit keep) (m : Assoc K V) (path : K × P) :
    readAt read (m.sweep visit) path = (readAt read m path).filter keep := by
  unfold readAt
  rw [lookup_sweep, Option.bind_assoc]
  cases m.lookup path.1 with
  | none => rfl
  | some v => exact h v path.2

end Paths

section Levels

-- This holds of all values.
def Every (inner : V → Prop) (m : Assoc K V) : Prop := ∀ k v, m.lookup k = some v → inner v

theorem every_sweep {visit : V → Option V} {inner : V → Prop} (h : ∀ v kept, visit v = some kept → inner kept)
    (m : Assoc K V) : Every inner (m.sweep visit) := by
  intro k v hlookup
  rw [lookup_sweep] at hlookup
  obtain ⟨held, _, hvisit⟩ := Option.bind_eq_some_iff.mp hlookup
  exact h held v hvisit

theorem every_sweepInner {K' V' : Type} {inner : Assoc K' V' → Assoc K' V'} {P : Assoc K' V' → Prop}
    (h : ∀ m, P (inner m)) (m : Assoc K (Assoc K' V')) :
    Every (fun v => v.entries ≠ [] ∧ P v) (m.sweepInner inner) := by
  apply every_sweep
  intro v kept hkept
  split at hkept
  · cases hkept
  · rename_i hsome
    obtain rfl := Option.some.inj hkept
    exact ⟨fun hnil => hsome (List.isEmpty_iff.mpr hnil), h v⟩

end Levels

end Assoc

end SwarmDB
