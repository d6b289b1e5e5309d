import SwarmDB.Machine
import SwarmDB.Pbft.Configuration
import Mathlib.Data.List.TakeWhile

namespace SwarmDB.Pbft

namespace ConfigStore

variable {store : ConfigStore} {entry : ConfigEntry} {hash : Hash}

section Indices

-- Indices only grow.
structure Indexed (store : ConfigStore) : Prop where
  increasing : store.configs.Pairwise fun a b => a.index < b.index
  below : ∀ entry ∈ store.configs, entry.index < store.nextIndex

theorem Indexed.sublist {later : ConfigStore} (h : Indexed store) (hsublist : later.configs.Sublist store.configs)
    (hnext : later.nextIndex = store.nextIndex) : Indexed later :=
  ⟨h.increasing.sublist hsublist, fun entry hentry => hnext ▸ h.below entry (hsublist.subset hentry)⟩

theorem Indexed.add (h : Indexed store) (config : Configuration) : Indexed (store.add config) := by
  refine ⟨?_, ?_⟩
  · refine List.pairwise_append.mpr ⟨h.increasing, List.pairwise_singleton _ _, ?_⟩
    intro entry hentry added hadded
    rw [List.mem_singleton.mp hadded]
    exact h.below entry hentry
  · intro entry hentry
    rcases List.mem_append.mp hentry with hentry | hentry
    · exact Nat.lt_succ_of_lt (h.below entry hentry)
    · rw [List.mem_singleton.mp hentry]
      exact Nat.lt_succ_self _

theorem mem_setFlag {val : Bool} {configs : List ConfigEntry} (h : entry ∈ setFlag hash val configs) :
    ∃ old ∈ configs, entry.index = old.index := by
  induction configs with
  | nil => cases h
  | cons first rest ih =>
      unfold setFlag at h
      split at h
      · rcases List.mem_cons.mp h with rfl | hrest
        · exact ⟨first, List.mem_cons_self, rfl⟩
        · exact ⟨entry, List.mem_cons_of_mem _ hrest, rfl⟩
      · rcases List.mem_cons.mp h with rfl | hrest
        · exact ⟨entry, List.mem_cons_self, rfl⟩
        · obtain ⟨old, hold, hindex⟩ := ih hrest
          exact ⟨old, List.mem_cons_of_mem _ hold, hindex⟩

theorem pairwise_setFlag {val : Bool} {configs : List ConfigEntry}
    (h : configs.Pairwise fun a b => a.index < b.index) :
    (setFlag hash val configs).Pairwise fun a b => a.index < b.index := by
  induction configs with
  | nil => exact List.Pairwise.nil
  | cons first rest ih =>
      obtain ⟨hfirst, hrest⟩ := List.pairwise_cons.mp h
      unfold setFlag
      split
      · exact List.pairwise_cons.mpr ⟨hfirst, hrest⟩
      · refine List.pairwise_cons.mpr ⟨?_, ih hrest⟩
        intro entry hentry
        obtain ⟨old, hold, hindex⟩ := mem_setFlag hentry
        rw [hindex]
        exact hfirst old hold

theorem Indexed.enable (h : Indexed store) (hash : Hash) (val : Bool) : Indexed (store.enable hash val).2 := by
  refine ⟨pairwise_setFlag h.increasing, ?_⟩
  intro entry hentry
  obtain ⟨old, hold, hindex⟩ := mem_setFlag hentry
  rw [hindex]
  exact h.below old hold

theorem Indexed.removePriorTo (h : Indexed store) (hash : Hash) : Indexed (store.removePriorTo hash).2 := by
  unfold ConfigStore.removePriorTo
  cases store.findByHash hash with
  | none => exact h
  | some entry =>
      refine h.sublist ?_ rfl
      conv => rhs; rw [← List.takeWhile_append_dropWhile
        (p := fun entry : ConfigEntry => entry.config.cachedHash != hash) (l := store.configs)]
      exact (List.filter_sublist).append (List.Sublist.refl _)

theorem Indexed.setCurrent (h : Indexed store) (hash : Hash) : Indexed (store.setCurrent hash).2 := by
  unfold ConfigStore.setCurrent
  cases store.findByHash hash with
  | none => exact h
  | some entry => exact ⟨h.increasing, h.below⟩

theorem find?_index {configs : List ConfigEntry} (h : configs.Pairwise fun a b => a.index < b.index)
    (hentry : entry ∈ configs) : (configs.find? fun other => other.index == entry.index) = some entry := by
  induction configs with
  | nil => cases hentry
  | cons first rest ih =>
      obtain ⟨hfirst, hrest⟩ := List.pairwise_cons.mp h
      rcases List.mem_cons.mp hentry with rfl | hentry
      · simp
      · have hne : first.index ≠ entry.index := Nat.ne_of_lt (hfirst entry hentry)
        rw [List.find?_cons_of_neg (by simpa using hne)]
        exact ih hrest hentry

-- The step to another configuration gets to the one that was found.
theorem current_setCurrent (h : Indexed store) (hfound : store.findByHash hash = some entry) :
    (store.setCurrent hash).2.current = some entry.config := by
  have hentry : entry ∈ store.configs := List.mem_of_find?_eq_some hfound
  simp [setCurrent, hfound, current, find?_index h.increasing hentry]

theorem current_move (h : Indexed store) (hfound : store.findByHash hash = some entry) :
    ((store.setCurrent hash).2.removePriorTo hash).2.current = some entry.config := by
  rw [current_removePriorTo, current_setCurrent h hfound]

end Indices

section Slots

-- What a store holds, without the indices: configurations in the order of their addition, each with its
-- flag and whether it is the current one.
structure Slot where
  config : Configuration
  enabled : Bool
  current : Bool
  deriving DecidableEq, Repr

def Slot.retired (slot : Slot) : Slot := { slot with current := false }

inductive StoreCall
  | add (config : Configuration)
  | enable (hash : Hash) (val : Bool)
  | setCurrent (hash : Hash)
  | removePriorTo (hash : Hash)
  | get (hash : Hash)
  | isEnabled (hash : Hash)
  | current
  deriving DecidableEq, Repr

inductive Answer
  | done (success : Bool)
  | found (config : Option Configuration)
  deriving DecidableEq, Repr

-- The hash that a call looks for, and its answer where no configuration has it.
def StoreCall.lookup : StoreCall → Option (Hash × Answer)
  | enable hash _ | setCurrent hash | removePriorTo hash | isEnabled hash => some (hash, .done false)
  | get hash => some (hash, .found none)
  | add _ | current => none

-- None of the slots has the hash.
def Without (hash : Hash) (slots : List Slot) : Prop := ∀ slot ∈ slots, slot.config.cachedHash ≠ hash

-- What each call answers and leaves of the slots. The slot that a hash is about has none of that hash before it.
inductive Follows : List Slot → StoreCall → Answer → List Slot → Prop
  | add {slots : List Slot} {config : Configuration} :
      Follows slots (.add config) (.done true) (slots ++ [⟨config, false, false⟩])
  | enable {before after : List Slot} {slot : Slot} {val : Bool} (hbefore : Without slot.config.cachedHash before) :
      Follows (before ++ slot :: after) (.enable slot.config.cachedHash val) (.done true)
        (before ++ { slot with enabled := val } :: after)
  | setCurrent {before after : List Slot} {slot : Slot} (hbefore : Without slot.config.cachedHash before) :
      Follows (before ++ slot :: after) (.setCurrent slot.config.cachedHash) (.done true)
        (before.map Slot.retired ++ { slot with current := true } :: after.map Slot.retired)
  | removePriorTo {before after : List Slot} {slot : Slot} (hbefore : Without slot.config.cachedHash before) :
      Follows (before ++ slot :: after) (.removePriorTo slot.config.cachedHash) (.done true)
        (before.filter Slot.current ++ slot :: after)
  | get {before after : List Slot} {slot : Slot} (hbefore : Without slot.config.cachedHash before) :
      Follows (before ++ slot :: after) (.get slot.config.cachedHash) (.found (some slot.config))
        (before ++ slot :: after)
  | isEnabled {before after : List Slot} {slot : Slot} (hbefore : Without slot.config.cachedHash before) :
      Follows (before ++ slot :: after) (.isEnabled slot.config.cachedHash) (.done slot.enabled)
        (before ++ slot :: after)
  | absent {slots : List Slot} {call : StoreCall} {hash : Hash} {answer : Answer}
      (hlookup : call.lookup = some (hash, answer)) (habsent : Without hash slots) : Follows slots call answer slots
  | current {before after : List Slot} {slot : Slot} (hcurrent : slot.current = true) :
      Follows (before ++ slot :: after) .current (.found (some slot.config)) (before ++ slot :: after)
  | noCurrent {slots : List Slot} (hnone : ∀ slot ∈ slots, slot.current = false) :
      Follows slots .current (.found none) slots

-- An ordered list of slots that starts empty, with the calls and answers so far, the latest first.
inductive Behaves : List (StoreCall × Answer) → List Slot → Prop
  | start : Behaves [] []
  | step {trace : List (StoreCall × Answer)} {slots next : List Slot} {call : StoreCall} {answer : Answer}
      (h : Behaves trace slots) (hfollows : Follows slots call answer next) : Behaves ((call, answer) :: trace) next

end Slots

section Calls

-- Inserting into the map succeeds where the index is new.
def StoreCall.answer (store : ConfigStore) : StoreCall → Answer
  | add _ => .done !(store.configs.any fun entry => entry.index == store.nextIndex)
  | enable hash val => .done (store.enable hash val).1
  | setCurrent hash => .done (store.setCurrent hash).1
  | removePriorTo hash => .done (store.removePriorTo hash).1
  | get hash => .found (store.get hash)
  | isEnabled hash => .done (store.isEnabled hash)
  | current => .found store.current

-- A store from its construction on, under any calls.
def storing : Machine ConfigStore StoreCall where
  init store := store = {}
  enabled _ _ := True
  next store
    | .add config => store.add config
    | .enable hash val => (store.enable hash val).2
    | .setCurrent hash => (store.setCurrent hash).2
    | .removePriorTo hash => (store.removePriorTo hash).2
    | .get _ | .isEnabled _ | .current => store

def slotOf (store : ConfigStore) (entry : ConfigEntry) : Slot :=
  ⟨entry.config, entry.enabled, entry.index == store.currentIndex⟩

def slots (store : ConfigStore) : List Slot := store.configs.map store.slotOf

-- The entry that the last set_current that found one has found.
def chosen : List (ConfigStore × StoreCall) → Option ConfigEntry
  | [] => none
  | (store, .setCurrent hash) :: past => (store.findByHash hash).or (chosen past)
  | (_, .add _) :: past | (_, .enable _ _) :: past | (_, .removePriorTo _) :: past | (_, .get _) :: past
  | (_, .isEnabled _) :: past | (_, .current) :: past => chosen past

end Calls

section Refinement

variable {past : List (ConfigStore × StoreCall)} {before after : List ConfigEntry} {configs : List ConfigEntry}

-- No index is given out twice, and the current one has been given out.
structure Sound (store : ConfigStore) : Prop where
  indexed : store.Indexed
  given : store.currentIndex < store.nextIndex

theorem findByHash_none (h : store.findByHash hash = none) : Without hash store.slots := by
  intro slot hslot
  obtain ⟨entry, hentry, rfl⟩ := List.mem_map.mp hslot
  have hhash := List.find?_eq_none.mp h entry hentry
  exact fun heq => hhash (beq_iff_eq.mpr heq)

-- An entry that is found splits the entries around it.
theorem findByHash_some (h : store.findByHash hash = some entry) : entry.config.cachedHash = hash ∧
    ∃ before after, store.configs = before ++ entry :: after ∧
      ∀ other ∈ before, other.config.cachedHash ≠ hash := by
  obtain ⟨hhash, before, after, hconfigs, hbefore⟩ := List.find?_eq_some_iff_append.mp h
  refine ⟨by simpa using hhash, before, after, hconfigs, ?_⟩
  intro other hother
  simpa using hbefore other hother

theorem setFlag_split {val : Bool} (hbefore : ∀ other ∈ before, other.config.cachedHash ≠ entry.config.cachedHash) :
    setFlag entry.config.cachedHash val (before ++ entry :: after) =
      before ++ { entry with enabled := val } :: after := by
  induction before with
  | nil => simp [setFlag]
  | cons first rest ih =>
      obtain ⟨hfirst, hrest⟩ := List.forall_mem_cons.mp hbefore
      rw [List.cons_append, setFlag, if_neg hfirst, ih hrest]
      rfl

theorem setFlag_absent {val : Bool} (habsent : ∀ other ∈ configs, other.config.cachedHash ≠ hash) :
    setFlag hash val configs = configs := by
  induction configs with
  | nil => rfl
  | cons first rest ih =>
      obtain ⟨hfirst, hrest⟩ := List.forall_mem_cons.mp habsent
      rw [setFlag, if_neg hfirst, ih hrest]

theorem dropWhile_split (after : List ConfigEntry)
    (hbefore : ∀ other ∈ before, other.config.cachedHash ≠ entry.config.cachedHash) :
    (before ++ entry :: after).takeWhile (fun other => other.config.cachedHash != entry.config.cachedHash) = before ∧
      (before ++ entry :: after).dropWhile (fun other => other.config.cachedHash != entry.config.cachedHash) =
        entry :: after := by
  have hall : ∀ other ∈ before, (other.config.cachedHash != entry.config.cachedHash) = true := by
    simpa using hbefore
  rw [List.takeWhile_append_of_pos hall, List.dropWhile_append_of_pos hall]
  simp

theorem slots_split (store : ConfigStore) (hconfigs : store.configs = before ++ entry :: after) :
    store.slots = before.map store.slotOf ++ store.slotOf entry :: after.map store.slotOf := by
  rw [slots, hconfigs, List.map_append, List.map_cons]

theorem without_map (store : ConfigStore)
    (hbefore : ∀ other ∈ before, other.config.cachedHash ≠ hash) : Without hash (before.map store.slotOf) := by
  intro slot hslot
  obtain ⟨other, hother, rfl⟩ := List.mem_map.mp hslot
  exact hbefore other hother

-- Around an entry, no other one has its index.
theorem ne_index_of_split (h : store.Indexed) (hconfigs : store.configs = before ++ entry :: after) :
    ∀ other ∈ before ++ after, other.index ≠ entry.index := by
  have hincreasing := h.increasing
  rw [hconfigs] at hincreasing
  obtain ⟨_, hafter, hbefore⟩ := List.pairwise_append.mp hincreasing
  intro other hother
  rcases List.mem_append.mp hother with hother | hother
  · exact Nat.ne_of_lt (hbefore other hother entry List.mem_cons_self)
  · exact (Nat.ne_of_lt ((List.pairwise_cons.mp hafter).1 other hother)).symm

theorem retired_map (store : ConfigStore) (hother : ∀ other ∈ configs, other.index ≠ entry.index) :
    configs.map ({ store with currentIndex := entry.index } : ConfigStore).slotOf =
      (configs.map store.slotOf).map Slot.retired := by
  rw [List.map_map]
  apply List.map_congr_left
  intro other hmem
  simp [slotOf, Slot.retired, hother other hmem]

theorem add_follows (h : Sound store) (config : Configuration) :
    Follows store.slots (.add config) (StoreCall.answer store (.add config)) (store.add config).slots := by
  have hnew : store.configs.any (fun entry => entry.index == store.nextIndex) = false := by
    rw [List.any_eq_false]
    intro entry hentry heq
    exact absurd (h.indexed.below entry hentry) (by rw [beq_iff_eq.mp heq]; exact Nat.lt_irrefl _)
  have hslots : (store.add config).slots = store.slots ++ [⟨config, false, false⟩] := by
    have hfresh : (store.nextIndex == store.currentIndex) = false := beq_false_of_ne (Nat.ne_of_gt h.given)
    rw [slots, add, List.map_append, List.map_singleton]
    exact congrArg (fun current => store.slots ++ [⟨config, false, current⟩]) hfresh
  rw [hslots]
  simp only [StoreCall.answer, hnew, Bool.not_false]
  exact .add

theorem enable_follows (store : ConfigStore) (hash : Hash) (val : Bool) :
    Follows store.slots (.enable hash val) (.done (store.enable hash val).1) (store.enable hash val).2.slots := by
  cases hfind : store.findByHash hash with
  | none =>
      have hsame : setFlag hash val store.configs = store.configs :=
        setFlag_absent fun entry hentry heq => List.find?_eq_none.mp hfind entry hentry (beq_iff_eq.mpr heq)
      simp only [enable, hfind, hsame, Option.isSome_none]
      exact .absent rfl (findByHash_none hfind)
  | some entry =>
      obtain ⟨rfl, before, after, hconfigs, hbefore⟩ := findByHash_some hfind
      have hslots : (store.enable entry.config.cachedHash val).2.slots = before.map store.slotOf ++
          { store.slotOf entry with enabled := val } :: after.map store.slotOf := by
        rw [slots, enable, hconfigs, setFlag_split hbefore, List.map_append, List.map_cons]
        rfl
      rw [hslots, slots_split store hconfigs]
      simp only [enable, hfind, Option.isSome_some]
      exact .enable (without_map store hbefore)

theorem setCurrent_follows (h : Sound store) (hash : Hash) :
    Follows store.slots (.setCurrent hash) (.done (store.setCurrent hash).1) (store.setCurrent hash).2.slots := by
  cases hfind : store.findByHash hash with
  | none =>
      simp only [setCurrent, hfind]
      exact .absent rfl (findByHash_none hfind)
  | some entry =>
      obtain ⟨rfl, before, after, hconfigs, hbefore⟩ := findByHash_some hfind
      have hne := ne_index_of_split h.indexed hconfigs
      have hslots : ({ store with currentIndex := entry.index } : ConfigStore).slots =
          (before.map store.slotOf).map Slot.retired ++
            { store.slotOf entry with current := true } :: (after.map store.slotOf).map Slot.retired := by
        have hsplit := slots_split { store with currentIndex := entry.index } hconfigs
        rw [hsplit, retired_map store fun other hother => hne other (List.mem_append_left _ hother),
          retired_map store fun other hother => hne other (List.mem_append_right _ hother)]
        simp [slotOf]
      simp only [setCurrent, hfind]
      rw [hslots, slots_split store hconfigs]
      exact .setCurrent (without_map store hbefore)

theorem removePriorTo_follows (store : ConfigStore) (hash : Hash) :
    Follows store.slots (.removePriorTo hash) (.done (store.removePriorTo hash).1)
      (store.removePriorTo hash).2.slots := by
  cases hfind : store.findByHash hash with
  | none =>
      simp only [removePriorTo, hfind]
      exact .absent rfl (findByHash_none hfind)
  | some entry =>
      obtain ⟨rfl, before, after, hconfigs, hbefore⟩ := findByHash_some hfind
      obtain ⟨htake, hdrop⟩ := dropWhile_split after hbefore
      have hslots : (store.removePriorTo entry.config.cachedHash).2.slots =
          (before.map store.slotOf).filter Slot.current ++ store.slotOf entry :: after.map store.slotOf := by
        simp only [removePriorTo, hfind, hconfigs, htake, hdrop, slots, List.map_append, List.map_cons]
        rw [List.filter_map]
        rfl
      rw [hslots, slots_split store hconfigs]
      simp only [removePriorTo, hfind]
      exact .removePriorTo (without_map store hbefore)

theorem get_follows (store : ConfigStore) (hash : Hash) :
    Follows store.slots (.get hash) (.found (store.get hash)) store.slots := by
  cases hfind : store.findByHash hash with
  | none =>
      simp only [get, hfind, Option.map_none]
      exact .absent rfl (findByHash_none hfind)
  | some entry =>
      obtain ⟨rfl, before, after, hconfigs, hbefore⟩ := findByHash_some hfind
      simp only [get, hfind, Option.map_some]
      rw [slots_split store hconfigs]
      exact .get (without_map store hbefore)

theorem isEnabled_follows (store : ConfigStore) (hash : Hash) :
    Follows store.slots (.isEnabled hash) (.done (store.isEnabled hash)) store.slots := by
  cases hfind : store.findByHash hash with
  | none =>
      simp only [isEnabled, hfind, Option.map_none, Option.getD_none]
      exact .absent rfl (findByHash_none hfind)
  | some entry =>
      obtain ⟨rfl, before, after, hconfigs, hbefore⟩ := findByHash_some hfind
      simp only [isEnabled, hfind, Option.map_some, Option.getD_some]
      rw [slots_split store hconfigs]
      exact .isEnabled (without_map store hbefore)

theorem current_follows (store : ConfigStore) : Follows store.slots .current (.found store.current) store.slots := by
  cases hfind : store.configs.find? fun entry => entry.index == store.currentIndex with
  | none =>
      simp only [current, hfind, Option.map_none]
      refine .noCurrent ?_
      intro slot hslot
      obtain ⟨entry, hentry, rfl⟩ := List.mem_map.mp hslot
      have hindex := List.find?_eq_none.mp hfind entry hentry
      exact eq_false_of_ne_true hindex
  | some entry =>
      obtain ⟨hindex, before, after, hconfigs, _⟩ := List.find?_eq_some_iff_append.mp hfind
      simp only [current, hfind, Option.map_some]
      rw [slots_split store hconfigs]
      exact .current hindex

theorem call_follows (h : Sound store) (call : StoreCall) :
    Follows store.slots call (call.answer store) (storing.next store call).slots := by
  cases call with
  | add config => exact add_follows h config
  | enable hash val => exact enable_follows store hash val
  | setCurrent hash => exact setCurrent_follows h hash
  | removePriorTo hash => exact removePriorTo_follows store hash
  | get hash => exact get_follows store hash
  | isEnabled hash => exact isEnabled_follows store hash
  | current => exact current_follows store

theorem removePriorTo_indices (store : ConfigStore) (hash : Hash) :
    (store.removePriorTo hash).2.currentIndex = store.currentIndex ∧
      (store.removePriorTo hash).2.nextIndex = store.nextIndex := by
  unfold removePriorTo
  cases store.findByHash hash with
  | none => exact ⟨rfl, rfl⟩
  | some entry => exact ⟨rfl, rfl⟩

theorem Sound.next (h : Sound store) (call : StoreCall) : Sound (storing.next store call) := by
  cases call with
  | add config => exact ⟨h.indexed.add config, Nat.lt_succ_of_lt h.given⟩
  | enable hash val => exact ⟨h.indexed.enable hash val, h.given⟩
  | setCurrent hash =>
      refine ⟨h.indexed.setCurrent hash, ?_⟩
      cases hfind : store.findByHash hash with
      | none => simpa [storing, setCurrent, hfind] using h.given
      | some entry =>
          have hbelow := h.indexed.below entry (List.mem_of_find?_eq_some hfind)
          simpa [storing, setCurrent, hfind] using hbelow
  | removePriorTo hash =>
      refine ⟨h.indexed.removePriorTo hash, ?_⟩
      obtain ⟨hcurrent, hnext⟩ := removePriorTo_indices store hash
      change (store.removePriorTo hash).2.currentIndex < (store.removePriorTo hash).2.nextIndex
      rw [hcurrent, hnext]
      exact h.given
  | get _ | isEnabled _ | current => exact h

theorem sound_of_run (run : storing.Run past store) : Sound store := by
  refine run.invariant (I := fun _ store => Sound store) ?_ fun _ _ call _ h _ => h.next call
  rintro _ rfl
  exact ⟨⟨List.Pairwise.nil, by simp⟩, Nat.zero_lt_one⟩

-- An added configuration is not the current one, even where there is none.
theorem current_add_eq (h : Sound store) (config : Configuration) : (store.add config).current = store.current := by
  have hfresh : (store.nextIndex == store.currentIndex) = false := beq_false_of_ne (Nat.ne_of_gt h.given)
  simp [current, add, List.find?_append, hfresh]

-- The current configuration is the one that was chosen last.
theorem current_of_run (run : storing.Run past store) : store.current = (chosen past).map ConfigEntry.config ∧
    ∀ entry, chosen past = some entry → store.currentIndex = entry.index := by
  induction run with
  | start hinit =>
      subst hinit
      exact ⟨rfl, by simp [chosen]⟩
  | @step past store call run _ ih =>
      have h := sound_of_run run
      cases call with
      | add config => exact ⟨(current_add_eq h config).trans ih.1, ih.2⟩
      | enable hash val => exact ⟨(store.current_enable hash val).trans ih.1, ih.2⟩
      | setCurrent hash =>
          cases hfind : store.findByHash hash with
          | none => simpa [storing, setCurrent, chosen, hfind] using ih
          | some entry =>
              have hcurrent := current_setCurrent h.indexed hfind
              simpa [storing, setCurrent, chosen, hfind] using hcurrent
      | removePriorTo hash =>
          refine ⟨(store.current_removePriorTo hash).trans ih.1, ?_⟩
          intro entry hentry
          exact (removePriorTo_indices store hash).1.trans (ih.2 entry hentry)
      | get _ | isEnabled _ | current => exact ih

theorem behaves_of_run (run : storing.Run past store) :
    Behaves (past.map fun step => (step.2, step.2.answer step.1)) store.slots := by
  induction run with
  | start hinit =>
      subst hinit
      exact .start
  | step run _ ih => exact .step ih (call_follows (sound_of_run run) _)

-- A store is an ordered list of configurations with their flags. The entry that was chosen last is there,
-- and it is the only current one.
structure Refines (past : List (ConfigStore × StoreCall)) (store : ConfigStore) : Prop where
  behaves : Behaves (past.map fun step => (step.2, step.2.answer step.1)) store.slots
  current : store.current = (chosen past).map ConfigEntry.config
  kept : ∀ entry, chosen past = some entry →
    ∃ held ∈ store.configs, held.index = entry.index ∧ held.config = entry.config
  single : store.slots.Pairwise fun slot other => slot.current = false ∨ other.current = false

theorem refines_of_run (run : storing.Run past store) : Refines past store := by
  obtain ⟨hcurrent, hindex⟩ := current_of_run run
  refine ⟨behaves_of_run run, hcurrent, ?_, ?_⟩
  · intro entry hchosen
    rw [hchosen] at hcurrent
    obtain ⟨held, hfind, hconfig⟩ := Option.map_eq_some_iff.mp hcurrent
    have hheld := List.find?_some hfind
    exact ⟨held, List.mem_of_find?_eq_some hfind, (beq_iff_eq.mp hheld).trans (hindex entry hchosen), hconfig⟩
  · refine List.pairwise_map.mpr ((sound_of_run run).indexed.increasing.imp ?_)
    intro entry other hlt
    by_cases hentry : entry.index = store.currentIndex
    · exact Or.inr (beq_false_of_ne (by omega))
    · exact Or.inl (beq_false_of_ne hentry)

-- Two configurations of one hash, and a third one: the first of the two becomes current and stays when
-- everything before the third is removed.
def replaced : List StoreCall :=
  let config (name : String) (hash : Hash) : Configuration :=
    { sortedPeers := [⟨"h", 1, 2, name, name⟩], cachedHash := hash }
  [.add (config "a" "1"), .add (config "b" "1"), .enable "1" true, .setCurrent "1", .add (config "c" "2"),
    .removePriorTo "2", .setCurrent "3"]

theorem refines_of_run_replaced :
    let run := storing.replay [] {} replaced
    run.2.slots.map (fun slot => (slot.config.sortedPeers.map PeerAddress.name, slot.enabled, slot.current)) =
        [(["a"], true, true), (["c"], false, false)] ∧ Refines run.1 run.2 := by
  have hstart : storing.Run [] {} := .start rfl
  exact ⟨by decide, refines_of_run (hstart.replay replaced (Machine.admits_of_enabled (fun _ _ => trivial) _ _))⟩

end Refinement

end ConfigStore

end SwarmDB.Pbft
