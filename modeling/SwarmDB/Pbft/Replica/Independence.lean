import SwarmDB.Shelf
import SwarmDB.Pbft.Replica.Reconfiguration

namespace SwarmDB.Pbft

open Replica

variable {lib : Library} {input : Input} {r r' : Replica} {past : List (Replica × Input)} {op changed : Operation}
  {phase : Operation → Prop} {start hash : Hash} {shelf : Shelf Hash}

section Store

-- The first entry is the current configuration, which stays enabled, and the others are on a shelf.
structure Shelved (store : ConfigStore) (start : Hash) (shelf : Shelf Hash) : Prop where
  older : store.currentIndex < store.nextIndex
  shape : ∃ first rest, store.configs = first :: rest ∧ first.index = store.currentIndex ∧ first.enabled = true ∧
    first.config.cachedHash = start ∧ (∀ entry ∈ rest, entry.index ≠ store.currentIndex) ∧
    rest.map (fun entry => (entry.config.cachedHash, entry.enabled)) = shelf

variable {store : ConfigStore}

theorem Shelved.add (h : Shelved store start shelf) (config : Configuration) :
    Shelved (store.add config) start (shelf.add config.cachedHash) := by
  obtain ⟨holder, first, rest, hconfigs, hindex, henabled, hhash, hrest, hshelf⟩ := h
  refine ⟨Nat.lt_succ_of_lt holder, first, rest ++ [⟨store.nextIndex, config, false⟩], ?_, hindex, henabled, hhash,
    ?_, ?_⟩
  · simp [ConfigStore.add, hconfigs]
  · intro entry hentry
    rcases List.mem_append.mp hentry with hentry | hentry
    · exact hrest entry hentry
    · rw [List.mem_singleton.mp hentry]
      exact (Nat.ne_of_lt holder).symm
  · simp [Shelf.add, ← hshelf]

theorem map_setFlag (hash : Hash) (configs : List ConfigEntry) :
    (ConfigStore.setFlag hash true configs).map (fun entry => (entry.config.cachedHash, entry.enabled)) =
      Shelf.mark hash (configs.map fun entry => (entry.config.cachedHash, entry.enabled)) := by
  induction configs with
  | nil => rfl
  | cons entry rest ih =>
      by_cases hentry : entry.config.cachedHash = hash
      · simp [ConfigStore.setFlag, Shelf.mark, hentry]
      · simp [ConfigStore.setFlag, Shelf.mark, hentry, ih]

theorem Shelved.enable_start (h : Shelved store start shelf) : Shelved (store.enable start).2 start shelf := by
  obtain ⟨holder, first, rest, hconfigs, hindex, henabled, hhash, hrest, hshelf⟩ := h
  refine ⟨holder, { first with enabled := true }, rest, ?_, hindex, rfl, hhash, hrest, hshelf⟩
  simp [ConfigStore.enable, hconfigs, ConfigStore.setFlag, hhash]

theorem Shelved.enable (h : Shelved store start shelf) (hne : hash ≠ start) :
    Shelved (store.enable hash).2 start (shelf.mark hash) := by
  obtain ⟨holder, first, rest, hconfigs, hindex, henabled, hhash, hrest, hshelf⟩ := h
  refine ⟨holder, first, ConfigStore.setFlag hash true rest, ?_, hindex, henabled, hhash, ?_, ?_⟩
  · have hfirst : first.config.cachedHash ≠ hash := fun heq => hne (heq.symm.trans hhash)
    simp [ConfigStore.enable, hconfigs, ConfigStore.setFlag, hfirst]
  · intro entry hentry
    obtain ⟨old, hold, hsame⟩ := ConfigStore.mem_setFlag hentry
    rw [hsame]
    exact hrest old hold
  · rw [map_setFlag, hshelf]

theorem Shelved.removePriorTo_start (h : Shelved store start shelf) :
    Shelved (store.removePriorTo start).2 start shelf := by
  obtain ⟨holder, first, rest, hconfigs, hindex, henabled, hhash, hrest, hshelf⟩ := h
  have hsame : (store.removePriorTo start).2 = store := by
    simp [ConfigStore.removePriorTo, ConfigStore.findByHash, hconfigs, hhash]
    rw [← hconfigs]
  rw [hsame]
  exact ⟨holder, first, rest, hconfigs, hindex, henabled, hhash, hrest, hshelf⟩

theorem mem_keys_map (hash : Hash) (configs : List ConfigEntry) :
    hash ∈ Shelf.keys (configs.map fun entry => (entry.config.cachedHash, entry.enabled)) ↔
      (configs.find? fun entry => entry.config.cachedHash == hash).isSome = true := by
  simp [Shelf.keys]

-- Of what comes before, only the current configuration stays.
theorem Shelved.removePriorTo (h : Shelved store start shelf) (hne : hash ≠ start) :
    Shelved (store.removePriorTo hash).2 start (shelf.prune hash) := by
  obtain ⟨holder, first, rest, hconfigs, hindex, henabled, hhash, hrest, hshelf⟩ := h
  have hfirst : first.config.cachedHash ≠ hash := fun heq => hne (heq.symm.trans hhash)
  have hfind : store.findByHash hash = rest.find? fun entry => entry.config.cachedHash == hash := by
    simp [ConfigStore.findByHash, hconfigs, hfirst]
  have hkeys := mem_keys_map hash rest
  rw [hshelf, ← hfind] at hkeys
  by_cases hpresent : (store.findByHash hash).isSome = true
  · obtain ⟨found, hfound⟩ := Option.isSome_iff_exists.mp hpresent
    let later := rest.dropWhile fun entry => entry.config.cachedHash != hash
    have hlater : (store.removePriorTo hash).2 = { store with configs := first :: later } := by
      have hprior : ((rest.takeWhile fun entry => entry.config.cachedHash != hash).filter
          fun entry => entry.index == store.currentIndex) = [] := by
        apply List.filter_eq_nil_iff.mpr
        intro entry hentry heq
        exact hrest entry ((List.takeWhile_prefix _).subset hentry) (eq_of_beq heq)
      simp [ConfigStore.removePriorTo, hfound, hconfigs, hfirst, hindex, hprior, later]
    rw [hlater]
    refine ⟨holder, first, later, rfl, hindex, henabled, hhash, ?_, ?_⟩
    · exact fun entry hentry => hrest entry ((List.dropWhile_suffix _).subset hentry)
    · rw [Shelf.prune, if_pos (hkeys.mpr hpresent), ← hshelf, List.dropWhile_map]
      rfl
  · have hnone : store.findByHash hash = none := by simpa using hpresent
    have hsame : (store.removePriorTo hash).2 = store := by simp [ConfigStore.removePriorTo, hnone]
    rw [hsame, Shelf.prune_absent fun hmem => hpresent (hkeys.mp hmem)]
    exact ⟨holder, first, rest, hconfigs, hindex, henabled, hhash, hrest, hshelf⟩

theorem Shelved.isSome_get (h : Shelved store start shelf) :
    (store.get hash).isSome = true ↔ hash = start ∨ hash ∈ shelf.keys := by
  obtain ⟨_, first, rest, hconfigs, _, _, hhash, _, hshelf⟩ := h
  rw [← hshelf, mem_keys_map, ConfigStore.get, Option.isSome_map, ConfigStore.findByHash, hconfigs]
  by_cases hstart : hash = start
  · rw [List.find?_cons_of_pos (by simp [hhash, hstart])]
    simp [hstart]
  · have hfirst : first.config.cachedHash ≠ hash := fun heq => hstart (heq.symm.trans hhash)
    rw [List.find?_cons_of_neg (by simpa using hfirst), or_iff_right hstart]

theorem Shelved.isEnabled (h : Shelved store start shelf) :
    store.isEnabled hash = (decide (hash = start) || shelf.isMarked hash) := by
  obtain ⟨_, first, rest, hconfigs, _, henabled, hhash, _, hshelf⟩ := h
  rw [← hshelf, ConfigStore.isEnabled, ConfigStore.findByHash, hconfigs]
  by_cases hstart : hash = start
  · rw [List.find?_cons_of_pos (by simp [hhash, hstart])]
    simp [hstart, henabled]
  · have hfirst : first.config.cachedHash ≠ hash := fun heq => hstart (heq.symm.trans hhash)
    rw [List.find?_cons_of_neg (by simpa using hfirst)]
    simp [hstart, Shelf.isMarked, List.find?_map, Function.comp_def]

end Store

section Phases

def Operation.hasAccepted (op : Operation) : Prop := op.preprepareSeen = true

def Operation.hasPrepared (op : Operation) : Prop := op.state ≠ .prepare

def Operation.hasCommitted (op : Operation) : Prop := op.state = .committed

-- The hashes that the operations in a phase propose.
def hashesIn (lib : Library) (phase : Operation → Prop) (r : Replica) : Set Hash :=
  { hash | ∃ key op, r.operations key = some op ∧ phase op ∧ hash ∈ hashes (op.request.proposes lib) }

theorem hashesIn_congr (hoperations : r'.operations = r.operations) :
    hashesIn lib phase r' = hashesIn lib phase r := by
  unfold hashesIn
  rw [hoperations]

theorem hashesIn_store (hplace : ∀ old, r.operations (changed.key lib) = some old →
      old.request = changed.request ∧ (phase old → phase changed)) :
    hashesIn lib phase (store lib changed r) =
      { hash | phase changed ∧ hash ∈ hashes (changed.request.proposes lib) } ∪ hashesIn lib phase r := by
  ext hash
  constructor
  · rintro ⟨key, found, hfound, hphase, hhash⟩
    rcases store_cases hfound with ⟨_, rfl⟩ | hold
    · exact Or.inl ⟨hphase, hhash⟩
    · exact Or.inr ⟨key, found, hold, hphase, hhash⟩
  · rintro (⟨hphase, hhash⟩ | ⟨key, found, hfound, hphase, hhash⟩)
    · exact ⟨changed.key lib, changed, store_self, hphase, hhash⟩
    · by_cases hkey : key = changed.key lib
      · subst hkey
        obtain ⟨hrequest, hkeeps⟩ := hplace found hfound
        rw [hrequest] at hhash
        exact ⟨changed.key lib, changed, store_self, hkeeps hphase, hhash⟩
      · exact ⟨key, found, (store_other hkey).trans hfound, hphase, hhash⟩

theorem hashesIn_store_new (hnew : r.operations (op.key lib) = none) (hphase : ¬phase op) :
    hashesIn lib phase (store lib op r) = hashesIn lib phase r := by
  rw [hashesIn_store (by simp [hnew])]
  simp [hphase]

theorem hashesIn_store_same (hstored : r.operations (op.key lib) = some op) (hkey : changed.key lib = op.key lib)
    (hrequest : changed.request = op.request) (hphase : phase changed ↔ phase op) :
    hashesIn lib phase (store lib changed r) = hashesIn lib phase r := by
  rw [hashesIn_store]
  · apply Set.union_eq_right.mpr
    rintro hash ⟨hchanged, hhash⟩
    rw [hrequest] at hhash
    exact ⟨op.key lib, op, hstored, hphase.mp hchanged, hhash⟩
  · intro old hold
    rw [hkey, hstored] at hold
    obtain rfl := Option.some.inj hold
    exact ⟨hrequest.symm, hphase.mpr⟩

-- A record that enters the phase brings its hash along.
theorem hashesIn_store_enter (hstored : r.operations (op.key lib) = some op) (hkey : changed.key lib = op.key lib)
    (hrequest : changed.request = op.request) (hphase : phase changed) :
    hashesIn lib phase (store lib changed r) =
      { hash | hash ∈ hashes (op.request.proposes lib) } ∪ hashesIn lib phase r := by
  rw [hashesIn_store]
  · simp [hphase, hrequest]
  · intro old hold
    rw [hkey, hstored] at hold
    obtain rfl := Option.some.inj hold
    exact ⟨hrequest.symm, fun _ => hphase⟩

variable {f : Configuration → ConfigStore → ConfigStore} {found : Option Configuration} {state : OperationState}

-- The same where the store changes along with the state of the record.

theorem hashesIn_moved_same (hstored : r.operations (op.key lib) = some op)
    (hphase : phase { op with state := state } ↔ phase op) :
    hashesIn lib phase (store lib { op with state := state } (withConfiguration f found r)) =
      hashesIn lib phase r := by
  rw [← hashesIn_congr (withConfiguration_operations f found r)]
  rw [← withConfiguration_operations f found r] at hstored
  exact hashesIn_store_same hstored rfl rfl hphase

theorem hashesIn_moved_enter (hstored : r.operations (op.key lib) = some op)
    (hphase : phase { op with state := state }) :
    hashesIn lib phase (store lib { op with state := state } (withConfiguration f found r)) =
      { hash | hash ∈ hashes (op.request.proposes lib) } ∪ hashesIn lib phase r := by
  rw [← hashesIn_congr (withConfiguration_operations f found r)]
  rw [← withConfiguration_operations f found r] at hstored
  exact hashesIn_store_enter hstored rfl rfl hphase

theorem keyed_moved (hkeyed : Keyed lib r) :
    Keyed lib (store lib { op with state := state } (withConfiguration f found r)) :=
  (hkeyed.of_operations (withConfiguration_operations f found r)).store _

end Phases

section Booking

variable {order adds : List Hash} {prepared committed : Set Hash} {found : Option Configuration}

-- How the store came about, from the configurations in order of arrival and those that were prepared
-- and committed.
structure Booked (lib : Library) (start : Hash) (order : List Hash) (prepared committed : Set Hash)
    (r : Replica) : Prop where
  keyed : Keyed lib r
  accepted : ∀ hash ∈ hashesIn lib Operation.hasAccepted r, hash ∈ order
  shelf : ∃ shelf, Shelved r.configurations start shelf ∧
    Shelf.Grown order (prepared \ {start}) (committed \ {start}) shelf

theorem union_start {config : Configuration} (hstart : config.cachedHash = start) (others : Set Hash) :
    ({ hash | hash ∈ hashes (some config) } ∪ others) \ {start} = others \ {start} := by
  ext hash
  simp only [hashes, Option.map_some, Option.toList_some, List.mem_singleton, Set.mem_sdiff, Set.mem_union,
    Set.mem_ofPred_eq, Set.mem_singleton_iff, hstart]
  tauto

theorem union_other {config : Configuration} (hother : config.cachedHash ≠ start) (others : Set Hash) :
    ({ hash | hash ∈ hashes (some config) } ∪ others) \ {start} =
      insert config.cachedHash (others \ {start}) := by
  ext hash
  simp only [hashes, Option.map_some, Option.toList_some, List.mem_singleton, Set.mem_sdiff, Set.mem_union,
    Set.mem_ofPred_eq, Set.mem_singleton_iff, Set.mem_insert_iff]
  constructor
  · tauto
  · rintro (rfl | hold)
    · exact ⟨Or.inl rfl, hother⟩
    · exact ⟨Or.inr hold.1, hold.2⟩

theorem grown_adding (found : Option Configuration) (hshelf : ∃ shelf, Shelved r.configurations start shelf ∧
      Shelf.Grown order prepared committed shelf) :
    ∃ shelf, Shelved (withConfiguration adding found r).configurations start shelf ∧
      Shelf.Grown (order ++ hashes found) prepared committed shelf := by
  obtain ⟨shelf, hshelved, hgrown⟩ := hshelf
  cases found with
  | none => exact ⟨shelf, hshelved, by simpa [hashes] using hgrown⟩
  | some config => exact ⟨_, hshelved.add config, hgrown.add config.cachedHash⟩

theorem grown_enabling (found : Option Configuration) (hfound : ∀ hash ∈ hashes found, hash ∈ order)
    (hshelf : ∃ shelf, Shelved r.configurations start shelf ∧
      Shelf.Grown order (prepared \ {start}) committed shelf) :
    ∃ shelf, Shelved (withConfiguration enabling found r).configurations start shelf ∧
      Shelf.Grown order (({ hash | hash ∈ hashes found } ∪ prepared) \ {start}) committed shelf := by
  obtain ⟨shelf, hshelved, hgrown⟩ := hshelf
  cases found with
  | none => exact ⟨shelf, hshelved, by simpa [hashes] using hgrown⟩
  | some config =>
      by_cases hstart : config.cachedHash = start
      · rw [union_start hstart]
        refine ⟨shelf, ?_, hgrown⟩
        have henabled := hshelved.enable_start
        rw [← hstart] at henabled ⊢
        exact henabled
      · rw [union_other hstart]
        exact ⟨_, hshelved.enable hstart, hgrown.mark (hfound _ (by simp [hashes]))⟩

theorem grown_removingPrior (found : Option Configuration) (hfound : ∀ hash ∈ hashes found, hash ∈ order)
    (hshelf : ∃ shelf, Shelved r.configurations start shelf ∧
      Shelf.Grown order prepared (committed \ {start}) shelf) :
    ∃ shelf, Shelved (withConfiguration removingPrior found r).configurations start shelf ∧
      Shelf.Grown order prepared (({ hash | hash ∈ hashes found } ∪ committed) \ {start}) shelf := by
  obtain ⟨shelf, hshelved, hgrown⟩ := hshelf
  cases found with
  | none => exact ⟨shelf, hshelved, by simpa [hashes] using hgrown⟩
  | some config =>
      by_cases hstart : config.cachedHash = start
      · rw [union_start hstart]
        refine ⟨shelf, ?_, hgrown⟩
        have hremoved := hshelved.removePriorTo_start
        rw [← hstart] at hremoved ⊢
        exact hremoved
      · rw [union_other hstart]
        exact ⟨_, hshelved.removePriorTo hstart, hgrown.prune (hfound _ (by simp [hashes]))⟩

-- An accepted preprepare has added what its request proposes.
theorem brings_of_proposes {msg : PbftMsg} {request : Request} (hrequest : request = msg.requestOf)
    (hhash : hash ∈ hashes (request.proposes lib)) : hash ∈ hashes (msg.brings lib request) := by
  unfold Request.proposes at hhash
  split at hhash
  · rename_i hnew
    have hsome : msg.request.isSome = true := by
      cases hmsg : msg.request with
      | none =>
          have htype := hnew.1
          rw [hrequest, PbftMsg.requestOf, hmsg] at htype
          cases htype
      | some request => rfl
    have htype : msg.requestOf.type = .newConfig := hrequest ▸ hnew.1
    simpa [PbftMsg.brings, hsome, htype] using hhash
  · cases hhash

variable {P C : Set Hash}

-- An accepted preprepare books what it brings.
theorem Booked.accept {msg : PbftMsg} (hinj : Function.Injective lib.requestHash)
    (hstored : r.operations (op.key lib) = some op) (hkey : op.key lib = msg.key lib)
    (hbooked : Booked lib start order (P ∪ hashesIn lib Operation.hasPrepared r)
      (C ∪ hashesIn lib Operation.hasCommitted r) r) :
    let next := withConfiguration adding (msg.brings lib op.request) (acceptPreprepare lib op.recordPreprepare r)
    Booked lib start (order ++ hashes (msg.brings lib op.request)) (P ∪ hashesIn lib Operation.hasPrepared next)
      (C ∪ hashesIn lib Operation.hasCommitted next) next := by
  intro next
  obtain ⟨hkeyed, haccepted, hshelf⟩ := hbooked
  have hrequest : op.request = msg.requestOf := hinj (congrArg OperationKey.hash hkey)
  have hoperations : next.operations = (store lib op.recordPreprepare r).operations := by
    rw [withConfiguration_operations]
    rfl
  have hkept : ∀ phase : Operation → Prop, (phase op.recordPreprepare ↔ phase op) →
      hashesIn lib phase next = hashesIn lib phase r := by
    intro phase hphase
    rw [hashesIn_congr hoperations]
    exact hashesIn_store_same hstored rfl rfl hphase
  rw [hkept _ Iff.rfl, hkept _ Iff.rfl]
  refine ⟨(hkeyed.store op.recordPreprepare).of_operations hoperations, ?_,
    grown_adding (msg.brings lib op.request) hshelf⟩
  have hentered : hashesIn lib Operation.hasAccepted (store lib op.recordPreprepare r) =
      { hash | hash ∈ hashes (op.request.proposes lib) } ∪ hashesIn lib Operation.hasAccepted r :=
    hashesIn_store_enter hstored rfl rfl rfl
  rw [hashesIn_congr hoperations, hentered]
  rintro hash (hproposed | hold)
  · exact List.mem_append_right _ (brings_of_proposes hrequest hproposed)
  · exact List.mem_append_left _ (haccepted hash hold)

-- Every step books what it adds, prepares or commits.
theorem Progress.booked (hinj : Function.Injective lib.requestHash) (h : Progress lib input r adds r')
    (hbooked : Booked lib start order (P ∪ hashesIn lib Operation.hasPrepared r)
      (C ∪ hashesIn lib Operation.hasCommitted r) r) :
    Booked lib start (order ++ adds) (P ∪ hashesIn lib Operation.hasPrepared r')
      (C ∪ hashesIn lib Operation.hasCommitted r') r' := by
  obtain ⟨hkeyed, haccepted, hshelf⟩ := hbooked
  cases h with
  | aside hoperations hconfigurations =>
      rw [List.append_nil, hashesIn_congr hoperations, hashesIn_congr hoperations]
      refine ⟨hkeyed.of_operations hoperations, ?_, ?_⟩
      · rw [hashesIn_congr hoperations]
        exact haccepted
      · rw [hconfigurations]
        exact hshelf
  | @create op hnew _ hop _ =>
      have hstate : op.state = .prepare := by rw [hop]
      have hseen : op.preprepareSeen = false := by rw [hop]
      rw [List.append_nil, hashesIn_store_new hnew (by simp [Operation.hasPrepared, hstate]),
        hashesIn_store_new hnew (by simp [Operation.hasCommitted, hstate])]
      refine ⟨hkeyed.store op, ?_, hshelf⟩
      rw [hashesIn_store_new hnew (by simp [Operation.hasAccepted, hseen])]
      exact haccepted
  | @record op changed hstored hchanged =>
      rw [List.append_nil,
        hashesIn_store_same hstored hchanged.key hchanged.request (by simp [Operation.hasPrepared, hchanged.state]),
        hashesIn_store_same hstored hchanged.key hchanged.request (by simp [Operation.hasCommitted, hchanged.state])]
      refine ⟨hkeyed.store changed, ?_, hshelf⟩
      rw [hashesIn_store_same hstored hchanged.key hchanged.request
        (by simp [Operation.hasAccepted, hchanged.preprepareSeen])]
      exact haccepted
  | accept hstored hkey => exact Booked.accept hinj hstored hkey ⟨hkeyed, haccepted, hshelf⟩
  | propose config =>
      have hsame : ∀ phase, hashesIn lib phase (updateConfigurations (adding config) r) = hashesIn lib phase r :=
        fun _ => hashesIn_congr rfl
      rw [hsame, hsame]
      refine ⟨hkeyed, ?_, grown_adding (some config) hshelf⟩
      rw [hsame]
      exact fun hash hhash => List.mem_append_left _ (haccepted hash hhash)
  | @prepare op hstored hstate hseen =>
      have hfound : ∀ hash ∈ hashes (op.request.proposes lib), hash ∈ order := fun hash hhash =>
        haccepted hash ⟨_, op, hstored, hseen, hhash⟩
      rw [List.append_nil, hashesIn_moved_enter hstored (by simp [Operation.hasPrepared]),
        hashesIn_moved_same hstored (by simp [Operation.hasCommitted, hstate]), Set.union_left_comm]
      refine ⟨keyed_moved hkeyed, ?_, grown_enabling (op.request.proposes lib) hfound hshelf⟩
      rw [hashesIn_moved_same hstored (by simp [Operation.hasAccepted])]
      exact haccepted
  | @commit op hstored hstate hseen =>
      have hfound : ∀ hash ∈ hashes (op.request.proposes lib), hash ∈ order := fun hash hhash =>
        haccepted hash ⟨_, op, hstored, hseen, hhash⟩
      rw [List.append_nil, hashesIn_moved_same hstored (by simp [Operation.hasPrepared, hstate]),
        hashesIn_moved_enter hstored (by simp [Operation.hasCommitted]), Set.union_left_comm C]
      refine ⟨keyed_moved hkeyed, ?_, grown_removingPrior (op.request.proposes lib) hfound hshelf⟩
      rw [hashesIn_moved_same hstored (by simp [Operation.hasAccepted])]
      exact haccepted

end Booking

section Runs

-- The hashes in the order in which the store got them.
def added (lib : Library) : List (Replica × Input) → List Hash
  | [] => []
  | (r, input) :: past => added lib past ++ input.adds lib r

def currentHash (r : Replica) : Hash := (r.configurations.current.map Configuration.cachedHash).getD ""

-- The hashes proposed by the operations that have been in a phase.
def hashesPast (lib : Library) (phase : Operation → Prop) (past : List (Replica × Input)) (r : Replica) : Set Hash :=
  { hash | ∃ s, Machine.Visited past r s ∧ hash ∈ hashesIn lib phase s }

theorem hashesPast_step (input : Input) (next : Replica) : hashesPast lib phase ((r, input) :: past) next =
    hashesPast lib phase past r ∪ hashesIn lib phase next := by
  ext hash
  constructor
  · rintro ⟨s, hs, hhash⟩
    rcases Machine.visited_step_cases hs with rfl | hs
    · exact Or.inr hhash
    · exact Or.inl ⟨s, hs, hhash⟩
  · rintro (⟨s, hs, hhash⟩ | hhash)
    · exact ⟨s, hs.step input next, hhash⟩
    · exact ⟨next, Or.inl rfl, hhash⟩

theorem hashesIn_subset_past : hashesIn lib phase r ⊆ hashesPast lib phase past r :=
  fun _ hhash => ⟨r, Or.inl rfl, hhash⟩

variable {order : List Hash} {P C : Set Hash}

theorem handler_booked (hinj : Function.Injective lib.requestHash) (input : Input) (hbased : Based lib r)
    (hprepared : hashesIn lib Operation.hasPrepared r ⊆ P) (hcommitted : hashesIn lib Operation.hasCommitted r ⊆ C)
    (hbooked : Booked lib start order P C r) :
    Booked lib start (order ++ input.adds lib r)
      (P ∪ hashesIn lib Operation.hasPrepared (input.handler lib r).state)
      (C ∪ hashesIn lib Operation.hasCommitted (input.handler lib r).state) (input.handler lib r).state := by
  obtain ⟨peers, hpeers⟩ := hbased.configured
  cases handler_evolves input hbased.keyed hpeers with
  | progresses adds htrail hadds =>
      rw [← hadds hinj]
      refine htrail.invariant (I := fun adds r' => Booked lib start (order ++ adds)
        (P ∪ hashesIn lib Operation.hasPrepared r') (C ∪ hashesIn lib Operation.hasCommitted r') r') (p := []) ?_ ?_
      · intro adds r₁ more r₂ hbooked₁ hstep
        rw [← List.append_assoc]
        exact hstep.booked hinj hbooked₁
      · rw [List.append_nil, Set.union_eq_left.mpr hprepared, Set.union_eq_left.mpr hcommitted]
        exact hbooked
  | thins hthins hadds =>
      have hsubset : ∀ phase, hashesIn lib phase (input.handler lib r).state ⊆ hashesIn lib phase r := by
        rintro phase hash ⟨key, op, hop, hphase, hhash⟩
        exact ⟨key, op, hthins.operations key op hop, hphase, hhash⟩
      rw [hadds, List.append_nil, Set.union_eq_left.mpr ((hsubset _).trans hprepared),
        Set.union_eq_left.mpr ((hsubset _).trans hcommitted)]
      refine ⟨?_, ?_, ?_⟩
      · exact fun key op hop => hbooked.keyed key op (hthins.operations key op hop)
      · exact fun hash hhash => hbooked.accepted hash (hsubset _ hhash)
      · rw [hthins.configurations]
        exact hbooked.shelf

theorem booked_fresh (hinit : (lifetime lib).init r) :
    Booked lib (currentHash r) [] (hashesPast lib Operation.hasPrepared [] r)
      (hashesPast lib Operation.hasCommitted [] r) r := by
  obtain ⟨hoperations, _⟩ := construct_fresh hinit
  have hnone : ∀ phase, hashesIn lib phase r = ∅ := by
    intro phase
    ext hash
    simp [hashesIn, hoperations]
  have hpast : ∀ phase, hashesPast lib phase [] r = ∅ := by
    intro phase
    ext hash
    simp [hashesPast, Machine.Visited, hnone]
  rw [hpast, hpast]
  refine ⟨(based_init hinit).keyed, by simp [hnone], [], ?_, by simpa using Shelf.Grown.empty⟩
  obtain ⟨peers, uuid, fresh, setting, hfresh, rfl⟩ := hinit
  have hconfigurations : (fresh.setAuditEnabled setting).configurations = initializeConfiguration lib peers :=
    (construct_shape hfresh).2
  rw [currentHash, hconfigurations, initializeConfiguration_eq]
  exact ⟨Nat.lt_succ_self 1, _, [], rfl, rfl, rfl, by simp [ConfigStore.current], by simp, rfl⟩

theorem booked_of_run (hinj : Function.Injective lib.requestHash) (run : (lifetime lib).Run past r) :
    Booked lib (currentHash (Machine.origin past r)) (added lib past) (hashesPast lib Operation.hasPrepared past r)
      (hashesPast lib Operation.hasCommitted past r) r := by
  induction run with
  | start hinit => exact booked_fresh hinit
  | @step past r input run _ ih =>
      rw [Machine.origin_step, hashesPast_step, hashesPast_step]
      exact handler_booked hinj input (based_of_lifetime run) hashesIn_subset_past hashesIn_subset_past ih

-- A configuration stands if it has been added, and no committed one has been added after it. The one at
-- the start does not count: it is never behind another one.
def Stands (lib : Library) (past : List (Replica × Input)) (r : Replica) (hash : Hash) : Prop :=
  hash ∈ added lib past ∧ ∀ later ∈ hashesPast lib Operation.hasCommitted past r,
    later ≠ currentHash (Machine.origin past r) → ¬Shelf.Before (added lib past) hash later

theorem isSome_get_of_run (hinj : Function.Injective lib.requestHash) (run : (lifetime lib).Run past r)
    (hsettled : Shelf.Settled (added lib past)) (hash : Hash) : (r.configurations.get hash).isSome = true ↔
      hash = currentHash (Machine.origin past r) ∨ Stands lib past r hash := by
  obtain ⟨shelf, hshelved, hgrown⟩ := (booked_of_run hinj run).shelf
  rw [hshelved.isSome_get, hgrown.mem_keys hsettled]
  simp [Stands]

theorem isEnabled_of_run (hinj : Function.Injective lib.requestHash) (run : (lifetime lib).Run past r)
    (hsettled : Shelf.Settled (added lib past)) (hash : Hash) : r.configurations.isEnabled hash = true ↔
      hash = currentHash (Machine.origin past r) ∨
        Stands lib past r hash ∧ hash ∈ hashesPast lib Operation.hasPrepared past r := by
  obtain ⟨shelf, hshelved, hgrown⟩ := (booked_of_run hinj run).shelf
  have hstanding : Stands lib past r hash ↔ hash ∈ shelf.keys := by
    rw [hgrown.mem_keys hsettled]
    simp [Stands]
  rw [hshelved.isEnabled, Bool.or_eq_true, decide_eq_true_eq, hstanding]
  by_cases hstart : hash = currentHash (Machine.origin past r)
  · simp [hstart]
  · rw [or_iff_right hstart, or_iff_right hstart]
    constructor
    · intro hmarked
      have hkey := Shelf.mem_keys_of_isMarked hmarked
      exact ⟨hkey, ((hgrown.isMarked_iff hsettled hkey).mp hmarked).1⟩
    · rintro ⟨hkey, hprepared⟩
      exact (hgrown.isMarked_iff hsettled hkey).mpr ⟨hprepared, hstart⟩

end Runs

section Touched

variable {key : OperationKey} {s : Replica} {adds : List Hash}

-- A call makes only the records it may make.
theorem Progress.touched (h : Progress lib input r adds r') (hop : r'.operations key = some op) :
    (∃ old, r.operations key = some old) ∨ input.touches lib key := by
  have hstore : ∀ {changed old : Operation}, r.operations (old.key lib) = some old →
      changed.key lib = old.key lib → (store lib changed r).operations key = some op →
      ∃ old, r.operations key = some old := by
    intro changed old hold hkey hfound
    rcases store_cases hfound with ⟨rfl, _⟩ | hfound
    · exact ⟨old, hkey ▸ hold⟩
    · exact ⟨op, hfound⟩
  cases h with
  | aside hoperations _ =>
      rw [hoperations] at hop
      exact Or.inl ⟨op, hop⟩
  | create _ _ _ htouches =>
      rcases store_cases hop with ⟨rfl, _⟩ | hold
      · exact Or.inr htouches
      · exact Or.inl ⟨op, hold⟩
  | record hstored hchanged => exact Or.inl (hstore hstored hchanged.key hop)
  | @accept accepted msg hstored _ =>
      rw [withConfiguration_operations] at hop
      have hkept : (store lib accepted.recordPreprepare r).operations key = some op := hop
      have hkey : accepted.recordPreprepare.key lib = accepted.key lib := rfl
      exact Or.inl (hstore hstored hkey hkept)
  | propose _ => exact Or.inl ⟨op, hop⟩
  | prepare hstored _ _ | commit hstored _ _ =>
      rcases store_cases hop with ⟨rfl, _⟩ | hold
      · exact Or.inl ⟨_, hstored⟩
      · rw [withConfiguration_operations] at hold
        exact Or.inl ⟨op, hold⟩

theorem handler_touched (input : Input) (hbased : Based lib r)
    (hop : (input.handler lib r).state.operations key = some op) :
    (∃ old, r.operations key = some old) ∨ input.touches lib key := by
  obtain ⟨peers, hpeers⟩ := hbased.configured
  cases handler_evolves input hbased.keyed hpeers with
  | progresses adds htrail _ =>
      have htouched := htrail.invariant (I := fun _ r' => ∀ op, r'.operations key = some op →
        (∃ old, r.operations key = some old) ∨ input.touches lib key) (p := []) ?_ fun op hop => Or.inl ⟨op, hop⟩
      · exact htouched op hop
      · intro _ r₁ _ r₂ h₁ hstep op hop
        rcases hstep.touched hop with ⟨old, hold⟩ | htouches
        · exact h₁ old hold
        · exact Or.inr htouches
  | thins hthins _ => exact Or.inl ⟨op, hthins.operations key op hop⟩

theorem touched_of_visited (run : (lifetime lib).Run past r) (hs : Machine.Visited past r s)
    (hop : s.operations key = some op) : ∃ step ∈ past, step.2.touches lib key := by
  induction run generalizing s op with
  | start hinit =>
      rcases hs with rfl | ⟨_, hmem⟩
      · rw [(construct_fresh hinit).1] at hop
        cases hop
      · cases hmem
  | @step past r input run _ ih =>
      rcases Machine.visited_step_cases hs with rfl | hs
      · rcases handler_touched input (based_of_lifetime run) hop with ⟨old, hold⟩ | htouches
        · obtain ⟨step, hstep, htouches⟩ := ih (Or.inl rfl) hold
          exact ⟨step, List.mem_cons_of_mem _ hstep, htouches⟩
        · exact ⟨_, List.mem_cons_self, htouches⟩
      · obtain ⟨step, hstep, htouches⟩ := ih hs hop
        exact ⟨step, List.mem_cons_of_mem _ hstep, htouches⟩

end Touched

section Independence

variable {past₁ past₂ : List (Replica × Input)} {r₁ r₂ : Replica}

-- The NEW_CONFIG operations that have been in a phase, as sequence numbers and requests.
def newConfigs (phase : Operation → Prop) (past : List (Replica × Input)) (r : Replica) : Set (Nat × Request) :=
  { known | ∃ s, Machine.Visited past r s ∧ ∃ key op, s.operations key = some op ∧
    op.request.type = .newConfig ∧ phase op ∧ known = (op.sequence, op.request) }

structure SameOperations (past₁ : List (Replica × Input)) (r₁ : Replica) (past₂ : List (Replica × Input))
    (r₂ : Replica) : Prop where
  accepted : newConfigs Operation.hasAccepted past₁ r₁ = newConfigs Operation.hasAccepted past₂ r₂
  prepared : newConfigs Operation.hasPrepared past₁ r₁ = newConfigs Operation.hasPrepared past₂ r₂
  committed : newConfigs Operation.hasCommitted past₁ r₁ = newConfigs Operation.hasCommitted past₂ r₂

-- What two replicas say about any hash.
structure SameAnswers (r₁ r₂ : Replica) : Prop where
  present : ∀ hash, (r₁.configurations.get hash).isSome = (r₂.configurations.get hash).isSome
  enabled : ∀ hash, r₁.configurations.isEnabled hash = r₂.configurations.isEnabled hash
  acceptable : ∀ hash,
    isConfigurationAcceptableInNewView hash r₁ = isConfigurationAcceptableInNewView hash r₂
  moves : ∀ hash, (moveToNewConfiguration hash r₁).1 = (moveToNewConfiguration hash r₂).1

theorem moveToNewConfiguration_fst (hash : Hash) (r : Replica) :
    (moveToNewConfiguration hash r).1 = r.configurations.isEnabled hash := by
  unfold moveToNewConfiguration
  split
  · rename_i henabled
    exact henabled.symm
  · rename_i hdisabled
    exact (Bool.eq_false_iff.mpr hdisabled).symm

theorem hashesPast_eq (lib : Library) (phase : Operation → Prop) (past : List (Replica × Input)) (r : Replica) :
    hashesPast lib phase past r =
      { hash | ∃ known ∈ newConfigs phase past r, hash ∈ hashes (known.2.proposes lib) } := by
  ext hash
  constructor
  · rintro ⟨s, hs, key, op, hop, hphase, hhash⟩
    have htype : op.request.type = .newConfig := by
      by_contra hother
      simp [Request.proposes, hother, hashes] at hhash
    exact ⟨(op.sequence, op.request), ⟨s, hs, key, op, hop, htype, hphase, rfl⟩, hhash⟩
  · rintro ⟨_, ⟨s, hs, key, op, hop, _, hphase, rfl⟩, hhash⟩
    exact ⟨s, hs, key, op, hop, hphase, hhash⟩

-- Two replicas that add no configuration a second time give the same answers exactly where the same
-- configurations stand: the order of arrival counts as far as committed ones are concerned.
theorem sameAnswers_iff (hinj : Function.Injective lib.requestHash) (run₁ : (lifetime lib).Run past₁ r₁)
    (run₂ : (lifetime lib).Run past₂ r₂)
    (hstart : (Machine.origin past₁ r₁).configurations = (Machine.origin past₂ r₂).configurations)
    (hsame : SameOperations past₁ r₁ past₂ r₂) (hsettled₁ : Shelf.Settled (added lib past₁))
    (hsettled₂ : Shelf.Settled (added lib past₂)) :
    SameAnswers r₁ r₂ ↔ ∀ hash, hash ≠ currentHash (Machine.origin past₁ r₁) →
      (Stands lib past₁ r₁ hash ↔ Stands lib past₂ r₂ hash) := by
  have hhash : currentHash (Machine.origin past₂ r₂) = currentHash (Machine.origin past₁ r₁) := by
    rw [currentHash, currentHash, hstart]
  have hprepared : hashesPast lib Operation.hasPrepared past₂ r₂ = hashesPast lib Operation.hasPrepared past₁ r₁ := by
    rw [hashesPast_eq, hashesPast_eq, hsame.prepared]
  have hpresent₁ := isSome_get_of_run hinj run₁ hsettled₁
  have hpresent₂ := isSome_get_of_run hinj run₂ hsettled₂
  rw [hhash] at hpresent₂
  constructor
  · intro hanswers hash hother
    have hiff := Bool.eq_iff_iff.mp (hanswers.present hash)
    rw [hpresent₁, hpresent₂, or_iff_right hother, or_iff_right hother] at hiff
    exact hiff
  · intro hstanding
    have henabled : ∀ hash, r₁.configurations.isEnabled hash = r₂.configurations.isEnabled hash := by
      intro hash
      rw [Bool.eq_iff_iff, isEnabled_of_run hinj run₁ hsettled₁, isEnabled_of_run hinj run₂ hsettled₂, hhash, hprepared]
      by_cases hother : hash = currentHash (Machine.origin past₁ r₁)
      · simp [hother]
      · rw [hstanding hash hother]
    refine ⟨?_, henabled, henabled, ?_⟩
    · intro hash
      rw [Bool.eq_iff_iff, hpresent₁, hpresent₂]
      by_cases hother : hash = currentHash (Machine.origin past₁ r₁)
      · simp [hother]
      · rw [hstanding hash hother]
    · intro hash
      rw [moveToNewConfiguration_fst, moveToNewConfiguration_fst]
      exact henabled hash

end Independence

section Rounds

-- A sequence number and the configuration that is proposed at it.
abbrev Round := Nat × Json

def Round.key (lib : Library) (round : Round) : OperationKey :=
  ⟨1, round.1, lib.requestHash (configRequest round.2)⟩

-- Only these rounds have been heard of, and all of them are through.
structure Completed (lib : Library) (rounds : List Round) (past : List (Replica × Input)) (r : Replica) :
    Prop where
  run : (lifetime lib).Run past r
  heard : ∀ step ∈ past, ∃ round ∈ rounds, ∃ type sender, step.2 = .configuring round.2 round.1 type sender
  through : ∀ round ∈ rounds, ∃ op, r.operations (round.key lib) = some op ∧ op.preprepareSeen = true ∧
    op.state = .committed

variable {rounds : List Round} {past₁ past₂ : List (Replica × Input)} {r₁ r₂ : Replica}

theorem Completed.newConfigs_eq (hinj : Function.Injective lib.requestHash) (h : Completed lib rounds past r)
    (hphase : ∀ op : Operation, op.preprepareSeen = true → op.state = .committed → phase op) :
    newConfigs phase past r = { known | ∃ round ∈ rounds, known = (round.1, configRequest round.2) } := by
  have hknown : ∀ {s : Replica} {round : Round} {op : Operation}, Keyed lib s →
      s.operations (round.key lib) = some op → (op.sequence, op.request) = (round.1, configRequest round.2) := by
    intro s round op hkeyed hop
    have hkey : op.key lib = round.key lib := hkeyed _ _ hop
    exact Prod.ext (congrArg OperationKey.sequence hkey) (hinj (congrArg OperationKey.hash hkey))
  ext known
  constructor
  · rintro ⟨s, hs, key, op, hop, _, _, rfl⟩
    obtain ⟨before, hbefore⟩ := h.run.visited hs
    obtain ⟨step, hstep, htouches⟩ := touched_of_visited h.run hs hop
    obtain ⟨round, hround, type, sender, hinput⟩ := h.heard step hstep
    rw [hinput] at htouches
    obtain rfl : key = round.key lib := htouches
    exact ⟨round, hround, hknown (based_of_lifetime hbefore).keyed hop⟩
  · rintro ⟨round, hround, rfl⟩
    obtain ⟨op, hop, hseen, hstate⟩ := h.through round hround
    have hsame := hknown (based_of_lifetime h.run).keyed hop
    refine ⟨r, Or.inl rfl, _, op, hop, ?_, hphase op hseen hstate, hsame.symm⟩
    rw [(Prod.mk.inj hsame).2]
    rfl

theorem Completed.sameOperations (hinj : Function.Injective lib.requestHash)
    (h₁ : Completed lib rounds past₁ r₁) (h₂ : Completed lib rounds past₂ r₂) :
    SameOperations past₁ r₁ past₂ r₂ := by
  have hsame : ∀ {phase : Operation → Prop},
      (∀ op : Operation, op.preprepareSeen = true → op.state = .committed → phase op) →
      newConfigs phase past₁ r₁ = newConfigs phase past₂ r₂ := by
    intro phase hphase
    rw [h₁.newConfigs_eq hinj hphase, h₂.newConfigs_eq hinj hphase]
  exact ⟨hsame fun _ hseen _ => hseen, hsame fun _ _ hstate => by simp [Operation.hasPrepared, hstate],
    hsame fun _ _ hstate => hstate⟩

theorem debugString_brace (json : Json) : '\x7d' ∈ (debugString json).toList := by
  unfold debugString
  rw [String.toList_append]
  exact List.mem_append_right _ (by simp)

theorem writtenLibrary_injective {known : List Json} (hnodup : (known.map debugString).Nodup) :
    Function.Injective (writtenLibrary known).requestHash := by
  change Function.Injective (textOf (configTexts known))
  refine textOf_injective ?_ ?_
  · rw [configTexts, List.map_map]
    exact hnodup
  · intro text htext
    obtain ⟨json, _, rfl⟩ := List.mem_map.mp htext
    exact ⟨'\x7d', debugString_brace json, by decide⟩

def threePeers : List PeerAddress := fourPeers.take 3

-- Dave and Erin join at the same time.

def dave : Round := (1, .object [("peers", .array (fourPeers.map Configuration.peerJson))])

def erin : Round :=
  let address : PeerAddress := ⟨"127.0.0.1", 50004, 8084, "erin", "E"⟩
  (2, .object [("peers", .array ((threePeers ++ [address]).map Configuration.peerJson))])

noncomputable def joinLibrary : Library := writtenLibrary [dave.2, erin.2]

theorem joinLibrary_injective : Function.Injective joinLibrary.requestHash :=
  writtenLibrary_injective (by decide +kernel)

noncomputable def joined (uuid : Uuid) (script : List (Round × MsgType)) : List (Replica × Input) × Replica :=
  (lifetime joinLibrary).replay [] (writtenReplica joinLibrary threePeers uuid)
    (script.map fun line => .configuring line.1.2 line.1.1 line.2 "B")

theorem origin_joined (uuid : Uuid) (script : List (Round × MsgType)) :
    Machine.origin (joined uuid script).1 (joined uuid script).2 = writtenReplica joinLibrary threePeers uuid :=
  Machine.origin_replay _ [] _

-- Both rounds have come to their end.
abbrev BothThrough (r : Replica) : Prop :=
  ∀ round ∈ [dave, erin], (r.operations (round.key joinLibrary)).any
    (fun op => op.preprepareSeen && op.state = .committed) = true

theorem completed_joined {script : List (Round × MsgType)} {uuid : Uuid} (hthrough : BothThrough (joined uuid script).2)
    (hscript : ∀ line ∈ script, line.1 = dave ∨ line.1 = erin) :
    Completed joinLibrary [dave, erin] (joined uuid script).1 (joined uuid script).2 := by
  have hstart : (lifetime joinLibrary).Run [] (writtenReplica joinLibrary threePeers uuid) :=
    .start (init_written joinLibrary (by simp [threePeers, fourPeers]) uuid)
  refine ⟨hstart.replay _ (Machine.admits_of_enabled (fun _ _ => trivial) _ _), ?_, ?_⟩
  · intro step hstep
    have hinput := List.mem_map_of_mem (f := Prod.snd) hstep
    rw [joined, Machine.replay_actions, List.map_nil, List.append_nil, List.mem_reverse] at hinput
    obtain ⟨line, hline, hsame⟩ := List.mem_map.mp hinput
    exact ⟨line.1, by simpa using hscript line hline, line.2, "B", hsame.symm⟩
  · intro round hround
    obtain ⟨op, hop, hdone⟩ := (Option.any_eq_true _ _).mp (hthrough round hround)
    exact ⟨op, hop, by simpa using hdone⟩

def votes : List (Round × MsgType) := [(dave, .prepare), (erin, .prepare), (dave, .commit), (erin, .commit)]

-- The preprepares arrive in the order of their sequence numbers, or the other way round.

def inSequence : List (Round × MsgType) := (dave, .preprepare) :: (erin, .preprepare) :: votes

def outOfSequence : List (Round × MsgType) := (erin, .preprepare) :: (dave, .preprepare) :: votes

-- They arrive in the same order, and the votes at different times.

def oneByOne : List (Round × MsgType) :=
  [(dave, .preprepare), (dave, .prepare), (dave, .commit), (erin, .preprepare), (erin, .prepare), (erin, .commit)]

def nested : List (Round × MsgType) :=
  [(dave, .preprepare), (erin, .preprepare), (erin, .prepare), (erin, .commit), (dave, .prepare), (dave, .commit)]

theorem origin_joined_same (uuid uuid' : Uuid) (script script' : List (Round × MsgType)) :
    (Machine.origin (joined uuid script).1 (joined uuid script).2).configurations =
      (Machine.origin (joined uuid' script').1 (joined uuid' script').2).configurations := by
  rw [origin_joined, origin_joined]
  rfl

-- Where the same is added and committed, the same stands.
theorem standing_congr (hstart : (Machine.origin past₁ r₁).configurations = (Machine.origin past₂ r₂).configurations)
    (hsame : SameOperations past₁ r₁ past₂ r₂) (hadded : added lib past₁ = added lib past₂) (hash : Hash) :
    Stands lib past₁ r₁ hash ↔ Stands lib past₂ r₂ hash := by
  unfold Stands currentHash
  rw [hadded, hstart, hashesPast_eq, hashesPast_eq, hsame.committed]

theorem sameAnswers_iff_nested : SameAnswers (joined "A" oneByOne).2 (joined "C" nested).2 := by
  -- one evaluation of both runs for all that is needed of them
  obtain ⟨hthrough₁, hthrough₂, hadded, hnodup⟩ : BothThrough (joined "A" oneByOne).2 ∧
      BothThrough (joined "C" nested).2 ∧
      added joinLibrary (joined "A" oneByOne).1 = added joinLibrary (joined "C" nested).1 ∧
      (added joinLibrary (joined "A" oneByOne).1).Nodup := by decide +kernel
  have hcompleted₁ := completed_joined hthrough₁ (by simp [oneByOne])
  have hcompleted₂ := completed_joined hthrough₂ (by simp [nested])
  have hsame := hcompleted₁.sameOperations joinLibrary_injective hcompleted₂
  have hstart := origin_joined_same "A" "C" oneByOne nested
  have hsettled : Shelf.Settled (added joinLibrary (joined "A" oneByOne).1) := Shelf.settled_of_nodup hnodup
  have hsettled' : Shelf.Settled (added joinLibrary (joined "C" nested).1) := hadded ▸ hsettled
  exact (sameAnswers_iff joinLibrary_injective hcompleted₁.run hcompleted₂.run hstart hsame hsettled hsettled').mpr
    fun hash _ => standing_congr hstart hsame hadded hash

-- Where they do not, one replica has forgotten Erin, and the other one Dave.
theorem sameAnswers_broken :
    Function.Injective joinLibrary.requestHash ∧
      let a := joined "A" inSequence
      let c := joined "C" outOfSequence
      (lifetime joinLibrary).Run a.1 a.2 ∧ (lifetime joinLibrary).Run c.1 c.2 ∧
        (Machine.origin a.1 a.2).configurations = (Machine.origin c.1 c.2).configurations ∧
        SameOperations a.1 a.2 c.1 c.2 ∧ ¬SameAnswers a.2 c.2 := by
  obtain ⟨hthrough₁, hthrough₂, hmoved, hmoved'⟩ : BothThrough (joined "A" inSequence).2 ∧
      BothThrough (joined "C" outOfSequence).2 ∧
      (moveToNewConfiguration (hashOf joinLibrary fourPeers) (joined "A" inSequence).2).1 = false ∧
      (moveToNewConfiguration (hashOf joinLibrary fourPeers) (joined "C" outOfSequence).2).1 = true := by
    decide +kernel
  have hcompleted₁ := completed_joined hthrough₁ (by simp [inSequence, votes])
  have hcompleted₂ := completed_joined hthrough₂ (by simp [outOfSequence, votes])
  refine ⟨joinLibrary_injective, hcompleted₁.run, hcompleted₂.run, origin_joined_same _ _ _ _,
    hcompleted₁.sameOperations joinLibrary_injective hcompleted₂, ?_⟩
  intro hanswers
  rw [hanswers.moves, hmoved'] at hmoved
  cases hmoved

end Rounds

end SwarmDB.Pbft
