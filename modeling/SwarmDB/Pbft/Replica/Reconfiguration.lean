import SwarmDB.Pbft.Replica.Configurations
import SwarmDB.Pbft.Replica.Journal
import SwarmDB.Pbft.Configuration.Store
import SwarmDB.Pbft.Configuration.Text

namespace SwarmDB.Pbft

open Replica

variable {lib : Library} {input : Input} {r r' : Replica} {adds : List Hash} {op : Operation}

section Steps

-- What every step relies on: records under their keys, indices in order, and a current configuration.
structure Based (lib : Library) (r : Replica) : Prop where
  keyed : Keyed lib r
  indexed : r.configurations.Indexed
  configured : ∃ peers, r.configured = some peers

-- The configuration stays, and new records have its peers.
structure Retains (r r' : Replica) : Prop where
  configured : r'.configured = r.configured
  peers : ∀ key op, r'.operations key = some op →
    (∃ key old, r.operations key = some old ∧ op.peers = old.peers) ∨ r.configured = some op.peers

theorem Retains.of_operations (hconfigured : r'.configured = r.configured)
    (hoperations : ∀ key op, r'.operations key = some op → r.operations key = some op) : Retains r r' :=
  ⟨hconfigured, fun key op hop => Or.inl ⟨key, op, hoperations key op hop, rfl⟩⟩

theorem Retains.trans {r'' : Replica} (h : Retains r r') (h' : Retains r' r'') : Retains r r'' := by
  refine ⟨h'.configured.trans h.configured, ?_⟩
  intro key op hop
  rcases h'.peers key op hop with ⟨key', old, hold, hpeers⟩ | hpeers
  · rw [hpeers]
    exact h.peers key' old hold
  · rw [h.configured] at hpeers
    exact Or.inr hpeers

theorem Retains.store {changed : Operation} (h : (∃ key old, r.operations key = some old ∧ changed.peers = old.peers) ∨
      r.configured = some changed.peers) : Retains r (store lib changed r) := by
  refine ⟨rfl, ?_⟩
  intro key op hop
  rcases store_cases hop with ⟨_, rfl⟩ | hold
  · exact h
  · exact Or.inl ⟨key, op, hold, rfl⟩

theorem Keyed.store (h : Keyed lib r) (op : Operation) : Keyed lib (store lib op r) := by
  intro key found hfound
  rcases store_cases hfound with ⟨rfl, rfl⟩ | hold
  · rfl
  · exact h key found hold

theorem Keyed.of_operations (h : Keyed lib r) (hoperations : r'.operations = r.operations) : Keyed lib r' := by
  intro key op hop
  rw [hoperations] at hop
  exact h key op hop

theorem Based.store (h : Based lib r) (op : Operation) : Based lib (store lib op r) :=
  ⟨h.keyed.store op, h.indexed, h.configured⟩

theorem Based.of_retains (h : Based lib r) (hoperations : r'.operations = r.operations)
    (hindexed : r'.configurations.Indexed) (hconfigured : r'.configured = r.configured) : Based lib r' :=
  ⟨h.keyed.of_operations hoperations, hindexed, by rw [hconfigured]; exact h.configured⟩

-- A change of the store that leaves the current configuration alone.
theorem Based.withConfiguration {f : Configuration → ConfigStore → ConfigStore} (h : Based lib r)
    (found : Option Configuration) (hindexed : ∀ config, (f config r.configurations).Indexed)
    (hcurrent : ∀ config, (f config r.configurations).current = r.configurations.current) :
    Based lib (withConfiguration f found r) ∧ Retains r (withConfiguration f found r) := by
  cases found with
  | none => exact ⟨h, .of_operations rfl fun _ _ hop => hop⟩
  | some config =>
      have hconfigured : (updateConfigurations (f config) r).configured = r.configured :=
        (updateConfigurations_beside (hcurrent config)).configured
      exact ⟨h.of_retains rfl (hindexed config) hconfigured, .of_operations hconfigured fun _ _ hop => hop⟩

theorem Based.adding (h : Based lib r) (config : Configuration) :
    (adding config r.configurations).Indexed ∧
      (adding config r.configurations).current = r.configurations.current := by
  obtain ⟨peers, hpeers⟩ := h.configured
  obtain ⟨current, hcurrent, _⟩ := Option.map_eq_some_iff.mp hpeers
  exact ⟨h.indexed.add config, (r.configurations.current_add hcurrent config).trans hcurrent.symm⟩

theorem Progress.retains (h : Progress lib input r adds r') (hbased : Based lib r) : Based lib r' ∧ Retains r r' := by
  cases h with
  | aside hoperations hconfigurations =>
      have hconfigured : r'.configured = r.configured := by simp [Replica.configured, hconfigurations]
      refine ⟨hbased.of_retains hoperations ?_ hconfigured, .of_operations hconfigured ?_⟩
      · rw [hconfigurations]
        exact hbased.indexed
      · intro key op hop
        rwa [hoperations] at hop
  | create _ hpeers _ _ => exact ⟨hbased.store _, .store (Or.inr hpeers)⟩
  | record hstored hchanged => exact ⟨hbased.store _, .store (Or.inl ⟨_, _, hstored, hchanged.peers⟩)⟩
  | @accept op msg hstored _ =>
      have haccepted : Based lib (acceptPreprepare lib op.recordPreprepare r) ∧
          Retains r (acceptPreprepare lib op.recordPreprepare r) := by
        have hstore := hbased.store op.recordPreprepare
        have hretains : Retains r (Replica.store lib op.recordPreprepare r) := .store (Or.inl ⟨_, _, hstored, rfl⟩)
        exact ⟨⟨hstore.keyed, hstore.indexed, hstore.configured⟩, ⟨hretains.configured, hretains.peers⟩⟩
      obtain ⟨hbased', hretains⟩ := haccepted.1.withConfiguration (msg.brings lib op.request)
        (fun config => (haccepted.1.adding config).1) fun config => (haccepted.1.adding config).2
      exact ⟨hbased', haccepted.2.trans hretains⟩
  | propose config =>
      exact hbased.withConfiguration (some config) (fun config => (hbased.adding config).1)
        fun config => (hbased.adding config).2
  | @prepare op hstored _ _ =>
      obtain ⟨hbased', hretains⟩ := hbased.withConfiguration (f := enabling) (op.request.proposes lib)
        (fun config => hbased.indexed.enable config.cachedHash true)
        fun config => r.configurations.current_enable config.cachedHash true
      refine ⟨hbased'.store _, hretains.trans (.store (Or.inl ⟨op.key lib, op, ?_, rfl⟩))⟩
      rw [withConfiguration_operations, hstored]
  | @commit op hstored _ _ =>
      obtain ⟨hbased', hretains⟩ := hbased.withConfiguration (f := removingPrior) (op.request.proposes lib)
        (fun config => hbased.indexed.removePriorTo config.cachedHash)
        fun config => r.configurations.current_removePriorTo config.cachedHash
      refine ⟨hbased'.store _, hretains.trans (.store (Or.inl ⟨op.key lib, op, ?_, rfl⟩))⟩
      rw [withConfiguration_operations, hstored]

theorem Replica.Thins.retains (h : Thins r [] r') (hbased : Based lib r) : Based lib r' ∧ Retains r r' := by
  have hconfigured : r'.configured = r.configured := by simp [Replica.configured, h.configurations]
  refine ⟨⟨?_, ?_, ?_⟩, .of_operations hconfigured h.operations⟩
  · exact fun key op hop => hbased.keyed key op (h.operations key op hop)
  · rw [h.configurations]
    exact hbased.indexed
  · rw [hconfigured]
    exact hbased.configured

theorem handler_retains (input : Input) (hbased : Based lib r) :
    Based lib (input.handler lib r).state ∧ Retains r (input.handler lib r).state := by
  obtain ⟨peers, hpeers⟩ := hbased.configured
  cases handler_evolves input hbased.keyed hpeers with
  | progresses adds htrail _ =>
      refine htrail.invariant (I := fun _ r' => Based lib r' ∧ Retains r r') (p := []) ?_
        ⟨hbased, .of_operations rfl fun _ _ hop => hop⟩
      rintro _ r₁ _ r₂ ⟨hbased₁, hretains⟩ hstep
      obtain ⟨hbased₂, hretains₂⟩ := hstep.retains hbased₁
      exact ⟨hbased₂, hretains.trans hretains₂⟩
  | thins hthins _ => exact hthins.retains hbased

end Steps

section Start

-- The configuration of the peers that can be added, one after the other.
def Configuration.gather (codec : Codec) (config : Configuration) (peers : List PeerAddress) : Configuration :=
  peers.foldl (fun config peer => (config.addPeer codec peer).2) config

theorem initializeConfiguration_eq (lib : Library) (peers : List PeerAddress) :
    initializeConfiguration lib peers =
      { configs := [⟨1, ({} : Configuration).gather lib.toCodec peers, true⟩], currentIndex := 1, nextIndex := 2 } := by
  simp [initializeConfiguration, Configuration.gather, ConfigStore.add, ConfigStore.enable, ConfigStore.setFlag,
    ConfigStore.setCurrent, ConfigStore.findByHash]

-- The vector is empty where the set is.
def Configuration.Cached (config : Configuration) : Prop := config.sortedPeers = [] ↔ config.peers = []

theorem Configuration.addPeer_cached {config : Configuration} (codec : Codec) (h : config.Cached)
    (peer : PeerAddress) : (config.addPeer codec peer).2.Cached ∧
      ((config.addPeer codec peer).2.sortedPeers ≠ [] ↔ config.sortedPeers ≠ [] ∨ validPeer peer = true) := by
  have hcached : ∀ config : Configuration, (config.cacheSortedPeers codec).sortedPeers = [] ↔ config.peers = [] := by
    intro config
    simp only [cacheSortedPeers, ← List.length_eq_zero_iff, List.length_insertionSort]
  by_cases hrefused : config.conflictingPeerExists peer || !validPeer peer
  · have hsame : (config.addPeer codec peer).2 = config := by
      simp only [addPeer, insertPeer, if_pos hrefused]
    rw [hsame]
    refine ⟨h, Or.inl, ?_⟩
    rintro (hpeers | hvalid)
    · exact hpeers
    · -- a valid peer is only refused for the sake of another one
      have hconflict : config.conflictingPeerExists peer = true := by simpa [hvalid] using hrefused
      intro hempty
      simp [conflictingPeerExists, h.mp hempty] at hconflict
  · have hadded : (config.addPeer codec peer).2 =
        cacheSortedPeers codec { config with peers := PeerAddress.emplace config.peers peer } := by
      simp only [addPeer, insertPeer, if_neg hrefused]
    have hnonempty : PeerAddress.emplace config.peers peer ≠ [] := by
      unfold PeerAddress.emplace
      split
      · rename_i hany
        rintro hempty
        simp [hempty] at hany
      · simp
    have hvalid : validPeer peer = true := by simp at hrefused; exact hrefused.2
    rw [hadded]
    refine ⟨hcached _, iff_of_true ?_ (Or.inr hvalid)⟩
    rw [Ne, hcached]
    exact hnonempty

theorem Configuration.gather_nonempty {config : Configuration} (codec : Codec) (h : config.Cached)
    (peers : List PeerAddress) : (config.gather codec peers).sortedPeers ≠ [] ↔
      config.sortedPeers ≠ [] ∨ ∃ peer ∈ peers, validPeer peer = true := by
  induction peers generalizing config with
  | nil => simp [gather]
  | cons peer rest ih =>
      obtain ⟨hcached, hnonempty⟩ := addPeer_cached codec h peer
      change (gather codec (config.addPeer codec peer).2 rest).sortedPeers ≠ [] ↔ _
      rw [ih hcached, hnonempty]
      simp only [List.mem_cons, exists_eq_or_imp, or_assoc]

variable {peers : List PeerAddress} {uuid : Uuid} {fresh : Replica}

theorem construct_shape (h : construct lib peers uuid = .ok fresh) :
    fresh.operations = (fun _ => none) ∧ fresh.configurations = initializeConfiguration lib peers := by
  unfold construct at h
  split at h
  · cases h
  · cases h
    exact ⟨rfl, rfl⟩

theorem based_fresh (hfresh : construct lib peers uuid = .ok fresh) : Based lib fresh := by
  obtain ⟨hoperations, hconfigurations⟩ := construct_shape hfresh
  refine ⟨?_, ?_, ?_⟩
  · intro key op hop
    rw [hoperations] at hop
    cases hop
  · rw [hconfigurations, initializeConfiguration_eq]
    exact ⟨List.pairwise_singleton _ _, by simp⟩
  · refine ⟨(({} : Configuration).gather lib.toCodec peers).sortedPeers, ?_⟩
    rw [Replica.configured, hconfigurations, initializeConfiguration_eq]
    simp [ConfigStore.current]

theorem based_init (hinit : (lifetime lib).init r) : Based lib r := by
  obtain ⟨peers, uuid, fresh, setting, hfresh, rfl⟩ := hinit
  have hbased := based_fresh hfresh
  exact ⟨hbased.keyed, hbased.indexed, hbased.configured⟩

theorem based_of_lifetime {past : List (Replica × Input)} (run : (lifetime lib).Run past r) : Based lib r :=
  run.invariant (I := fun _ r => Based lib r) (fun _ hinit => based_init hinit)
    fun _ _ input _ hbased _ => (handler_retains input hbased).1

end Start

section Reconfiguration

-- A replica that may also be moved to another configuration.
inductive Stimulus
  | input (input : Input)
  | moveToNewConfiguration (configHash : Hash)

def reconfigurable (lib : Library) : Machine Replica Stimulus where
  init := (lifetime lib).init
  enabled _ _ := True
  next r
    | .input input => (input.handler lib r).state
    | .moveToNewConfiguration configHash => (moveToNewConfiguration configHash r).2

-- There is a primary, and no operation has been made for an empty set of peers.
structure HasPrimary (r : Replica) : Prop where
  current : ∃ config, r.configurations.current = some config ∧ config.sortedPeers ≠ []
  primary : ∃ primary, getPrimary r = ⟨r, [], .ok primary⟩
  operations : ∀ key op, r.operations key = some op → op.peers.length ≠ 0

-- No step to an enabled configuration without peers.
def MovesSafely (r : Replica) : Stimulus → Prop
  | .input _ => True
  | .moveToNewConfiguration configHash => r.configurations.isEnabled configHash = true →
      ∀ config ∈ r.configurations.get configHash, config.sortedPeers ≠ []

instance (r : Replica) (stimulus : Stimulus) : Decidable (MovesSafely r stimulus) := by
  cases stimulus with
  | input input => exact isTrue trivial
  | moveToNewConfiguration configHash =>
      exact inferInstanceAs (Decidable (r.configurations.isEnabled configHash = true →
        ∀ config ∈ r.configurations.get configHash, config.sortedPeers ≠ []))

variable {past : List (Replica × Stimulus)} {peers : List PeerAddress} {uuid : Uuid} {fresh : Replica}

theorem hasPrimary_iff : HasPrimary r ↔ (∃ peers, r.configured = some peers ∧ peers ≠ []) ∧
    ∀ key op, r.operations key = some op → op.peers ≠ [] := by
  have hcurrent : (∃ config, r.configurations.current = some config ∧ config.sortedPeers ≠ []) ↔
      ∃ peers, r.configured = some peers ∧ peers ≠ [] := by
    simp [Replica.configured]
  constructor
  · intro h
    exact ⟨hcurrent.mp h.current, fun key op hop hempty => h.operations key op hop (by simp [hempty])⟩
  · rintro ⟨hpeers, hoperations⟩
    refine ⟨hcurrent.mpr hpeers, ?_, fun key op hop hempty => ?_⟩
    · obtain ⟨config, hconfig, hnonempty⟩ := hcurrent.mpr hpeers
      have hlt : r.view % config.sortedPeers.length < config.sortedPeers.length :=
        Nat.mod_lt _ (List.length_pos_iff.mpr hnonempty)
      refine ⟨config.sortedPeers[r.view % config.sortedPeers.length], ?_⟩
      simp [getPrimary, currentPeers, Bind.bind, Handler.bind, Handler.reads, hconfig, Pure.pure, hlt]
    · exact hoperations key op hop (List.length_eq_zero_iff.mp hempty)

theorem HasPrimary.of_retains (h : HasPrimary r) (hretains : Retains r r') : HasPrimary r' := by
  obtain ⟨⟨peers, hpeers, hnonempty⟩, hoperations⟩ := hasPrimary_iff.mp h
  refine hasPrimary_iff.mpr ⟨⟨peers, hretains.configured.trans hpeers, hnonempty⟩, ?_⟩
  intro key op hop
  rcases hretains.peers key op hop with ⟨key', old, hold, hsame⟩ | hconfigured
  · rw [hsame]
    exact hoperations key' old hold
  · rw [hpeers] at hconfigured
    rw [← Option.some.inj hconfigured]
    exact hnonempty

theorem moveToNewConfiguration_based (hbased : Based lib r) (configHash : Hash) :
    Based lib (moveToNewConfiguration configHash r).2 := by
  unfold moveToNewConfiguration
  split
  · rename_i henabled
    refine ⟨hbased.keyed, (hbased.indexed.setCurrent configHash).removePriorTo configHash, ?_⟩
    cases hfound : r.configurations.findByHash configHash with
    | none => simp [ConfigStore.isEnabled, hfound] at henabled
    | some entry =>
        refine ⟨entry.config.sortedPeers, ?_⟩
        simp [Replica.configured, updateConfigurations, ConfigStore.current_move hbased.indexed hfound]
  · exact hbased

-- A move keeps the primary exactly where it is safe.
theorem moveToNewConfiguration_hasPrimary (hbased : Based lib r) (h : HasPrimary r) (configHash : Hash) :
    HasPrimary (moveToNewConfiguration configHash r).2 ↔ MovesSafely r (.moveToNewConfiguration configHash) := by
  change _ ↔ (r.configurations.isEnabled configHash = true →
    ∀ config ∈ r.configurations.get configHash, config.sortedPeers ≠ [])
  unfold moveToNewConfiguration
  by_cases henabled : r.configurations.isEnabled configHash = true
  · rw [if_pos henabled]
    cases hfound : r.configurations.findByHash configHash with
    | none => simp [ConfigStore.isEnabled, hfound] at henabled
    | some entry =>
        have hcurrent := ConfigStore.current_move hbased.indexed hfound
        have hget : r.configurations.get configHash = some entry.config := by simp [ConfigStore.get, hfound]
        rw [hasPrimary_iff, hget]
        have hconfigured : (updateConfigurations (fun store =>
            ((store.setCurrent configHash).2.removePriorTo configHash).2) r).configured =
              some entry.config.sortedPeers := by
          simp [Replica.configured, updateConfigurations, hcurrent]
        simp only [hconfigured]
        constructor
        · rintro ⟨⟨peers, hpeers, hnonempty⟩, _⟩ _ config hconfig
          rw [← Option.some.inj hconfig, Option.some.inj hpeers]
          exact hnonempty
        · intro hsafe
          exact ⟨⟨_, rfl, hsafe henabled _ rfl⟩, (hasPrimary_iff.mp h).2⟩
  · rw [if_neg henabled]
    exact iff_of_true h fun hon => absurd hon henabled

theorem based_of_run (run : (reconfigurable lib).Run past r) : Based lib r := by
  refine run.invariant (I := fun _ r => Based lib r) ?_ ?_
  · intro r hinit
    exact based_init hinit
  · intro past r stimulus _ hbased _
    cases stimulus with
    | input input => exact (handler_retains input hbased).1
    | moveToNewConfiguration configHash => exact moveToNewConfiguration_based hbased configHash

theorem hasPrimary_next (hbased : Based lib r) (h : HasPrimary r) (stimulus : Stimulus) :
    HasPrimary ((reconfigurable lib).next r stimulus) ↔ MovesSafely r stimulus := by
  cases stimulus with
  | input input => exact iff_of_true (h.of_retains (handler_retains input hbased).2) trivial
  | moveToNewConfiguration configHash => exact moveToNewConfiguration_hasPrimary hbased h configHash

-- The constructor has a primary to offer where one of the peers is valid.
theorem hasPrimary_fresh (hfresh : construct lib peers uuid = .ok fresh) (setting : Bool) :
    HasPrimary (fresh.setAuditEnabled setting) ↔ ∃ peer ∈ peers, Configuration.validPeer peer = true := by
  obtain ⟨hoperations, hconfigurations⟩ := construct_shape hfresh
  have hconfigured : (fresh.setAuditEnabled setting).configured =
      some (({} : Configuration).gather lib.toCodec peers).sortedPeers := by
    simp [Replica.configured, setAuditEnabled, hconfigurations, initializeConfiguration_eq, ConfigStore.current]
  have hcached : ({} : Configuration).Cached := Iff.rfl
  have hgather := Configuration.gather_nonempty lib.toCodec hcached peers
  rw [hasPrimary_iff, hconfigured]
  have hnone : ∀ key op, (fresh.setAuditEnabled setting).operations key = some op → op.peers ≠ [] := by
    intro key op hop
    simp [setAuditEnabled, hoperations] at hop
  rw [and_iff_left hnone]
  simpa using hgather

-- In every run the primary is defined throughout exactly where the list had a valid peer and no step
-- has been to a configuration without peers.
theorem hasPrimary_of_run_iff {setting : Bool} (hfresh : construct lib peers uuid = .ok fresh)
    (run : (reconfigurable lib).Run past r) (horigin : Machine.origin past r = fresh.setAuditEnabled setting) :
    (∀ s, Machine.Visited past r s → HasPrimary s) ↔
      (∃ peer ∈ peers, Configuration.validPeer peer = true) ∧ ∀ step ∈ past, MovesSafely step.1 step.2 := by
  induction run with
  | @start r _ =>
      obtain rfl : r = fresh.setAuditEnabled setting := horigin
      rw [← hasPrimary_fresh hfresh setting]
      constructor
      · exact fun h => ⟨h _ (Or.inl rfl), by simp⟩
      · rintro ⟨h, _⟩ s (rfl | ⟨_, hmem⟩)
        · exact h
        · cases hmem
  | @step past r stimulus run _ ih =>
      rw [Machine.origin_step past r stimulus] at horigin
      have hbased := based_of_run run
      have hsplit : (∀ s, Machine.Visited ((r, stimulus) :: past) ((reconfigurable lib).next r stimulus) s →
          HasPrimary s) ↔ (∀ s, Machine.Visited past r s → HasPrimary s) ∧ MovesSafely r stimulus := by
        constructor
        · intro h
          have hpast : ∀ s, Machine.Visited past r s → HasPrimary s := fun s hs => h s (hs.step _ _)
          exact ⟨hpast, (hasPrimary_next hbased (hpast r (Or.inl rfl)) stimulus).mp (h _ (Or.inl rfl))⟩
        · rintro ⟨hpast, hsafe⟩ s hs
          rcases Machine.visited_step_cases hs with rfl | hs
          · exact (hasPrimary_next hbased (hpast r (Or.inl rfl)) stimulus).mpr hsafe
          · exact hpast s hs
      rw [hsplit, ih horigin, and_assoc]
      simp only [List.mem_cons, forall_eq_or_imp]
      tauto

end Reconfiguration

section Written

-- Texts for some requests, and a number for every other one.
noncomputable def textOf (texts : List (Request × Hash)) (request : Request) : Hash :=
  match texts.find? fun known => known.1 = request with
  | some known => known.2
  | none => String.ofList (List.replicate ((exists_injective_nat Request).choose request) '#')

theorem textOf_injective {texts : List (Request × Hash)} (hnodup : (texts.map Prod.snd).Nodup)
    (hletter : ∀ known ∈ texts, ∃ c ∈ known.2.toList, c ≠ '#') : Function.Injective (textOf texts) := by
  have hsharp : ∀ known ∈ texts, ∀ n : Nat, known.2 ≠ String.ofList (List.replicate n '#') := by
    intro known hknown n heq
    obtain ⟨c, hc, hne⟩ := hletter known hknown
    rw [heq, String.toList_ofList] at hc
    exact hne (List.eq_of_mem_replicate hc)
  have hfound : ∀ {request : Request} {known : Request × Hash},
      (texts.find? fun known => known.1 = request) = some known → known ∈ texts ∧ known.1 = request :=
    fun hfind => ⟨List.mem_of_find?_eq_some hfind, by simpa using List.find?_some hfind⟩
  intro a b h
  unfold textOf at h
  split at h
  · rename_i known ha
    obtain ⟨hmem, rfl⟩ := hfound ha
    split at h
    · rename_i other hb
      obtain ⟨hmem', rfl⟩ := hfound hb
      rw [List.inj_on_of_nodup_map hnodup hmem hmem' h]
    · exact absurd h (hsharp known hmem _)
  · split at h
    · rename_i other hb
      exact absurd h.symm (hsharp other (hfound hb).1 _)
    · have hlist := congrArg String.toList h
      rw [String.toList_ofList, String.toList_ofList] at hlist
      have hlength := congrArg List.length hlist
      rw [List.length_replicate, List.length_replicate] at hlength
      exact (exists_injective_nat Request).choose_spec hlength

def configRequest (json : Json) : Request := { type := .newConfig, body := .config (toStyledText json) }

-- ShortDebugString of a request for a configuration.
def debugString (json : Json) : String :=
  "type: PBFT_REQ_NEW_CONFIG config \x7b configuration: \"" ++ styled "\\n" "\\\"" json ++ "\" \x7d"

def configTexts (known : List Json) : List (Request × Hash) :=
  known.map fun json => (configRequest json, debugString json)

-- A library that knows the texts of these configurations.
noncomputable def writtenLibrary (known : List Json) : Library where
  parse text := .ok (known.find? fun json => toStyledText json == text)
  toStyledString := toStyledText
  stdHash := textHash
  requestHash := textOf (configTexts known)
  validAddress _ := true

def nobody : Json := .object [("peers", .array [])]

noncomputable def nobodyLibrary : Library := writtenLibrary [nobody]

noncomputable def writtenReplica (lib : Library) (peers : List PeerAddress) (uuid : Uuid) : Replica where
  uuid := uuid
  lowWaterMark := 0
  highWaterMark := highWaterInterval
  configurations := initializeConfiguration lib peers

theorem construct_written (lib : Library) {peers : List PeerAddress} (hpeers : peers ≠ []) (uuid : Uuid) :
    construct lib peers uuid = .ok (writtenReplica lib peers uuid) := by
  rw [construct, if_neg hpeers]
  rfl

def Input.configuring (json : Json) (sequence : Nat) (type : MsgType) (sender : Uuid) : Input :=
  let msg : PbftMsg := { type := type, view := 1, sequence := sequence, request := some (configRequest json) }
  .message msg ⟨sender, msg⟩

theorem init_written (lib : Library) {peers : List PeerAddress} (hpeers : peers ≠ []) (uuid : Uuid) :
    (lifetime lib).init (writtenReplica lib peers uuid) :=
  ⟨peers, uuid, _, true, construct_written lib hpeers uuid, rfl⟩

theorem reconfigurable_written {lib : Library} {peers : List PeerAddress} (hpeers : peers ≠ []) (uuid : Uuid)
    (stimuli : List Stimulus) : (reconfigurable lib).Run
      ((reconfigurable lib).replay [] (writtenReplica lib peers uuid) stimuli).1
      ((reconfigurable lib).replay [] (writtenReplica lib peers uuid) stimuli).2 := by
  have hstart : (reconfigurable lib).Run [] (writtenReplica lib peers uuid) := .start (init_written lib hpeers uuid)
  exact hstart.replay stimuli (Machine.admits_of_enabled (fun _ _ => trivial) _ _)

theorem origin_written (lib : Library) (peers : List PeerAddress) (uuid : Uuid) (stimuli : List Stimulus) :
    Machine.origin ((reconfigurable lib).replay [] (writtenReplica lib peers uuid) stimuli).1
      ((reconfigurable lib).replay [] (writtenReplica lib peers uuid) stimuli).2 =
        (writtenReplica lib peers uuid).setAuditEnabled true :=
  Machine.origin_replay stimuli [] _

noncomputable def hashOf (lib : Library) (peers : List PeerAddress) : Hash :=
  ((({} : Configuration).gather lib.toCodec peers).cacheSortedPeers lib.toCodec).cachedHash

-- The empty configuration is proposed and prepared.
def preparedRound : List Stimulus :=
  (.configuring nobody 1 .preprepare "B" :: ["A", "B", "C"].map (.configuring nobody 1 .prepare)).map .input

-- Then the replica moves to the configuration it has, or to the empty one.
noncomputable def movesOn (peers : List PeerAddress) : List Stimulus :=
  preparedRound ++ [.moveToNewConfiguration (hashOf nobodyLibrary peers)]

theorem hasPrimary_of_run_iff_fresh :
    let run := (reconfigurable nobodyLibrary).replay [] (writtenReplica nobodyLibrary fourPeers "A") (movesOn fourPeers)
    ∀ s, Machine.Visited run.1 run.2 s → HasPrimary s := by
  have hpeers : fourPeers ≠ [] := by decide
  intro run
  have hrun : (reconfigurable nobodyLibrary).Run run.1 run.2 := reconfigurable_written hpeers "A" (movesOn fourPeers)
  have horigin := origin_written nobodyLibrary fourPeers "A" (movesOn fourPeers)
  have hsafe : ∀ step ∈ run.1, MovesSafely step.1 step.2 := by decide +kernel
  exact (hasPrimary_of_run_iff (construct_written nobodyLibrary hpeers "A") hrun horigin).mpr ⟨by decide, hsafe⟩

-- A peer without a name is left out. And an empty configuration can be prepared and moved to.
theorem hasPrimary_broken :
    (∃ fresh, construct nobodyLibrary [⟨"127.0.0.1", 50000, 8080, "", "A"⟩] "A" = .ok fresh ∧
      (reconfigurable nobodyLibrary).Run [] fresh ∧ ¬HasPrimary fresh) ∧
    let run := (reconfigurable nobodyLibrary).replay [] (writtenReplica nobodyLibrary fourPeers "A") (movesOn [])
    (reconfigurable nobodyLibrary).Run run.1 run.2 ∧ ¬HasPrimary run.2 := by
  have hempty : ∀ {r : Replica}, r.configured = some [] → ¬HasPrimary r := by
    intro r hconfigured h
    obtain ⟨⟨peers, hpeers, hnonempty⟩, _⟩ := hasPrimary_iff.mp h
    exact hnonempty (Option.some.inj (hpeers.symm.trans hconfigured))
  have hnameless : [(⟨"127.0.0.1", 50000, 8080, "", "A"⟩ : PeerAddress)] ≠ [] := by decide
  have hpeers : fourPeers ≠ [] := by decide
  refine ⟨⟨_, construct_written nobodyLibrary hnameless "A", reconfigurable_written hnameless "A" [], ?_⟩, ?_⟩
  · exact hempty (by decide +kernel)
  · intro run
    have hconfigured : run.2.configured = some [] := by decide +kernel
    exact ⟨reconfigurable_written hpeers "A" (movesOn []), hempty hconfigured⟩

end Written

end SwarmDB.Pbft
