import SwarmDB.Pbft.Configuration.Peers
import SwarmDB.Pbft.Replica

namespace SwarmDB.Pbft

namespace Configuration

variable {codec : Codec} {config other : Configuration} {peers : List PeerAddress} {peer : PeerAddress}
  {past later : List (Configuration × Edit)}

section RoundTrip

theorem asUInt_natCast {n : Nat} (h : n < 2 ^ 16) : Json.asUInt (.integer n) = some n := by
  simp only [Json.asUInt]
  rw [if_pos (by omega), Int.toNat_natCast]

-- A peer is read from its five members.
theorem peerOf_eq {json host port httpPort name uuid : Json}
    (hhost : json.member "host" = some host) (hport : json.member "port" = some port)
    (hhttp : json.member "http_port" = some httpPort) (hname : json.member "name" = some name)
    (huuid : json.member "uuid" = some uuid) (hhost' : host.asString = some peer.host)
    (hport' : port.asUInt = some peer.port) (hhttp' : httpPort.asUInt = some peer.httpPort)
    (hname' : name.asString = some peer.name) (huuid' : uuid.asString = some peer.uuid) (hfit : PortsFit peer) :
    peerOf json = some peer := by
  rw [peerOf, hhost, hport, hhttp, hname, huuid]
  simp only [Option.bind_eq_bind, Option.bind_some, hhost', hport', hhttp', hname', huuid', Option.pure_def]
  rw [Nat.mod_eq_of_lt hfit.1, Nat.mod_eq_of_lt hfit.2]

-- With ports of 16 bits it is read back as it was written.
theorem peerOf_peerJson (h : PortsFit peer) : peerOf (peerJson peer) = some peer :=
  peerOf_eq rfl rfl rfl rfl rfl rfl (asUInt_natCast h.1) (asUInt_natCast h.2) rfl rfl h

theorem mapM_peerOf_peerJson (h : ∀ peer ∈ peers, PortsFit peer) : (peers.map peerJson).mapM peerOf = some peers := by
  induction peers with
  | nil => rfl
  | cons first rest ih =>
      obtain ⟨hfirst, hrest⟩ := List.forall_mem_cons.mp h
      rw [List.map_cons, List.mapM_cons, peerOf_peerJson hfirst, ih hrest]
      rfl

theorem elementsOf_toString (hne : config.sortedPeers ≠ [])
    (hundo : codec.parse (config.toString codec) = .ok (some config.toJson)) :
    elementsOf codec (config.toString codec) = some (config.sortedPeers.map peerJson) := by
  simp [elementsOf, hundo, toJson, hne, Json.member]

-- Sorting a vector that is sorted changes nothing.
theorem cacheSortedPeers_sorted (codec : Codec) (horderly : Orderly peers)
    (hincreasing : peers.Pairwise fun p q => p.uuid < q.uuid) (config : Configuration) :
    (({ config with peers := peers } : Configuration).cacheSortedPeers codec).sortedPeers = peers := by
  apply sorted_unique (cacheSortedPeers_increasing codec horderly) hincreasing
  exact fun peer => (cacheSortedPeers_perm codec { config with peers := peers }).mem_iff

theorem hash_of_nonempty (run : (edits codec).Run past config) (hne : config.sortedPeers ≠ []) :
    config.cachedHash = config.createHash codec := by
  rcases hash_of_run run with ⟨_, hhash⟩ | ⟨_, hempty, _⟩
  · exact hhash
  · exact absurd hempty hne

-- Reading the text of a configuration into any other one makes it the same.
theorem fromString_toString (run : (edits codec).Run past config) (hne : config.sortedPeers ≠ [])
    (hundo : codec.parse (config.toString codec) = .ok (some config.toJson)) (other : Configuration) :
    ∃ restored, fromString codec (config.toString codec) other = ⟨restored, [], .ok true⟩ ∧
      restored.sortedPeers = config.sortedPeers ∧ restored.cachedHash = config.cachedHash := by
  have hsound := sound_of_run run
  have hread := fromString_read (elementsOf_toString hne hundo) (mapM_peerOf_peerJson hsound.listedFit) other
  have hall : takeIn [] config.sortedPeers = config.sortedPeers := (takeIn_all_iff orderly_nil).mpr hsound.listed
  rw [hall, decide_eq_true rfl] at hread
  have hsorted := cacheSortedPeers_sorted codec hsound.listed hsound.increasing other
  refine ⟨_, hread, hsorted, ?_⟩
  rw [cacheSortedPeers_hash, createHash_congr codec hsorted, hash_of_nonempty run hne]

end RoundTrip

section Canonical

-- Two configurations have the same peers: the ones they list, or, where every call on them has returned,
-- the ones they hold.
inductive SamePeers (codec : Codec) (past : List (Configuration × Edit)) (config : Configuration)
    (later : List (Configuration × Edit)) (other : Configuration) : Prop
  | listed (h : ∀ peer, peer ∈ config.sortedPeers ↔ peer ∈ other.sortedPeers)
  | held (hpast : ∀ step ∈ past, step.2.Returns codec step.1) (hlater : ∀ step ∈ later, step.2.Returns codec step.1)
      (h : ∀ peer, peer ∈ config.peers ↔ peer ∈ other.peers)

theorem SamePeers.sorted (h : SamePeers codec past config later other) (run : (edits codec).Run past config)
    (run' : (edits codec).Run later other) : config.sortedPeers = other.sortedPeers := by
  apply sorted_unique (sound_of_run run).increasing (sound_of_run run').increasing
  intro peer
  cases h with
  | listed h => exact h peer
  | held hpast hlater h =>
      rw [(perm_of_run (run.guard_of hpast)).mem_iff, (perm_of_run (run'.guard_of hlater)).mem_iff]
      exact h peer

theorem getPrimary_congr {r r' : Replica} (hcurrent : r.configurations.current = some config)
    (hcurrent' : r'.configurations.current = some other) (hpeers : config.sortedPeers = other.sortedPeers)
    (hview : r.view = r'.view) : (Replica.getPrimary r).result = (Replica.getPrimary r').result := by
  simp only [Replica.getPrimary, Replica.currentPeers, Bind.bind, Handler.bind, Handler.reads, hcurrent, hcurrent',
    hpeers, hview, Pure.pure]
  cases other.sortedPeers[r'.view % other.sortedPeers.length]? with
  | none => rfl
  | some primary => rfl

-- The peers determine everything else about a configuration, but for the hash of an empty one.
structure Canonical (codec : Codec) (past : List (Configuration × Edit)) (config : Configuration)
    (later : List (Configuration × Edit)) (other : Configuration) : Prop where
  text : config.toString codec = other.toString codec
  hash : config.sortedPeers ≠ [] ∨ (Rehashed codec past ↔ Rehashed codec later) →
    config.cachedHash = other.cachedHash
  primary : ∀ r r' : Replica, r.configurations.current = some config → r'.configurations.current = some other →
    r.view = r'.view → (Replica.getPrimary r).result = (Replica.getPrimary r').result

theorem canonical_of_same (run : (edits codec).Run past config) (run' : (edits codec).Run later other)
    (h : SamePeers codec past config later other) : Canonical codec past config later other := by
  have hsorted := h.sorted run run'
  have hhash := createHash_congr codec hsorted
  refine ⟨toString_congr codec hsorted, ?_, fun r r' hr hr' hview => getPrimary_congr hr hr' hsorted hview⟩
  intro hcases
  rcases hash_of_run run with ⟨hpast, hcached⟩ | ⟨hpast, hempty, hcached⟩
  · rcases hash_of_run run' with ⟨_, hcached'⟩ | ⟨hlater, hempty', _⟩
    · rw [hcached, hcached', hhash]
    · rcases hcases with hne | hiff
      · exact absurd (hsorted.trans hempty') hne
      · exact absurd (hiff.mp hpast) hlater
  · rcases hash_of_run run' with ⟨hlater, _⟩ | ⟨_, _, hcached'⟩
    · rcases hcases with hne | hiff
      · exact absurd hempty hne
      · exact absurd (hiff.mpr hlater) hpast
    · rw [hcached, hcached']

-- A configuration survives its text, and its peers make it what it is.
theorem roundTrip_and_canonical (run : (edits codec).Run past config) (run' : (edits codec).Run later other) :
    (config.sortedPeers ≠ [] → codec.parse (config.toString codec) = .ok (some config.toJson) →
      ∀ blank, ∃ restored, fromString codec (config.toString codec) blank = ⟨restored, [], .ok true⟩ ∧
        restored.sortedPeers = config.sortedPeers ∧ restored.cachedHash = config.cachedHash) ∧
    (SamePeers codec past config later other → Canonical codec past config later other) :=
  ⟨fun hne hundo blank => fromString_toString run hne hundo blank, canonical_of_same run run'⟩

-- What is left when the other peer has come and gone is what a single addition makes.
theorem roundTrip_and_canonical_alice :
    let codec := writtenCodec [({ sortedPeers := [alice] } : Configuration).toJson]
    let run := (returning codec).replay [] {} addAndRemove
    let single := (returning codec).replay [] {} [.addPeer alice]
    (∀ blank, ∃ restored, fromString codec (run.2.toString codec) blank = ⟨restored, [], .ok true⟩ ∧
      restored.sortedPeers = run.2.sortedPeers ∧ restored.cachedHash = run.2.cachedHash) ∧
    Canonical codec run.1 run.2 single.1 single.2 := by
  intro codec run single
  have hstart : (returning codec).Run [] {} := .start rfl
  have hrun : (edits codec).Run run.1 run.2 :=
    (hstart.replay addAndRemove (admits_adds _ _ (by simp [addAndRemove, Edit.Sized, PortsFit, alice, bob]))).of_guard
  have hsingle : (edits codec).Run single.1 single.2 :=
    (hstart.replay [.addPeer alice] (admits_adds _ _ (by simp [Edit.Sized, PortsFit, alice]))).of_guard
  have hsorted : run.2.sortedPeers = [alice] := by decide +kernel
  have hsorted' : single.2.sortedPeers = [alice] := by decide +kernel
  have hjson : run.2.toJson = ({ sortedPeers := [alice] } : Configuration).toJson := by simp only [toJson, hsorted]
  have hundo : codec.parse (run.2.toString codec) = .ok (some run.2.toJson) := by
    simp [codec, writtenCodec, toString, hjson]
  obtain ⟨hround, hcanonical⟩ := roundTrip_and_canonical hrun hsingle
  exact ⟨hround (by simp [hsorted]) hundo, hcanonical (.listed (by simp [hsorted, hsorted']))⟩

-- An empty configuration has a hash only if it has had peers before.
theorem canonical_broken : ¬∀ (codec : Codec) (past later : List (Configuration × Edit)) (config other : Configuration),
    (edits codec).Run past config → (edits codec).Run later other →
      (∀ peer, peer ∈ config.peers ↔ peer ∈ other.peers) → config.cachedHash = other.cachedHash := by
  intro h
  let run := (returning (writtenCodec [])).replay [] {} [.addPeer alice, .removePeer alice]
  have hstart : (returning (writtenCodec [])).Run [] {} := .start rfl
  have hrun : (returning (writtenCodec [])).Run run.1 run.2 := hstart.replay [.addPeer alice, .removePeer alice]
    (admits_adds _ _ (by simp [Edit.Sized, PortsFit, alice]))
  have hnone : run.2.peers = [] := by decide +kernel
  have hempty := h _ _ _ _ _ hrun.of_guard (.start rfl) (by simp [hnone])
  have htouched : ∃ step ∈ run.1, step.2.Touches (writtenCodec []) step.1 :=
    ⟨_, List.mem_cons_of_mem _ List.mem_cons_self, by decide +kernel⟩
  rw [hashed_of_run hrun htouched] at hempty
  exact Nat.repr_ne_empty hempty

end Canonical

end Configuration

end SwarmDB.Pbft
