import SwarmDB.Machine
import SwarmDB.Pbft.Configuration.Text
import Mathlib.Data.List.Pairwise

namespace SwarmDB.Pbft

namespace Configuration

variable {codec : Codec} {config : Configuration} {peers kept : List PeerAddress} {peer other : PeerAddress}

section Conflicts

-- Two peers that a configuration does not hold both.
def Conflict (peer other : PeerAddress) : Prop :=
  peer.uuid = other.uuid ∨ peer.name = other.name ∨
    peer.host = other.host ∧ (peer.port = other.port ∨ peer.httpPort = other.httpPort)

instance (peer other : PeerAddress) : Decidable (Conflict peer other) :=
  inferInstanceAs (Decidable (_ ∨ _ ∨ _ ∧ (_ ∨ _)))

theorem Conflict.symm (h : Conflict peer other) : Conflict other peer := by
  rcases h with huuid | hname | ⟨hhost, hport | hport⟩
  · exact Or.inl huuid.symm
  · exact Or.inr (Or.inl hname.symm)
  · exact Or.inr (Or.inr ⟨hhost.symm, Or.inl hport.symm⟩)
  · exact Or.inr (Or.inr ⟨hhost.symm, Or.inr hport.symm⟩)

theorem conflict_self (peer : PeerAddress) : Conflict peer peer := Or.inl rfl

theorem same_iff : PeerAddress.same peer other = true ↔
    peer.host = other.host ∧ peer.port = other.port ∧ peer.httpPort = other.httpPort ∧ peer.uuid = other.uuid := by
  simp [PeerAddress.same, and_assoc]

theorem same_symm (h : PeerAddress.same peer other = true) : PeerAddress.same other peer = true := by
  rw [same_iff] at h ⊢
  exact ⟨h.1.symm, h.2.1.symm, h.2.2.1.symm, h.2.2.2.symm⟩

theorem same_trans {third : PeerAddress} (h : PeerAddress.same peer other = true)
    (h' : PeerAddress.same other third = true) : PeerAddress.same peer third = true := by
  rw [same_iff] at h h' ⊢
  exact ⟨h.1.trans h'.1, h.2.1.trans h'.2.1, h.2.2.1.trans h'.2.2.1, h.2.2.2.trans h'.2.2.2⟩

@[simp] theorem same_self (peer : PeerAddress) : PeerAddress.same peer peer = true := by
  simp [PeerAddress.same]

theorem conflict_of_same (h : PeerAddress.same peer other = true) : Conflict peer other :=
  Or.inl (same_iff.mp h).2.2.2

theorem conflictingPeerExists_iff :
    config.conflictingPeerExists peer = true ↔ ∃ p ∈ config.peers, Conflict p peer := by
  simp [conflictingPeerExists, Conflict, or_assoc]

theorem validPeer_iff : validPeer peer = true ↔
    peer.name ≠ "" ∧ peer.uuid ≠ "" ∧ peer.host ≠ "" ∧ peer.port ≠ 0 ∧ peer.httpPort ≠ 0 := by
  simp [validPeer, and_assoc]

-- Valid peers, and no two of them in conflict.
structure Orderly (peers : List PeerAddress) : Prop where
  valid : ∀ peer ∈ peers, validPeer peer = true
  apart : peers.Pairwise fun peer other => ¬Conflict peer other

theorem orderly_nil : Orderly [] := ⟨by simp, List.Pairwise.nil⟩

theorem Orderly.nodup (h : Orderly peers) : peers.Nodup := by
  refine h.apart.imp ?_
  intro first second hapart heq
  exact hapart (heq ▸ conflict_self first)

theorem Orderly.eq_of_conflict (h : Orderly peers) (hpeer : peer ∈ peers) (hother : other ∈ peers)
    (hconflict : Conflict peer other) : peer = other := by
  have hsymm : Std.Symm fun peer other => ¬Conflict peer other := ⟨fun _ _ hapart hback => hapart hback.symm⟩
  by_contra hne
  exact h.apart.forall hpeer hother hne hconflict

theorem Orderly.perm (h : Orderly peers) (hperm : kept.Perm peers) : Orderly kept := by
  refine ⟨fun peer hpeer => h.valid peer (hperm.subset hpeer), ?_⟩
  exact (hperm.pairwise_iff fun hapart hback => hapart hback.symm).mpr h.apart

theorem Orderly.sublist (h : Orderly peers) (hsublist : kept.Sublist peers) : Orderly kept :=
  ⟨fun peer hpeer => h.valid peer (hsublist.subset hpeer), h.apart.sublist hsublist⟩

def PortsFit (peer : PeerAddress) : Prop := peer.port < 2 ^ 16 ∧ peer.httpPort < 2 ^ 16

instance (peer : PeerAddress) : Decidable (PortsFit peer) := inferInstanceAs (Decidable (_ ∧ _))

-- A peer that may come to these ones.
def Fits (kept : List PeerAddress) (peer : PeerAddress) : Prop :=
  validPeer peer = true ∧ ∀ p ∈ kept, ¬Conflict p peer

instance (kept : List PeerAddress) (peer : PeerAddress) : Decidable (Fits kept peer) :=
  inferInstanceAs (Decidable (_ ∧ _))

theorem orderly_concat : Orderly (kept ++ [peer]) ↔ Orderly kept ∧ Fits kept peer := by
  constructor
  · intro h
    refine ⟨h.sublist (List.sublist_append_left kept [peer]), h.valid peer (by simp), ?_⟩
    intro p hp
    exact (List.pairwise_append.mp h.apart).2.2 p hp peer (by simp)
  · rintro ⟨h, hvalid, hapart⟩
    refine ⟨?_, List.pairwise_append.mpr ⟨h.apart, List.pairwise_singleton _ _, ?_⟩⟩
    · intro p hp
      rcases List.mem_append.mp hp with hp | hp
      · exact h.valid p hp
      · rw [List.mem_singleton.mp hp]
        exact hvalid
    · intro p hp q hq
      rw [List.mem_singleton.mp hq]
      exact hapart p hp

theorem refused_iff :
    (config.conflictingPeerExists peer || !validPeer peer) = true ↔ ¬Fits config.peers peer := by
  rw [Bool.or_eq_true, conflictingPeerExists_iff, Bool.not_eq_true', ← Bool.not_eq_true]
  unfold Fits
  constructor
  · rintro (⟨p, hp, hconflict⟩ | hinvalid) ⟨hvalid, hapart⟩
    · exact hapart p hp hconflict
    · exact hinvalid hvalid
  · intro hunfit
    by_cases hvalid : validPeer peer = true
    · left
      by_contra hnone
      exact hunfit ⟨hvalid, fun p hp hconflict => hnone ⟨p, hp, hconflict⟩⟩
    · exact Or.inr hvalid

theorem insertPeer_fits (h : Fits config.peers peer) :
    config.insertPeer peer = (true, { config with peers := config.peers ++ [peer] }) := by
  have hnew : config.peers.any (PeerAddress.same peer) = false := by
    rw [List.any_eq_false]
    intro p hp hsame
    exact h.2 p hp (conflict_of_same hsame).symm
  unfold insertPeer
  rw [if_neg (by rw [refused_iff]; exact not_not_intro h)]
  simp [PeerAddress.emplace, hnew]

theorem insertPeer_unfit (h : ¬Fits config.peers peer) : config.insertPeer peer = (false, config) := by
  unfold insertPeer
  rw [if_pos (refused_iff.mpr h)]

end Conflicts

section Decoding

-- The peers that are there in the end when these come one after the other, each if it fits.
def takeIn (kept : List PeerAddress) : List PeerAddress → List PeerAddress
  | [] => kept
  | peer :: rest => takeIn (if Fits kept peer then kept ++ [peer] else kept) rest

theorem takeIn_orderly (h : Orderly kept) (peers : List PeerAddress) : Orderly (takeIn kept peers) := by
  induction peers generalizing kept with
  | nil => exact h
  | cons peer rest ih =>
      unfold takeIn
      split
      · rename_i hfits
        exact ih (orderly_concat.mpr ⟨h, hfits⟩)
      · exact ih h

theorem mem_of_mem_takeIn (h : peer ∈ takeIn kept peers) : peer ∈ kept ∨ peer ∈ peers := by
  induction peers generalizing kept with
  | nil => exact Or.inl h
  | cons first rest ih =>
      unfold takeIn at h
      rcases ih h with hkept | hrest
      · split at hkept
        · rcases List.mem_append.mp hkept with hkept | hfirst
          · exact Or.inl hkept
          · exact Or.inr (List.mem_cons.mpr (Or.inl (List.mem_singleton.mp hfirst)))
        · exact Or.inl hkept
      · exact Or.inr (List.mem_cons_of_mem _ hrest)

theorem takeIn_fit (h : ∀ peer ∈ peers, PortsFit peer) : ∀ peer ∈ takeIn [] peers, PortsFit peer := by
  intro peer hpeer
  rcases mem_of_mem_takeIn hpeer with hnone | hpeer
  · cases hnone
  · exact h peer hpeer

theorem takeIn_length (kept peers : List PeerAddress) : (takeIn kept peers).length ≤ kept.length + peers.length := by
  induction peers generalizing kept with
  | nil => simp [takeIn]
  | cons peer rest ih =>
      unfold takeIn
      split
      · have hle := ih (kept ++ [peer])
        simp only [List.length_append, List.length_cons, List.length_nil] at hle ⊢
        omega
      · have hle := ih kept
        simp only [List.length_cons]
        omega

theorem takeIn_cons_all {rest : List PeerAddress} : takeIn kept (peer :: rest) = kept ++ peer :: rest ↔
    Fits kept peer ∧ takeIn (kept ++ [peer]) rest = (kept ++ [peer]) ++ rest := by
  rw [takeIn, List.append_assoc, List.singleton_append]
  by_cases hfits : Fits kept peer
  · simp [hfits]
  · rw [if_neg hfits]
    refine iff_of_false ?_ fun h => hfits h.1
    intro heq
    have hle := takeIn_length kept rest
    have hlength := congrArg List.length heq
    simp only [List.length_append, List.length_cons] at hlength
    omega

-- All of them come in where the whole is in order.
theorem takeIn_all_iff (h : Orderly kept) : takeIn kept peers = kept ++ peers ↔ Orderly (kept ++ peers) := by
  induction peers generalizing kept with
  | nil => simpa [takeIn] using h
  | cons peer rest ih =>
      rw [takeIn_cons_all]
      constructor
      · rintro ⟨hfits, hrest⟩
        rw [List.append_cons]
        exact (ih (orderly_concat.mpr ⟨h, hfits⟩)).mp hrest
      · intro hall
        rw [List.append_cons] at hall
        have hfirst := hall.sublist (List.sublist_append_left (kept ++ [peer]) rest)
        exact ⟨(orderly_concat.mp hfirst).2, (ih hfirst).mpr hall⟩

theorem peerOf_fit {json : Json} (h : peerOf json = some peer) : PortsFit peer := by
  simp only [peerOf, Option.bind_eq_bind, Option.bind_eq_some_iff, Option.pure_def, Option.some.injEq] at h
  obtain ⟨_, _, _, _, _, _, _, _, _, _, _, _, _, _, _, _, _, _, _, _, rfl⟩ := h
  exact ⟨Nat.mod_lt _ (by decide), Nat.mod_lt _ (by decide)⟩

theorem mapM_peerOf_fit {elements : List Json} (h : elements.mapM peerOf = some peers) :
    ∀ peer ∈ peers, PortsFit peer := by
  induction elements generalizing peers with
  | nil =>
      obtain rfl : [] = peers := by simpa using h
      simp
  | cons json rest ih =>
      simp only [List.mapM_cons, Option.bind_eq_bind, Option.bind_eq_some_iff, Option.pure_def,
        Option.some.injEq] at h
      obtain ⟨first, hfirst, later, hlater, rfl⟩ := h
      intro peer hpeer
      rcases List.mem_cons.mp hpeer with rfl | hpeer
      · exact peerOf_fit hfirst
      · exact ih hlater peer hpeer

theorem insertPeers_cons_ok {json : Json} {rest : List Json} {result : Bool} (hpeer : peerOf json = some peer) :
    insertPeers (json :: rest) result config =
      insertPeers rest (result && (config.insertPeer peer).1) (config.insertPeer peer).2 := by
  simp [insertPeers, orThrow, hpeer, Bind.bind, Handler.bind, Handler.reads, Handler.updates, Pure.pure]

theorem insertPeers_cons_error {json : Json} {rest : List Json} {result : Bool} (hpeer : peerOf json = none) :
    insertPeers (json :: rest) result config = ⟨config, [], .error .jsonError⟩ := by
  simp [insertPeers, orThrow, hpeer, Bind.bind, Handler.bind, Handler.throws]

-- The loop takes in what fits, as far as the peers can be read.
theorem insertPeers_spec (elements : List Json) (result : Bool) (config : Configuration) :
    match elements.mapM peerOf with
    | some peers => insertPeers elements result config =
        ⟨{ config with peers := takeIn config.peers peers }, [],
          .ok (result && decide (takeIn config.peers peers = config.peers ++ peers))⟩
    | none => ∃ peers, (∀ peer ∈ peers, PortsFit peer) ∧ insertPeers elements result config =
        ⟨{ config with peers := takeIn config.peers peers }, [], .error .jsonError⟩ := by
  induction elements generalizing result config with
  | nil => simp [insertPeers, takeIn, Pure.pure]
  | cons json rest ih =>
      cases hpeer : peerOf json with
      | none =>
          rw [List.mapM_cons, hpeer]
          exact ⟨[], by simp, insertPeers_cons_error hpeer⟩
      | some peer =>
          rw [List.mapM_cons, hpeer, insertPeers_cons_ok hpeer]
          have hall : ∀ peers, takeIn config.peers (peer :: peers) = config.peers ++ peer :: peers ↔
              Fits config.peers peer ∧
                takeIn (config.peers ++ [peer]) peers = (config.peers ++ [peer]) ++ peers := fun _ => takeIn_cons_all
          by_cases hfits : Fits config.peers peer
          · rw [insertPeer_fits hfits, Bool.and_true]
            have hrest := ih result { config with peers := config.peers ++ [peer] }
            cases hpeers : rest.mapM peerOf with
            | none =>
                rw [hpeers] at hrest
                obtain ⟨taken, hfit, hrun⟩ := hrest
                exact ⟨peer :: taken, List.forall_mem_cons.mpr ⟨peerOf_fit hpeer, hfit⟩,
                  by rw [hrun, takeIn, if_pos hfits]⟩
            | some peers =>
                rw [hpeers] at hrest
                simp only [hfits, true_and] at hall
                have htake : takeIn config.peers (peer :: peers) = takeIn (config.peers ++ [peer]) peers := by
                  rw [takeIn, if_pos hfits]
                simp only [Option.bind_eq_bind, Option.bind_some, Option.pure_def, hall]
                rw [htake]
                exact hrest
          · rw [insertPeer_unfit hfits, Bool.and_false]
            have hrest := ih false config
            have htake : ∀ later, takeIn config.peers (peer :: later) = takeIn config.peers later := by
              intro later
              rw [takeIn, if_neg hfits]
            cases hpeers : rest.mapM peerOf with
            | none =>
                rw [hpeers] at hrest
                obtain ⟨taken, hfit, hrun⟩ := hrest
                exact ⟨peer :: taken, List.forall_mem_cons.mpr ⟨peerOf_fit hpeer, hfit⟩, by rw [hrun, htake]⟩
            | some peers =>
                rw [hpeers] at hrest
                simp only [hfits, false_and, iff_false] at hall
                simp only [Option.bind_eq_bind, Option.bind_some, Option.pure_def]
                rw [decide_eq_false (hall peers), Bool.and_false, htake]
                exact hrest

end Decoding

section Calls

-- The ways to change a configuration.
inductive Edit
  | addPeer (peer : PeerAddress)
  | removePeer (peer : PeerAddress)
  | fromString (str : String)
  deriving DecidableEq, Repr

def Edit.call (codec : Codec) : Edit → Handler Configuration Empty Exception Bool
  | addPeer peer => fun config => ⟨(config.addPeer codec peer).2, [], .ok (config.addPeer codec peer).1⟩
  | removePeer peer => fun config => ⟨(config.removePeer codec peer).2, [], .ok (config.removePeer codec peer).1⟩
  | fromString str => Configuration.fromString codec str

def Edit.Returns (codec : Codec) (config : Configuration) (edit : Edit) : Prop :=
  ∃ result, (edit.call codec config).result = .ok result

-- The ports of a peer that is handed in have 16 bits, as their type has.
def Edit.Sized : Edit → Prop
  | addPeer peer => PortsFit peer
  | removePeer _ | fromString _ => True

-- A configuration from its construction on.
def edits (codec : Codec) : Machine Configuration Edit where
  init config := config = {}
  enabled _ edit := edit.Sized
  next config edit := (edit.call codec config).state

-- The elements of "peers", where the text is JSON that has such an array.
def elementsOf (codec : Codec) (str : String) : Option (List Json) :=
  match codec.parse str with
  | .ok (some json) =>
    match json.member "peers" with
    | some (.array elements) => some elements
    | _ => none
  | _ => none

-- A call that changes the peers, or a text that is read as far as the peers in it.
def Edit.Touches (codec : Codec) (config : Configuration) : Edit → Prop
  | addPeer peer => (config.addPeer codec peer).1 = true
  | removePeer peer => (config.removePeer codec peer).1 = true
  | fromString str => (elementsOf codec str).isSome = true

instance Edit.Touches.decidable (codec : Codec) (config : Configuration) :
    (edit : Edit) → Decidable (edit.Touches codec config)
  | addPeer _ | removePeer _ | fromString _ => inferInstanceAs (Decidable (_ = true))

theorem any_key_eq (name : String) (members : List (String × Json)) :
    (members.any fun m => m.1 == name) = (members.lookup name).isSome := by
  induction members with
  | nil => rfl
  | cons first rest ih =>
      rw [List.any_cons, List.lookup_cons, ih]
      by_cases hname : name = first.1
      · simp [hname]
      · rw [beq_eq_false_iff_ne.mpr (Ne.symm hname), beq_eq_false_iff_ne.mpr hname, Bool.false_or]

theorem isMember_of_array {json : Json} {elements : List Json} (h : json.member "peers" = some (.array elements)) :
    json.isMember "peers" = some true := by
  cases json with
  | object members =>
      have hlookup : (members.lookup "peers").getD .null = .array elements := by
        simpa [Json.member] using h
      cases hfind : members.lookup "peers" with
      | none => simp [hfind] at hlookup
      | some json => simp [Json.isMember, any_key_eq, hfind]
  | null | bool _ | integer _ | real _ _ | string _ | array _ => simp [Json.member] at h

theorem fromString_of_elements {str : String} {elements : List Json}
    (h : elementsOf codec str = some elements) (config : Configuration) :
    fromString codec str config = (do
      let result ← insertPeers elements true
      Handler.updates (cacheSortedPeers codec)
      return result : Handler Configuration Empty Exception Bool) { config with peers := [] } := by
  unfold elementsOf at h
  split at h
  · rename_i json hparse
    split at h
    · rename_i found hmember
      obtain rfl := Option.some.inj h
      have hpresent := isMember_of_array hmember
      simp [fromString, hparse, orThrow, hpresent, hmember, Bind.bind, Handler.bind, Handler.updates, Pure.pure]
    · cases h
  · cases h

-- The text can be parsed or is not JSON, and what it holds can be asked for a member.
def Askable (codec : Codec) (str : String) : Prop :=
  match codec.parse str with
  | .error _ => False
  | .ok none => True
  | .ok (some json) => (json.isMember "peers").isSome = true

theorem fromString_unaskable {str : String} (h : ¬Askable codec str) (config : Configuration) :
    ∃ e, fromString codec str config = ⟨config, [], .error e⟩ := by
  unfold Askable at h
  cases hparse : codec.parse str with
  | error e => exact ⟨e, by simp [fromString, hparse, Handler.throws]⟩
  | ok found =>
      rw [hparse] at h
      cases found with
      | none => exact absurd trivial h
      | some json =>
          have hnone : json.isMember "peers" = none := by simpa using h
          exact ⟨.jsonError, by simp [fromString, hparse, orThrow, hnone, Bind.bind, Handler.bind, Handler.throws]⟩

theorem askable_of_elements {str : String} {elements : List Json} (h : elementsOf codec str = some elements) :
    Askable codec str := by
  unfold elementsOf at h
  split at h
  · rename_i json hparse
    split at h
    · rename_i found hmember
      simp [Askable, hparse, isMember_of_array hmember]
    · cases h
  · cases h

-- A text without peers is refused.
theorem fromString_refused {str : String} (h : elementsOf codec str = none) (haskable : Askable codec str)
    (config : Configuration) : fromString codec str config = ⟨config, [], .ok false⟩ := by
  unfold elementsOf at h
  unfold Askable at haskable
  cases hparse : codec.parse str with
  | error e =>
      rw [hparse] at haskable
      cases haskable
  | ok found =>
      rw [hparse] at h haskable
      cases found with
      | none => simp [fromString, hparse, Pure.pure]
      | some json =>
          obtain ⟨present, hpresent⟩ := Option.isSome_iff_exists.mp haskable
          cases present with
          | false => simp [fromString, hparse, orThrow, hpresent, Bind.bind, Handler.bind, Pure.pure]
          | true =>
              obtain ⟨value, hmember⟩ : ∃ value, json.member "peers" = some value := by
                cases json with
                | object members => exact ⟨_, rfl⟩
                | null => exact ⟨_, rfl⟩
                | bool _ | integer _ | real _ _ | string _ | array _ => simp [Json.isMember] at hpresent
              simp only [hmember] at h
              cases value with
              | array elements => cases h
              | null | bool _ | integer _ | real _ _ | string _ | object _ =>
                  simp [fromString, hparse, orThrow, hpresent, hmember, Bind.bind, Handler.bind, Pure.pure]

-- Either way it changes nothing.
theorem fromString_unread {str : String} (h : elementsOf codec str = none) (config : Configuration) :
    (fromString codec str config).state = config := by
  by_cases haskable : Askable codec str
  · rw [fromString_refused h haskable]
  · obtain ⟨e, hrun⟩ := fromString_unaskable haskable config
    rw [hrun]

theorem fromString_read {str : String} {elements : List Json} (h : elementsOf codec str = some elements)
    (hpeers : elements.mapM peerOf = some peers) (config : Configuration) :
    fromString codec str config =
      ⟨({ config with peers := takeIn [] peers } : Configuration).cacheSortedPeers codec, [],
        .ok (decide (takeIn [] peers = peers))⟩ := by
  have hspec := insertPeers_spec elements true { config with peers := [] }
  simp only [hpeers, Bool.true_and, List.nil_append] at hspec
  rw [fromString_of_elements h, Handler.bind_ok hspec]
  rfl

-- A peer that cannot be read leaves the ones before it behind.
theorem fromString_broken {str : String} {elements : List Json} (h : elementsOf codec str = some elements)
    (hpeers : elements.mapM peerOf = none) (config : Configuration) :
    ∃ peers, (∀ peer ∈ takeIn [] peers, PortsFit peer) ∧
      fromString codec str config = ⟨{ config with peers := takeIn [] peers }, [], .error .jsonError⟩ := by
  have hspec := insertPeers_spec elements true { config with peers := [] }
  simp only [hpeers] at hspec
  obtain ⟨peers, hfit, hrun⟩ := hspec
  refine ⟨peers, takeIn_fit hfit, ?_⟩
  rw [fromString_of_elements h]
  simp [Bind.bind, Handler.bind, hrun]

end Calls

section Sorting

theorem cacheSortedPeers_perm (codec : Codec) (config : Configuration) :
    (config.cacheSortedPeers codec).sortedPeers.Perm config.peers :=
  List.perm_insertionSort _ _

@[simp] theorem cacheSortedPeers_peers (codec : Codec) (config : Configuration) :
    (config.cacheSortedPeers codec).peers = config.peers := rfl

@[simp] theorem cacheSortedPeers_hash (codec : Codec) (config : Configuration) :
    (config.cacheSortedPeers codec).cachedHash = (config.cacheSortedPeers codec).createHash codec := rfl

-- A configuration that has been sorted and hashed for these peers.
def rebuilt (codec : Codec) (peers : List PeerAddress) : Configuration :=
  ({ peers := peers } : Configuration).cacheSortedPeers codec

theorem cacheSortedPeers_eq (codec : Codec) (config : Configuration) :
    config.cacheSortedPeers codec = rebuilt codec config.peers := rfl

@[simp] theorem rebuilt_peers (codec : Codec) (peers : List PeerAddress) : (rebuilt codec peers).peers = peers := rfl

-- The text and its hash depend on the sorted peers alone.
theorem toString_congr (codec : Codec) {first second : Configuration} (h : first.sortedPeers = second.sortedPeers) :
    first.toString codec = second.toString codec := by
  simp only [toString, toJson, h]

theorem createHash_congr (codec : Codec) {first second : Configuration} (h : first.sortedPeers = second.sortedPeers) :
    first.createHash codec = second.createHash codec := by
  simp only [createHash, toString_congr codec h]

-- Peers in order have different uuids, and sorting is strict.
theorem cacheSortedPeers_increasing (codec : Codec) (h : Orderly config.peers) :
    (config.cacheSortedPeers codec).sortedPeers.Pairwise fun p q => p.uuid < q.uuid := by
  have hperm := cacheSortedPeers_perm codec config
  have hsorted : (config.cacheSortedPeers codec).sortedPeers.Pairwise fun p q => p.uuid ≤ q.uuid := by
    have hrefl : Std.Total fun p q : PeerAddress => p.uuid ≤ q.uuid := ⟨fun p q => le_total p.uuid q.uuid⟩
    have htrans : IsTrans PeerAddress fun p q => p.uuid ≤ q.uuid := ⟨fun _ _ _ => le_trans⟩
    exact List.pairwise_insertionSort _ _
  refine (hsorted.and (h.perm hperm).apart).imp ?_
  rintro p q ⟨hle, hapart⟩
  exact lt_of_le_of_ne hle fun heq => hapart (Or.inl heq)

-- The order is determined by the set.
theorem sorted_unique {first second : List PeerAddress}
    (hfirst : first.Pairwise fun p q => p.uuid < q.uuid) (hsecond : second.Pairwise fun p q => p.uuid < q.uuid)
    (hsame : ∀ peer, peer ∈ first ↔ peer ∈ second) : first = second := by
  have hnodup : ∀ {list : List PeerAddress}, list.Pairwise (fun p q => p.uuid < q.uuid) → list.Nodup := by
    intro list hlist
    refine hlist.imp ?_
    rintro p q hlt rfl
    exact lt_irrefl _ hlt
  have hperm : first.Perm second := (List.perm_ext_iff_of_nodup (hnodup hfirst) (hnodup hsecond)).mpr hsame
  refine hperm.eq_of_pairwise ?_ hfirst hsecond
  intro p q _ _ hlt hgt
  exact absurd hgt (lt_asymm hlt)

end Sorting

section Runs

-- What one call does to a configuration: nothing, or it has other peers and is sorted and hashed anew, or
-- the call throws on the way and leaves other peers beside the old vector and hash.
inductive Edited (codec : Codec) (config : Configuration) (edit : Edit) : Prop
  | unchanged (hstate : (edits codec).next config edit = config) (huntouched : ¬edit.Touches codec config)
  | rebuilt (peers : List PeerAddress) (hreturns : edit.Returns codec config) (htouches : edit.Touches codec config)
      (hstate : (edits codec).next config edit =
        ({ config with peers := peers } : Configuration).cacheSortedPeers codec)
      (horderly : Orderly config.peers → Orderly peers)
      (hfit : edit.Sized → (∀ peer ∈ config.peers, PortsFit peer) → ∀ peer ∈ peers, PortsFit peer)
  | spoiled (peers : List PeerAddress) (hthrows : ¬edit.Returns codec config)
      (hstate : (edits codec).next config edit = { config with peers := peers }) (horderly : Orderly peers)
      (hfit : ∀ peer ∈ peers, PortsFit peer)

theorem addPeer_fits (codec : Codec) (h : Fits config.peers peer) : config.addPeer codec peer =
    (true, ({ config with peers := config.peers ++ [peer] } : Configuration).cacheSortedPeers codec) := by
  simp [addPeer, insertPeer_fits h]

theorem addPeer_unfit (codec : Codec) (h : ¬Fits config.peers peer) : config.addPeer codec peer = (false, config) := by
  simp [addPeer, insertPeer_unfit h]

theorem removePeer_present (codec : Codec) (h : config.peers.any (PeerAddress.same peer) = true) :
    config.removePeer codec peer = (true, ({ config with
      peers := config.peers.filter fun p => !PeerAddress.same peer p } : Configuration).cacheSortedPeers codec) := by
  simp only [removePeer, if_pos h]

theorem removePeer_absent (codec : Codec) (h : ¬config.peers.any (PeerAddress.same peer) = true) :
    config.removePeer codec peer = (false, config) := by
  simp only [removePeer, if_neg h]

theorem edited (codec : Codec) (config : Configuration) (edit : Edit) : Edited codec config edit := by
  cases edit with
  | addPeer peer =>
      by_cases hfits : Fits config.peers peer
      · have hrun := addPeer_fits codec hfits
        refine .rebuilt _ ⟨_, rfl⟩ (congrArg Prod.fst hrun) (congrArg Prod.snd hrun)
          (fun horderly => orderly_concat.mpr ⟨horderly, hfits⟩) fun hsized hfit => ?_
        have hports : PortsFit peer := hsized
        simpa [or_imp, forall_and] using And.intro hfit hports
      · have hrun := addPeer_unfit codec hfits
        refine .unchanged (congrArg Prod.snd hrun) ?_
        simp [Edit.Touches, hrun]
  | removePeer peer =>
      by_cases hpresent : config.peers.any (PeerAddress.same peer) = true
      · have hrun := removePeer_present codec hpresent
        refine .rebuilt _ ⟨_, rfl⟩ (congrArg Prod.fst hrun) (congrArg Prod.snd hrun)
          (fun horderly => horderly.sublist List.filter_sublist) fun _ hfit => ?_
        exact fun p hp => hfit p (List.filter_sublist.subset hp)
      · have hrun := removePeer_absent codec hpresent
        refine .unchanged (congrArg Prod.snd hrun) ?_
        simp [Edit.Touches, hrun]
  | fromString str =>
      cases helements : elementsOf codec str with
      | none =>
          exact .unchanged (fromString_unread helements config) (by simp [Edit.Touches, helements])
      | some elements =>
          cases hpeers : elements.mapM peerOf with
          | some peers =>
              have hrun := fromString_read helements hpeers config
              have htouches : (elementsOf codec str).isSome = true := by rw [helements, Option.isSome_some]
              refine .rebuilt (takeIn [] peers) ⟨_, congrArg Outcome.result hrun⟩ htouches (congrArg Outcome.state hrun)
                (fun _ => takeIn_orderly orderly_nil peers) fun _ _ => ?_
              exact takeIn_fit (mapM_peerOf_fit hpeers)
          | none =>
              obtain ⟨peers, hfit, hrun⟩ := fromString_broken helements hpeers config
              refine .spoiled (takeIn [] peers) ?_ (congrArg Outcome.state hrun) (takeIn_orderly orderly_nil peers) hfit
              rintro ⟨result, hresult⟩
              have hthrown := congrArg Outcome.result hrun
              change (fromString codec str config).result = .ok result at hresult
              rw [hresult] at hthrown
              cases hthrown

variable {past : List (Configuration × Edit)}

-- Some call has sorted and hashed the peers anew.
def Rehashed (codec : Codec) (past : List (Configuration × Edit)) : Prop :=
  ∃ step ∈ past, step.2.Touches codec step.1 ∧ step.2.Returns codec step.1

theorem rehashed_cons {edit : Edit} : Rehashed codec ((config, edit) :: past) ↔
    (edit.Touches codec config ∧ edit.Returns codec config) ∨ Rehashed codec past := by
  simp [Rehashed]

-- From then on the hash is that of the vector, and before there is neither.
theorem hash_of_run (run : (edits codec).Run past config) :
    Rehashed codec past ∧ config.cachedHash = config.createHash codec ∨
      ¬Rehashed codec past ∧ config.sortedPeers = [] ∧ config.cachedHash = "" := by
  induction run with
  | start hinit =>
      subst hinit
      exact Or.inr ⟨by simp [Rehashed], rfl, rfl⟩
  | @step past config edit _ _ ih =>
      rw [rehashed_cons]
      cases edited codec config edit with
      | unchanged hstate huntouched =>
          rw [hstate]
          simpa [huntouched] using ih
      | rebuilt peers hreturns htouches hstate _ _ =>
          rw [hstate]
          exact Or.inl ⟨Or.inl ⟨htouches, hreturns⟩, rfl⟩
      | spoiled peers hthrows hstate _ _ =>
          have hsame : createHash codec { config with peers := peers } = config.createHash codec := rfl
          rw [hstate, hsame]
          simpa [hthrows] using ih

-- What holds of a configuration at any time, also after an exception, when the vector may be that of
-- earlier peers.
structure Sound (config : Configuration) : Prop where
  orderly : Orderly config.peers
  fit : ∀ peer ∈ config.peers, PortsFit peer
  listed : Orderly config.sortedPeers
  listedFit : ∀ peer ∈ config.sortedPeers, PortsFit peer
  increasing : config.sortedPeers.Pairwise fun p q => p.uuid < q.uuid

theorem sound_rebuilt (codec : Codec) (h : Orderly config.peers) (hfit : ∀ peer ∈ config.peers, PortsFit peer) :
    Sound (config.cacheSortedPeers codec) := by
  have hperm := cacheSortedPeers_perm codec config
  exact ⟨h, hfit, h.perm hperm, fun peer hpeer => hfit peer (hperm.subset hpeer),
    cacheSortedPeers_increasing codec h⟩

theorem sound_of_run (run : (edits codec).Run past config) : Sound config := by
  refine run.invariant (I := fun _ config => Sound config) ?_ ?_
  · rintro _ rfl
    exact ⟨orderly_nil, by simp, orderly_nil, by simp, List.Pairwise.nil⟩
  · intro past config edit _ hsound hsized
    cases edited codec config edit with
    | unchanged hstate _ =>
        rw [hstate]
        exact hsound
    | rebuilt peers _ _ hstate horderly hfit =>
        rw [hstate]
        exact sound_rebuilt codec (horderly hsound.orderly) (hfit hsized hsound.fit)
    | spoiled peers _ hstate horderly hfit =>
        rw [hstate]
        exact ⟨horderly, hfit, hsound.listed, hsound.listedFit, hsound.increasing⟩

-- Where every call has returned, the vector and the hash are those of the peers.
def returning (codec : Codec) : Machine Configuration Edit := (edits codec).guard (Edit.Returns codec)

theorem perm_of_run (run : (returning codec).Run past config) : config.sortedPeers.Perm config.peers := by
  refine run.invariant (I := fun _ config => config.sortedPeers.Perm config.peers) ?_ ?_
  · rintro _ rfl
    exact List.Perm.refl []
  · intro past config edit _ hperm hreturns
    change ((edits codec).next config edit).sortedPeers.Perm _
    cases edited codec config edit with
    | unchanged hstate _ =>
        change ((edits codec).next config edit).sortedPeers.Perm ((edits codec).next config edit).peers
        rw [hstate]
        exact hperm
    | rebuilt peers _ _ hstate _ _ =>
        change ((edits codec).next config edit).sortedPeers.Perm ((edits codec).next config edit).peers
        rw [hstate]
        exact cacheSortedPeers_perm codec _
    | spoiled _ hthrows _ _ _ => exact absurd hreturns.2 hthrows

theorem hashed_of_run (run : (returning codec).Run past config)
    (htouched : ∃ step ∈ past, step.2.Touches codec step.1) : config.cachedHash = config.createHash codec := by
  obtain ⟨step, hstep, htouches⟩ := htouched
  rcases hash_of_run run.of_guard with ⟨_, hhash⟩ | ⟨hnever, _⟩
  · exact hhash
  · exact absurd ⟨step, hstep, htouches, run.guarded step hstep⟩ hnever

-- The set, the vector and the hash of a configuration say the same.
structure Representation (codec : Codec) (past : List (Configuration × Edit)) (config : Configuration) : Prop where
  valid : ∀ peer ∈ config.peers,
    peer.name ≠ "" ∧ peer.uuid ≠ "" ∧ peer.host ≠ "" ∧ peer.port ≠ 0 ∧ peer.httpPort ≠ 0
  distinct : config.peers.Pairwise fun p q => p.uuid ≠ q.uuid ∧ p.name ≠ q.name ∧
    ¬(p.host = q.host ∧ p.port = q.port) ∧ ¬(p.host = q.host ∧ p.httpPort = q.httpPort)
  permutation : config.sortedPeers.Perm config.peers
  increasing : config.sortedPeers.Pairwise fun p q => p.uuid < q.uuid
  hashed : (∃ step ∈ past, step.2.Touches codec step.1) → config.cachedHash = config.createHash codec
  addRefused : ∀ peer, (config.addPeer codec peer).1 = false → (config.addPeer codec peer).2 = config
  removeRefused : ∀ peer, (config.removePeer codec peer).1 = false → (config.removePeer codec peer).2 = config

theorem addPeer_refused (h : (config.addPeer codec peer).1 = false) : (config.addPeer codec peer).2 = config := by
  by_cases hfits : Fits config.peers peer
  · rw [addPeer_fits codec hfits] at h
    cases h
  · rw [addPeer_unfit codec hfits]

theorem removePeer_refused (h : (config.removePeer codec peer).1 = false) :
    (config.removePeer codec peer).2 = config := by
  by_cases hpresent : config.peers.any (PeerAddress.same peer) = true
  · rw [removePeer_present codec hpresent] at h
    cases h
  · rw [removePeer_absent codec hpresent]

-- After any calls that have returned, the representation is in step.
theorem representation_of_run (run : (returning codec).Run past config) : Representation codec past config := by
  have hsound := sound_of_run run.of_guard
  refine ⟨?_, ?_, perm_of_run run, hsound.increasing, hashed_of_run run, fun _ => addPeer_refused,
    fun _ => removePeer_refused⟩
  · intro peer hpeer
    exact validPeer_iff.mp (hsound.orderly.valid peer hpeer)
  · refine hsound.orderly.apart.imp ?_
    intro p q hapart
    refine ⟨fun huuid => hapart (Or.inl huuid), fun hname => hapart (Or.inr (Or.inl hname)), ?_, ?_⟩
    · exact fun hport => hapart (Or.inr (Or.inr ⟨hport.1, Or.inl hport.2⟩))
    · exact fun hport => hapart (Or.inr (Or.inr ⟨hport.1, Or.inr hport.2⟩))

def alice : PeerAddress := ⟨"127.0.0.1", 50000, 8080, "alice", "A"⟩

def bob : PeerAddress := ⟨"127.0.0.1", 50001, 8081, "bob", "B"⟩

def addAndRemove : List Edit := [.addPeer bob, .addPeer alice, .addPeer bob, .removePeer bob]

theorem admits_adds (codec : Codec) (config : Configuration) {made : List Edit}
    (h : ∀ edit ∈ made, edit.Sized ∧ ∀ str, edit ≠ .fromString str) : (returning codec).Admits config made := by
  induction made generalizing config with
  | nil => trivial
  | cons edit rest ih =>
      obtain ⟨hsized, hother⟩ := h edit List.mem_cons_self
      refine ⟨⟨hsized, ?_⟩, ih _ fun edit hedit => h edit (List.mem_cons_of_mem _ hedit)⟩
      cases edit with
      | addPeer _ => exact ⟨_, rfl⟩
      | removePeer _ => exact ⟨_, rfl⟩
      | fromString str => exact absurd rfl (hother str)

theorem representation_of_run_removal :
    let run := (returning (writtenCodec [])).replay [] {} addAndRemove
    Representation (writtenCodec []) run.1 run.2 := by
  have hstart : (returning (writtenCodec [])).Run [] {} := .start rfl
  have hadmits : (returning (writtenCodec [])).Admits {} addAndRemove :=
    admits_adds _ _ (by simp [addAndRemove, Edit.Sized, PortsFit, alice, bob])
  exact representation_of_run (hstart.replay addAndRemove hadmits)

end Runs

end Configuration

end SwarmDB.Pbft
