import SwarmDB.Raft.Node.Appends

namespace SwarmDB.Raft

section Lists

-- The lists of a quorum entry name no uuid twice, and a peer that is in both of them is the same in both.
def JsonMessage.Distinct : JsonMessage → Prop
  | singleQuorum peers => ((peers.getD []).map PeerJson.uuidText).Nodup
  | jointQuorum old new =>
    ((old.getD []).map PeerJson.uuidText).Nodup ∧ ((new.getD []).map PeerJson.uuidText).Nodup ∧
      ∀ peer ∈ old.getD [], ∀ other ∈ new.getD [], peer.uuidText = other.uuidText → peer = other
  | null | database _ | other _ => True

-- And the type of the entry goes with its message.
structure LogEntry.Proper (entry : LogEntry) : Prop where
  distinct : entry.msg.Distinct
  single : entry.entryType = .singleQuorum → ∃ peers, entry.msg = .singleQuorum peers
  joint : entry.entryType = .jointQuorum → ∃ old new, entry.msg = .jointQuorum old new

theorem proper_of_deduced {msg : JsonMessage} (h : msg.Distinct) (index term : Nat) :
    LogEntry.Proper ⟨deduceTypeFromMessage msg, index, term, msg⟩ := by
  refine ⟨h, ?_, ?_⟩
  · intro htype
    cases msg with
    | singleQuorum peers => exact ⟨peers, rfl⟩
    | jointQuorum old new => cases new <;> cases htype
    | null | database _ | other _ => cases htype
  · intro htype
    cases msg with
    | singleQuorum peers => cases peers <;> cases htype
    | jointQuorum old new => exact ⟨old, new, rfl⟩
    | null | database _ | other _ => cases htype

-- One uuid, one peer.
def Unambiguous (peers : List PeerJson) : Prop :=
  ∀ peer ∈ peers, ∀ other ∈ peers, peer.uuidText = other.uuidText → peer = other

theorem unambiguous_of_nodup {peers : List PeerJson} (h : (peers.map PeerJson.uuidText).Nodup) : Unambiguous peers :=
  fun _ hpeer _ hother huuid => List.inj_on_of_nodup_map h hpeer hother huuid

theorem JsonMessage.Distinct.joint {old new : Option (List PeerJson)} (h : (jointQuorum old new).Distinct) :
    Unambiguous (old.getD [] ++ new.getD []) := by
  obtain ⟨hold, hnew, hboth⟩ := h
  intro peer hpeer other hother huuid
  rcases List.mem_append.mp hpeer with hpeer | hpeer
  · rcases List.mem_append.mp hother with hother | hother
    · exact unambiguous_of_nodup hold peer hpeer other hother huuid
    · exact hboth peer hpeer other hother huuid
  · rcases List.mem_append.mp hother with hother | hother
    · exact (hboth other hother peer hpeer huuid.symm).symm
    · exact unambiguous_of_nodup hnew peer hpeer other hother huuid

-- What the last quorum entry lists.
def RaftLog.listed (log : RaftLog) : List PeerJson :=
  match log.lastQuorumEntry with
  | .error _ => []
  | .ok entry =>
    match listedPeers entry with
    | .error _ => []
    | .ok peers => peers

theorem LogEntry.Proper.listedPeers {entry : LogEntry} (h : entry.Proper) (hquorum : entry.entryType.isQuorum = true) :
    ∃ peers, Raft.listedPeers entry = .ok peers ∧ Unambiguous peers := by
  unfold Raft.listedPeers
  have hdistinct := h.distinct
  cases htype : entry.entryType with
  | singleQuorum =>
      obtain ⟨peers, hmsg⟩ := h.single htype
      rw [hmsg] at hdistinct ⊢
      exact ⟨_, rfl, unambiguous_of_nodup hdistinct⟩
  | jointQuorum =>
      obtain ⟨old, new, hmsg⟩ := h.joint htype
      rw [hmsg] at hdistinct ⊢
      exact ⟨_, rfl, hdistinct.joint⟩
  | database | undefined =>
      rw [htype] at hquorum
      cases hquorum

-- Emplacing keeps one address for each uuid.
theorem foldl_emplace {all peers start : List PeerAddress}
    (hsame : ∀ peer ∈ all, ∀ other ∈ all, peer.uuid = other.uuid → peer = other)
    (hpeers : peers ⊆ all) (hstart : start ⊆ all) (hnodup : (start.map PeerAddress.uuid).Nodup) :
    ((peers.foldl PeerAddress.emplace start).map PeerAddress.uuid).Nodup ∧
      (∀ peer, peer ∈ peers.foldl PeerAddress.emplace start ↔ peer ∈ start ∨ peer ∈ peers) := by
  induction peers generalizing start with
  | nil => exact ⟨hnodup, by simp⟩
  | cons first rest ih =>
      have hfirst : first ∈ all := hpeers List.mem_cons_self
      have hrest : rest ⊆ all := fun peer hpeer => hpeers (List.mem_cons_of_mem _ hpeer)
      rw [List.foldl_cons]
      by_cases hknown : first ∈ start
      · have hkept : PeerAddress.emplace start first = start := by
          unfold PeerAddress.emplace
          rw [if_pos (List.any_eq_true.mpr ⟨first, hknown, by simp [PeerAddress.same]⟩)]
        rw [hkept]
        obtain ⟨hdone, hmem⟩ := ih hrest hstart hnodup
        refine ⟨hdone, fun peer => ?_⟩
        rw [hmem, List.mem_cons]
        constructor
        · rintro (h | h)
          · exact Or.inl h
          · exact Or.inr (Or.inr h)
        · rintro (h | rfl | h)
          · exact Or.inl h
          · exact Or.inl hknown
          · exact Or.inr h
      · have hnew : ∀ peer ∈ start, peer.uuid ≠ first.uuid := by
          intro peer hpeer huuid
          exact hknown (hsame peer (hstart hpeer) first hfirst huuid ▸ hpeer)
        have hadded : PeerAddress.emplace start first = start ++ [first] := by
          unfold PeerAddress.emplace
          rw [if_neg]
          intro hany
          obtain ⟨peer, hpeer, hsame'⟩ := List.any_eq_true.mp hany
          simp only [PeerAddress.same, Bool.and_eq_true, beq_iff_eq] at hsame'
          exact hnew peer hpeer hsame'.2.symm
        rw [hadded]
        have hsub : start ++ [first] ⊆ all := by
          intro peer hpeer
          rcases List.mem_append.mp hpeer with hpeer | hpeer
          · exact hstart hpeer
          · rw [List.mem_singleton.mp hpeer]
            exact hfirst
        have hnodup' : ((start ++ [first]).map PeerAddress.uuid).Nodup := by
          rw [List.map_append, List.nodup_append]
          refine ⟨hnodup, List.nodup_singleton _, ?_⟩
          intro uuid huuid other hother
          obtain ⟨peer, hpeer, rfl⟩ := List.mem_map.mp huuid
          rw [List.mem_singleton.mp hother]
          exact hnew peer hpeer
        obtain ⟨hdone, hmem⟩ := ih hrest hsub hnodup'
        refine ⟨hdone, fun peer => ?_⟩
        rw [hmem]
        simp [or_assoc]

end Lists

section Quorum

variable {log : RaftLog} {entry : LogEntry}

-- The quorum entry that a log was last given.
structure RaftLog.Led (log : RaftLog) (entry : LogEntry) : Prop where
  last : log.lastQuorumEntry = .ok entry
  proper : entry.Proper
  quorum : entry.entryType.isQuorum = true

theorem RaftLog.Led.listed_eq (h : log.Led entry) :
    listedPeers entry = .ok log.listed ∧ Unambiguous log.listed := by
  obtain ⟨peers, hpeers, hdistinct⟩ := h.proper.listedPeers h.quorum
  have hlisted : log.listed = peers := by
    unfold RaftLog.listed
    rw [h.last]
    dsimp only
    rw [hpeers]
  rw [hlisted]
  exact ⟨hpeers, hdistinct⟩

theorem mem_uuids {peers : Option (List PeerJson)} {uuid : Uuid} (h : uuid ∈ uuids peers) :
    ∃ peer ∈ peers.getD [], peer.uuidText = uuid := by
  unfold uuids at h
  exact List.mem_map.mp (List.mem_dedup.mp h)

theorem RaftLog.Led.activeQuorum (h : log.Led entry) : ∃ quorums, getActiveQuorum log = .ok quorums ∧
    ∀ quorum ∈ quorums, ∀ uuid ∈ quorum, ∃ peer ∈ log.listed, peer.uuidText = uuid := by
  obtain ⟨hpeers, _⟩ := h.listed_eq
  unfold Raft.listedPeers at hpeers
  unfold getActiveQuorum
  rw [h.last]
  dsimp only
  cases htype : entry.entryType with
  | singleQuorum =>
      obtain ⟨peers, hmsg⟩ := h.proper.single htype
      rw [htype, hmsg] at hpeers
      rw [hmsg]
      refine ⟨_, rfl, ?_⟩
      intro quorum hquorum uuid huuid
      have hlisted : log.listed = peers.getD [] := (Except.ok.inj hpeers).symm
      rw [hlisted]
      obtain rfl := List.mem_singleton.mp hquorum
      exact mem_uuids huuid
  | jointQuorum =>
      obtain ⟨old, new, hmsg⟩ := h.proper.joint htype
      rw [htype, hmsg] at hpeers
      rw [hmsg]
      refine ⟨_, rfl, ?_⟩
      intro quorum hquorum uuid huuid
      have hlisted : log.listed = old.getD [] ++ new.getD [] := (Except.ok.inj hpeers).symm
      rw [hlisted]
      rcases List.mem_pair.mp hquorum with rfl | rfl
      · obtain ⟨peer, hpeer, rfl⟩ := mem_uuids huuid
        exact ⟨peer, List.mem_append_left _ hpeer, rfl⟩
      · obtain ⟨peer, hpeer, rfl⟩ := mem_uuids huuid
        exact ⟨peer, List.mem_append_right _ hpeer, rfl⟩
  | database | undefined =>
      have hquorum := h.quorum
      rw [htype] at hquorum
      cases hquorum

-- Every listed peer is among the peers to send to, with one address.
theorem RaftLog.Led.allPeers (h : log.Led entry) : ∃ peers, getAllPeers log = .ok peers ∧
    (peers.map PeerAddress.uuid).Nodup ∧ (∀ peer, peer ∈ peers ↔ peer ∈ log.listed.map PeerJson.address) := by
  obtain ⟨hpeers, hdistinct⟩ := h.listed_eq
  have hall : getAllPeers log = .ok ((log.listed.map PeerJson.address).foldl PeerAddress.emplace []) := by
    unfold getAllPeers
    rw [h.last]
    dsimp only
    rw [hpeers]
    rfl
  have hsame : ∀ peer ∈ log.listed.map PeerJson.address, ∀ other ∈ log.listed.map PeerJson.address,
      peer.uuid = other.uuid → peer = other := by
    intro address haddress other hother huuid
    obtain ⟨peer, hpeer, rfl⟩ := List.mem_map.mp haddress
    obtain ⟨peer', hpeer', rfl⟩ := List.mem_map.mp hother
    rw [hdistinct peer hpeer peer' hpeer' huuid]
  obtain ⟨hnodup, hmem⟩ := foldl_emplace hsame (List.Subset.refl _) (List.nil_subset _) List.nodup_nil
  exact ⟨_, hall, hnodup, fun peer => by rw [hmem]; simp⟩

end Quorum

-- Where each element of a list gives one result under its own key, the results under a key are the one
-- of its element.
theorem filter_filterMap_key {A B K : Type} [DecidableEq K] {l : List A} (key : A → K) {f : A → Option B}
    {sentTo : K → B → Bool} (hnodup : (l.map key).Nodup)
    (hto : ∀ a ∈ l, ∀ b, f a = some b → ∀ k, sentTo k b = decide (key a = k)) {a : A} (ha : a ∈ l) {b : B}
    (hb : f a = some b) : (l.filterMap f).filter (sentTo (key a)) = [b] := by
  have hother : ∀ (l' : List A), l' ⊆ l → (∀ a' ∈ l', key a' ≠ key a) →
      (l'.filterMap f).filter (sentTo (key a)) = [] := by
    intro l' hsub hne
    apply List.filter_eq_nil_iff.mpr
    intro b' hb'
    obtain ⟨a', ha', hfa'⟩ := List.mem_filterMap.mp hb'
    rw [hto a' (hsub ha') b' hfa', decide_eq_true_eq]
    exact hne a' ha'
  obtain ⟨before, after, rfl⟩ := List.append_of_mem ha
  rw [List.map_append, List.map_cons, List.nodup_middle, List.nodup_cons] at hnodup
  have hne : ∀ a' ∈ before ++ after, key a' ≠ key a := by
    intro a' ha' hkey
    apply hnodup.1
    rw [← hkey, ← List.map_append]
    exact List.mem_map_of_mem ha'
  rw [List.filterMap_append, List.filter_append, List.filterMap_cons, hb]
  dsimp only
  rw [List.filter_cons_of_pos, hother before, hother after, List.nil_append]
  · exact fun a' ha' => List.mem_append_right _ (List.mem_cons_of_mem _ ha')
  · exact fun a' ha' => hne a' (List.mem_append_right _ ha')
  · exact fun a' ha' => List.mem_append_left _ ha'
  · exact fun a' ha' => hne a' (List.mem_append_left _ ha')
  · rw [hto a ha b hb, decide_eq_true_eq]

def Effect.isTo (peer : Uuid) : Effect → Bool
  | .send dst _ => decide (dst = peer)
  | .reply _ | .close | .commit _ _ => false

namespace Node

-- A node has a match index to go by for these peers.
def Reaches (node : Node) (peers : List PeerJson) : Prop :=
  ∀ peer ∈ peers, peer.uuidText = node.uuid ∨ 1 ≤ node.matchIndexOf peer.uuidText

-- A heartbeat sends one AppendEntries about the node's own log to each peer of the active quorum.
def BeatsAll (env : Env) (node : Node) : Prop :=
  ∃ quorums, getActiveQuorum node.log = .ok quorums ∧ ∀ quorum ∈ quorums, ∀ peer ∈ quorum, peer ≠ node.uuid →
    ∃ msg, (node.requestAppendEntries env).effects.filter (Effect.isTo peer) = [.send peer (.raft msg)] ∧
      node.Describes msg

variable {env : Env} {node : Node}

theorem appendEntriesFor_reached {peer : PeerAddress} (hindex : 1 ≤ node.matchIndexOf peer.uuid)
    (hvalid : env.validAddress peer.host = true) :
    ∃ msg, node.appendEntriesFor env peer = some (.send peer.uuid (.raft msg)) ∧ node.Describes msg := by
  have hsome : ∃ effect, node.appendEntriesFor env peer = some effect := by
    unfold appendEntriesFor
    dsimp only
    split
    · rename_i hlt
      obtain ⟨prevIndex, hprev⟩ : ∃ prevIndex, node.matchIndexOf peer.uuid = prevIndex + 1 :=
        ⟨_, (Nat.sub_add_cancel hindex).symm⟩
      rw [hprev] at hlt
      rw [hprev]
      unfold RaftLog.size at hlt
      dsimp only [RaftLog.entryAt]
      rw [List.getElem?_eq_getElem (Nat.lt_of_succ_lt hlt), List.getElem?_eq_getElem hlt]
      exact ⟨_, rfl⟩
    · have hlast : node.log.size - 1 < node.log.entries.length := Nat.sub_lt node.log.size_pos Nat.one_pos
      dsimp only [RaftLog.entryAt]
      rw [List.getElem?_eq_getElem hlast]
      exact ⟨_, rfl⟩
  obtain ⟨effect, heffect⟩ := hsome
  obtain ⟨msg, rfl, hmsg⟩ := appendEntriesFor_spec env node peer effect heffect
  exact ⟨msg, heffect, hmsg⟩

theorem Reaches.beatsAll {entry : LogEntry} (hled : node.log.Led entry) (h : node.Reaches node.log.listed)
    (hvalid : ∀ peers, getAllPeers node.log = .ok peers → ∀ peer ∈ peers, env.validAddress peer.host = true) :
    node.BeatsAll env := by
  obtain ⟨quorums, hquorums, hlisted⟩ := hled.activeQuorum
  obtain ⟨peers, hpeers, hnodup, hmem⟩ := hled.allPeers
  have hothers : ∀ peer ∈ peers.filter (fun peer => peer.uuid ≠ node.uuid), ∃ msg,
      node.appendEntriesFor env peer = some (.send peer.uuid (.raft msg)) ∧ node.Describes msg := by
    intro peer hpeer
    obtain ⟨hin, hne⟩ := List.mem_filter.mp hpeer
    obtain ⟨json, hjson, rfl⟩ := List.mem_map.mp ((hmem peer).mp hin)
    have hindex : 1 ≤ node.matchIndexOf json.uuidText := (h json hjson).resolve_left (of_decide_eq_true hne)
    exact appendEntriesFor_reached hindex (hvalid peers hpeers _ hin)
  refine ⟨quorums, hquorums, ?_⟩
  intro quorum hquorum uuid huuid hne
  obtain ⟨json, hjson, rfl⟩ := hlisted quorum hquorum uuid huuid
  have hin : json.address ∈ peers.filter (fun peer => peer.uuid ≠ node.uuid) :=
    List.mem_filter.mpr ⟨(hmem _).mpr (List.mem_map_of_mem hjson), decide_eq_true hne⟩
  obtain ⟨msg, hmsg, hdescribes⟩ := hothers _ hin
  refine ⟨msg, ?_, hdescribes⟩
  have heffects : (node.requestAppendEntries env).effects =
      (peers.filter fun peer => peer.uuid ≠ node.uuid).filterMap (node.appendEntriesFor env) := by
    unfold requestAppendEntries
    rw [hpeers]
  rw [heffects]
  refine filter_filterMap_key PeerAddress.uuid ?_ ?_ hin hmsg
  · exact hnodup.sublist (List.filter_sublist.map _)
  · intro peer hpeer effect heffect k
    obtain ⟨other, hother, _⟩ := hothers peer hpeer
    rw [hother] at heffect
    obtain rfl := Option.some.inj heffect
    rfl

end Node

end SwarmDB.Raft
