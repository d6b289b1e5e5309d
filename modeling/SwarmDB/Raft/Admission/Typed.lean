import SwarmDB.Raft.Admission.Verdict

namespace SwarmDB.Raft

variable {peer : PeerJson} {peers : Option (List PeerJson)} {msg : JsonMessage}

-- The JSON that a peer, a message and a node stand for. A list that is not there reads as null.
def PeerJson.toJson (peer : PeerJson) : Json :=
  .object ([("host", .string peer.host), ("http_port", .integer peer.httpPort), ("name", .string peer.name),
      ("port", .integer peer.port)] ++
    (peer.signature.map fun signature => ("signature", Json.string signature)).toList ++
    (peer.uuid.map fun uuid => ("uuid", Json.string uuid)).toList)

def listToJson : Option (List PeerJson) → Json
  | none => .null
  | some peers => .array (peers.map PeerJson.toJson)

def JsonMessage.toJson : JsonMessage → Json
  | .null => .null
  | .database msg => .object [("msg", .string msg)]
  | .singleQuorum peers => .object [("msg", .object [("peers", listToJson peers)])]
  | .jointQuorum old new =>
    .object [("msg", .object [("peers", .object [("new", listToJson new), ("old", listToJson old)])])]
  | .other text => .object [("text", .string text)]

def LogEntry.toJson (entry : LogEntry) : JsonEntry :=
  ⟨entry.entryType, entry.logIndex, entry.term, entry.msg.toJson⟩

def Node.toJson (node : Node) : JsonNode where
  uuid := node.uuid
  currentState := node.currentState
  currentTerm := node.currentTerm
  log := node.log.entries.map LogEntry.toJson
  peerMatchIndex := node.peerMatchIndex
  enablePeerValidation := node.enablePeerValidation

def Oracles.env (oracles : Oracles) (validAddress : String → Bool) : Env where
  validAddress := validAddress
  verifySignature := oracles.verifySignature oracles.publicKey
  isBlacklisted := oracles.isBlacklisted

-- The same outcome, spelled the other way.
def Outcome.toJson (outcome : Outcome) : SwarmDB.Outcome JsonNode Effect Exception Unit where
  state := outcome.node.toJson
  effects := outcome.effects
  result := match outcome.thrown with
    | none => .ok ()
    | some e => .error e

namespace PeerJson

theorem text_uuid (peer : PeerJson) : peer.toJson.text "uuid" = some peer.uuidText := by
  obtain ⟨host, port, httpPort, name, _ | uuid, _ | signature⟩ := peer <;>
    simp [toJson, Json.text, Json.member, List.lookup_cons, Json.asString, uuidText]

theorem text_signature (peer : PeerJson) : peer.toJson.text "signature" = some (peer.signature.getD "") := by
  obtain ⟨host, port, httpPort, name, _ | uuid, _ | signature⟩ := peer <;>
    simp [toJson, Json.text, Json.member, List.lookup_cons, Json.asString]

end PeerJson

namespace JsonNode

theorem lastQuorumEntry_toJson (log : RaftLog) : lastQuorumEntry (log.entries.map LogEntry.toJson) =
    (log.entries.reverse.find? fun entry => entry.entryType.isQuorum).map LogEntry.toJson := by
  rw [lastQuorumEntry, ← List.map_reverse, List.find?_map]
  rfl

theorem peersOf_toJson (hmsg : ∀ old new, msg ≠ .jointQuorum old new) : peersOf msg.toJson =
    match msg.peers with
    | .ok peers => some (listToJson peers)
    | .error _ => none := by
  cases msg with
  | null | database _ | singleQuorum _ | other _ => rfl
  | jointQuorum old new => exact absurd rfl (hmsg old new)

theorem samePeer_toJson (peer : PeerJson) (peers : List PeerJson) :
    samePeer peer.toJson (peers.map PeerJson.toJson) =
      some (peers.any fun other => other.uuidText = peer.uuidText) := by
  induction peers with
  | nil => rfl
  | cons first rest ih =>
      simp only [List.map_cons, samePeer, PeerJson.text_uuid, ih, List.any_cons]
      by_cases hsame : first.uuidText = peer.uuidText <;> simp [hsame]

theorem elements_listToJson (peers : Option (List PeerJson)) :
    (listToJson peers).elements = (peers.getD []).map PeerJson.toJson := by
  cases peers <;> rfl

theorem validateNewPeer_toJson (oracles : Oracles) (validAddress : String → Bool) (node : Node) (peer : PeerJson) :
    validateNewPeer oracles peer.toJson node.toJson =
      match node.validateNewPeer (oracles.env validAddress) peer with
      | none => ⟨node.toJson, [], .ok true⟩
      | some message => ⟨node.toJson, [.error message], .ok false⟩ := by
  have htext := PeerJson.text_uuid peer
  have hsignature := PeerJson.text_signature peer
  unfold Node.validateNewPeer
  by_cases hempty : peer.signature.getD "" = ""
  · rw [if_pos hempty]
    exact validateNewPeer_unsigned htext (hsignature.trans (congrArg some hempty))
  · rw [if_neg hempty]
    cases hverify : (oracles.env validAddress).verifySignature (peer.signature.getD "") (peer.uuidText ++ "\n") with
    | false =>
        rw [if_pos rfl]
        exact validateNewPeer_unverified htext hsignature hempty hverify
    | true =>
        rw [if_neg Bool.noConfusion, validateNewPeer_signed htext ⟨_, hsignature, hempty, hverify⟩]
        change (if oracles.isBlacklisted node.uuid then _ else _) =
          match if oracles.isBlacklisted node.uuid then some errorPeerHasBeenBlacklisted else none with
          | none => _
          | some message => _
        split <;> rfl

theorem createJointQuorumByAddingPeer_toJson (hheld : peersOf msg.toJson = some (listToJson peers)) (peer : PeerJson) :
    createJointQuorumByAddingPeer msg.toJson peer.toJson =
      some (JsonMessage.jointQuorum peers (some (peers.getD [] ++ [peer]))).toJson := by
  have happend : (listToJson peers).append peer.toJson = some (listToJson (some (peers.getD [] ++ [peer]))) := by
    cases peers with
    | none => rfl
    | some peers => simp [listToJson, Json.append]
  exact createJointQuorumByAddingPeer_eq hheld happend

theorem validation_toJson (oracles : Oracles) (validAddress : String → Bool) (node : Node) (peer : PeerJson) :
    (if node.toJson.enablePeerValidation then validateNewPeer oracles peer.toJson else pure true) node.toJson =
      match if node.enablePeerValidation then node.validateNewPeer (oracles.env validAddress) peer else none with
      | none => ⟨node.toJson, [], .ok true⟩
      | some message => ⟨node.toJson, [.error message], .ok false⟩ := by
  have hsame : node.toJson.enablePeerValidation = node.enablePeerValidation := rfl
  rw [hsame]
  split
  · exact validateNewPeer_toJson oracles validAddress node peer
  · rfl

theorem appendLogUnsafe_toJson {node : Node} (hrole : node.currentState = .leader) (hsize : node.log.size < 2 ^ 32)
    (uuid : Uuid) (msg : JsonMessage) (entryType : LogEntryType) :
    ((node.setMatchIndex uuid 1).appendLogUnsafe msg entryType).toJson =
      (node.toJson.setMatchIndex uuid 1).appendLogUnsafe msg.toJson entryType := by
  have hsize' : (node.log.entries.map LogEntry.toJson).length % 2 ^ 32 = node.log.size := by
    rw [List.length_map]
    exact Nat.mod_eq_of_lt hsize
  have hjson : (node.toJson.setMatchIndex uuid 1).currentState = .leader := hrole
  have htyped : (node.setMatchIndex uuid 1).currentState = .leader := hrole
  unfold Node.appendLogUnsafe appendLogUnsafe
  rw [if_neg (not_not.mpr hjson), if_neg (not_not.mpr htyped)]
  simp only [Node.toJson, setMatchIndex, Node.setMatchIndex, RaftLog.leaderAppendEntry, List.map_append, hsize',
    List.map_cons, List.map_nil, LogEntry.toJson]

theorem peers_error {e : Exception} (h : msg.peers = .error e) : e = .jsonLogicError := by
  cases msg <;> cases h <;> rfl

-- The part of the request that has a quorum to work on.
theorem Considered.toJson {oracles : Oracles} {node : Node} {last : LogEntry}
    (hc : Considered node.toJson last.toJson (listToJson peers)) (hlast : node.log.lastQuorumEntry = .ok last)
    (hpeers : last.msg.peers = .ok peers) (validAddress : String → Bool) (peer : PeerJson)
    (hsize : node.log.size < 2 ^ 32) :
    let outcome := handleAddPeer oracles peer.toJson node.toJson
    (node.handleAddPeer (oracles.env validAddress) peer).toJson =
      ⟨outcome.state, outcome.effects.map Effect.reply, outcome.result⟩ := by
  intro outcome
  have hsame := samePeer_toJson peer (peers.getD [])
  rw [← elements_listToJson] at hsame
  have hquorum : Raft.createJointQuorumByAddingPeer last.msg peer =
      .ok (.jointQuorum peers (some (peers.getD [] ++ [peer]))) := by
    rw [Raft.createJointQuorumByAddingPeer, hpeers]
    rfl
  have hrole : node.currentState = .leader := hc.role
  have hsingle : last.entryType ≠ .jointQuorum := hc.single
  unfold Node.handleAddPeer
  rw [if_neg (not_not.mpr hrole), hlast]
  dsimp only
  rw [if_neg hsingle, hpeers, hquorum]
  dsimp only
  split
  · rename_i hany
    rw [hany] at hsame
    have houtcome : outcome = _ := hc.same hsame
    rw [houtcome]
    rfl
  · rename_i hany
    rw [Bool.eq_false_iff.mpr hany] at hsame
    split
    · rename_i hempty
      have houtcome : outcome = _ := hc.unnamed hsame ((PeerJson.text_uuid peer).trans (congrArg some hempty))
      rw [houtcome]
      rfl
    · rename_i huuid
      have hvalid := validation_toJson oracles validAddress node peer
      split
      · rename_i message hmessage
        rw [hmessage] at hvalid
        have houtcome : outcome = _ := hc.invalid hsame (PeerJson.text_uuid peer) huuid hvalid
        rw [houtcome]
        rfl
      · rename_i hnone
        rw [hnone] at hvalid
        have hjoint := createJointQuorumByAddingPeer_toJson hc.peers peer
        have houtcome : outcome = _ := hc.admitted hsame (PeerJson.text_uuid peer) huuid hvalid hjoint
        rw [houtcome, Outcome.toJson, appendLogUnsafe_toJson hc.role hsize]
        rfl

-- On peers and messages of the usual shape the two models of the request agree.
theorem handleAddPeer_toJson (oracles : Oracles) (validAddress : String → Bool) (node : Node) (peer : PeerJson)
    (hmsg : ∀ last, node.log.lastQuorumEntry = .ok last → last.entryType ≠ .jointQuorum →
      ∀ old new, last.msg ≠ .jointQuorum old new) (hsize : node.log.size < 2 ^ 32) :
    let outcome := handleAddPeer oracles peer.toJson node.toJson
    (node.handleAddPeer (oracles.env validAddress) peer).toJson =
      ⟨outcome.state, outcome.effects.map Effect.reply, outcome.result⟩ := by
  intro outcome
  by_cases hrole : node.currentState = .leader
  · have hlast := lastQuorumEntry_toJson node.log
    cases hfind : node.log.entries.reverse.find? fun entry => entry.entryType.isQuorum with
    | none =>
        rw [hfind] at hlast
        have htyped : node.log.lastQuorumEntry = .error .noPeersInLog := by rw [RaftLog.lastQuorumEntry, hfind]
        have houtcome : outcome = _ := handleAddPeer_noQuorum hrole hlast
        rw [Node.handleAddPeer, if_neg (not_not.mpr hrole), houtcome, htyped]
        rfl
    | some last =>
        rw [hfind] at hlast
        have htyped : node.log.lastQuorumEntry = .ok last := by rw [RaftLog.lastQuorumEntry, hfind]
        by_cases hjoint : last.entryType = .jointQuorum
        · have houtcome : outcome = _ := handleAddPeer_joint hrole hlast hjoint
          rw [Node.handleAddPeer, if_neg (not_not.mpr hrole), houtcome, htyped]
          dsimp only
          rw [if_pos hjoint]
          rfl
        · have hheld := peersOf_toJson (hmsg last htyped hjoint)
          cases hpeers : last.msg.peers with
          | error e =>
              rw [hpeers] at hheld
              have houtcome : outcome = _ := handleAddPeer_unread hrole hlast hjoint hheld
              rw [Node.handleAddPeer, if_neg (not_not.mpr hrole), houtcome, htyped]
              dsimp only
              rw [if_neg hjoint, hpeers, peers_error hpeers]
              rfl
          | ok peers =>
              rw [hpeers] at hheld
              exact Considered.toJson ⟨hrole, hlast, hjoint, hheld⟩ htyped hpeers validAddress peer hsize
  · have houtcome : outcome = _ := handleAddPeer_role hrole
    rw [Node.handleAddPeer, if_pos hrole, houtcome]
    rfl

end JsonNode

end SwarmDB.Raft
