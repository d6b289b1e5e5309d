import SwarmDB.Pbft.Gateway
import SwarmDB.Pbft.Replica.Primary

namespace SwarmDB.Pbft

open Protobuf

section Encoding

-- A payload that is set is written even where it is empty.
def Payload.serialize : Payload → Bytes
  | unset => []
  | pbftRequest bytes => delimited 3 bytes
  | databaseResponse bytes => delimited 4 bytes
  | json bytes => delimited 5 bytes
  | audit bytes => delimited 6 bytes
  | pbft bytes => delimited 7 bytes
  | pbftMembership bytes => delimited 8 bytes
  | statusRequest bytes => delimited 9 bytes

def BznEnvelope.serialize (msg : BznEnvelope) : Bytes :=
  stringField 1 msg.sender ++ bytesField 2 msg.signature ++ msg.payload.serialize

-- The envelope that wrap_message makes, and the string it returns.
def Envelope.wrapped (envelope : Envelope) : BznEnvelope :=
  { sender := envelope.sender, payload := .pbft envelope.pbft.serialize }

def wrapMessage (envelope : Envelope) : Bytes := envelope.wrapped.serialize

end Encoding

section Sending

-- The options of a node that sends, and OpenSSL with its private key: whether signing can begin,
-- and the signature.
structure Signer where
  uuid : Uuid
  cryptoEnabledOutgoing : Bool
  loadsPrivateKey : Bool
  digestSign : Bytes → Option Bytes

variable (signer : Signer) (lost : Bool)

def sign (msg : BznEnvelope) : Except Exception (Bool × BznEnvelope) :=
  let msg := if msg.sender.isEmpty then { msg with sender := signer.uuid } else msg
  if msg.sender ≠ signer.uuid then .ok (false, msg)
  else if signer.loadsPrivateKey then
    match extractPayload msg.payload with
    | .error e => .error e
    | .ok payload =>
      match signer.digestSign payload with
      | some signature => .ok (true, { msg with signature := signature })
      | none => .ok (false, msg)
  else .ok (false, msg)

-- What arrives of an encoded message, if anything does: chaos delays it or drops it, and
-- the string goes out as it is.
def sendMessageStr (msg : Bytes) : Option Bytes := if lost then none else some msg

def sendMessage (msg : BznEnvelope) : Except Exception (Option Bytes) :=
  let msg := if msg.sender.isEmpty then { msg with sender := signer.uuid } else msg
  if msg.signature.isEmpty && signer.cryptoEnabledOutgoing then
    match sign signer msg with
    | .error e => .error e
    | .ok (_, msg) => .ok (sendMessageStr lost msg.serialize)
  else .ok (sendMessageStr lost msg.serialize)

end Sending

section Receiving

-- The parsers that a session tries, JsonCpp's before protobuf's.
structure NodeSession extends Node where
  parseJson : Bytes → Option Json
  parseEnvelope : Bytes → Option BznEnvelope

inductive Reading
  | json (value : Json)
  | envelope (msg : BznEnvelope)
  | failed

def NodeSession.doRead (session : NodeSession) (bytes : Bytes) : Reading :=
  match session.parseJson bytes with
  | some value => .json value
  | none =>
    match session.parseEnvelope bytes with
    | some msg => .envelope msg
    | none => .failed

-- The string that arrives is read as an envelope that passes the check and has this for pbft.
def Accepted (session : NodeSession) (bytes payload : Bytes) : Prop :=
  ∃ msg, session.doRead bytes = .envelope msg ∧ passes session.toNode msg = true ∧ msg.payload = .pbft payload

-- Protobuf gets back what it has written.
def ParsesBack (session : NodeSession) (msg : BznEnvelope) : Prop := session.parseEnvelope msg.serialize = some msg

theorem privProtobufHandler_passed {node : Node} {msg : BznEnvelope} (hpasses : passes node msg = true) :
    privProtobufHandler node msg = dispatch node msg := by
  unfold privProtobufHandler
  split
  · rename_i hchecked
    obtain ⟨hcrypto, hsender⟩ := Bool.and_eq_true_iff.mp hchecked
    simp only [Bool.not_eq_true'] at hsender
    have hverify : (verify node msg).toOption = some true := by
      simpa [passes, hcrypto, hsender] using hpasses
    cases hresult : verify node msg with
    | error e =>
        rw [hresult] at hverify
        cases hverify
    | ok verified =>
        rw [hresult] at hverify
        obtain rfl : verified = true := Option.some.inj hverify
        rfl
  · rfl

-- What is accepted gets to the handler of pbft.
theorem Accepted.dispatched {session : NodeSession} {bytes payload : Bytes} (h : Accepted session bytes payload) :
    ∃ msg, session.doRead bytes = .envelope msg ∧
      privProtobufHandler session.toNode msg = handleBznMessage session.toNode msg.sender payload := by
  obtain ⟨msg, hread, hpasses, hpayload⟩ := h
  refine ⟨msg, hread, ?_⟩
  rw [privProtobufHandler_passed hpasses]
  simp [dispatch, hpayload]

end Receiving

section Acceptance

open Replica

variable {signers : Set Signer} {session : NodeSession} {lib : Library} {r : Replica} {msg : PbftMsg}
  {peer : PeerAddress} {envelope : Envelope} {lost : Bool} {bytes : Bytes}

-- Crypto is enabled everywhere, and a signature is verified exactly where one of the nodes has made it
-- for this sender and payload. No signature is the empty string.
structure IdealCrypto (signers : Set Signer) (session : NodeSession) : Prop where
  outgoing : ∀ signer ∈ signers, signer.cryptoEnabledOutgoing = true
  incoming : session.cryptoEnabledIncoming = true
  verified : ∀ sender payload signature, session.digestVerify sender payload signature = true ↔
    ∃ signer ∈ signers, signer.uuid = sender ∧ signer.digestSign payload = some signature
  nonempty : ∀ signer ∈ signers, ∀ payload, signer.digestSign payload ≠ some []

theorem verify_pbft (node : Node) {msg : BznEnvelope} {payload : Bytes} (hpayload : msg.payload = .pbft payload) :
    (verify node msg).toOption = some true ↔
      node.readsAsKey msg.sender = true ∧ node.digestVerify msg.sender payload msg.signature = true := by
  unfold verify
  rw [hpayload]
  split
  · rename_i hkey
    simp [extractPayload, Except.toOption, hkey]
  · rename_i hkey
    simp [Except.toOption, hkey]

-- Where a signature is checked, an envelope without one does not pass.
theorem passes_unsigned_iff (hcrypto : IdealCrypto signers session) {msg : BznEnvelope} {payload : Bytes}
    (hpayload : msg.payload = .pbft payload) (hunsigned : msg.signature = []) :
    passes session.toNode msg = true ↔ msg.sender = "" := by
  constructor
  · intro hpasses
    by_contra hsender
    have hnonempty : msg.sender.isEmpty = false := by simpa using hsender
    have hverify : (verify session.toNode msg).toOption = some true := by
      simpa [passes, hcrypto.incoming, hnonempty] using hpasses
    have hdigest := ((verify_pbft _ hpayload).mp hverify).2
    rw [hunsigned] at hdigest
    obtain ⟨signer, hsigner, _, hsigned⟩ := (hcrypto.verified _ _ _).mp hdigest
    exact hcrypto.nonempty signer hsigner payload hsigned
  · intro hsender
    simp [passes, hsender]

theorem sent_of_broadcast (h : .send peer (.pbft envelope) ∈ (broadcastMsg lib msg r).effects) :
    envelope = ⟨r.uuid, msg⟩ := by
  cases hpeers : r.configured with
  | none =>
      have hcurrent : r.configurations.current = none := by simpa [configured] using hpeers
      simp [broadcastMsg, broadcast, currentPeers, Bind.bind, Handler.bind, Handler.reads, hcurrent,
        Handler.throws] at h
  | some peers =>
      rw [(broadcastMsg_effects lib msg hpeers).2] at h
      obtain ⟨_, _, heq⟩ := List.mem_map.mp h
      cases heq
      rfl

theorem sendMessageStr_arrives {msg : Bytes} (h : sendMessageStr lost msg = some bytes) : msg = bytes := by
  unfold sendMessageStr at h
  split at h
  · cases h
  · exact Option.some.inj h

-- Without a sender the first byte is the tag of the payload, a colon.
theorem wrapMessage_anonymous (msg : PbftMsg) : ∃ rest, wrapMessage ⟨"", msg⟩ = 58 :: rest := by
  have hsender : stringField 1 "" = [] := by decide +kernel
  have htag : tag 7 .lengthDelimited = [58] := by decide
  refine ⟨varint msg.serialize.length ++ msg.serialize, ?_⟩
  simp [wrapMessage, Envelope.wrapped, BznEnvelope.serialize, Payload.serialize, hsender, delimited, htag,
    bytesField]

-- What pbft broadcasts carries the sender but no signature, so that its peers take it only from a
-- replica without a name. JsonCpp, which comes first, refuses a text that starts with a colon.
theorem accepted_broadcast_iff (hcrypto : IdealCrypto signers session)
    (hcolon : ∀ rest, session.parseJson (58 :: rest) = none)
    (hsent : .send peer (.pbft envelope) ∈ (broadcastMsg lib msg r).effects)
    (harrives : sendMessageStr lost (wrapMessage envelope) = some bytes)
    (hback : ParsesBack session envelope.wrapped) :
    Accepted session bytes msg.serialize ↔ r.uuid = "" := by
  obtain rfl := sent_of_broadcast hsent
  obtain rfl := sendMessageStr_arrives harrives
  have hparse : session.parseEnvelope (wrapMessage ⟨r.uuid, msg⟩) = some (Envelope.wrapped ⟨r.uuid, msg⟩) := hback
  have hpasses : passes session.toNode (Envelope.wrapped ⟨r.uuid, msg⟩) = true ↔ r.uuid = "" :=
    passes_unsigned_iff hcrypto rfl rfl
  constructor
  · rintro ⟨read, hread, hpassed, _⟩
    unfold NodeSession.doRead at hread
    split at hread
    · cases hread
    · rw [hparse] at hread
      cases hread
      exact hpasses.mp hpassed
  · intro hanonymous
    refine ⟨Envelope.wrapped ⟨r.uuid, msg⟩, ?_, hpasses.mpr hanonymous, rfl⟩
    have hjson : session.parseJson (wrapMessage ⟨r.uuid, msg⟩) = none := by
      obtain ⟨rest, hrest⟩ := wrapMessage_anonymous msg
      rw [hanonymous, hrest]
      exact hcolon rest
    simp [NodeSession.doRead, hjson, hparse]

-- A node that is handed the envelope itself puts the signature in.
theorem sendMessage_signs {signer : Signer} {msg : BznEnvelope} {payload signature : Bytes}
    (houtgoing : signer.cryptoEnabledOutgoing = true) (hloads : signer.loadsPrivateKey = true)
    (hsigned : signer.digestSign payload = some signature)
    (hsender : msg.sender = "" ∨ msg.sender = signer.uuid) (hunsigned : msg.signature = [])
    (hpayload : msg.payload = .pbft payload) :
    sendMessage signer lost msg =
      .ok (sendMessageStr lost (BznEnvelope.serialize ⟨signer.uuid, signature, .pbft payload⟩)) := by
  have hnamed : (if msg.sender.isEmpty then { msg with sender := signer.uuid } else msg) =
      ⟨signer.uuid, [], .pbft payload⟩ := by
    split
    · rw [hunsigned, hpayload]
    · rename_i hnonempty
      rw [← hsender.resolve_left fun hempty => hnonempty (by simp [hempty]), ← hunsigned, ← hpayload]
  have hsign : sign signer ⟨signer.uuid, [], .pbft payload⟩ =
      .ok (true, ⟨signer.uuid, signature, .pbft payload⟩) := by
    simp [sign, extractPayload, hloads, hsigned]
  simp only [sendMessage, hnamed]
  simp [houtgoing, hsign]

-- So what goes through send_message is accepted.
theorem accepted_sendMessage {signer : Signer} {msg : BznEnvelope} {payload signature : Bytes}
    (hcrypto : IdealCrypto signers session) (hsigner : signer ∈ signers) (hloads : signer.loadsPrivateKey = true)
    (hsigned : signer.digestSign payload = some signature) (hkey : session.readsAsKey signer.uuid = true)
    (hsender : msg.sender = "" ∨ msg.sender = signer.uuid) (hunsigned : msg.signature = [])
    (hpayload : msg.payload = .pbft payload) (harrives : sendMessage signer lost msg = .ok (some bytes))
    (hjson : session.parseJson bytes = none)
    (hback : ParsesBack session ⟨signer.uuid, signature, .pbft payload⟩) : Accepted session bytes payload := by
  rw [sendMessage_signs (hcrypto.outgoing signer hsigner) hloads hsigned hsender hunsigned hpayload] at harrives
  have hbytes := sendMessageStr_arrives (Except.ok.inj harrives)
  rw [← hbytes] at hjson ⊢
  refine ⟨⟨signer.uuid, signature, .pbft payload⟩, ?_, ?_, rfl⟩
  · unfold ParsesBack at hback
    simp [NodeSession.doRead, hjson, hback]
  · have hverify : (verify session.toNode ⟨signer.uuid, signature, .pbft payload⟩).toOption = some true :=
      (verify_pbft _ rfl).mpr ⟨hkey, (hcrypto.verified _ _ _).mpr ⟨signer, hsigner, rfl, hsigned⟩⟩
    simp [passes, hverify]

-- A signer whose signatures are the payload after its name.
def namingSigner (uuid : Uuid) : Signer where
  uuid := uuid
  cryptoEnabledOutgoing := true
  loadsPrivateKey := true
  digestSign payload := some (Bytes.ofString uuid ++ payload)

def namingSigners : Set Signer := { signer | ∃ peer ∈ fourPeers, signer = namingSigner peer.uuid }

-- The session of a peer that gets A's prepare for the first request.
noncomputable def peerSession (uuid : Uuid) : NodeSession where
  toLibrary := openLibrary
  cryptoEnabledIncoming := true
  readsAsKey _ := true
  digestVerify sender payload signature :=
    (fourPeers.any fun peer => peer.uuid == sender) && signature == Bytes.ofString sender ++ payload
  parsePbft bytes := firstRound.find? fun msg => msg.serialize == bytes
  parseMembership _ := none
  parseJson _ := none
  parseEnvelope bytes :=
    let envelope := Envelope.wrapped ⟨uuid, .first .prepare "x"⟩
    if bytes = envelope.serialize then some envelope else none

theorem peerSession_ideal (uuid : Uuid) : IdealCrypto namingSigners (peerSession uuid) where
  outgoing := by
    rintro signer ⟨peer, _, rfl⟩
    rfl
  incoming := rfl
  verified := by
    intro sender payload signature
    simp only [peerSession, Bool.and_eq_true, List.any_eq_true, beq_iff_eq]
    constructor
    · rintro ⟨⟨peer, hpeer, rfl⟩, rfl⟩
      exact ⟨namingSigner peer.uuid, ⟨peer, hpeer, rfl⟩, rfl, rfl⟩
    · rintro ⟨signer, ⟨peer, hpeer, rfl⟩, rfl, hsigned⟩
      exact ⟨⟨peer, hpeer, rfl⟩, (Option.some.inj hsigned).symm⟩
  nonempty := by
    rintro signer ⟨peer, hpeer, rfl⟩ payload hsigned
    have hname : ∀ peer ∈ fourPeers, Bytes.ofString peer.uuid ≠ [] := by decide +kernel
    exact hname peer hpeer (List.append_eq_nil_iff.mp (Option.some.inj hsigned)).1

theorem peerSession_parsesBack (uuid : Uuid) :
    ParsesBack (peerSession uuid) (Envelope.wrapped ⟨uuid, .first .prepare "x"⟩) := by
  simp [ParsesBack, peerSession]

theorem broadcast_first (uuid : Uuid) : .send ⟨"127.0.0.1", 50001, 8081, "bob", "B"⟩
    (.pbft ⟨uuid, .first .prepare "x"⟩) ∈
      (broadcastMsg openLibrary (.first .prepare "x") (freshReplica uuid)).effects := by
  have hpeers : (freshReplica uuid).configured = some fourPeers := by
    change (initializeConfiguration openLibrary fourPeers).current.map Configuration.sortedPeers = some fourPeers
    decide +kernel
  have hreachable : reachablePeers openLibrary fourPeers = fourPeers := rfl
  rw [(broadcastMsg_effects openLibrary (.first .prepare "x") hpeers).2, hreachable]
  exact List.mem_map_of_mem (by decide)

theorem accepted_broadcast_iff_prepare :
    Accepted (peerSession "") (wrapMessage ⟨"", .first .prepare "x"⟩) (PbftMsg.first .prepare "x").serialize ↔
      (freshReplica "").uuid = "" := by
  have harrives : sendMessageStr false (wrapMessage ⟨"", .first .prepare "x"⟩) =
      some (wrapMessage ⟨"", .first .prepare "x"⟩) := rfl
  exact accepted_broadcast_iff (peerSession_ideal "") (fun _ => rfl) (broadcast_first "") harrives
    (peerSession_parsesBack "")

-- A's prepare gets to B, who drops it.
theorem accepted_broadcast_broken :
    ∃ (signers : Set Signer) (session : NodeSession) (lib : Library) (r : Replica) (msg : PbftMsg)
      (peer : PeerAddress) (envelope : Envelope) (bytes : Bytes), IdealCrypto signers session ∧
      (∀ rest, session.parseJson (58 :: rest) = none) ∧ session.parseJson bytes = none ∧
      .send peer (.pbft envelope) ∈ (broadcastMsg lib msg r).effects ∧
      sendMessageStr false (wrapMessage envelope) = some bytes ∧ ParsesBack session envelope.wrapped ∧
      ¬Accepted session bytes msg.serialize := by
  refine ⟨namingSigners, peerSession "A", openLibrary, freshReplica "A", .first .prepare "x", _,
    ⟨"A", .first .prepare "x"⟩, _, peerSession_ideal "A", fun _ => rfl, rfl, broadcast_first "A", rfl,
    peerSession_parsesBack "A", ?_⟩
  rintro ⟨msg, hread, hpassed, _⟩
  have hparsed : (peerSession "A").doRead (wrapMessage ⟨"A", .first .prepare "x"⟩) =
      .envelope (Envelope.wrapped ⟨"A", .first .prepare "x"⟩) := by
    have hback := peerSession_parsesBack "A"
    unfold ParsesBack at hback
    simp only [NodeSession.doRead, wrapMessage, hback]
    rfl
  rw [hparsed] at hread
  cases hread
  have hanonymous := (passes_unsigned_iff (peerSession_ideal "A") rfl rfl).mp hpassed
  exact absurd hanonymous (by decide)

end Acceptance

end SwarmDB.Pbft
