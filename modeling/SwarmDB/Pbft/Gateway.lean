import SwarmDB.Pbft.Serialization
import SwarmDB.Pbft.Replica.Safety

namespace SwarmDB.Pbft

-- The oneof of an envelope.
inductive Payload
  | unset
  | pbftRequest (bytes : Bytes)
  | databaseResponse (bytes : Bytes)
  | json (bytes : Bytes)
  | audit (bytes : Bytes)
  | pbft (bytes : Bytes)
  | pbftMembership (bytes : Bytes)
  | statusRequest (bytes : Bytes)
  deriving DecidableEq, Repr

structure BznEnvelope where
  sender : Uuid := ""
  signature : Bytes := []
  payload : Payload := .unset
  deriving DecidableEq, Repr

-- The option for incoming messages, and code outside the repository: whether a sender reads as a
-- public key, the check of a signature by OpenSSL, and the parsers of protobuf.
structure Node extends Library where
  cryptoEnabledIncoming : Bool
  readsAsKey : Uuid → Bool
  digestVerify : Uuid → Bytes → Bytes → Bool
  parsePbft : Bytes → Option PbftMsg
  parseMembership : Bytes → Option MembershipMsg

-- crypto.cpp does not know status requests.
def extractPayload : Payload → Except Exception Bytes
  | .pbftRequest bytes | .databaseResponse bytes | .json bytes | .audit bytes | .pbft bytes
  | .pbftMembership bytes => .ok bytes
  | .statusRequest _ =>
    .error (.runtimeError "Crypto does not know how to handle a message with type 9")
  | .unset => .error (.runtimeError "Crypto does not know how to handle a message with type 0")

section Handlers

variable (node : Node) (msg : BznEnvelope)

def verify : Except Exception Bool :=
  if node.readsAsKey msg.sender then
    match extractPayload msg.payload with
    | .error e => .error e
    | .ok payload => .ok (node.digestVerify msg.sender payload msg.signature)
  else .ok false

def handleBznMessage (sender : Uuid) (bytes : Bytes) : Call Unit :=
  match node.parsePbft bytes with
  | none => pure ()
  | some inner => Replica.handleMessage node.toLibrary inner ⟨sender, inner⟩

def handleMembershipBytes (bytes : Bytes) : Call Unit :=
  match node.parseMembership bytes with
  | none => pure ()
  | some inner => Replica.handleMembershipMessage node.toLibrary inner

-- What the protobuf map has for the payload. Status requests have a handler too, but not in pbft.
def dispatch : Call Unit :=
  match msg.payload with
  | .pbft bytes => handleBznMessage node msg.sender bytes
  | .pbftMembership bytes => handleMembershipBytes node bytes
  | .unset | .pbftRequest _ | .databaseResponse _ | .json _ | .audit _ | .statusRequest _ => pure ()

def privProtobufHandler : Call Unit :=
  if node.cryptoEnabledIncoming && !msg.sender.isEmpty then
    match verify node msg with
    | .error e => Handler.throws e
    | .ok true => dispatch node msg
    | .ok false => pure ()
  else dispatch node msg

end Handlers

-- What reaches a replica from outside comes in an envelope. Its own service, timer and failure
-- detector call it directly, and so does the handler for the JSON of a client.
inductive Arrival
  | envelope (msg : BznEnvelope)
  | request (request : Request) (original : String)
  | checkpointReachedLocally (sequence : Nat) (stateHash : Hash) (freed : Replica.Reads)
  | auditHeartbeatTimeout (canceled : Bool)
  | failure

def Arrival.handler (node : Node) : Arrival → Call Unit
  | envelope msg => privProtobufHandler node msg
  | request req original => Replica.handleRequest node.toLibrary req original
  | checkpointReachedLocally sequence stateHash freed =>
    Replica.checkpointReachedLocally node.toLibrary sequence stateHash freed
  | auditHeartbeatTimeout canceled => Replica.handleAuditHeartbeatTimeout node.toLibrary canceled
  | failure => Replica.handleFailure node.toLibrary

-- A replica behind its node.
def gateway (node : Node) : Machine Replica Arrival where
  init := (lifetime node.toLibrary).init
  enabled _ _ := True
  next r arrival := (arrival.handler node r).state

section Passing

variable {node : Node}

-- The signature is looked at only where a sender is given.
def passes (node : Node) (msg : BznEnvelope) : Bool :=
  !node.cryptoEnabledIncoming || msg.sender.isEmpty || (verify node msg).toOption == some true

-- The call of the replica that an envelope ends in.
def BznEnvelope.input (node : Node) (msg : BznEnvelope) : Option Input :=
  if passes node msg then
    match msg.payload with
    | .pbft bytes => (node.parsePbft bytes).map fun inner => .message inner ⟨msg.sender, inner⟩
    | .pbftMembership bytes => (node.parseMembership bytes).map .membership
    | .unset | .pbftRequest _ | .databaseResponse _ | .json _ | .audit _ | .statusRequest _ => none
  else none

def Arrival.input (node : Node) : Arrival → Option Input
  | envelope msg => msg.input node
  | request req original => some (.request req original)
  | checkpointReachedLocally sequence stateHash freed =>
    some (.checkpointReachedLocally sequence stateHash freed)
  | auditHeartbeatTimeout canceled => some (.auditHeartbeatTimeout canceled)
  | failure => some .failure

theorem dispatch_passed {msg : BznEnvelope} (hpasses : passes node msg = true) (r : Replica) :
    (dispatch node msg r).state = match msg.input node with
      | some input => (input.handler node.toLibrary r).state
      | none => r := by
  unfold BznEnvelope.input
  rw [if_pos hpasses]
  cases hpayload : msg.payload with
  | pbft bytes =>
      cases hparse : node.parsePbft bytes with
      | none => simp [dispatch, hpayload, handleBznMessage, hparse, Pure.pure]
      | some inner => simp [dispatch, hpayload, handleBznMessage, hparse, Input.handler]
  | pbftMembership bytes =>
      cases hparse : node.parseMembership bytes with
      | none => simp [dispatch, hpayload, handleMembershipBytes, hparse, Pure.pure]
      | some inner => simp [dispatch, hpayload, handleMembershipBytes, hparse, Input.handler]
  | unset | pbftRequest | databaseResponse | json | audit | statusRequest =>
      simp [dispatch, hpayload, Pure.pure]

theorem privProtobufHandler_state (node : Node) (msg : BznEnvelope) (r : Replica) :
    (privProtobufHandler node msg r).state = match msg.input node with
      | some input => (input.handler node.toLibrary r).state
      | none => r := by
  unfold privProtobufHandler
  split
  · rename_i hchecked
    obtain ⟨hcrypto, hsender⟩ := Bool.and_eq_true_iff.mp hchecked
    have hpasses : passes node msg = ((verify node msg).toOption == some true) := by
      simp only [Bool.not_eq_true'] at hsender
      simp [passes, hcrypto, hsender]
    cases hverify : verify node msg with
    | error e =>
        rw [hverify] at hpasses
        simp [BznEnvelope.input, hpasses, Handler.throws, Except.toOption]
    | ok verified =>
        rw [hverify] at hpasses
        cases verified with
        | true => exact dispatch_passed hpasses r
        | false => simp [BznEnvelope.input, hpasses, Pure.pure, Except.toOption]
  · rename_i hunchecked
    refine dispatch_passed ?_ r
    cases hcrypto : node.cryptoEnabledIncoming with
    | false => simp [passes, hcrypto]
    | true =>
        simp only [hcrypto, Bool.true_and, Bool.not_eq_true', Bool.not_eq_false] at hunchecked
        simp [passes, hunchecked]

theorem gateway_next (node : Node) (r : Replica) (arrival : Arrival) :
    (gateway node).next r arrival = match arrival.input node with
      | some input => (lifetime node.toLibrary).next r input
      | none => r := by
  cases arrival with
  | envelope msg => exact privProtobufHandler_state node msg r
  | request | checkpointReachedLocally | auditHeartbeatTimeout | failure => rfl

theorem run_of_gateway {past : List (Replica × Arrival)} {r : Replica} (run : (gateway node).Run past r) :
    (lifetime node.toLibrary).Run (Machine.within (Arrival.input node) past) r := by
  refine run.within (fun _ h => h) ?_ ?_
  · intro r arrival input hinput
    rw [gateway_next, hinput]
    exact ⟨trivial, rfl⟩
  · intro r arrival hinput
    rw [gateway_next, hinput]

end Passing

section Tally

open Replica

variable {lib : Library} {input : Input} {past : List (Replica × Input)} {r r' : Replica}
  {op : Operation} {es : List Effect} {key : OperationKey} {type : MsgType} {sender : Uuid}

-- The senders recorded for a kind of vote.
def Operation.seen (op : Operation) : MsgType → Finset Uuid
  | .prepare => op.preparesSeen
  | .commit => op.commitsSeen
  | .undefined | .preprepare | .checkpoint => ∅

-- The input is a vote of this kind for the key.
def Casts (lib : Library) (input : Input) (type : MsgType) (key : OperationKey) (sender : Uuid) : Prop :=
  ∃ msg original, input = .message msg original ∧ msg.type = type ∧ msg.key lib = key ∧
    original.sender = sender

-- The sender is on record for the key.
def Seen (r : Replica) (type : MsgType) (key : OperationKey) (sender : Uuid) : Prop :=
  ∃ op, r.operations key = some op ∧ sender ∈ op.seen type

theorem seen_store (hop : ∀ sender ∈ op.seen type, Seen r type (op.key lib) sender ∨
      Casts lib input type (op.key lib) sender)
    (h : Seen (store lib op r) type key sender) : Seen r type key sender ∨ Casts lib input type key sender := by
  obtain ⟨found, hfound, hmem⟩ := h
  rcases store_cases hfound with ⟨rfl, rfl⟩ | hfound
  · exact hop sender hmem
  · exact Or.inl ⟨found, hfound, hmem⟩

theorem Move.seen_cases (hmove : Move lib input r es r') (h : Seen r' type key sender) :
    Seen r type key sender ∨ Casts lib input type key sender := by
  cases hmove with
  | side hbeside _ =>
      obtain ⟨op, hop, hmem⟩ := h
      rw [hbeside.operations] at hop
      exact Or.inl ⟨op, hop, hmem⟩
  | create _ _ hop =>
      refine seen_store ?_ h
      rw [hop]
      intro sender hmem
      cases type <;> simp [Operation.seen] at hmem
  | @recordPrepare op msg original hinput htype hkey hop =>
      refine seen_store ?_ h
      intro sender hmem
      by_cases hkind : type = .prepare
      · subst hkind
        rcases Finset.mem_insert.mp hmem with rfl | hmem
        · exact Or.inr ⟨msg, original, hinput, htype, hkey.symm, rfl⟩
        · exact Or.inl ⟨op, hop.stored, hmem⟩
      · refine Or.inl ⟨op, hop.stored, ?_⟩
        cases type <;> first | exact hmem | exact absurd rfl hkind
  | @recordCommit op msg original hinput htype hkey hop =>
      refine seen_store ?_ h
      intro sender hmem
      by_cases hkind : type = .commit
      · subst hkind
        rcases Finset.mem_insert.mp hmem with rfl | hmem
        · exact Or.inr ⟨msg, original, hinput, htype, hkey.symm, rfl⟩
        · exact Or.inl ⟨op, hop.stored, hmem⟩
      · refine Or.inl ⟨op, hop.stored, ?_⟩
        cases type <;> first | exact hmem | exact absurd rfl hkind
  | @accept op _ _ _ _ _ hop _ | @beginCommit op hop _ _ | @finish op _ _ hop _ _ _ _ =>
      refine seen_store ?_ h
      intro sender hmem
      refine Or.inl ⟨op, hop.stored, ?_⟩
      cases type <;> exact hmem
  | sendPrepare | sendCommit => exact Or.inl h

theorem handleMessage_filtered {msg : PbftMsg} (original : Envelope)
    (h : preliminaryFilterMsg msg r = false) : handleMessage lib msg original r = ⟨r, [], .ok ()⟩ := by
  simp [handleMessage, Bind.bind, Handler.bind, Handler.reads, h, Pure.pure]

-- A call puts nobody on record but the sender of a vote that passes the filter.
theorem handler_seen (hsound : Sound lib r) (input : Input)
    (h : Seen (input.handler lib r).state type key sender) : Seen r type key sender ∨
      ∃ msg original, input = .message msg original ∧ preliminaryFilterMsg msg r = true ∧
        msg.type = type ∧ msg.key lib = key ∧ original.sender = sender := by
  by_cases hold : Seen r type key sender
  · exact Or.inl hold
  · right
    have hcast : Casts lib input type key sender := by
      refine ((handler_turn lib input hsound.kept).keeps (P := fun r' => Seen r' type key sender →
        Seen r type key sender ∨ Casts lib input type key sender) ?_ ?_ Or.inl h).resolve_left hold
      · intro r₁ es r₂ hmove ih hseen
        rcases hmove.seen_cases hseen with hseen | hcast
        · exact ih hseen
        · exact Or.inr hcast
      · rintro r₁ es r₂ hclear ih ⟨op, hop, hmem⟩
        cases hclear with
        | side hbeside _ =>
            rw [hbeside.operations] at hop
            exact ih ⟨op, hop, hmem⟩
        | clear cp => exact ih ⟨op, Option.eq_some_of_filter_eq_some hop, hmem⟩
    obtain ⟨msg, original, rfl, htype, hkey, hsender⟩ := hcast
    refine ⟨msg, original, rfl, ?_, htype, hkey, hsender⟩
    by_contra hfilter
    simp only [Input.handler, handleMessage_filtered original (Bool.eq_false_iff.mpr hfilter)] at h
    exact hold h

theorem handler_configured (hsound : Sound lib r) (input : Input) :
    (input.handler lib r).state.configured = r.configured := by
  refine (handler_turn lib input hsound.kept).keeps (P := fun r' => r'.configured = r.configured) ?_ ?_ rfl
  · intro r₁ es r₂ hmove ih
    exact hmove.unmoved.configured.trans ih
  · intro r₁ es r₂ hclear ih
    cases hclear with
    | side hbeside _ => exact hbeside.configured.trans ih
    | clear cp => exact ih

end Tally

section Members

open Replica

variable {node : Node} {signed : Uuid → Bytes → Prop} {past : List (Replica × Arrival)} {r : Replica}
  {type : MsgType} {key : OperationKey} {sender : Uuid} {op : Operation}

def isMember (r : Replica) (sender : Uuid) : Bool :=
  match r.configured with
  | some peers => peers.any fun peer => peer.uuid == sender
  | none => false

-- The condition on an arrival: a vote that gets through names a configured peer as its sender.
def FromMembers (node : Node) (r : Replica) (arrival : Arrival) : Prop :=
  match arrival.input node with
  | some (.message msg original) => msg.isVote = true → preliminaryFilterMsg msg r = true →
      original.sender ≠ "" ∧ isMember r original.sender = true
  | _ => True

instance (node : Node) (r : Replica) (arrival : Arrival) : Decidable (FromMembers node r arrival) := by
  unfold FromMembers
  split <;> infer_instance

-- The sender signed a message with this vote, and it arrived.
def Cast (node : Node) (signed : Uuid → Bytes → Prop) (past : List (Replica × Arrival)) (type : MsgType)
    (sender : Uuid) (vote : PbftMsg) : Prop :=
  vote.type = type ∧ ∃ step ∈ past, ∃ msg bytes, step.2 = .envelope msg ∧ msg.sender = sender ∧
    msg.payload = .pbft bytes ∧ node.parsePbft bytes = some vote ∧ signed sender bytes

-- A quorum of the peers of an operation has voted for it.
def MemberQuorum (node : Node) (signed : Uuid → Bytes → Prop) (past : List (Replica × Arrival))
    (type : MsgType) (op : Operation) : Prop :=
  ∃ voters : Finset Uuid, 2 * ((op.peers.length - 1) / 3) + 1 ≤ voters.card ∧
    ∀ voter ∈ voters, voter ∈ op.peers.map PeerAddress.uuid ∧ ∃ vote, Cast node signed past type voter vote ∧
      vote.view = op.view ∧ vote.sequence = op.sequence ∧ vote.requestOf = op.request

structure MemberQuorums (node : Node) (signed : Uuid → Bytes → Prop) (past : List (Replica × Arrival))
    (r : Replica) : Prop where
  prepared : ∀ key op, r.operations key = some op → op.isPrepared = true →
    MemberQuorum node signed past .prepare op
  committed : ∀ key op, r.operations key = some op → op.isCommitted = true →
    MemberQuorum node signed past .commit op

theorem Cast.step {vote : PbftMsg} (h : Cast node signed past type sender vote) (r : Replica)
    (arrival : Arrival) : Cast node signed ((r, arrival) :: past) type sender vote := by
  obtain ⟨htype, step, hmem, hstep⟩ := h
  exact ⟨htype, step, List.mem_cons_of_mem _ hmem, hstep⟩

-- An envelope with a sender only gets to a replica with the sender's signature.
theorem signed_of_input {msg : BznEnvelope} {inner : PbftMsg} {original : Envelope}
    (hcrypto : node.cryptoEnabledIncoming = true)
    (hideal : ∀ sender payload signature, node.digestVerify sender payload signature = true →
      signed sender payload)
    (hinput : msg.input node = some (.message inner original)) (hsender : original.sender ≠ "") :
    original.sender = msg.sender ∧ ∃ bytes, msg.payload = .pbft bytes ∧ node.parsePbft bytes = some inner ∧
      signed msg.sender bytes := by
  unfold BznEnvelope.input at hinput
  split at hinput
  · rename_i hpasses
    split at hinput
    · rename_i bytes hpayload
      obtain ⟨parsed, hparsed, heq⟩ := Option.map_eq_some_iff.mp hinput
      cases heq
      refine ⟨rfl, bytes, hpayload, hparsed, ?_⟩
      have hnonempty : msg.sender.isEmpty = false := by simpa using hsender
      have hverify : (verify node msg).toOption = some true := by
        simpa [passes, hcrypto, hnonempty] using hpasses
      unfold verify at hverify
      split at hverify
      · rw [hpayload] at hverify
        exact hideal _ _ _ (Option.some.inj hverify)
      · cases hverify
    · obtain ⟨_, _, heq⟩ := Option.map_eq_some_iff.mp hinput
      cases heq
    all_goals cases hinput
  · cases hinput

theorem isVote_of_seen {vote : PbftMsg} (h : Seen r type key sender) (htype : vote.type = type) :
    vote.isVote = true := by
  obtain ⟨op, _, hmem⟩ := h
  subst htype
  cases hkind : vote.type with
  | prepare | commit => simp [PbftMsg.isVote, hkind]
  | undefined | preprepare | checkpoint =>
      rw [hkind] at hmem
      cases hmem

theorem isMember_congr {r' : Replica} (h : r'.configured = r.configured) (sender : Uuid) :
    isMember r' sender = isMember r sender := by
  unfold isMember
  rw [h]

-- Everybody on record is a member whose signed vote has arrived.
theorem seen_of_run (hcrypto : node.cryptoEnabledIncoming = true)
    (hideal : ∀ sender payload signature, node.digestVerify sender payload signature = true →
      signed sender payload)
    (run : ((gateway node).guard (FromMembers node)).Run past r) (h : Seen r type key sender) :
    isMember r sender = true ∧
      ∃ vote, Cast node signed past type sender vote ∧ vote.key node.toLibrary = key := by
  induction run with
  | start hinit =>
      obtain ⟨op, hop, _⟩ := h
      rw [(construct_fresh hinit).1] at hop
      cases hop
  | @step past r arrival run henabled ih =>
      have hsound := sound_of_run (run_of_gateway run.of_guard)
      have hlater : Seen r type key sender → isMember r sender = true ∧
          ∃ vote, Cast node signed ((r, arrival) :: past) type sender vote ∧ vote.key node.toLibrary = key := by
        intro hold
        obtain ⟨hmember, vote, hcast, hkey⟩ := ih hold
        exact ⟨hmember, vote, hcast.step r arrival, hkey⟩
      change Seen ((gateway node).next r arrival) type key sender at h
      change isMember ((gateway node).next r arrival) sender = true ∧ _
      cases hinput : arrival.input node with
      | none =>
          have hnext : (gateway node).next r arrival = r := by rw [gateway_next, hinput]
          rw [hnext] at h ⊢
          exact hlater h
      | some input =>
          have hnext : (gateway node).next r arrival = (input.handler node.toLibrary r).state := by
            rw [gateway_next, hinput]
            rfl
          rw [hnext] at h ⊢
          rw [isMember_congr (handler_configured hsound input)]
          rcases handler_seen hsound input h with hold | ⟨msg, original, rfl, hfilter, htype, hkey, hsender⟩
          · exact hlater hold
          · have hguard := henabled.2
            rw [FromMembers, hinput] at hguard
            obtain ⟨hnamed, hmember⟩ := hguard (isVote_of_seen h htype) hfilter
            rw [hsender] at hmember
            refine ⟨hmember, msg, ⟨htype, _, List.mem_cons_self, ?_⟩, hkey⟩
            cases arrival with
            | envelope envelope =>
                obtain ⟨hsame, bytes, hpayload, hparse, hsigned⟩ := signed_of_input hcrypto hideal hinput hnamed
                rw [← hsame, hsender] at hsigned
                exact ⟨envelope, bytes, rfl, hsame.symm.trans hsender, hpayload, hparse, hsigned⟩
            | request | checkpointReachedLocally | auditHeartbeatTimeout | failure => cases hinput

-- A set of recorded senders that is large enough is a quorum of members.
theorem memberQuorum_of_run (hcrypto : node.cryptoEnabledIncoming = true)
    (hinj : Function.Injective node.requestHash)
    (hideal : ∀ sender payload signature, node.digestVerify sender payload signature = true →
      signed sender payload)
    (run : ((gateway node).guard (FromMembers node)).Run past r) (hop : r.operations key = some op)
    (hcount : 2 * op.faultyNodesBound < (op.seen type).card) : MemberQuorum node signed past type op := by
  obtain ⟨hkey, hpeers⟩ := (sound_of_run (run_of_gateway run.of_guard)).kept key op hop
  refine ⟨op.seen type, ?_, ?_⟩
  · unfold Operation.faultyNodesBound at hcount
    split at hcount
    · omega
    · omega
  · intro voter hvoter
    obtain ⟨hmember, vote, hcast, hvote⟩ := seen_of_run hcrypto hideal run ⟨op, hop, hvoter⟩
    subst hkey
    refine ⟨?_, vote, hcast, congrArg OperationKey.view hvote, congrArg OperationKey.sequence hvote,
      hinj (congrArg OperationKey.hash hvote)⟩
    unfold isMember at hmember
    rw [hpeers] at hmember
    simpa using hmember

theorem memberQuorums_of_run (hcrypto : node.cryptoEnabledIncoming = true)
    (hinj : Function.Injective node.requestHash)
    (hideal : ∀ sender payload signature, node.digestVerify sender payload signature = true →
      signed sender payload)
    (run : ((gateway node).guard (FromMembers node)).Run past r) : MemberQuorums node signed past r := by
  refine ⟨?_, ?_⟩
  · intro key op hop hprepared
    have hcount := of_decide_eq_true (Bool.and_eq_true_iff.mp hprepared).2
    exact memberQuorum_of_run hcrypto hinj hideal run hop hcount
  · intro key op hop hcommitted
    have hcount := of_decide_eq_true (Bool.and_eq_true_iff.mp hcommitted).2
    exact memberQuorum_of_run hcrypto hinj hideal run hop hcount

-- The messages about a read of "x" in the first view, at the first sequence number.
def firstRound : List PbftMsg := [.first .preprepare "x", .first .prepare "x", .first .commit "x"]

-- A node with ideal signatures: what was signed is verified, and nothing else.
noncomputable def signingNode (signatures : List (Uuid × MsgType)) : Node where
  toLibrary := openLibrary
  cryptoEnabledIncoming := true
  readsAsKey _ := true
  digestVerify sender payload _ := signatures.any fun signature =>
    signature.1 == sender && (PbftMsg.first signature.2 "x").serialize == payload
  parsePbft bytes := firstRound.find? fun msg => msg.serialize == bytes
  parseMembership _ := none

def signedBy (signatures : List (Uuid × MsgType)) (sender : Uuid) (payload : Bytes) : Prop :=
  ∃ type, (sender, type) ∈ signatures ∧ payload = (PbftMsg.first type "x").serialize

theorem signingNode_ideal (signatures : List (Uuid × MsgType)) (sender : Uuid) (payload signature : Bytes)
    (h : (signingNode signatures).digestVerify sender payload signature = true) :
    signedBy signatures sender payload := by
  obtain ⟨⟨signer, type⟩, hmem, hsigned⟩ := List.any_eq_true.mp h
  obtain ⟨hsigner, hpayload⟩ := Bool.and_eq_true_iff.mp hsigned
  obtain rfl := eq_of_beq hsigner
  exact ⟨type, hmem, (eq_of_beq hpayload).symm⟩

def deliver (signatures : List (Uuid × MsgType)) : List Arrival :=
  signatures.map fun signature => .envelope
    { sender := signature.1, payload := .pbft (PbftMsg.first signature.2 "x").serialize }

theorem run_of_gateway_fresh (node : Node) (hlib : node.toLibrary = openLibrary) (arrivals : List Arrival) :
    (gateway node).Run ((gateway node).replay [] (freshReplica "A") arrivals).1
      ((gateway node).replay [] (freshReplica "A") arrivals).2 := by
  have hstart : (gateway node).Run [] (freshReplica "A") := by
    refine .start ⟨fourPeers, "A", freshReplica "A", true, ?_, rfl⟩
    rw [hlib]
    exact construct_four "A"
  exact hstart.replay arrivals (Machine.admits_of_enabled (fun _ _ => trivial) _ _)

def honestRound : List (Uuid × MsgType) :=
  ("B", .preprepare) :: (["A", "B", "C"].map fun sender => (sender, .prepare)) ++
    ["A", "B", "C"].map fun sender => (sender, .commit)

theorem memberQuorums_of_run_fresh :
    let node := signingNode honestRound
    let run := (gateway node).replay [] (freshReplica "A") (deliver honestRound)
    ((run.2.operations ((PbftMsg.first .commit "x").key openLibrary)).map Operation.isCommitted = some true) ∧
      MemberQuorums node (signedBy honestRound) run.1 run.2 :=
  ⟨by decide +kernel, memberQuorums_of_run rfl requestText_injective (signingNode_ideal honestRound)
    ((run_of_gateway_fresh _ rfl _).guard_of (by decide +kernel))⟩

-- The primary's preprepare is answered by two strangers and by somebody without a name.
def strangers : List (Uuid × MsgType) :=
  ("B", .preprepare) :: ["X", "Y", ""].map fun sender => (sender, .prepare)

theorem memberQuorums_broken :
    let node := signingNode strangers
    let run := (gateway node).replay [] (freshReplica "A") (deliver strangers)
    (gateway node).Run run.1 run.2 ∧ node.cryptoEnabledIncoming = true ∧
      Function.Injective node.requestHash ∧
      (∀ sender payload signature, node.digestVerify sender payload signature = true →
        signedBy strangers sender payload) ∧
      ¬MemberQuorums node (signedBy strangers) run.1 run.2 := by
  intro node run
  refine ⟨run_of_gateway_fresh _ rfl _, rfl, requestText_injective, signingNode_ideal strangers, ?_⟩
  intro h
  have hrecord : (run.2.operations ((PbftMsg.first .prepare "x").key openLibrary)).map (fun op =>
      (op.isPrepared, op.peers.map PeerAddress.uuid)) = some (true, ["A", "B", "C", "D"]) := by decide +kernel
  obtain ⟨op, hop, hshape⟩ := Option.map_eq_some_iff.mp hrecord
  obtain ⟨hprepared, hpeers⟩ := Prod.ext_iff.mp hshape
  obtain ⟨voters, hcard, hvoters⟩ := h.prepared _ op hop hprepared
  obtain ⟨voter, hvoter⟩ := Finset.card_pos.mp (Nat.lt_of_lt_of_le (Nat.succ_pos _) hcard)
  obtain ⟨hmember, vote, ⟨htype, _, _, _, bytes, _, _, _, hparse, type, hsigned, rfl⟩, _⟩ := hvoters voter hvoter
  -- the only member that signed anything is the primary, and that was no prepare
  rw [show op.peers.map PeerAddress.uuid = _ from hpeers] at hmember
  have honly : type = .preprepare := by
    simp only [strangers, List.map_cons, List.map_nil, List.mem_cons, List.not_mem_nil, Prod.mk.injEq,
      or_false] at hsigned
    rcases hsigned with ⟨_, htype⟩ | ⟨rfl, _⟩ | ⟨rfl, _⟩ | ⟨rfl, _⟩
    · exact htype
    all_goals exact absurd hmember (by decide)
  subst honly
  have hvote : node.parsePbft (PbftMsg.first .preprepare "x").serialize = some (.first .preprepare "x") := by
    decide +kernel
  rw [hvote] at hparse
  cases hparse
  cases htype

end Members

end SwarmDB.Pbft
