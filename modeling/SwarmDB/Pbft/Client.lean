import SwarmDB.Base64
import SwarmDB.Pbft.Replica.Primary
import SwarmDB.Pbft.Service.Recovery

namespace SwarmDB.Pbft

open Bytes Service

-- What becomes of the JSON of a client, given base64_decode with ParseFromString: a request, an error to answer
-- with, or an exception of JsonCpp.
def readDatabaseMessage (decode : String → Option BznMsg) (json : Json) :
    Except Exception (DatabaseResponse ⊕ DatabaseMsg) :=
  let invalid : DatabaseResponse := { body := .error "INVALID_CRUD" }
  match json.isMember "msg" with
  | none => .error .jsonError
  | some false => .ok (.inl invalid)
  | some true =>
    match (json.member "msg").bind Json.asString with
    | none => .error .jsonError
    | some text =>
      match decode text with
      | none => .ok (.inl invalid)
      | some msg => .ok (.inr msg.dbOf)

-- The database message, if there is one.
def acceptedMessage (decode : String → Option BznMsg) (json : Json) : Option DatabaseMsg :=
  match readDatabaseMessage decode json with
  | .ok (.inr msg) => some msg
  | .ok (.inl _) | .error _ => none

def databaseRequest (msg : DatabaseMsg) : Request := { body := .operation msg }

-- Returns what the session is sent: the error, or the header of the request as an acknowledgement.
def handleDatabaseMessage (lib : Library) (decode : String → Option BznMsg) (json : Json) (original : String) :
    Call DatabaseResponse :=
  match readDatabaseMessage decode json with
  | .error e => Handler.throws e
  | .ok (.inl response) => pure response
  | .ok (.inr msg) => do
    Replica.handleRequest lib (databaseRequest msg) original
    return { header := Crud.headerOf msg }

section Ordering

variable {lib : Library} {decode : String → Option BznMsg} {json : Json} {original : String} {msg : DatabaseMsg}
  {r : Replica}

theorem readDatabaseMessage_of_accepted (h : acceptedMessage decode json = some msg) :
    readDatabaseMessage decode json = .ok (.inr msg) := by
  unfold acceptedMessage at h
  split at h
  · rename_i found hread
    obtain rfl := Option.some.inj h
    exact hread
  · cases h
  · cases h

-- What the primary sends about an accepted message has the next number and asks for its request.
theorem handleDatabaseMessage_orders (hinj : Function.Injective lib.requestHash) (hkept : Replica.Kept lib r)
    (hleads : leads r = true) (haccepted : acceptedMessage decode json = some msg) {envelope : Envelope}
    (hsent : Sent (handleDatabaseMessage lib decode json original r).effects envelope) :
    envelope.pbft.type = .preprepare ∧ envelope.pbft.sequence = r.nextIssuedSequenceNumber ∧
      envelope.pbft.requestOf = databaseRequest msg := by
  have hprimary := isPrimary_of_leads hleads
  obtain ⟨peers, hpeers⟩ := configured_of_primary hprimary
  have heffects : (handleDatabaseMessage lib decode json original r).effects =
      (Replica.handleRequest lib (databaseRequest msg) original r).effects := by
    simp only [handleDatabaseMessage, readDatabaseMessage_of_accepted haccepted]
    rcases Handler.bind_cases (Replica.handleRequest lib (databaseRequest msg) original)
      (fun _ => (pure { header := Crud.headerOf msg } : Call DatabaseResponse)) r with ⟨_, _, heq⟩ | ⟨_, _, heq⟩
    · rw [heq]
    · rw [heq]
      exact List.append_nil _
  rw [heffects, handleRequest_leads _ _ hprimary] at hsent
  obtain ⟨htype, hkey⟩ := issue_sends hkept hpeers hsent
  exact ⟨htype, congrArg OperationKey.sequence hkey, hinj (congrArg OperationKey.hash hkey)⟩

-- A message that is not accepted does nothing.
theorem handleDatabaseMessage_refuses (lib : Library) (original : String) (r : Replica)
    (h : acceptedMessage decode json = none) :
    (handleDatabaseMessage lib decode json original r).effects = [] ∧
      (handleDatabaseMessage lib decode json original r).state = r := by
  unfold acceptedMessage at h
  unfold handleDatabaseMessage
  split at h
  · cases h
  · rename_i hread
    rw [hread]
    exact ⟨rfl, rfl⟩
  · rename_i hread
    rw [hread]
    exact ⟨rfl, rfl⟩

end Ordering

variable {parse : Bytes → Option Request} {requests : Nat → Request} {uuid : Uuid} {database : MemStorage}
  {past : List (Service × Application)} {s : Service} {call : Application}

-- The call returns, and its request is stored or was executed right away. It is executed by the time that
-- everything before it has been applied.
structure Served (parse : Bytes → Option Request) (requests : Nat → Request) (uuid : Uuid)
    (database : MemStorage) (past : List (Service × Application)) (s : Service) (call : Application) : Prop where
  returns : (call.handler parse requests s).result = .ok ()
  stored : (call.handler parse requests s).state.record call.sequence =
      some (requests call.sequence).serialize ∨
    call.sequence ∈ sequencesIn (call.handler parse requests s).effects
  executed : ∀ more t, (serving parse requests (freshService uuid database)).Run (more ++ (s, call) :: past) t →
    (∀ step ∈ more, 1 ≤ step.2.sequence ∧ step.2.sequence < 2 ^ 64) →
    (∀ x, 1 ≤ x → x ≤ call.sequence → ∃ step ∈ more ++ (s, call) :: past,
      step.2.sequence = x ∧ (step.2.handler parse requests step.1).result = .ok ()) →
    call.sequence ∈ sequencesIn (performed parse requests (more ++ (s, call) :: past))

-- Once everything up to x was applied, x was executed.
theorem executed_of_applied {x : Nat} (hparse : ∀ x, parse (requests x).serialize = some (requests x))
    (run : (serving parse requests (freshService uuid database)).Run past s)
    (hcalls : ∀ step ∈ past, 1 ≤ step.2.sequence ∧ step.2.sequence < 2 ^ 64) (hx : 1 ≤ x)
    (happlied : ∀ y, 1 ≤ y → y ≤ x → ∃ step ∈ past,
      step.2.sequence = y ∧ (step.2.handler parse requests step.1).result = .ok ()) :
    x ∈ sequencesIn (performed parse requests past) := by
  obtain ⟨m, hm⟩ := steady_of_run hparse run hcalls
  have hpos := hm.positive
  have hpast : x < m := by
    by_contra hwaits
    obtain ⟨step, hmem, hstep, hok⟩ := happlied m hpos (by omega)
    rcases hm.kept step hmem hok with hbefore | hstored
    · omega
    · rw [hstep, hm.ended step hmem hok] at hstored
      cases hstored
  rw [hm.sequences, List.mem_range'_1]
  omega

theorem served_of_fits (hparse : ∀ x, parse (requests x).serialize = some (requests x))
    (run : (serving parse requests (freshService uuid database)).Run past s)
    (hcalls : ∀ step ∈ past, 1 ≤ step.2.sequence ∧ step.2.sequence < 2 ^ 64) (hpos : 1 ≤ call.sequence)
    (hlt : call.sequence < 2 ^ 64) (hnew : ¬Applied past call.sequence)
    (hfits : (requests call.sequence).serialize.length ≤ maxValueSize) :
    Served parse requests uuid database past s call := by
  obtain ⟨m, hm⟩ := steady_of_run hparse run hcalls
  have hfree : s.record call.sequence = none := by
    by_contra hsome
    exact hnew (hm.called _ hpos (Or.inr (Option.isSome_iff_ne_none.mpr hsome)))
  have hwaits : m ≤ call.sequence := by
    by_contra hbefore
    exact hnew (hm.called _ hpos (Or.inl (Nat.not_le.mp hbefore)))
  obtain ⟨_, _, es, m', s', hrun, hdrains, _⟩ | ⟨hbad, _⟩ := handler_cases hparse hm.standing call hpos hlt
  · have hdrained := hdrains.drained (hm.standing.accept hpos hlt hfits call.session)
    refine ⟨by rw [hrun], ?_, ?_⟩
    · rw [hrun]
      by_cases hnow : call.sequence < m'
      · right
        change call.sequence ∈ sequencesIn es
        rw [hdrained.sequences, List.mem_range'_1]
        omega
      · left
        rw [hdrained.records, if_neg (by omega), accept_record, if_pos rfl]
    · intro more t hmore hvalid happlied
      refine executed_of_applied hparse hmore ?_ hpos happlied
      intro step hmem
      rcases List.mem_append.mp hmem with hmem | hmem
      · exact hvalid step hmem
      · rcases List.mem_cons.mp hmem with rfl | hmem
        · exact ⟨hpos, hlt⟩
        · exact hcalls step hmem
  · exact absurd ⟨hfits, hfree⟩ hbad

-- The request of an accepted message is served exactly if its serialization is no longer than a value may be.
theorem served_iff {decode : String → Option BznMsg} {json : Json}
    (hparse : ∀ x, parse (requests x).serialize = some (requests x))
    (run : (serving parse requests (freshService uuid database)).Run past s)
    (hcalls : ∀ step ∈ past, 1 ≤ step.2.sequence ∧ step.2.sequence < 2 ^ 64) (hpos : 1 ≤ call.sequence)
    (hlt : call.sequence < 2 ^ 64) (hnew : ¬Applied past call.sequence)
    (hcommitted : (acceptedMessage decode json).map databaseRequest = some (requests call.sequence)) :
    Served parse requests uuid database past s call ↔ ∀ msg, acceptedMessage decode json = some msg →
      (databaseRequest msg).serialize.length ≤ maxValueSize := by
  obtain ⟨msg, hmsg, hrequest⟩ := Option.map_eq_some_iff.mp hcommitted
  constructor
  · intro hserved other hother
    obtain rfl := Option.some.inj (hmsg.symm.trans hother)
    by_contra hlarge
    rw [hrequest] at hlarge
    exact handler_too_large parse call s (Nat.not_le.mp hlarge) hserved.returns
  · intro hfits
    have hsize := hfits msg hmsg
    rw [hrequest] at hsize
    exact served_of_fits hparse run hcalls hpos hlt hnew hsize

section Large

-- A create in a request takes more room than its value.
theorem value_lt_serialize (header : Option DatabaseHeader) (key : String) (value : Bytes) :
    value.length < (databaseRequest ⟨header, .create key value⟩).serialize.length := by
  have hvalue : value.length ≤ (Protobuf.bytesField 2 value).length := by
    unfold Protobuf.bytesField
    split
    · rename_i hempty
      rw [hempty]
    · exact (Protobuf.length_lt_delimited 2 value).le
  have hcommand := Protobuf.length_lt_delimited 2 (Protobuf.stringField 1 key ++ Protobuf.bytesField 2 value)
  have hbody := Protobuf.length_lt_delimited 2 (DatabaseMsg.serialize ⟨header, .create key value⟩)
  simp only [DatabaseMsg.serialize, DatabaseCommand.serialize, List.length_append] at hcommand hbody
  simp only [databaseRequest, Request.serialize, RequestBody.serialize, DatabaseMsg.serialize,
    DatabaseCommand.serialize, List.length_append]
  omega

-- A client's JSON with a create of this value, and the decoder on it.
def createMessage (value : Bytes) : DatabaseMsg := ⟨some { dbUuid := "db" }, .create "x" value⟩

def clientJson (msg : DatabaseMsg) : Json :=
  .object [("bzn-api", .string "database"),
    ("msg", .string (String.ofList (Base64.encode (BznMsg.serialize (.db msg)))))]

def decodeOne (msg : DatabaseMsg) (text : String) : Option BznMsg :=
  if text = String.ofList (Base64.encode (BznMsg.serialize (.db msg))) then some (.db msg) else none

theorem acceptedMessage_clientJson (msg : DatabaseMsg) :
    acceptedMessage (decodeOne msg) (clientJson msg) = some msg := by
  have hmember : (clientJson msg).isMember "msg" = some true := rfl
  have htext : ((clientJson msg).member "msg").bind Json.asString =
      some (String.ofList (Base64.encode (BznMsg.serialize (.db msg)))) := rfl
  have hdecode : decodeOne msg (String.ofList (Base64.encode (BznMsg.serialize (.db msg)))) = some (.db msg) :=
    if_pos rfl
  simp only [acceptedMessage, readDatabaseMessage, hmember, htext, hdecode, BznMsg.dbOf]

def parseOne (msg : DatabaseMsg) (bytes : Bytes) : Option Request :=
  if bytes = (databaseRequest msg).serialize then some (databaseRequest msg) else none

theorem served_iff_small : Served (parseOne (createMessage [1])) (fun _ => databaseRequest (createMessage [1]))
    "A" ∅ [] (freshService "A" ∅) firstCall := by
  have hcommitted : (acceptedMessage (decodeOne (createMessage [1])) (clientJson (createMessage [1]))).map
      databaseRequest = some (databaseRequest (createMessage [1])) := by
    rw [acceptedMessage_clientJson]
    rfl
  refine (served_iff (fun _ => if_pos rfl) (.start rfl) (by simp) (by decide) (by decide) ?_ hcommitted).mpr ?_
  · rintro ⟨_, hmem, _⟩
    cases hmem
  · intro msg hmsg
    rw [acceptedMessage_clientJson] at hmsg
    obtain rfl := Option.some.inj hmsg
    decide +kernel

-- A value of the largest size is allowed for itself but not with the rest of its request.
theorem served_broken :
    let msg := createMessage (List.replicate maxValueSize 0)
    (List.replicate maxValueSize (0 : UInt8)).length ≤ maxValueSize ∧ (ofString "x").length ≤ maxKeySize ∧
      acceptedMessage (decodeOne msg) (clientJson msg) = some msg ∧
      ¬Served (parseOne msg) (fun _ => databaseRequest msg) "A" ∅ [] (freshService "A" ∅) firstCall := by
  intro msg
  refine ⟨by rw [List.length_replicate], by decide +kernel, acceptedMessage_clientJson msg, ?_⟩
  intro hserved
  have hlarge := value_lt_serialize (some { dbUuid := "db" }) "x" (List.replicate maxValueSize 0)
  rw [List.length_replicate] at hlarge
  exact handler_too_large (parseOne msg) firstCall (freshService "A" ∅) hlarge hserved.returns

end Large

end SwarmDB.Pbft
