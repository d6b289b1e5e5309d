import SwarmDB.Raft.Admission

namespace SwarmDB.Raft.JsonNode

variable {oracles : Oracles} {node : JsonNode} {peer p held : Json} {peers : List Json} {last : JsonEntry}
  {uuid signature : String}

-- Up to the first peer of the same uuid each has one that reads as text, and so has the new peer.
def Comparable (peer : Json) (peers : List Json) : Prop :=
  ∀ before p after, peers = before ++ p :: after → (∀ q ∈ before, q.text "uuid" ≠ peer.text "uuid") →
    (p.text "uuid").isSome ∧ (peer.text "uuid").isSome

-- No peer of this quorum has the uuid.
def Fresh (peer held : Json) : Prop := ∀ p ∈ held.elements, p.text "uuid" ≠ peer.text "uuid"

section Comparison

theorem comparable_nil : Comparable peer [] := by
  intro before p after hpeers
  cases before <;> cases hpeers

theorem comparable_cons : Comparable peer (p :: peers) ↔
    ((p.text "uuid").isSome ∧ (peer.text "uuid").isSome) ∧
      (p.text "uuid" ≠ peer.text "uuid" → Comparable peer peers) := by
  constructor
  · intro h
    refine ⟨h [] p peers rfl (by simp), fun hne before q after hpeers hbefore => ?_⟩
    refine h (p :: before) q after (by rw [hpeers]; rfl) fun other hother => ?_
    rcases List.mem_cons.mp hother with rfl | hother
    · exact hne
    · exact hbefore other hother
  · rintro ⟨hfirst, hrest⟩ before q after hpeers hbefore
    cases before with
    | nil =>
        obtain ⟨rfl, -⟩ := List.cons.inj hpeers
        exact hfirst
    | cons first before =>
        obtain ⟨rfl, rfl⟩ := List.cons.inj hpeers
        exact hrest (hbefore p List.mem_cons_self) before q after rfl fun other hother =>
          hbefore other (List.mem_cons_of_mem _ hother)

theorem samePeer_cons : samePeer peer (p :: peers) = (p.text "uuid").bind fun this =>
    (peer.text "uuid").bind fun that => if this = that then some true else samePeer peer peers := rfl

theorem samePeer_eq (peer : Json) (peers : List Json) : (¬ Comparable peer peers ∧ samePeer peer peers = none) ∨
    Comparable peer peers ∧ samePeer peer peers = some (peers.any fun p => p.text "uuid" = peer.text "uuid") := by
  induction peers with
  | nil => exact Or.inr ⟨comparable_nil, rfl⟩
  | cons p peers ih =>
      rw [comparable_cons, samePeer_cons, List.any_cons]
      cases hthis : p.text "uuid" with
      | none => simp
      | some this =>
          cases hthat : peer.text "uuid" with
          | none => simp
          | some that =>
              by_cases hsame : this = that
              · simp [hsame]
              · simpa [hsame, hthat] using ih

theorem samePeer_of_fresh (hcompare : Comparable peer held.elements) (hfresh : Fresh peer held) :
    samePeer peer held.elements = some false := by
  rcases samePeer_eq peer held.elements with ⟨hnot, -⟩ | ⟨-, heq⟩
  · exact absurd hcompare hnot
  · rw [heq, Option.some.injEq, List.any_eq_false]
    intro p hp
    simpa using hfresh p hp

end Comparison

-- The old or the new list of a joint quorum.
def listOf (name : String) (msg : Json) : Option Json := (peersOf msg).bind (Json.member name)

-- The request is compared with the peers of the last quorum.
structure Considered (node : JsonNode) (last : JsonEntry) (held : Json) : Prop where
  role : node.currentState = .leader
  quorum : lastQuorumEntry node.log = some last
  single : last.entryType ≠ .jointQuorum
  peers : peersOf last.msg = some held

structure Named (peer held : Json) (uuid : Uuid) : Prop where
  fresh : Fresh peer held
  text : peer.text "uuid" = some uuid
  nonempty : uuid ≠ ""

def Signed (oracles : Oracles) (peer : Json) (uuid : Uuid) : Prop :=
  ∃ signature, peer.text "signature" = some signature ∧ signature ≠ "" ∧
    oracles.verifySignature oracles.publicKey signature (uuid ++ "\n") = true

-- A joint quorum has been appended, which differs from the quorum before it by a peer that is fit for it.
def Admits (oracles : Oracles) (node : JsonNode) (peer : Json) (after : JsonNode) : Prop :=
  ∃ entry last held uuid, after.log = node.log ++ [entry] ∧ entry.entryType = .jointQuorum ∧
    lastQuorumEntry node.log = some last ∧ peersOf last.msg = some held ∧ listOf "old" entry.msg = some held ∧
    listOf "new" entry.msg = some (.array (held.elements ++ [peer])) ∧ Named peer held uuid ∧
    Signed oracles peer uuid ∧ oracles.isBlacklisted uuid = false

-- The peer is admitted for good reasons, or the request is refused.
def Conforms (oracles : Oracles) (node : JsonNode) (peer : Json) : Prop :=
  let outcome := handleAddPeer oracles peer node
  Admits oracles node peer outcome.state ∨
    outcome.state.log = node.log ∧ outcome.state.peerMatchIndex = node.peerMatchIndex ∧
      ∃ message, outcome.effects = [.error message]

-- What is read on the way can be read, and when the node has passed as not blacklisted the peer is
-- not blacklisted either.
structure Proper (oracles : Oracles) (node : JsonNode) (peer : Json) : Prop where
  quorum : node.currentState = .leader → ∃ last, lastQuorumEntry node.log = some last ∧
    (last.entryType ≠ .jointQuorum → (peersOf last.msg).isSome)
  comparable : ∀ last held, Considered node last held → Comparable peer held.elements
  uuid : ∀ last held, Considered node last held → Fresh peer held → (peer.text "uuid").isSome
  signature : ∀ last held uuid, Considered node last held → Named peer held uuid → (peer.text "signature").isSome
  blacklist : ∀ last held uuid, Considered node last held → Named peer held uuid → Signed oracles peer uuid →
    oracles.isBlacklisted node.uuid = false → (held.append peer).isSome ∧ oracles.isBlacklisted uuid = false

section Exits

theorem refused (message : String) (h : handleAddPeer oracles peer node = ⟨node, [.error message], .ok ()⟩) :
    Conforms oracles node peer := by
  unfold Conforms
  rw [h]
  exact Or.inr ⟨rfl, rfl, message, rfl⟩

-- An exception leaves the requester without an answer.
theorem not_conforms_of_thrown {after : JsonNode} {e : Exception}
    (h : handleAddPeer oracles peer node = ⟨after, [], .error e⟩) (hlog : after.log = node.log) :
    ¬ Conforms oracles node peer := by
  unfold Conforms
  rw [h]
  rintro (⟨entry, -, -, -, happended, -⟩ | ⟨-, -, message, heffects⟩)
  · have hlength := congrArg List.length (hlog.symm.trans happended)
    simp at hlength
  · cases heffects

theorem handleAddPeer_role (hrole : node.currentState ≠ .leader) : handleAddPeer oracles peer node =
    ⟨node, [.error errorAddPeerMustBeSentToLeader], .ok ()⟩ := by
  simp [handleAddPeer, hrole, sendSessionErrorMessage]

theorem handleAddPeer_noQuorum (hrole : node.currentState = .leader) (hlast : lastQuorumEntry node.log = none) :
    handleAddPeer oracles peer node = ⟨node, [], .error .noPeersInLog⟩ := by
  simp [handleAddPeer, hrole, hlast, orThrow, Handler.throws_bind]

theorem handleAddPeer_joint (hrole : node.currentState = .leader) (hlast : lastQuorumEntry node.log = some last)
    (hjoint : last.entryType = .jointQuorum) : handleAddPeer oracles peer node =
      ⟨node, [.error msgErrorCurrentQuorumIsJoint], .ok ()⟩ := by
  simp [handleAddPeer, hrole, hlast, orThrow, Handler.pure_bind, hjoint, sendSessionErrorMessage]

theorem handleAddPeer_unread (hrole : node.currentState = .leader) (hlast : lastQuorumEntry node.log = some last)
    (hsingle : last.entryType ≠ .jointQuorum) (hpeers : peersOf last.msg = none) :
    handleAddPeer oracles peer node = ⟨node, [], .error .jsonLogicError⟩ := by
  simp [handleAddPeer, hrole, hlast, orThrow, Handler.pure_bind, Handler.throws_bind, hsingle, hpeers]

theorem Considered.compared (hc : Considered node last held) (hsame : samePeer peer held.elements = none) :
    handleAddPeer oracles peer node = ⟨node, [], .error .jsonLogicError⟩ := by
  simp [handleAddPeer, hc.role, hc.quorum, hc.single, hc.peers, orThrow, Handler.pure_bind, Handler.throws_bind,
    hsame]

theorem Considered.same (hc : Considered node last held) (hsame : samePeer peer held.elements = some true) :
    handleAddPeer oracles peer node = ⟨node, [.error errorPeerAlreadyExists], .ok ()⟩ := by
  simp [handleAddPeer, hc.role, hc.quorum, hc.single, hc.peers, orThrow, Handler.pure_bind, hsame,
    sendSessionErrorMessage]

theorem Considered.illegible (hc : Considered node last held) (hsame : samePeer peer held.elements = some false)
    (htext : peer.text "uuid" = none) : handleAddPeer oracles peer node = ⟨node, [], .error .jsonLogicError⟩ := by
  simp [handleAddPeer, hc.role, hc.quorum, hc.single, hc.peers, orThrow, Handler.pure_bind, Handler.throws_bind,
    hsame, Json.hasText_eq, htext]

theorem Considered.unnamed (hc : Considered node last held) (hsame : samePeer peer held.elements = some false)
    (htext : peer.text "uuid" = some "") :
    handleAddPeer oracles peer node = ⟨node, [.error errorInvalidUuid], .ok ()⟩ := by
  simp [handleAddPeer, hc.role, hc.quorum, hc.single, hc.peers, orThrow, Handler.pure_bind, hsame, Json.hasText_eq,
    htext, sendSessionErrorMessage]

theorem Considered.passed (hc : Considered node last held) (hsame : samePeer peer held.elements = some false)
    (htext : peer.text "uuid" = some uuid) (huuid : uuid ≠ "") : handleAddPeer oracles peer node =
      ((if node.enablePeerValidation then validateNewPeer oracles peer else pure true) >>= fun valid =>
        if valid then do
          Handler.updates (setMatchIndex uuid 1)
          let jointQuorum ← orThrow .jsonLogicError (createJointQuorumByAddingPeer last.msg peer)
          Handler.updates (appendLogUnsafe jointQuorum .jointQuorum)
          Handler.emits (.success "add_peer" successPeerAddedToSwarm)
        else pure ()) node := by
  simp [handleAddPeer, hc.role, hc.quorum, hc.single, hc.peers, orThrow, Handler.pure_bind, hsame, Json.hasText_eq,
    htext, huuid]
  rfl

-- An admitted peer, seen from where the validation has come to its end.
theorem Considered.admitted (hc : Considered node last held) (hsame : samePeer peer held.elements = some false)
    (htext : peer.text "uuid" = some uuid) (huuid : uuid ≠ "") {joint : Json}
    (hvalid : (if node.enablePeerValidation then validateNewPeer oracles peer else pure true) node =
      ⟨node, [], .ok true⟩)
    (hjoint : createJointQuorumByAddingPeer last.msg peer = some joint) : handleAddPeer oracles peer node =
      ⟨(node.setMatchIndex uuid 1).appendLogUnsafe joint .jointQuorum,
        [.success "add_peer" successPeerAddedToSwarm], .ok ()⟩ := by
  rw [hc.passed hsame htext huuid, Handler.bind_ok hvalid, if_pos rfl, Handler.updates_bind, hjoint]
  rfl

theorem Considered.invalid (hc : Considered node last held) (hsame : samePeer peer held.elements = some false)
    (htext : peer.text "uuid" = some uuid) (huuid : uuid ≠ "") {message : String}
    (hvalid : (if node.enablePeerValidation then validateNewPeer oracles peer else pure true) node =
      ⟨node, [.error message], .ok false⟩) :
    handleAddPeer oracles peer node = ⟨node, [.error message], .ok ()⟩ := by
  rw [hc.passed hsame htext huuid, Handler.bind_ok hvalid]
  rfl

theorem validateNewPeer_illegible (htext : peer.text "uuid" = some uuid) (hsignature : peer.text "signature" = none) :
    validateNewPeer oracles peer node = ⟨node, [], .error .jsonLogicError⟩ := by
  simp [validateNewPeer, orThrow, Handler.pure_bind, Handler.throws_bind, htext, Json.hasText_eq, hsignature]

theorem validateNewPeer_unsigned (htext : peer.text "uuid" = some uuid)
    (hsignature : peer.text "signature" = some "") :
    validateNewPeer oracles peer node = ⟨node, [.error errorInvalidSignature], .ok false⟩ := by
  simp [validateNewPeer, orThrow, Handler.pure_bind, htext, Json.hasText_eq, hsignature, sendSessionErrorMessage,
    Handler.emits_bind]

theorem validateNewPeer_unverified (htext : peer.text "uuid" = some uuid)
    (hsignature : peer.text "signature" = some signature) (hne : signature ≠ "")
    (hverify : oracles.verifySignature oracles.publicKey signature (uuid ++ "\n") = false) :
    validateNewPeer oracles peer node = ⟨node, [.error errorUnableToValidateUuid], .ok false⟩ := by
  simp [validateNewPeer, orThrow, Handler.pure_bind, htext, Json.hasText_eq, hsignature, hne, hverify,
    sendSessionErrorMessage, Handler.emits_bind]

theorem validateNewPeer_signed (htext : peer.text "uuid" = some uuid) (hsigned : Signed oracles peer uuid) :
    validateNewPeer oracles peer node =
      if oracles.isBlacklisted node.uuid then ⟨node, [.error errorPeerHasBeenBlacklisted], .ok false⟩
      else ⟨node, [], .ok true⟩ := by
  obtain ⟨signature, hsignature, hne, hverify⟩ := hsigned
  split
  · rename_i hblacklisted
    simp [validateNewPeer, orThrow, Handler.pure_bind, htext, Json.hasText_eq, hsignature, hne, hverify,
      hblacklisted, sendSessionErrorMessage, Handler.emits_bind]
  · rename_i hblacklisted
    simp [validateNewPeer, orThrow, Handler.pure_bind, htext, Json.hasText_eq, hsignature, hne, hverify,
      hblacklisted]

end Exits

section Requests

theorem Named.unique {other : Uuid} (h : Named peer held uuid) (h' : Named peer held other) : other = uuid :=
  Option.some.inj (h'.text.symm.trans h.text)

-- The validation refuses the peer, or an exception ends it.
theorem Considered.refused (hc : Considered node last held) (hsame : samePeer peer held.elements = some false)
    (hnamed : Named peer held uuid) (hvalidation : node.enablePeerValidation = true) {message : String}
    (hvalid : validateNewPeer oracles peer node = ⟨node, [.error message], .ok false⟩) :
    Conforms oracles node peer := by
  refine JsonNode.refused message (hc.invalid hsame hnamed.text hnamed.nonempty ?_)
  rw [if_pos hvalidation, hvalid]

theorem Considered.thrown (hc : Considered node last held) (hsame : samePeer peer held.elements = some false)
    (hnamed : Named peer held uuid) (hvalidation : node.enablePeerValidation = true) {e : Exception}
    (hvalid : validateNewPeer oracles peer node = ⟨node, [], .error e⟩) : ¬ Conforms oracles node peer := by
  refine not_conforms_of_thrown (e := e) ?_ rfl
  rw [hc.passed hsame hnamed.text hnamed.nonempty, if_pos hvalidation, Handler.bind_error hvalid]

-- Where the list of peers takes no further one, the index of the peer is set already.
theorem Considered.spilled (hc : Considered node last held) (hsame : samePeer peer held.elements = some false)
    (hnamed : Named peer held uuid) (hvalidation : node.enablePeerValidation = true)
    (hvalid : validateNewPeer oracles peer node = ⟨node, [], .ok true⟩) (happend : held.append peer = none) :
    handleAddPeer oracles peer node = ⟨node.setMatchIndex uuid 1, [], .error .jsonLogicError⟩ := by
  have hjoint : createJointQuorumByAddingPeer last.msg peer = none := by
    simp [createJointQuorumByAddingPeer, hc.peers, happend]
  rw [hc.passed hsame hnamed.text hnamed.nonempty, if_pos hvalidation, Handler.bind_ok hvalid, if_pos rfl,
    Handler.updates_bind, hjoint]
  rfl

theorem createJointQuorumByAddingPeer_eq {msg peers : Json} (hheld : peersOf msg = some held)
    (happend : held.append peer = some peers) : createJointQuorumByAddingPeer msg peer =
      some (.object [("msg", .object [("peers", .object [("new", peers), ("old", held)])])]) := by
  simp [createJointQuorumByAddingPeer, hheld, happend]

theorem append_eq {peers : Json} (h : held.append peer = some peers) : peers = .array (held.elements ++ [peer]) := by
  cases held <;> cases h <;> rfl

theorem Considered.added_iff (hc : Considered node last held) (hsame : samePeer peer held.elements = some false)
    (hnamed : Named peer held uuid) (hsigned : Signed oracles peer uuid)
    (hvalidation : node.enablePeerValidation = true)
    (hvalid : validateNewPeer oracles peer node = ⟨node, [], .ok true⟩) {peers : Json}
    (happend : held.append peer = some peers) :
    Conforms oracles node peer ↔ oracles.isBlacklisted uuid = false := by
  have hjoint := createJointQuorumByAddingPeer_eq hc.peers happend
  have hstate := congrArg Outcome.state (hc.admitted hsame hnamed.text hnamed.nonempty
    (by rw [if_pos hvalidation, hvalid]) hjoint)
  have hleader : (node.setMatchIndex uuid 1).currentState = .leader := hc.role
  rw [appendLogUnsafe, if_neg (not_not.mpr hleader), append_eq happend] at hstate
  unfold Conforms
  constructor
  · rintro (⟨_, _, other, name, _, _, hlast, hheld, -, -, hother, -, hblacklist⟩ | ⟨hlog, -⟩)
    · have hname : name = uuid := Option.some.inj (hother.text.symm.trans hnamed.text)
      rwa [hname] at hblacklist
    · rw [hstate] at hlog
      simp [setMatchIndex] at hlog
  · intro hblacklist
    dsimp only
    rw [hstate]
    exact Or.inl ⟨_, last, held, uuid, rfl, rfl, hc.quorum, hc.peers, rfl, rfl, hnamed, hsigned, hblacklist⟩

theorem Considered.named_conforms_iff (hc : Considered node last held) (hcompare : Comparable peer held.elements)
    (hnamed : Named peer held uuid) (hvalidation : node.enablePeerValidation = true) :
    Conforms oracles node peer ↔ (peer.text "signature").isSome ∧ (Signed oracles peer uuid →
      oracles.isBlacklisted node.uuid = false → (held.append peer).isSome ∧ oracles.isBlacklisted uuid = false) := by
  have hsame := samePeer_of_fresh hcompare hnamed.fresh
  cases hsignature : peer.text "signature" with
  | none =>
      refine iff_of_false ?_ (by simp)
      exact hc.thrown hsame hnamed hvalidation (validateNewPeer_illegible hnamed.text hsignature)
  | some signature =>
      rw [and_iff_right Option.isSome_some]
      by_cases hsigned : Signed oracles peer uuid
      · have hvalid : validateNewPeer oracles peer node = _ := validateNewPeer_signed hnamed.text hsigned
        cases hself : oracles.isBlacklisted node.uuid with
        | true =>
            rw [hself, if_pos rfl] at hvalid
            exact iff_of_true (hc.refused hsame hnamed hvalidation hvalid) (by simp)
        | false =>
            rw [hself, if_neg Bool.false_ne_true] at hvalid
            rw [forall_prop_of_true hsigned, forall_prop_of_true rfl]
            cases happend : held.append peer with
            | none =>
                refine iff_of_false ?_ (by simp)
                exact not_conforms_of_thrown (hc.spilled hsame hnamed hvalidation hvalid happend) rfl
            | some peers =>
                rw [and_iff_right Option.isSome_some]
                exact hc.added_iff hsame hnamed hsigned hvalidation hvalid happend
      · refine iff_of_true ?_ fun h => absurd h hsigned
        by_cases hne : signature = ""
        · exact hc.refused hsame hnamed hvalidation
            (validateNewPeer_unsigned hnamed.text (hsignature.trans (congrArg some hne)))
        · refine hc.refused hsame hnamed hvalidation
            (validateNewPeer_unverified hnamed.text hsignature hne (Bool.eq_false_iff.mpr fun hverify => ?_))
          exact hsigned ⟨signature, hsignature, hne, hverify⟩

theorem Considered.proper_iff (hc : Considered node last held) : Proper oracles node peer ↔
    Comparable peer held.elements ∧ (Fresh peer held → (peer.text "uuid").isSome) ∧
      ∀ uuid, Named peer held uuid → (peer.text "signature").isSome ∧ (Signed oracles peer uuid →
        oracles.isBlacklisted node.uuid = false →
          (held.append peer).isSome ∧ oracles.isBlacklisted uuid = false) := by
  constructor
  · intro h
    exact ⟨h.comparable last held hc, h.uuid last held hc, fun uuid hnamed =>
      ⟨h.signature last held uuid hc hnamed, h.blacklist last held uuid hc hnamed⟩⟩
  · rintro ⟨hcompare, huuid, hrest⟩
    -- There is one last quorum.
    have hunique : ∀ {other : JsonEntry} {list : Json}, Considered node other list → list = held := by
      intro other list hother
      obtain rfl := Option.some.inj (hother.quorum.symm.trans hc.quorum)
      exact Option.some.inj (hother.peers.symm.trans hc.peers)
    constructor
    · exact fun _ => ⟨last, hc.quorum, fun _ => Option.isSome_of_eq_some hc.peers⟩
    · intro other list hother
      rw [hunique hother]
      exact hcompare
    · intro other list hother
      rw [hunique hother]
      exact huuid
    · intro other list uuid hother hnamed
      rw [hunique hother] at hnamed
      exact (hrest uuid hnamed).1
    · intro other list uuid hother hnamed
      rw [hunique hother] at hnamed ⊢
      exact (hrest uuid hnamed).2

theorem Considered.conforms_iff (hc : Considered node last held) (hvalidation : node.enablePeerValidation = true) :
    Conforms oracles node peer ↔ Proper oracles node peer := by
  rw [hc.proper_iff]
  rcases samePeer_eq peer held.elements with ⟨hnot, hsame⟩ | ⟨hcompare, hsame⟩
  · exact iff_of_false (not_conforms_of_thrown (hc.compared hsame) rfl) fun h => hnot h.1
  rw [and_iff_right hcompare]
  by_cases hfresh : Fresh peer held
  · rw [forall_prop_of_true hfresh]
    have hnone := samePeer_of_fresh hcompare hfresh
    cases htext : peer.text "uuid" with
    | none => exact iff_of_false (not_conforms_of_thrown (hc.illegible hnone htext) rfl) (by simp)
    | some uuid =>
        rw [and_iff_right Option.isSome_some]
        by_cases hempty : uuid = ""
        · subst hempty
          refine iff_of_true (JsonNode.refused _ (hc.unnamed hnone htext)) fun other hother => ?_
          exact absurd (Option.some.inj (hother.text.symm.trans htext)) hother.nonempty
        · have hnamed : Named peer held uuid := ⟨hfresh, htext, hempty⟩
          rw [hc.named_conforms_iff hcompare hnamed hvalidation]
          refine ⟨fun h other hother => ?_, fun h => h uuid hnamed⟩
          rwa [hnamed.unique hother]
  · have hsome : samePeer peer held.elements = some true := by
      rw [hsame, Option.some.injEq, List.any_eq_true]
      obtain ⟨p, hp, heq⟩ : ∃ p ∈ held.elements, p.text "uuid" = peer.text "uuid" := by
        simpa [Fresh] using hfresh
      exact ⟨p, hp, decide_eq_true heq⟩
    refine iff_of_true (JsonNode.refused _ (hc.same hsome)) ⟨fun h => absurd h hfresh, fun uuid hnamed => ?_⟩
    exact absurd hnamed.fresh hfresh

theorem proper_of_unconsidered (hquorum : ∃ last, lastQuorumEntry node.log = some last ∧
      (last.entryType ≠ .jointQuorum → (peersOf last.msg).isSome))
    (h : ∀ last held, ¬ Considered node last held) : Proper oracles node peer where
  quorum _ := hquorum
  comparable last held hc := absurd hc (h last held)
  uuid last held hc := absurd hc (h last held)
  signature last held _ hc := absurd hc (h last held)
  blacklist last held _ hc := absurd hc (h last held)

-- What becomes of a request depends on the condition, and on nothing else.
theorem conforms_iff (hvalidation : node.enablePeerValidation = true) :
    Conforms oracles node peer ↔ Proper oracles node peer := by
  by_cases hrole : node.currentState = .leader
  · cases hlast : lastQuorumEntry node.log with
    | none =>
        refine iff_of_false (not_conforms_of_thrown (handleAddPeer_noQuorum hrole hlast) rfl) fun h => ?_
        obtain ⟨last, hsome, -⟩ := h.quorum hrole
        cases hlast.symm.trans hsome
    | some last =>
        by_cases hjoint : last.entryType = .jointQuorum
        · refine iff_of_true (refused _ (handleAddPeer_joint hrole hlast hjoint)) ?_
          refine proper_of_unconsidered ⟨last, hlast, fun h => absurd hjoint h⟩ fun other held hc => ?_
          obtain rfl := Option.some.inj (hc.quorum.symm.trans hlast)
          exact hc.single hjoint
        · cases hpeers : peersOf last.msg with
          | none =>
              refine iff_of_false (not_conforms_of_thrown (handleAddPeer_unread hrole hlast hjoint hpeers) rfl) ?_
              intro h
              obtain ⟨other, hother, hsome⟩ := h.quorum hrole
              obtain rfl := Option.some.inj (hother.symm.trans hlast)
              have hheld := hsome hjoint
              rw [hpeers] at hheld
              cases hheld
          | some held => exact Considered.conforms_iff ⟨hrole, hlast, hjoint, hpeers⟩ hvalidation
  · refine iff_of_true (refused _ (handleAddPeer_role hrole)) ?_
    constructor
    · exact fun h => absurd h hrole
    all_goals
      intro last held
    · exact fun hc => absurd hc.role hrole
    · exact fun hc => absurd hc.role hrole
    · exact fun uuid hc => absurd hc.role hrole
    · exact fun uuid hc => absurd hc.role hrole

end Requests

section Runs

-- What no request changes.
def options (node : JsonNode) : Uuid × Bool := (node.uuid, node.enablePeerValidation)

theorem orThrow_keeps {α : Type} (e : Exception) (a : Option α) : Handler.Keeps options (orThrow e a) := by
  cases a with
  | none | some => exact fun _ => rfl

theorem validateNewPeer_keeps (oracles : Oracles) (peer : Json) :
    Handler.Keeps options (validateNewPeer oracles peer) := by
  refine (orThrow_keeps _ _).bind fun uuid => (orThrow_keeps _ _).bind fun signed => ?_
  split
  · exact fun _ => rfl
  · refine (orThrow_keeps _ _).bind fun signature => ?_
    split
    · exact fun _ => rfl
    · intro s
      rw [Handler.reads_bind]
      split <;> rfl

theorem appendLogUnsafe_options (msg : Json) (entryType : LogEntryType) (node : JsonNode) :
    (node.appendLogUnsafe msg entryType).options = node.options := by
  unfold appendLogUnsafe
  split <;> rfl

theorem handleAddPeer_keeps (oracles : Oracles) (peer : Json) :
    Handler.Keeps options (handleAddPeer oracles peer) := by
  refine Handler.Keeps.bind (fun _ => rfl) fun currentState => ?_
  split
  · exact fun _ => rfl
  · refine Handler.Keeps.bind (fun _ => rfl) fun log => (orThrow_keeps _ _).bind fun last => ?_
    split
    · exact fun _ => rfl
    · refine (orThrow_keeps _ _).bind fun peers => (orThrow_keeps _ _).bind fun same => ?_
      split
      · exact fun _ => rfl
      · refine (orThrow_keeps _ _).bind fun named => ?_
        split
        · exact fun _ => rfl
        · refine Handler.Keeps.bind (fun _ => rfl) fun enablePeerValidation => Handler.Keeps.bind ?_ fun valid => ?_
          · split
            · exact validateNewPeer_keeps oracles peer
            · exact fun _ => rfl
          · split
            · refine (orThrow_keeps _ _).bind fun uuid => Handler.Keeps.bind (fun _ => rfl) fun _ => ?_
              refine (orThrow_keeps _ _).bind fun jointQuorum => Handler.Keeps.bind ?_ fun _ _ => rfl
              exact appendLogUnsafe_options jointQuorum .jointQuorum
            · exact fun _ => rfl

theorem validated_of_run {past : List (JsonNode × AdmissionEvent)} (run : (admission oracles).Run past node) :
    node.enablePeerValidation = true := by
  refine run.invariant (I := fun _ node => node.enablePeerValidation = true) (fun node hinit => hinit) ?_
  intro past node event _ hvalidation _
  cases event with
  | addPeer peer => exact (congrArg Prod.snd (handleAddPeer_keeps oracles peer node)).trans hvalidation
  | meanwhile => exact hvalidation

end Runs

section Admission

variable {past : List (JsonNode × AdmissionEvent)}

-- A run refuses or admits as it should if and only if it is a run of proper requests.
theorem admission_conforms_iff (run : (admission oracles).Run past node) :
    (∀ before peer, (before, AdmissionEvent.addPeer peer) ∈ past → Conforms oracles before peer) ↔
      ∀ before peer, (before, AdmissionEvent.addPeer peer) ∈ past → Proper oracles before peer := by
  refine forall₃_congr fun before peer hmem => ?_
  obtain ⟨earlier, hrun⟩ := run.visited (Or.inr ⟨_, hmem⟩)
  exact conforms_iff (validated_of_run hrun)

def oneUuid : Uuid := "60ba0788-9992-4cdb-b1f7-9f68eef52ab9"
def otherUuid : Uuid := "c7044c76-135b-452d-858a-f789d82c7eb7"

-- The key vouches for whoever signs with it, and the other uuid is on the blacklist.
def strictOracles : Oracles where
  publicKey := "key"
  verifySignature publicKey signature text := signature == publicKey ++ text
  isBlacklisted uuid := uuid == otherUuid

def soleLeader : JsonNode where
  uuid := oneUuid
  currentState := .leader
  currentTerm := 1
  log := [⟨.singleQuorum, 0, 0,
    .object [("msg", .object [("peers", .array [.object [("uuid", .string oneUuid)]])])]⟩]
  peerMatchIndex _ := none
  enablePeerValidation := true

def signedPeer (uuid : Uuid) : Json :=
  .object [("signature", .string (strictOracles.publicKey ++ (uuid ++ "\n"))), ("uuid", .string uuid)]

def requestRun (uuid : Uuid) : List (JsonNode × AdmissionEvent) × JsonNode :=
  (admission strictOracles).replay [] soleLeader [.addPeer (signedPeer uuid)]

theorem requestRun_run (uuid : Uuid) : (admission strictOracles).Run (requestRun uuid).1 (requestRun uuid).2 :=
  (Machine.Run.start (M := admission strictOracles) (s := soleLeader)
    (show soleLeader.enablePeerValidation = true from rfl)).replay _
      (Machine.admits_of_enabled (fun _ _ => trivial) _ _)

theorem mem_requestRun {before : JsonNode} : (before, AdmissionEvent.addPeer peer) ∈ (requestRun uuid).1 ↔
    before = soleLeader ∧ peer = signedPeer uuid := by
  simp [requestRun, Machine.replay]

theorem signedPeer_text (uuid : Uuid) : (signedPeer uuid).text "uuid" = some uuid := by
  simp [signedPeer, Json.text, Json.member, List.lookup_cons, Json.asString]

-- A new peer that signs as it should is refused or admitted as it should unless it is on the blacklist.
theorem soleLeader_proper (hne : uuid ≠ "") (hnew : uuid ≠ oneUuid) :
    Proper strictOracles soleLeader (signedPeer uuid) ↔ uuid ≠ otherUuid := by
  have hc : Considered soleLeader _ (.array [.object [("uuid", .string oneUuid)]]) :=
    ⟨rfl, rfl, by decide, rfl⟩
  rw [hc.proper_iff]
  have htext : (Json.object [("uuid", .string oneUuid)]).text "uuid" = some oneUuid := by
    simp [Json.text, Json.member, Json.asString]
  have hnamed : Named (signedPeer uuid) (.array [.object [("uuid", .string oneUuid)]]) uuid := by
    refine ⟨?_, signedPeer_text uuid, hne⟩
    simp [Fresh, Json.elements, htext, signedPeer_text, hnew.symm]
  have hsigned : Signed strictOracles (signedPeer uuid) uuid := by
    refine ⟨strictOracles.publicKey ++ (uuid ++ "\n"), ?_, ?_, ?_⟩
    · simp [signedPeer, Json.text, Json.member, Json.asString]
    · simp [strictOracles]
    · simp [strictOracles]
  constructor
  · rintro ⟨-, -, hrest⟩ rfl
    have hblacklist := ((hrest otherUuid hnamed).2 hsigned (by decide)).2
    revert hblacklist
    decide
  · intro hother
    refine ⟨?_, fun _ => by rw [signedPeer_text]; rfl, fun other hnamed' => ⟨?_, fun _ _ => ⟨rfl, ?_⟩⟩⟩
    · simp [Json.elements, comparable_cons, comparable_nil, htext, signedPeer_text]
    · obtain ⟨signature, hsignature, -⟩ := hsigned
      rw [hsignature]
      rfl
    · rw [hnamed.unique hnamed']
      simpa [strictOracles] using hother

theorem admission_conforms_iff_of_one :
    Conforms strictOracles soleLeader (signedPeer "3726ec5f-72b4-4ce6-9e60-f5c47f619a41") := by
  refine (admission_conforms_iff (requestRun_run _)).mpr (fun before peer hmem => ?_) soleLeader _
    (mem_requestRun.mpr ⟨rfl, rfl⟩)
  obtain ⟨rfl, rfl⟩ := mem_requestRun.mp hmem
  exact (soleLeader_proper (by decide) (by decide)).mpr (by decide)

theorem admission_admits_blacklisted : (admission strictOracles).Run (requestRun otherUuid).1 (requestRun otherUuid).2 ∧
    ¬ ∀ before peer, (before, AdmissionEvent.addPeer peer) ∈ (requestRun otherUuid).1 →
      Conforms strictOracles before peer := by
  refine ⟨requestRun_run otherUuid, fun h => ?_⟩
  have hconforms := h soleLeader (signedPeer otherUuid) (mem_requestRun.mpr ⟨rfl, rfl⟩)
  have hproper := (conforms_iff rfl).mp hconforms
  exact (soleLeader_proper (by decide) (by decide)).mp hproper rfl

end Admission

end SwarmDB.Raft.JsonNode
