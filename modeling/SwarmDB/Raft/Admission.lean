import SwarmDB.Handler
import SwarmDB.Json
import SwarmDB.Machine
import SwarmDB.Raft.Membership

namespace SwarmDB.Raft

-- An entry of the log with its message as the JSON that it is.
structure JsonEntry where
  entryType : LogEntryType
  logIndex : Nat
  termIndex : Nat
  msg : Json

-- What the admission of peers knows of its node and writes.
structure JsonNode where
  uuid : Uuid
  currentState : RaftState
  currentTerm : Nat
  log : List JsonEntry
  peerMatchIndex : Uuid → Option Nat
  enablePeerValidation : Bool

-- The contract and the crypto library.
structure Oracles where
  publicKey : String
  verifySignature : String → String → String → Bool
  isBlacklisted : Uuid → Bool

namespace JsonNode

abbrev Call := Handler JsonNode Wire Exception

def orThrow {α : Type} (e : Exception) : Option α → Call α
  | some a => pure a
  | none => Handler.throws e

def lastQuorumEntry (log : List JsonEntry) : Option JsonEntry :=
  log.reverse.find? fun entry => entry.entryType.isQuorum

-- msg["msg"]["peers"]
def peersOf (msg : Json) : Option Json := (msg.member "msg").bind (Json.member "peers")

def createJointQuorumByAddingPeer (lastQuorumMessage newPeer : Json) : Option Json := do
  let peers ← peersOf lastQuorumMessage
  return .object [("msg", .object [("peers", .object [("new", ← peers.append newPeer), ("old", peers)])])]

def setMatchIndex (peer : Uuid) (index : Nat) (node : JsonNode) : JsonNode :=
  { node with peerMatchIndex := fun other => if other = peer then some index else node.peerMatchIndex other }

def appendLogUnsafe (msg : Json) (entryType : LogEntryType) (node : JsonNode) : JsonNode :=
  if node.currentState ≠ .leader then node
  else { node with log := node.log ++ [⟨entryType, node.log.length % 2 ^ 32, node.currentTerm, msg⟩] }

def sendSessionErrorMessage (message : String) : Call Unit := Handler.emits (.error message)

-- find_if stops at the first peer of the same uuid. The asString of a container throws.
def samePeer (peer : Json) : List Json → Option Bool
  | [] => some false
  | p :: rest => do
    if (← p.text "uuid") = (← peer.text "uuid") then return true else samePeer peer rest

variable (oracles : Oracles)

-- The blacklist is asked about this node, not the new peer.
def validateNewPeer (peer : Json) : Call Bool := do
  let uuid ← orThrow .jsonLogicError (peer.text "uuid")
  let signed ← orThrow .jsonLogicError (peer.hasText "signature")
  if signed = false then
    sendSessionErrorMessage errorInvalidSignature
    pure false
  else
    let signature ← orThrow .jsonLogicError (peer.text "signature")
    if oracles.verifySignature oracles.publicKey signature (uuid ++ "\n") = false then
      sendSessionErrorMessage errorUnableToValidateUuid
      pure false
    else
      let self ← Handler.reads JsonNode.uuid
      if oracles.isBlacklisted self then
        sendSessionErrorMessage errorPeerHasBeenBlacklisted
        pure false
      else pure true

def handleAddPeer (peer : Json) : Call Unit := do
  let currentState ← Handler.reads JsonNode.currentState
  if currentState ≠ .leader then sendSessionErrorMessage errorAddPeerMustBeSentToLeader
  else
    let log ← Handler.reads JsonNode.log
    let lastQuorumEntry ← orThrow .noPeersInLog (lastQuorumEntry log)
    if lastQuorumEntry.entryType = .jointQuorum then sendSessionErrorMessage msgErrorCurrentQuorumIsJoint
    else
      let peers ← orThrow .jsonLogicError (peersOf lastQuorumEntry.msg)
      let same ← orThrow .jsonLogicError (samePeer peer peers.elements)
      if same then sendSessionErrorMessage errorPeerAlreadyExists
      else
        let named ← orThrow .jsonLogicError (peer.hasText "uuid")
        if named = false then sendSessionErrorMessage errorInvalidUuid
        else
          let enablePeerValidation ← Handler.reads JsonNode.enablePeerValidation
          let valid ← (if enablePeerValidation then validateNewPeer oracles peer else pure true)
          if valid then
            let uuid ← orThrow .jsonLogicError (peer.text "uuid")
            Handler.updates (setMatchIndex uuid 1)
            let jointQuorum ← orThrow .jsonLogicError (createJointQuorumByAddingPeer lastQuorumEntry.msg peer)
            Handler.updates (appendLogUnsafe jointQuorum .jointQuorum)
            Handler.emits (.success "add_peer" successPeerAddedToSwarm)
          else pure ()

end JsonNode

-- Between the requests the node may become anything that has its uuid and its options.
inductive AdmissionEvent
  | addPeer (peer : Json)
  | meanwhile (currentState : RaftState) (currentTerm : Nat) (log : List JsonEntry)
      (peerMatchIndex : Uuid → Option Nat)

def admission (oracles : Oracles) : Machine JsonNode AdmissionEvent where
  init node := node.enablePeerValidation = true
  enabled _ _ := True
  next node event :=
    match event with
    | .addPeer peer => (JsonNode.handleAddPeer oracles peer node).state
    | .meanwhile currentState currentTerm log peerMatchIndex =>
      { node with currentState, currentTerm, log, peerMatchIndex }

end SwarmDB.Raft
