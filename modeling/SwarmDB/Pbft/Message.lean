import SwarmDB.Pbft.Operation

namespace SwarmDB.Pbft

inductive MsgType
  | undefined
  | preprepare
  | prepare
  | commit
  | checkpoint
  deriving DecidableEq, Repr

structure PbftMsg where
  type : MsgType := .undefined
  view : Nat := 0
  sequence : Nat := 0
  request : Option Request := none
  stateHash : Hash := ""
  deriving DecidableEq, Repr

namespace PbftMsg

-- A request that is not set reads as the default one.
def requestOf (msg : PbftMsg) : Request := msg.request.getD {}

def key (lib : Library) (msg : PbftMsg) : OperationKey :=
  ⟨msg.view, msg.sequence, lib.requestHash msg.requestOf⟩

-- The two messages in which a replica stands by a request.
def isVote (msg : PbftMsg) : Bool := msg.type = .prepare || msg.type = .commit

end PbftMsg

def commonMessageSetup (op : Operation) (type : MsgType) : PbftMsg :=
  { type := type, view := op.view, sequence := op.sequence, request := some op.request }

-- What goes over the wire for a message: its serialization and the sender.
structure Envelope where
  sender : Uuid
  pbft : PbftMsg
  deriving DecidableEq, Repr

inductive AuditMessage
  | primaryStatus (view : Nat) (primary : Uuid)
  | pbftCommit (operation : Hash) (sequenceNumber : Nat) (senderUuid : Uuid)
  | failureDetected (senderUuid : Uuid)
  deriving DecidableEq, Repr

inductive Wire
  | pbft (envelope : Envelope)
  | audit (msg : AuditMessage)
  deriving DecidableEq, Repr

inductive MembershipType
  | undefined
  | join
  | leave
  deriving DecidableEq, Repr

structure PeerInfo where
  host : String := ""
  port : Nat := 0
  httpPort : Nat := 0
  name : String := ""
  uuid : Uuid := ""
  deriving DecidableEq, Repr

def PeerInfo.address (info : PeerInfo) : PeerAddress :=
  ⟨info.host, info.port % 2 ^ 16, info.httpPort % 2 ^ 16, info.name, info.uuid⟩

structure MembershipMsg where
  type : MembershipType := .undefined
  peerInfo : Option PeerInfo := none
  deriving DecidableEq, Repr

-- What a call does to the outside: a message to a peer, a client's request handed on as it came,
-- or a call of apply_operation posted to the service.
inductive Effect
  | send (peer : PeerAddress) (wire : Wire)
  | forward (peer : PeerAddress) (original : String)
  | applyOperation (op : Operation)
  deriving DecidableEq

end SwarmDB.Pbft
