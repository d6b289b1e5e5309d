import SwarmDB.Database
import SwarmDB.Pbft.Configuration
import Mathlib.Data.Finset.Card

namespace SwarmDB.Pbft

inductive RequestType
  | undefined
  | database
  | newConfig
  deriving DecidableEq, Repr

-- The oneof of a request.
inductive RequestBody
  | unset
  | operation (msg : DatabaseMsg)
  | config (configuration : String)
  deriving DecidableEq, Repr

structure Request where
  type : RequestType := .undefined
  body : RequestBody := .unset
  timestamp : Nat := 0
  client : String := ""
  deriving DecidableEq, Repr

namespace Request

-- A request without a config reads as one with the empty text.
def configuration (req : Request) : String :=
  match req.body with
  | .config configuration => configuration
  | .unset | .operation _ => ""

def hasConfig (req : Request) : Bool :=
  match req.body with
  | .config _ => true
  | .unset | .operation _ => false

end Request

-- Code outside the repository: ShortDebugString of protobuf, which stands in for a hash of the
-- request, and parsing an IPv4 address.
structure Library extends Codec where
  requestHash : Request → Hash
  validAddress : String → Bool

structure OperationKey where
  view : Nat
  sequence : Nat
  hash : Hash
  deriving DecidableEq, Repr

inductive OperationState
  | prepare
  | commit
  | committed
  deriving DecidableEq, Repr

-- The session of the client stays outside: it is only handed on to the service.
structure Operation where
  view : Nat
  sequence : Nat
  request : Request
  peers : List PeerAddress
  state : OperationState := .prepare
  preprepareSeen : Bool := false
  preparesSeen : Finset Uuid := ∅
  commitsSeen : Finset Uuid := ∅
  deriving DecidableEq

namespace Operation

variable (lib : Library) (op : Operation)

def key : OperationKey := ⟨op.view, op.sequence, lib.requestHash op.request⟩

def recordPreprepare : Operation := { op with preprepareSeen := true }

def recordPrepare (sender : Uuid) : Operation := { op with preparesSeen := insert sender op.preparesSeen }

def recordCommit (sender : Uuid) : Operation := { op with commitsSeen := insert sender op.commitsSeen }

-- Without peers the subtraction wraps around.
def faultyNodesBound : Nat :=
  (if op.peers.length = 0 then 2 ^ 64 - 1 else op.peers.length - 1) / 3

def isPrepared : Bool := op.preprepareSeen && decide (2 * op.faultyNodesBound < op.preparesSeen.card)

def isCommitted : Bool := op.isPrepared && decide (2 * op.faultyNodesBound < op.commitsSeen.card)

def beginCommitPhase : Except Exception Operation :=
  if !op.isPrepared || op.state ≠ .prepare then
    .error (.runtimeError "Illegaly tried to move to commit phase")
  else .ok { op with state := .commit }

def endCommitPhase : Except Exception Operation :=
  if !op.isCommitted || op.state ≠ .commit then
    .error (.runtimeError "Illegally tried to end the commit phase")
  else .ok { op with state := .committed }

@[simp] theorem key_recordPrepare (sender : Uuid) : (op.recordPrepare sender).key lib = op.key lib := rfl

end Operation

end SwarmDB.Pbft
