import Mathlib.Data.List.Basic

namespace SwarmDB

structure DatabaseHeader where
  dbUuid : String := ""
  transactionId : Nat := 0
  deriving DecidableEq, Repr

-- The oneof of a database message. Values are bytes.
inductive DatabaseCommand
  | unset
  | create (key : String) (value : List UInt8)
  | read (key : String)
  | update (key : String) (value : List UInt8)
  | delete (key : String)
  | has (key : String)
  | keys
  | size
  | subscribe (key : String)
  | unsubscribe (key : String) (transactionId : Nat)
  deriving DecidableEq, Repr

structure DatabaseMsg where
  header : Option DatabaseHeader := none
  command : DatabaseCommand := .unset
  deriving DecidableEq, Repr

-- The oneof of the message that a client wraps its request in.
inductive BznMsg
  | unset
  | db (msg : DatabaseMsg)
  | json (text : String)
  deriving DecidableEq, Repr

-- A message without a db reads as one with the default db.
def BznMsg.dbOf : BznMsg → DatabaseMsg
  | db msg => msg
  | unset | json _ => {}

end SwarmDB
