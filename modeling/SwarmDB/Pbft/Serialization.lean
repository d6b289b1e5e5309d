import SwarmDB.Protobuf
import SwarmDB.Pbft.Message

namespace SwarmDB

open Protobuf

-- SerializeAsString, with the field numbers of database.proto and pbft.proto.

def DatabaseHeader.serialize (header : DatabaseHeader) : Bytes :=
  stringField 1 header.dbUuid ++ numberField 2 header.transactionId

def DatabaseCommand.serialize : DatabaseCommand → Bytes
  | unset => []
  | create key value => delimited 2 (stringField 1 key ++ bytesField 2 value)
  | read key => delimited 3 (stringField 1 key)
  | update key value => delimited 4 (stringField 1 key ++ bytesField 2 value)
  | delete key => delimited 5 (stringField 1 key)
  | has key => delimited 6 (stringField 1 key)
  | keys => delimited 7 []
  | size => delimited 8 []
  | subscribe key => delimited 9 (stringField 1 key)
  | unsubscribe key transactionId => delimited 10 (stringField 1 key ++ numberField 2 transactionId)

def DatabaseMsg.serialize (msg : DatabaseMsg) : Bytes :=
  messageField 1 (msg.header.map DatabaseHeader.serialize) ++ msg.command.serialize

def BznMsg.serialize : BznMsg → Bytes
  | unset => []
  | db msg => delimited 10 msg.serialize
  | json text => delimited 11 (Bytes.ofString text)

namespace Pbft

def RequestType.number : RequestType → Nat
  | undefined => 0
  | database => 1
  | newConfig => 2

def RequestBody.serialize : RequestBody → Bytes
  | unset => []
  | operation msg => delimited 2 msg.serialize
  | config configuration => delimited 3 (stringField 1 configuration)

def Request.serialize (request : Request) : Bytes :=
  numberField 1 request.type.number ++ request.body.serialize ++ numberField 4 request.timestamp ++
    stringField 5 request.client

def MsgType.number : MsgType → Nat
  | undefined => 0
  | preprepare => 2
  | prepare => 3
  | commit => 4
  | checkpoint => 5

def PbftMsg.serialize (msg : PbftMsg) : Bytes :=
  numberField 1 msg.type.number ++ numberField 2 msg.view ++ numberField 3 msg.sequence ++
    messageField 4 (msg.request.map Request.serialize) ++ stringField 6 msg.stateHash

end Pbft

end SwarmDB
