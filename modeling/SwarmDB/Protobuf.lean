import SwarmDB.Bytes

namespace SwarmDB.Protobuf

-- The wire format of proto3. Fields that have their default value are left out, submessages that are
-- set are not.

def varintUpTo : Nat → Nat → Bytes
  | 0, _ => []
  | size + 1, n =>
    if n < 128 then [UInt8.ofNat n] else UInt8.ofNat (n % 128 + 128) :: varintUpTo size (n / 128)

-- Ten bytes hold every 64-bit number.
def varint (n : Nat) : Bytes := varintUpTo 10 n

inductive WireType
  | varint
  | lengthDelimited

def WireType.number : WireType → Nat
  | varint => 0
  | lengthDelimited => 2

def tag (field : Nat) (type : WireType) : Bytes := varint (8 * field + type.number)

def delimited (field : Nat) (body : Bytes) : Bytes :=
  tag field .lengthDelimited ++ varint body.length ++ body

def numberField (field n : Nat) : Bytes := if n = 0 then [] else tag field .varint ++ varint n

def bytesField (field : Nat) (bytes : Bytes) : Bytes := if bytes = [] then [] else delimited field bytes

def stringField (field : Nat) (text : String) : Bytes := bytesField field (Bytes.ofString text)

def messageField (field : Nat) : Option Bytes → Bytes
  | none => []
  | some body => delimited field body

theorem varint_length_pos (n : Nat) : 0 < (varint n).length := by
  unfold varint varintUpTo
  split <;> simp

theorem length_lt_delimited (field : Nat) (body : Bytes) : body.length < (delimited field body).length := by
  have htag := varint_length_pos (8 * field + WireType.lengthDelimited.number)
  simp only [delimited, tag, List.length_append]
  omega

end SwarmDB.Protobuf
