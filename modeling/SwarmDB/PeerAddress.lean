import Mathlib.Data.List.Basic

namespace SwarmDB

abbrev Uuid := String

-- The two ports are 16-bit.
structure PeerAddress where
  host : String
  port : Nat
  httpPort : Nat
  name : String
  uuid : Uuid
  deriving DecidableEq, Repr

namespace PeerAddress

-- operator== leaves the name out.
def same (peer other : PeerAddress) : Bool :=
  peer.host == other.host && peer.port == other.port && peer.httpPort == other.httpPort &&
    peer.uuid == other.uuid

-- Emplacing into a peers_list_t keeps the peer that was there first.
def emplace (peers : List PeerAddress) (peer : PeerAddress) : List PeerAddress :=
  if peers.any (same peer) then peers else peers ++ [peer]

end PeerAddress

end SwarmDB
