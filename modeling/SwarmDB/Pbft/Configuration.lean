import SwarmDB.Handler
import SwarmDB.Json
import SwarmDB.PeerAddress
import Mathlib.Data.List.Sort
import Mathlib.Data.String.Basic

namespace SwarmDB.Pbft

abbrev Hash := String

inductive Exception
  | runtimeError (what : String)
  | jsonError
  | badAddress
  | divisionByZero
  deriving DecidableEq, Repr

-- JsonCpp and std::hash, as far as a configuration uses them. Parsing gives nothing for a text
-- that is not JSON, and throws where values are nested too deep.
structure Codec where
  parse : String → Except Exception (Option Json)
  toStyledString : Json → String
  stdHash : String → Nat

-- The vector of sorted peers and the hash are kept beside the set of peers.
structure Configuration where
  peers : List PeerAddress := []
  sortedPeers : List PeerAddress := []
  cachedHash : Hash := ""
  deriving DecidableEq, Repr

namespace Configuration

variable (codec : Codec) (config : Configuration)

def peerJson (peer : PeerAddress) : Json :=
  .object [("host", .string peer.host), ("http_port", .integer peer.httpPort),
    ("name", .string peer.name), ("port", .integer peer.port), ("uuid", .string peer.uuid)]

-- The null that "peers" starts with turns into an array when the first peer is appended.
def toJson : Json :=
  .object [("peers", if config.sortedPeers = [] then .null else .array (config.sortedPeers.map peerJson))]

def toString : String := codec.toStyledString config.toJson

def createHash : Hash := ToString.toString (codec.stdHash (config.toString codec))

def cacheSortedPeers : Configuration :=
  let sorted := { config with sortedPeers := config.peers.insertionSort fun p q => p.uuid ≤ q.uuid }
  { sorted with cachedHash := sorted.createHash codec }

def conflictingPeerExists (peer : PeerAddress) : Bool :=
  config.peers.any fun p => p.uuid == peer.uuid || p.name == peer.name ||
    (p.host == peer.host && (p.port == peer.port || p.httpPort == peer.httpPort))

def validPeer (peer : PeerAddress) : Bool :=
  !(peer.name.isEmpty || peer.uuid.isEmpty || peer.host.isEmpty || peer.port == 0 || peer.httpPort == 0)

def insertPeer (peer : PeerAddress) : Bool × Configuration :=
  if config.conflictingPeerExists peer || !validPeer peer then (false, config)
  else (true, { config with peers := PeerAddress.emplace config.peers peer })

def addPeer (peer : PeerAddress) : Bool × Configuration :=
  match config.insertPeer peer with
  | (false, config) => (false, config)
  | (true, config) => (true, config.cacheSortedPeers codec)

def removePeer (peer : PeerAddress) : Bool × Configuration :=
  if config.peers.any (PeerAddress.same peer) then
    (true, cacheSortedPeers codec
      { config with peers := config.peers.filter fun p => !PeerAddress.same peer p })
  else (false, config)

-- The peer of one element of the array. It is none where JsonCpp throws.
def peerOf (json : Json) : Option PeerAddress := do
  let host ← (← json.member "host").asString
  let port ← (← json.member "port").asUInt
  let httpPort ← (← json.member "http_port").asUInt
  let name ← (← json.member "name").asString
  let uuid ← (← json.member "uuid").asString
  return ⟨host, port % 2 ^ 16, httpPort % 2 ^ 16, name, uuid⟩

def orThrow {α : Type} : Option α → Handler Configuration Empty Exception α
  | none => Handler.throws .jsonError
  | some a => pure a

-- The loop over the array. A conflicting or invalid peer is left out, and spoils the result.
def insertPeers : List Json → Bool → Handler Configuration Empty Exception Bool
  | [], result => pure result
  | json :: rest, result => do
    let peer ← orThrow (peerOf json)
    let inserted ← Handler.reads fun config => (config.insertPeer peer).1
    Handler.updates fun config => (config.insertPeer peer).2
    insertPeers rest (result && inserted)

-- An exception in the loop leaves the peers read so far, beside the old vector and hash.
def fromString (str : String) : Handler Configuration Empty Exception Bool :=
  match codec.parse str with
  | .error e => Handler.throws e
  | .ok none => pure false
  | .ok (some json) => do
    let found ← orThrow (json.isMember "peers")
    if found then
      match ← orThrow (json.member "peers") with
      | .array elements =>
        Handler.updates fun config => { config with peers := [] }
        let result ← insertPeers elements true
        Handler.updates (cacheSortedPeers codec)
        return result
      | _ => return false
    else return false

end Configuration

structure ConfigEntry where
  index : Nat
  config : Configuration
  enabled : Bool
  deriving DecidableEq, Repr

-- The map from indices to configurations, in order of the index.
structure ConfigStore where
  configs : List ConfigEntry := []
  currentIndex : Nat := 0
  nextIndex : Nat := 1
  deriving DecidableEq, Repr

namespace ConfigStore

variable (store : ConfigStore)

def add (config : Configuration) : ConfigStore :=
  { store with configs := store.configs ++ [⟨store.nextIndex, config, false⟩],
               nextIndex := store.nextIndex + 1 }

def findByHash (hash : Hash) : Option ConfigEntry :=
  store.configs.find? fun entry => entry.config.cachedHash == hash

def setCurrent (hash : Hash) : Bool × ConfigStore :=
  match store.findByHash hash with
  | none => (false, store)
  | some entry => (true, { store with currentIndex := entry.index })

def removePriorTo (hash : Hash) : Bool × ConfigStore :=
  match store.findByHash hash with
  | none => (false, store)
  | some _ =>
    let prior := store.configs.takeWhile fun entry => entry.config.cachedHash != hash
    let rest := store.configs.dropWhile fun entry => entry.config.cachedHash != hash
    (true, { store with configs := (prior.filter fun entry => entry.index == store.currentIndex) ++ rest })

def get (hash : Hash) : Option Configuration := (store.findByHash hash).map ConfigEntry.config

-- Setting the flag of the first entry that has the hash.
def setFlag (hash : Hash) (val : Bool) : List ConfigEntry → List ConfigEntry
  | [] => []
  | entry :: rest =>
    if entry.config.cachedHash = hash then { entry with enabled := val } :: rest
    else entry :: setFlag hash val rest

def enable (hash : Hash) (val : Bool := true) : Bool × ConfigStore :=
  ((store.findByHash hash).isSome, { store with configs := setFlag hash val store.configs })

def isEnabled (hash : Hash) : Bool := ((store.findByHash hash).map ConfigEntry.enabled).getD false

def current : Option Configuration :=
  (store.configs.find? fun entry => entry.index == store.currentIndex).map ConfigEntry.config

-- Nothing but set_current changes which configuration is the current one.

theorem current_add {config : Configuration} (h : store.current = some config) (other : Configuration) :
    (store.add other).current = some config := by
  obtain ⟨entry, hfind, rfl⟩ := Option.map_eq_some_iff.mp h
  simp [current, add, List.find?_append, hfind]

theorem find?_setFlag (hash : Hash) (val : Bool) (index : Nat) (configs : List ConfigEntry) :
    ((setFlag hash val configs).find? fun entry => entry.index == index).map ConfigEntry.config =
      (configs.find? fun entry => entry.index == index).map ConfigEntry.config := by
  induction configs with
  | nil => rfl
  | cons entry rest ih =>
      by_cases hhash : entry.config.cachedHash = hash
      · simp only [setFlag, hhash, if_true, List.find?_cons]
        split <;> rfl
      · simp only [setFlag, hhash, if_false, List.find?_cons]
        split
        · rfl
        · exact ih

theorem current_enable (hash : Hash) (val : Bool) : (store.enable hash val).2.current = store.current :=
  find?_setFlag hash val store.currentIndex store.configs

theorem current_removePriorTo (hash : Hash) : (store.removePriorTo hash).2.current = store.current := by
  unfold removePriorTo
  cases store.findByHash hash with
  | none => rfl
  | some entry =>
      have hsplit := List.takeWhile_append_dropWhile
        (p := fun entry : ConfigEntry => entry.config.cachedHash != hash) (l := store.configs)
      simp only [current]
      conv => rhs; rw [← hsplit]
      simp only [List.find?_append, List.find?_filter, and_self, Bool.decide_eq_true]

end ConfigStore

end SwarmDB.Pbft
