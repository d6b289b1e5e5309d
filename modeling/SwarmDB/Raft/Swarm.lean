import SwarmDB.Raft.Node.Votes
import SwarmDB.Raft.Node.Journal

namespace SwarmDB.Raft

-- What handle_ws_raft_messages gets to see. An error answer is not a raft message.
inductive Payload
  | raft (msg : Message)
  | management (msg : ManagementMessage)
  deriving DecidableEq, Repr

namespace Payload

-- A success answer carries the command it answers: add_peer tells the answer from a request,
-- remove_peer takes it for a request without a uuid.
def ofWire : Wire → Option Payload
  | .raft msg => some (raft msg)
  | .management msg => some (management msg)
  | .success command message =>
    some (management (if command = "add_peer" then .addPeerResponse message else .removePeer ""))
  | .error _ => none

def input (stray : Nat → Nat) (pick : Nat) : Payload → Input
  | raft msg => .message msg stray
  | management msg => .management msg pick

end Payload

structure Packet where
  src : Uuid
  dst : Uuid
  payload : Payload
  deriving DecidableEq, Repr

-- The nodes, and every message sent so far.
structure Swarm where
  nodes : Uuid → Node
  network : List Packet

-- A delivered message stays in the network, so it can arrive again or never.
inductive Action
  | electionTimeout (uuid : Uuid) (canceled : Bool) (pick : Nat)
  | heartbeatTimeout (uuid : Uuid) (canceled : Bool)
  | appendLog (uuid : Uuid) (msg : String)
  | command (uuid : Uuid) (msg : ManagementMessage) (pick : Nat)
  | deliver (packet : Packet) (stray : Nat → Nat) (pick : Nat)

namespace Action

def uuid : Action → Uuid
  | electionTimeout uuid _ _ | heartbeatTimeout uuid _ | appendLog uuid _ | command uuid _ _ => uuid
  | deliver packet _ _ => packet.dst

def input : Action → Input
  | electionTimeout _ canceled pick => .electionTimeout canceled pick
  | heartbeatTimeout _ canceled => .heartbeatTimeout canceled
  | appendLog _ msg => .appendLog (.database msg) .database
  | command _ msg pick => .management msg pick
  | deliver packet stray pick => packet.payload.input stray pick

-- The node at the other end of the session, if there is one.
def session : Action → Option Uuid
  | deliver packet _ _ => some packet.src
  | _ => none

-- A client's command other than the question for the peers.
def administers : Action → Bool
  | command _ msg _ => msg ≠ .getPeers
  | _ => false

end Action

-- What an effect of a node puts on the network.
def Effect.packet (src : Uuid) (session : Option Uuid) : Effect → Option Packet
  | .send peer wire => (Payload.ofWire wire).map fun payload => ⟨src, peer, payload⟩
  | .reply wire => session.bind fun dst => (Payload.ofWire wire).map fun payload => ⟨src, dst, payload⟩
  | .close | .commit _ _ => none

namespace Swarm

variable (env : Env) (s : Swarm) (a : Action)

def outcome : Outcome := (s.nodes a.uuid).step env a.input

def act : Swarm where
  nodes n := if n = a.uuid then (s.outcome env a).node else s.nodes n
  network := s.network ++ (s.outcome env a).effects.filterMap (Effect.packet a.uuid a.session)

def Enabled : Action → Prop
  | .deliver packet _ _ => packet ∈ s.network
  | _ => True

instance : (a : Action) → Decidable (s.Enabled a)
  | .deliver packet _ _ => inferInstanceAs (Decidable (packet ∈ s.network))
  | .electionTimeout .. | .heartbeatTimeout .. | .appendLog .. | .command .. =>
    inferInstanceAs (Decidable True)

end Swarm

-- All nodes are constructed over a log with the same first entry.
def swarm (env : Env) (first : LogEntry) : Machine Swarm Action where
  init s := s.network = [] ∧ ∀ n, ∃ peers enableAudit enablePeerValidation signedKey,
    s.nodes n = Node.construct n peers enableAudit enablePeerValidation signedKey (startLog first)
  enabled s a := s.Enabled a
  next s a := s.act env a

instance (env : Env) (first : LogEntry) (s : Swarm) (a : Action) : Decidable ((swarm env first).enabled s a) :=
  inferInstanceAs (Decidable (s.Enabled a))

-- The steps of one node in a run of them all.
def history (past : List (Swarm × Action)) (n : Uuid) : List (Node × Input) :=
  Machine.life Swarm.nodes Action.uuid Action.input past n

-- A node has been leader with this term.
def EverLeader (past : List (Swarm × Action)) (s : Swarm) (term : Nat) (n : Uuid) : Prop :=
  ∃ state, Machine.Visited past s state ∧ (state.nodes n).currentState = .leader ∧
    (state.nodes n).currentTerm = term

namespace Swarm

variable {env : Env} {first : LogEntry} {past : List (Swarm × Action)} {s : Swarm} {a : Action}

-- Every node starts as a follower over the first entry alone.
theorem start_entries {n : Uuid} (h : ∃ peers enableAudit enablePeerValidation signedKey,
    s.nodes n = Node.construct n peers enableAudit enablePeerValidation signedKey (startLog first)) :
    (s.nodes n).log.entries = [first] := by
  obtain ⟨_, _, _, _, hnode⟩ := h
  rw [hnode]
  rfl

theorem start_follower {n : Uuid} (h : ∃ peers enableAudit enablePeerValidation signedKey,
    s.nodes n = Node.construct n peers enableAudit enablePeerValidation signedKey (startLog first)) :
    (s.nodes n).currentState = .follower := by
  obtain ⟨_, _, _, _, hnode⟩ := h
  rw [hnode]
  rfl

@[simp] theorem act_nodes_self : (s.act env a).nodes a.uuid = (s.outcome env a).node := by
  simp [act]

theorem act_nodes_other {n : Uuid} (h : n ≠ a.uuid) : (s.act env a).nodes n = s.nodes n := by
  simp [act, h]

-- One node takes a step, or it stays as it is.
theorem act_nodes_cases (env : Env) (s : Swarm) (a : Action) (n : Uuid) :
    (n = a.uuid ∧ (s.act env a).nodes n = (s.outcome env a).node) ∨ (s.act env a).nodes n = s.nodes n := by
  by_cases h : n = a.uuid
  · subst h
    exact Or.inl ⟨rfl, act_nodes_self⟩
  · exact Or.inr (act_nodes_other h)

theorem mem_act_network {packet : Packet} (h : packet ∈ (s.act env a).network) :
    packet ∈ s.network ∨ ∃ effect ∈ (s.outcome env a).effects,
      effect.packet a.uuid a.session = some packet := by
  rcases List.mem_append.mp h with hold | hnew
  · exact Or.inl hold
  · exact Or.inr (List.mem_filterMap.mp hnew)

-- A raft message on the network was sent as such.
theorem packet_raft {src : Uuid} {session : Option Uuid} {effect : Effect} {packet : Packet}
    {msg : Message} (h : effect.packet src session = some packet) (hraft : packet.payload = .raft msg) :
    effect.raftMessage = some msg ∧ packet.src = src ∧
      (effect = .send packet.dst (.raft msg) ∨ (effect = .reply (.raft msg) ∧ session = some packet.dst)) := by
  have hwire : ∀ wire, Payload.ofWire wire = some (.raft msg) → wire = .raft msg := by
    intro wire hw
    cases wire <;> simp_all [Payload.ofWire]
  obtain ⟨psrc, dst, payload⟩ := packet
  dsimp only at hraft
  subst hraft
  cases effect with
  | send peer wire =>
      simp only [Effect.packet, Option.map_eq_some_iff, Packet.mk.injEq] at h
      obtain ⟨_, hw, rfl, rfl, rfl⟩ := h
      obtain rfl := hwire wire hw
      exact ⟨rfl, rfl, Or.inl rfl⟩
  | reply wire =>
      simp only [Effect.packet, Option.bind_eq_some_iff, Option.map_eq_some_iff, Packet.mk.injEq] at h
      obtain ⟨_, rfl, _, hw, rfl, rfl, rfl⟩ := h
      obtain rfl := hwire wire hw
      exact ⟨rfl, rfl, Or.inr ⟨rfl, rfl⟩⟩
  | close => cases h
  | commit index msg => cases h

end Swarm

section Projection

variable {env : Env} {first : LogEntry} {past : List (Swarm × Action)} {s : Swarm}

theorem history_self (past : List (Swarm × Action)) (s : Swarm) (a : Action) :
    history ((s, a) :: past) a.uuid = (s.nodes a.uuid, a.input) :: history past a.uuid :=
  Machine.life_self past s a

theorem history_other (past : List (Swarm × Action)) (s : Swarm) {a : Action} {n : Uuid}
    (h : n ≠ a.uuid) : history ((s, a) :: past) n = history past n :=
  Machine.life_other past s h

-- Every node of a swarm lives the life of a single node.
theorem history_run (n : Uuid) (run : (swarm env first).Run past s) :
    (lifetime env).Run (history past n) (s.nodes n) := by
  refine Machine.Member.run ⟨?_, ?_, ?_⟩ run
  · intro s hinit
    obtain ⟨peers, enableAudit, enablePeerValidation, signedKey, hnode⟩ := hinit.2 n
    exact ⟨n, peers, enableAudit, enablePeerValidation, signedKey, _, hnode⟩
  · intro s a _ huuid
    subst huuid
    exact ⟨trivial, Swarm.act_nodes_self⟩
  · intro s a huuid
    exact Swarm.act_nodes_other (Ne.symm huuid)

theorem EverLeader.step {term : Nat} {n : Uuid} (h : EverLeader past s term n) (a : Action)
    (next : Swarm) : EverLeader ((s, a) :: past) next term n := by
  obtain ⟨state, hvisited, hleader⟩ := h
  exact ⟨state, hvisited.step a next, hleader⟩

theorem everLeader_step_cases {a : Action} {next : Swarm} {term : Nat} {n : Uuid}
    (h : EverLeader ((s, a) :: past) next term n) :
    EverLeader past s term n ∨
      ((next.nodes n).currentState = .leader ∧ (next.nodes n).currentTerm = term) := by
  obtain ⟨state, hvisited, hleader⟩ := h
  rcases Machine.visited_step_cases hvisited with rfl | hvisited
  · exact Or.inr hleader
  · exact Or.inl ⟨state, hvisited, hleader⟩

end Projection

-- Three fresh nodes, and the delivery of a raft message between two of them.
def freshSwarm : Swarm := ⟨freshNode, []⟩

def Action.pass (src dst : Uuid) (msg : Message) : Action := .deliver ⟨src, dst, .raft msg⟩ (fun _ => 0) 0

def threeMachine : Machine Swarm Action := swarm openEnv (createDatFile threePeers)

instance (s : Swarm) (a : Action) : Decidable (threeMachine.enabled s a) :=
  inferInstanceAs (Decidable (s.Enabled a))

theorem threeMachine_start : threeMachine.Run [] freshSwarm :=
  .start ⟨rfl, fun _ => ⟨_, _, _, _, rfl⟩⟩

end SwarmDB.Raft
