import SwarmDB.Raft.Crud.Routing
import SwarmDB.Raft.Swarm.Agreement

namespace SwarmDB.Raft

structure System (S : Type) where
  daemons : Uuid → Daemon S
  network : List Packet

-- What happens to one of the daemons: a step of its node, a message or an http request of a client, the timer
-- of its subscription manager, the end of a connection, or that it stops and starts again.
inductive Occurrence
  | raft (a : Action)
  | client (uuid : Uuid) (session : Session) (message : Option String)
  | http (uuid : Uuid) (verb : Http.Verb) (target : String) (body : Bytes)
  | purge (uuid : Uuid) (canceled : Bool)
  | close (uuid : Uuid) (session : Session)
  | restart (uuid : Uuid) (peers : List PeerAddress) (enableAudit enablePeerValidation : Bool)
      (signedKey : String)

def Occurrence.uuid : Occurrence → Uuid
  | raft a => a.uuid
  | client uuid _ _ | http uuid _ _ _ | purge uuid _ | close uuid _ | restart uuid _ _ _ _ => uuid

-- The log grows by requests of clients in no other way than through crud.
def Action.submits : Action → Bool
  | appendLog .. => true
  | electionTimeout .. | heartbeatTimeout .. | command .. | deliver .. => false

-- What a call of crud has put into the log.
def submitted (uuid : Uuid) (node node' : Node) : Option Action :=
  if node.log.size < node'.log.size then
    (node'.log.entries.getLast?.map fun entry => textOf entry.msg).map (.appendLog uuid)
  else none

section Model

variable {S : Type} (base : StorageBase S) (reader : StorageReader S) (parse : String → Option BznMsg) (env : Env)

namespace Daemon

variable (d : Daemon S)

def next : Occurrence → Daemon S
  | .raft a => (d.step parse base env a.input).1
  | .client _ session message => (d.handleWsCrudMessages reader parse session message).daemon
  | .http _ verb target body => (d.doReadRequest reader verb target body).1
  | .purge _ canceled => { d with hub := (d.hub.react base parse (.purge canceled)).hub }
  | .close _ session => { d with hub := (d.hub.react base parse (.close session)).hub }
  -- main constructs the node over the log it finds, and the storage from that
  | .restart uuid peers enableAudit enablePeerValidation signedKey =>
    { node := Node.construct uuid peers enableAudit enablePeerValidation signedKey d.node.log
      hub := ⟨∅, ∅, initializeStorageFromLog base parse d.node.log (base.reopened d.hub.storage)⟩ }

def datagrams : Occurrence → List Datagram
  | .raft a => (d.step parse base env a.input).2
  | .client .. | .http .. | .purge .. | .close .. | .restart .. => []

def sent : Occurrence → Option Sent
  | .client _ session message => (d.handleWsCrudMessages reader parse session message).sent
  | .raft _ | .http .. | .purge .. | .close .. | .restart .. => none

end Daemon

namespace System

variable (s : System S) (o : Occurrence)

-- The nodes alone.
def swarm : Swarm := ⟨fun n => (s.daemons n).node, s.network⟩

def packets : Occurrence → List Packet
  | .raft a => (s.swarm.outcome env a).effects.filterMap (Effect.packet a.uuid a.session)
  | .client .. | .http .. | .purge .. | .close .. | .restart .. => []

def act : System S where
  daemons := Function.update s.daemons o.uuid ((s.daemons o.uuid).next base reader parse env o)
  network := s.network ++ s.packets env o

-- What the nodes see of it.
def action : Option Event :=
  match o with
  | .raft a => some (.act a)
  | .client uuid .. | .http uuid .. =>
    (submitted uuid (s.daemons uuid).node ((s.daemons uuid).next base reader parse env o).node).map .act
  | .purge .. | .close .. => none
  | .restart uuid peers enableAudit enablePeerValidation signedKey =>
    some (.restart uuid peers enableAudit enablePeerValidation signedKey)

def Possible : Occurrence → Prop
  | .raft a => a.submits = false ∧ s.swarm.Enabled a
  | .client uuid session _ => session ∉ (s.daemons uuid).hub.closed
  | .http .. | .purge .. | .close .. | .restart .. => True

instance : (o : Occurrence) → Decidable (s.Possible o)
  | .raft a => inferInstanceAs (Decidable (a.submits = false ∧ s.swarm.Enabled a))
  | .client uuid session _ => inferInstanceAs (Decidable (session ∉ (s.daemons uuid).hub.closed))
  | .http .. | .purge .. | .close .. | .restart .. => inferInstanceAs (Decidable True)

end System

-- The whole system from its start.
def system (first : LogEntry) : Machine (System S) Occurrence where
  init s := (restarting env first).init s.swarm ∧
    ∀ n, (s.daemons n).hub = ⟨∅, ∅, initializeStorageFromLog base parse (startLog first) base.opened⟩
  enabled s o := s.Possible o
  next s o := s.act base reader parse env o

instance (first : LogEntry) (s : System S) (o : Occurrence) :
    Decidable ((system base reader parse env first).enabled s o) :=
  inferInstanceAs (Decidable (s.Possible o))

end Model

section Refinement

variable {S : Type} {base : StorageBase S} {reader : StorageReader S} {parse : String → Option BznMsg} {env : Env}
  {first : LogEntry} {past : List (System S × Occurrence)} {s : System S} {o : Occurrence} {node node' : Node}
  {text : String} {n : Uuid}

theorem Submits.log_eq (h : Submits node text node') :
    node'.log = node.log.leaderAppendEntry ⟨.database, node.log.size, node.currentTerm, .database text⟩ := by
  rw [h.node_eq]
  simp [Node.appendLog, Node.appendLogUnsafe, h.leads]

theorem submitted_self (uuid : Uuid) (node : Node) : submitted uuid node node = none := if_neg (lt_irrefl _)

theorem submitted_of_submits (uuid : Uuid) (h : Submits node text node') :
    submitted uuid node node' = some (.appendLog uuid text) := by
  have hentries : node'.log.entries =
      node.log.entries ++ [⟨.database, node.log.size, node.currentTerm, .database text⟩] := by
    rw [h.log_eq]
    rfl
  have hgrown : node.log.size < node'.log.size := by
    unfold RaftLog.size
    rw [hentries, List.length_append]
    simp
  rw [submitted, if_pos hgrown, hentries, List.getLast?_concat]
  rfl

@[simp] theorem act_daemons_self : (s.act base reader parse env o).daemons o.uuid =
    (s.daemons o.uuid).next base reader parse env o := Function.update_self ..

theorem act_daemons_other (h : n ≠ o.uuid) : (s.act base reader parse env o).daemons n = s.daemons n :=
  Function.update_of_ne h ..

theorem act_daemons_cases (base : StorageBase S) (reader : StorageReader S) (parse : String → Option BznMsg)
    (env : Env) (s : System S) (o : Occurrence) (n : Uuid) :
    (n = o.uuid ∧ (s.act base reader parse env o).daemons n = (s.daemons n).next base reader parse env o) ∨
      (s.act base reader parse env o).daemons n = s.daemons n := by
  by_cases h : n = o.uuid
  · subst h
    exact Or.inl ⟨rfl, act_daemons_self⟩
  · exact Or.inr (act_daemons_other h)

theorem act_swarm_eq (s : System S) (o : Occurrence) {t : Swarm}
    (hself : t.nodes o.uuid = ((s.daemons o.uuid).next base reader parse env o).node)
    (hother : ∀ n, n ≠ o.uuid → t.nodes n = (s.daemons n).node)
    (hnetwork : t.network = s.network ++ s.packets env o) :
    (s.act base reader parse env o).swarm = t := by
  have hnodes : (fun n => ((s.act base reader parse env o).daemons n).node) = t.nodes := by
    funext n
    by_cases hn : n = o.uuid
    · subst hn
      rw [act_daemons_self, hself]
    · rw [act_daemons_other hn, hother n hn]
  obtain ⟨nodes, network⟩ := t
  dsimp only at hnodes hnetwork
  subst hnodes hnetwork
  rfl

-- A call of crud either leaves the node alone or appends.
theorem next_node_cases (base : StorageBase S) (reader : StorageReader S) (parse : String → Option BznMsg) (env : Env)
    (d : Daemon S) {uuid : Uuid}
    (h : (∃ session message, o = .client uuid session message) ∨
      ∃ verb target body, o = .http uuid verb target body) :
    (d.next base reader parse env o).node = d.node ∨
      ∃ text, Submits d.node text (d.next base reader parse env o).node := by
  rcases h with ⟨session, message, rfl⟩ | ⟨verb, target, body, rfl⟩
  · obtain ⟨_, _, hnode | ⟨text, _, _, _, hsubmits, _⟩⟩ :=
      handleWsCrudMessages_cases reader parse d session message rfl
    · exact Or.inl hnode
    · exact Or.inr ⟨text, hsubmits⟩
  · obtain ⟨_, hnode | ⟨_, _, hsubmits, _⟩⟩ := doReadRequest_cases reader d verb target body rfl
    · exact Or.inl hnode
    · exact Or.inr ⟨_, hsubmits⟩

theorem act_swarm (base : StorageBase S) (reader : StorageReader S) (parse : String → Option BznMsg) (env : Env)
    (s : System S) (o : Occurrence) :
    (s.act base reader parse env o).swarm = match s.action base reader parse env o with
      | some event => s.swarm.handle env event
      | none => s.swarm := by
  have hsame : ((s.daemons o.uuid).next base reader parse env o).node = (s.daemons o.uuid).node →
      s.packets env o = [] → (s.act base reader parse env o).swarm = s.swarm := by
    intro hnode hpackets
    refine act_swarm_eq s o hnode.symm (fun _ _ => rfl) ?_
    rw [hpackets, List.append_nil]
    rfl
  have hcrud : ∀ uuid, o.uuid = uuid → s.packets env o = [] →
      s.action base reader parse env o = (submitted uuid (s.daemons uuid).node
        ((s.daemons uuid).next base reader parse env o).node).map .act →
      ((∃ session message, o = .client uuid session message) ∨
        ∃ verb target body, o = .http uuid verb target body) →
      (s.act base reader parse env o).swarm = match s.action base reader parse env o with
        | some event => s.swarm.handle env event
        | none => s.swarm := by
    intro uuid huuid hpackets haction hkind
    subst huuid
    rw [haction]
    rcases next_node_cases base reader parse env (s.daemons o.uuid) hkind with hnode | ⟨text, hsubmits⟩
    · rw [hnode, submitted_self]
      exact hsame hnode hpackets
    · rw [submitted_of_submits _ hsubmits]
      refine act_swarm_eq s o ?_ ?_ ?_
      · rw [hsubmits.node_eq]
        exact if_pos rfl
      · intro n hn
        exact if_neg hn
      · rw [hpackets]
        rfl
  cases o with
  | raft a => exact act_swarm_eq s (.raft a) (if_pos rfl) (fun n hn => if_neg hn) rfl
  | client uuid session message => exact hcrud uuid rfl rfl rfl (Or.inl ⟨_, _, rfl⟩)
  | http uuid verb target body => exact hcrud uuid rfl rfl rfl (Or.inr ⟨_, _, _, rfl⟩)
  | purge uuid canceled => exact hsame rfl rfl
  | close uuid session => exact hsame rfl rfl
  | restart uuid peers enableAudit enablePeerValidation signedKey =>
      refine act_swarm_eq s _ (if_pos rfl) (fun n hn => if_neg hn) ?_
      exact (List.append_nil _).symm

-- Without storages, subscriptions and clients, the system is a swarm whose nodes may start again.
theorem system_refines (base : StorageBase S) (reader : StorageReader S) (parse : String → Option BznMsg) (env : Env)
    (first : LogEntry) : Machine.Refines (system base reader parse env first) (restarting env first) System.swarm
      (System.action base reader parse env) where
  init := fun s hinit => hinit.1
  moves := by
    intro s o event henabled haction
    refine ⟨?_, ?_⟩
    · cases o with
      | raft a =>
          obtain rfl := Option.some.inj haction
          exact henabled.2
      | client uuid _ _ | http uuid _ _ _ =>
          obtain ⟨a, hsubmitted, rfl⟩ := Option.map_eq_some_iff.mp haction
          unfold submitted at hsubmitted
          split at hsubmitted
          · obtain ⟨text, _, rfl⟩ := Option.map_eq_some_iff.mp hsubmitted
            trivial
          · cases hsubmitted
      | purge _ _ | close _ _ => cases haction
      | restart _ _ _ _ _ =>
          obtain rfl := Option.some.inj haction
          trivial
    · have hswarm := act_swarm base reader parse env s o
      rw [haction] at hswarm
      exact hswarm
  rests := by
    intro s o _ haction
    have hswarm := act_swarm base reader parse env s o
    rw [haction] at hswarm
    exact hswarm

-- What the nodes go through in a run of the whole.
def journal (base : StorageBase S) (reader : StorageReader S) (parse : String → Option BznMsg) (env : Env)
    (past : List (System S × Occurrence)) : List (Swarm × Event) :=
  Machine.seen System.swarm (System.action base reader parse env) past

theorem swarm_run (run : (system base reader parse env first).Run past s) :
    (restarting env first).Run (journal base reader parse env past) s.swarm :=
  (system_refines base reader parse env first).run run

end Refinement

end SwarmDB.Raft
