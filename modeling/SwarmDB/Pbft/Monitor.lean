import SwarmDB.Audit.Hearsay
import SwarmDB.Pbft.Configuration.Peers
import SwarmDB.Pbft.Gateway
import SwarmDB.Pbft.Replica.Reconfiguration
import SwarmDB.Pbft.Replica.Reports
import SwarmDB.Pbft.Swarm
import SwarmDB.Pbft.System.Order

namespace SwarmDB.Pbft

open Machine Replica

-- What handle of the audit reads in the message.
def AuditMessage.report : AuditMessage → SwarmDB.AuditMessage
  | primaryStatus view primary => .primaryStatus { view := view, primary := primary }
  | pbftCommit operation sequenceNumber senderUuid =>
    .pbftCommit { senderUuid := senderUuid, sequenceNumber := sequenceNumber, operation := operation }
  | failureDetected senderUuid => .failureDetected senderUuid

structure Notice where
  src : Uuid
  dst : Uuid
  msg : SwarmDB.AuditMessage
  deriving DecidableEq

def Effect.notice (src : Uuid) : Effect → Option Notice
  | .send peer (.audit msg) => some ⟨src, peer.uuid, msg.report⟩
  | .send _ (.pbft _) | .forward _ _ | .applyOperation _ => none

-- Replicas whose processes audit each other, and every audit message that one of them sent.
structure Monitored where
  swarm : Swarm
  audits : Uuid → Audit
  notices : List Notice

-- Something else than a message happens to an audit, or it hears a message that came from somebody.
inductive Happening
  | replica (a : Action)
  | audit (uuid : Uuid) (event : Audit.Event)
  | hear (uuid src : Uuid) (msg : SwarmDB.AuditMessage)

namespace Monitored

variable (lib : Library) (settings : Uuid → AuditSettings) (members faulty : Finset Uuid) (m : Monitored)

def tell (uuid : Uuid) (event : Audit.Event) : Monitored :=
  { m with audits := Function.update m.audits uuid (event.handler (settings uuid) (m.audits uuid)).state }

def happen : Happening → Monitored
  | .replica a =>
    { m with
      swarm := m.swarm.act lib a
      notices := m.notices ++ (m.swarm.outcome lib a).effects.filterMap (Effect.notice a.uuid) }
  | .audit uuid event => m.tell settings uuid event
  | .hear uuid _ msg => m.tell settings uuid (.message msg)

-- Nobody signs an audit message. From whoever is no correct member anything may come.
def Possible : Happening → Prop
  | .replica a => a.uuid ∈ members ∧ a.uuid ∉ faulty ∧ m.swarm.Receivable members faulty a.input
  | .audit uuid event => uuid ∈ members ∧ uuid ∉ faulty ∧ event.tells = false ∧
    Audit.Due (m.audits uuid) event
  | .hear uuid src msg => uuid ∈ members ∧ uuid ∉ faulty ∧
    (src ∈ members → src ∉ faulty → ⟨src, uuid, msg⟩ ∈ m.notices)

instance : (o : Happening) → Decidable (m.Possible members faulty o)
  | .replica a => inferInstanceAs (Decidable (a.uuid ∈ members ∧ a.uuid ∉ faulty ∧
      m.swarm.Receivable members faulty a.input))
  | .audit uuid event => inferInstanceAs (Decidable (uuid ∈ members ∧ uuid ∉ faulty ∧ event.tells = false ∧
      Audit.Due (m.audits uuid) event))
  | .hear uuid src msg => inferInstanceAs (Decidable (uuid ∈ members ∧ uuid ∉ faulty ∧
      (src ∈ members → src ∉ faulty → ⟨src, uuid, msg⟩ ∈ m.notices)))

end Monitored

def monitored (lib : Library) (settings : Uuid → AuditSettings) (f : Nat) (members faulty : Finset Uuid) :
    Machine Monitored Happening where
  init m := (swarm lib f members faulty).init m.swarm ∧ (∀ n, m.audits n = {}) ∧ m.notices = []
  enabled m o := m.Possible members faulty o
  next m o := m.happen lib settings o

def Happening.action (_ : Monitored) : Happening → Option Action
  | .replica a => some a
  | .audit _ _ | .hear _ _ _ => none

variable {lib : Library} {settings : Uuid → AuditSettings} {f : Nat} {members faulty : Finset Uuid}
  {past : List (Monitored × Happening)} {m : Monitored} {n : Uuid}

theorem monitored_refines (lib : Library) (settings : Uuid → AuditSettings) (f : Nat) (members faulty : Finset Uuid) :
    Refines (monitored lib settings f members faulty) (swarm lib f members faulty) Monitored.swarm
      Happening.action where
  init := fun m hinit => hinit.1
  moves := by
    intro m o a henabled haction
    cases o with
    | replica b =>
        obtain rfl : b = a := Option.some.inj haction
        exact ⟨henabled, rfl⟩
    | audit _ _ | hear _ _ _ => cases haction
  rests := by
    intro m o _ haction
    cases o with
    | replica _ => cases haction
    | audit _ _ | hear _ _ _ => rfl

-- What the replicas went through.
def replicaSteps (past : List (Monitored × Happening)) : List (Swarm × Action) :=
  seen Monitored.swarm Happening.action past

section Ranks

-- The members stand in the order of their uuids.
theorem addPeer_increasing (codec : Codec) {config : Configuration} (h : Configuration.Orderly config.peers ∧
      config.sortedPeers.Pairwise fun p q => p.uuid < q.uuid) (peer : PeerAddress) :
    Configuration.Orderly (config.addPeer codec peer).2.peers ∧
      (config.addPeer codec peer).2.sortedPeers.Pairwise fun p q => p.uuid < q.uuid := by
  by_cases hfits : Configuration.Fits config.peers peer
  · rw [Configuration.addPeer_fits codec hfits]
    have horderly : Configuration.Orderly (config.peers ++ [peer]) := Configuration.orderly_concat.mpr ⟨h.1, hfits⟩
    exact ⟨horderly, Configuration.cacheSortedPeers_increasing codec horderly⟩
  · rw [Configuration.addPeer_unfit codec hfits]
    exact h

theorem gather_increasing (codec : Codec) {config : Configuration} (h : Configuration.Orderly config.peers ∧
      config.sortedPeers.Pairwise fun p q => p.uuid < q.uuid) (peers : List PeerAddress) :
    (config.gather codec peers).sortedPeers.Pairwise fun p q => p.uuid < q.uuid := by
  induction peers generalizing config with
  | nil => exact h.2
  | cons peer rest ih => exact ih (addPeer_increasing codec h peer)

def Ranked (r : Replica) : Prop :=
  ∃ peers, r.configured = some peers ∧ peers.Pairwise fun p q => p.uuid < q.uuid

theorem ranked_of_run {past : List (Replica × Input)} {r : Replica} (run : (lifetime lib).Run past r) :
    Ranked r := by
  induction run with
  | start hinit =>
      obtain ⟨peers, uuid, fresh, setting, hfresh, rfl⟩ := hinit
      refine ⟨(({} : Configuration).gather lib.toCodec peers).sortedPeers, ?_,
        gather_increasing _ ⟨Configuration.orderly_nil, List.Pairwise.nil⟩ peers⟩
      change (fresh.configurations.current).map _ = _
      rw [(construct_shape hfresh).2, initializeConfiguration_eq]
      rfl
  | @step past r input run _ ih =>
      obtain ⟨peers, hconfigured, hpeers⟩ := ih
      exact ⟨peers, (handler_configured (sound_of_run run) input).trans hconfigured, hpeers⟩

-- Of the correct members at most one takes itself for the primary of a view.
theorem leads_unique {r r' : Replica} (hranked : Ranked r) (hranked' : Ranked r')
    (hconfigured : ConfiguredFor f members r) (hconfigured' : ConfiguredFor f members r') (hview : r.view = r'.view)
    (hleads : leads r = true) (hleads' : leads r' = true) : r.uuid = r'.uuid := by
  have hprimary : ∀ {r : Replica}, Ranked r → ConfiguredFor f members r → leads r = true →
      ∃ uuids : List Uuid, uuids.Pairwise (· < ·) ∧ uuids.toFinset = members ∧ uuids.length = 3 * f + 1 ∧
        uuids[r.view % (3 * f + 1)]? = some r.uuid := by
    rintro r ⟨peers, hpeers, hsorted⟩ ⟨other, hother, hlength, hmembers⟩ hleads
    obtain rfl := Option.some.inj (hpeers.symm.trans hother)
    refine ⟨peers.map PeerAddress.uuid, List.pairwise_map.mpr hsorted, hmembers,
      by rw [List.length_map, hlength], ?_⟩
    rw [leads_eq, hpeers] at hleads
    dsimp only at hleads
    rw [hlength] at hleads
    rw [List.getElem?_map]
    split at hleads
    · rename_i primary hget
      rw [hget]
      exact congrArg some (eq_of_beq hleads)
    · cases hleads
  obtain ⟨uuids, hsorted, hmembers, _, hget⟩ := hprimary hranked hconfigured hleads
  obtain ⟨uuids', hsorted', hmembers', _, hget'⟩ := hprimary hranked' hconfigured' hleads'
  have hnodup : ∀ {list : List Uuid}, list.Pairwise (· < ·) → list.Nodup := fun h => h.imp fun hlt => ne_of_lt hlt
  have hperm : uuids.Perm uuids' := by
    refine (List.perm_ext_iff_of_nodup (hnodup hsorted) (hnodup hsorted')).mpr fun uuid => ?_
    rw [← List.mem_toFinset, ← List.mem_toFinset, hmembers, hmembers']
  have hsame : uuids = uuids' := by
    refine hperm.eq_of_pairwise ?_ hsorted hsorted'
    intro p q _ _ hlt hgt
    exact absurd hgt (lt_asymm hlt)
  rw [hsame, hview] at hget
  exact Option.some.inj (hget.symm.trans hget')

end Ranks

section Views

-- An operation that has got past its first phase is of the replica's view.
def Advanced (r : Replica) : Prop :=
  ∀ key op, r.operations key = some op → op.state ≠ .prepare → op.view = r.view

theorem advanced_store {r : Replica} {op : Operation} (h : Advanced r)
    (hview : op.state ≠ .prepare → op.view = r.view) : Advanced (store lib op r) := by
  intro key found hfound hstate
  rcases store_cases hfound with ⟨rfl, rfl⟩ | hold
  · exact hview hstate
  · exact h key found hold hstate

theorem advanced_of_run {past : List (Replica × Input)} {r : Replica} (run : (lifetime lib).Run past r) :
    Advanced r := by
  induction run with
  | start hinit =>
      intro key op hop
      rw [(construct_fresh hinit).1] at hop
      cases hop
  | @step past r input run _ ih =>
      refine (handler_turn lib input (sound_of_run run).kept).keeps (P := Advanced) ?_ ?_ ih
      · intro r es r' hmove h
        cases hmove with
        | side hbeside _ =>
            intro key op hop hstate
            rw [hbeside.operations] at hop
            rw [hbeside.view]
            exact h key op hop hstate
        | create _ _ hop =>
            refine advanced_store h fun hstate => ?_
            rw [hop] at hstate
            exact absurd rfl hstate
        | accept _ _ _ hop _ => exact advanced_store h fun _ => hop.view
        | recordPrepare _ _ _ hop => exact advanced_store h fun _ => hop.view
        | recordCommit _ _ _ hop => exact advanced_store h fun _ => hop.view
        | beginCommit hop _ _ => exact advanced_store h fun _ => hop.view
        | finish hop _ _ _ _ => exact advanced_store h fun _ => hop.view
        | sendPrepare _ _ _ | sendCommit _ _ _ _ => exact h
      · intro r es r' hclear h
        cases hclear with
        | side hbeside _ =>
            intro key op hop hstate
            rw [hbeside.operations] at hop
            rw [hbeside.view]
            exact h key op hop hstate
        | clear cp =>
            intro key op hop hstate
            exact h key op (Option.filter_eq_some_iff.mp hop).1 hstate

end Views

section Said

-- What is so among the correct members: one of them was the primary of the view, or more than 2f members
-- prepared the operation.
def Genuine (lib : Library) (f : Nat) (members faulty : Finset Uuid) (past : List (Swarm × Action)) (s : Swarm) :
    Audit.Container → Nat → String → Prop
  | .primaries, view, primary => primary ∈ members ∧ primary ∉ faulty ∧ ∃ t, Visited past s t ∧
    (t.replicas primary).view = view ∧ leads (t.replicas primary) = true
  | .pbftCommits, sequence, hash =>
    Quorum.Certified members faulty f (Prepares lib past) ⟨1, sequence, hash⟩
  | .leaders, _, _ | .raftCommits, _, _ => True

variable {steps : List (Swarm × Action)} {s : Swarm} {container : Audit.Container} {number : Nat} {reported : String}

theorem Prepares.step {key : OperationKey} (h : Prepares lib steps n key) (s : Swarm) (a : Action) :
    Prepares lib ((s, a) :: steps) n key := by
  obtain ⟨envelope, ⟨peer, hsent⟩, htype, hkey⟩ := h
  refine ⟨envelope, ⟨peer, ?_⟩, htype, hkey⟩
  by_cases hn : n = a.uuid
  · subst hn
    rw [history_self]
    exact List.mem_append_left _ hsent
  · rw [history_other steps s hn]
    exact hsent

theorem Genuine.step (h : Genuine lib f members faulty steps s container number reported) (a : Action) (next : Swarm) :
    Genuine lib f members faulty ((s, a) :: steps) next container number reported := by
  cases container with
  | primaries =>
      obtain ⟨hmember, hcorrect, t, hvisited, hview, hleads⟩ := h
      exact ⟨hmember, hcorrect, t, hvisited.step a next, hview, hleads⟩
  | pbftCommits =>
      obtain ⟨signers, hmembers, hcount, hsigned⟩ := h
      exact ⟨signers, hmembers, hcount, fun u hu hcorrect => (hsigned u hu hcorrect).step s a⟩
  | leaders | raftCommits => trivial

-- What a correct replica has reported is so.
theorem genuine_of_attests (run : (swarm lib f members faulty).Run steps s) (hmember : n ∈ members)
    (hcorrect : n ∉ faulty) {msg : AuditMessage} (hattests : Attests lib (s.replicas n) msg)
    (hheard : (Audit.Event.message msg.report).heard container = some (number, reported)) :
    Genuine lib f members faulty steps s container number reported := by
  have hidentity := identity_of_run hmember hcorrect run
  have hlife := history_run hmember hcorrect run
  cases msg with
  | primaryStatus view primary =>
      obtain ⟨rfl, rfl, hleads⟩ := hattests
      obtain ⟨rfl, rfl, rfl⟩ := Audit.eq_of_only hheard
      rw [hidentity.uuid]
      exact ⟨hmember, hcorrect, s, Or.inl rfl, rfl, hleads⟩
  | pbftCommit hash sequence sender =>
      obtain ⟨_, op, hstored, hstate, hprepared, rfl, rfl⟩ := hattests
      obtain ⟨rfl, rfl, rfl⟩ := Audit.eq_of_only hheard
      have hview : op.view = 1 :=
        (advanced_of_run hlife _ op hstored (by rw [hstate]; decide)).trans (view_of_run hlife)
      obtain ⟨peers, hconfigured, hlength, _⟩ := hidentity.configured
      obtain rfl := Option.some.inj (((sound_of_run hlife).kept _ op hstored).2.symm.trans hconfigured)
      have hcount := of_decide_eq_true (Bool.and_eq_true_iff.mp hprepared).2
      have hbound : op.faultyNodesBound = f := by
        unfold Operation.faultyNodesBound
        rw [if_neg (by omega)]
        omega
      rw [hbound] at hcount
      have hkey : op.key lib = ⟨1, op.sequence, lib.requestHash op.request⟩ := by
        unfold Operation.key
        rw [hview]
      have hrecords := (tallied_of_run hlife).records _ op hstored
      rw [hkey] at hrecords
      refine ⟨op.preparesSeen, ?_, hcount, ?_⟩
      · intro sender hmem
        exact (prepares_of_heard run (hrecords sender hmem)).1
      · intro sender hmem
        exact (prepares_of_heard run (hrecords sender hmem)).2
  | failureDetected sender => cases hheard

-- Nothing else can be so besides.
theorem genuine_unique (hinj : Function.Injective lib.requestHash) (hfaulty : faulty.card ≤ f)
    (run : (swarm lib f members faulty).Run steps s) (hmember : n ∈ members) (hcorrect : n ∉ faulty)
    (hpbft : container.raft = false) {other : String}
    (h : Genuine lib f members faulty steps s container number reported)
    (h' : Genuine lib f members faulty steps s container number other) : reported = other := by
  cases container with
  | leaders | raftCommits => cases hpbft
  | primaries =>
      obtain ⟨hp, hpf, t, hvisited, hview, hleads⟩ := h
      obtain ⟨hq, hqf, t', hvisited', hview', hleads'⟩ := h'
      obtain ⟨before, hrun⟩ := run.visited hvisited
      obtain ⟨before', hrun'⟩ := run.visited hvisited'
      have hidentity := identity_of_run hp hpf hrun
      have hidentity' := identity_of_run hq hqf hrun'
      rw [← hidentity.uuid, ← hidentity'.uuid]
      exact leads_unique (ranked_of_run (history_run hp hpf hrun)) (ranked_of_run (history_run hq hqf hrun'))
        hidentity.configured hidentity'.configured (hview.trans hview'.symm) hleads hleads'
  | pbftCommits =>
      have hkeys : (⟨1, number, reported⟩ : OperationKey) = ⟨1, number, other⟩ := by
        refine Quorum.Certified.unique h h' (card_members run hmember hcorrect) hfaulty ?_
        intro u hmember hcorrect hprepares hprepares'
        exact prepares_unique hinj run hmember hcorrect hprepares hprepares' rfl rfl
      exact congrArg OperationKey.hash hkeys

end Said

section Blame

-- Somebody else than a correct member told this to a process.
def Lied (members faulty : Finset Uuid) (past : List (Monitored × Happening)) (n : Uuid) (container : Audit.Container)
    (number : Nat) (reported : String) : Prop :=
  ∃ t liar msg, (t, .hear n liar msg) ∈ past ∧ (liar ∈ members → liar ∈ faulty) ∧
    (Audit.Event.message msg).heard container = some (number, reported)

def Said (lib : Library) (f : Nat) (members faulty : Finset Uuid) (past : List (Monitored × Happening))
    (m : Monitored) (n : Uuid) (container : Audit.Container) (number : Nat) (reported : String) : Prop :=
  Genuine lib f members faulty (replicaSteps past) m.swarm container number reported ∨
    Lied members faulty past n container number reported

variable {container : Audit.Container} {number : Nat} {reported description : String}

theorem genuine_happens (h : Genuine lib f members faulty (replicaSteps past) m.swarm container number reported)
    (o : Happening) : Genuine lib f members faulty (replicaSteps ((m, o) :: past)) (m.happen lib settings o).swarm
      container number reported := by
  cases o with
  | replica a => exact h.step a _
  | audit _ _ | hear _ _ _ => exact h

theorem Said.step (h : Said lib f members faulty past m n container number reported) (o : Happening) :
    Said lib f members faulty ((m, o) :: past) (m.happen lib settings o) n container number reported := by
  rcases h with hgenuine | ⟨t, liar, msg, hmem, hrest⟩
  · exact Or.inl (genuine_happens hgenuine o)
  · exact Or.inr ⟨t, liar, msg, List.mem_cons_of_mem _ hmem, hrest⟩

-- Every audit message of a correct member is genuine, and all that the audits have recorded has been said.
structure Hearsay (lib : Library) (settings : Uuid → AuditSettings) (f : Nat) (members faulty : Finset Uuid)
    (past : List (Monitored × Happening)) (m : Monitored) : Prop where
  genuine : ∀ notice ∈ m.notices, ∀ container number reported,
    (Audit.Event.message notice.msg).heard container = some (number, reported) →
      Genuine lib f members faulty (replicaSteps past) m.swarm container number reported
  vouched : ∀ n, Audit.Vouched (settings n) (Said lib f members faulty past m n) (m.audits n)

theorem notice_cases {src : Uuid} {effect : Effect} {notice : Notice} (h : effect.notice src = some notice) :
    ∃ msg, effect.audited = some msg ∧ notice.msg = msg.report := by
  unfold Effect.notice at h
  split at h
  · cases h
    exact ⟨_, rfl, rfl⟩
  · cases h
  · cases h
  · cases h

-- What a process hears has been said.
theorem Hearsay.heard (h : Hearsay lib settings f members faulty past m) {src : Uuid} {msg : SwarmDB.AuditMessage}
    (hpossible : m.Possible members faulty (.hear n src msg))
    (hheard : (Audit.Event.message msg).heard container = some (number, reported)) :
    Said lib f members faulty ((m, .hear n src msg) :: past) (m.happen lib settings (.hear n src msg)) n
      container number reported := by
  by_cases hcorrect : src ∈ members ∧ src ∉ faulty
  · have hnotice := hpossible.2.2 hcorrect.1 hcorrect.2
    exact Or.inl (genuine_happens (h.genuine _ hnotice container number reported hheard) _)
  · refine Or.inr ⟨m, src, msg, List.mem_cons_self, fun hmember => ?_, hheard⟩
    by_contra hnot
    exact hcorrect ⟨hmember, hnot⟩

theorem hearsay_of_run (run : (monitored lib settings f members faulty).Run past m) :
    Hearsay lib settings f members faulty past m := by
  induction run with
  | start hinit =>
      refine ⟨fun notice hnotice => ?_, fun n => ?_⟩
      · rw [hinit.2.2] at hnotice
        cases hnotice
      · rw [hinit.2.1 n]
        exact Audit.vouched_fresh _ _
  | @step past m o run henabled ih =>
      have hkept : ∀ n, Audit.Vouched (settings n)
          (Said lib f members faulty ((m, o) :: past) (m.happen lib settings o) n) (m.audits n) :=
        fun n => (ih.vouched n).mono fun _ _ _ hsaid => hsaid.step o
      have hold : ∀ notice ∈ m.notices, ∀ container number reported,
          (Audit.Event.message notice.msg).heard container = some (number, reported) →
            Genuine lib f members faulty (replicaSteps ((m, o) :: past)) (m.happen lib settings o).swarm
              container number reported :=
        fun notice hnotice container number reported hheard =>
          genuine_happens (ih.genuine notice hnotice container number reported hheard) o
      have htold : ∀ (uuid : Uuid) (event : Audit.Event),
          (∀ container number reported, event.heard container = some (number, reported) →
            Said lib f members faulty ((m, o) :: past) (m.happen lib settings o) uuid container number reported) →
          ∀ n, Audit.Vouched (settings n) (Said lib f members faulty ((m, o) :: past) (m.happen lib settings o) n)
            ((m.tell settings uuid event).audits n) := by
        intro uuid event hheard n
        show Audit.Vouched (settings n) _ (Function.update m.audits uuid _ n)
        by_cases hn : n = uuid
        · subst hn
          rw [Function.update_self]
          exact (hkept n).step hheard
        · rw [Function.update_of_ne hn]
          exact hkept n
      cases o with
      | replica a =>
          refine ⟨fun notice hnotice container number reported hheard => ?_, hkept⟩
          rcases List.mem_append.mp hnotice with hbefore | hnew
          · exact hold notice hbefore container number reported hheard
          · obtain ⟨effect, hmem, heffect⟩ := List.mem_filterMap.mp hnew
            obtain ⟨msg, haudited, hmsg⟩ := notice_cases heffect
            rw [hmsg] at hheard
            have hswarm := (monitored_refines lib settings f members faulty).run (run.step henabled)
            refine genuine_of_attests hswarm henabled.1 henabled.2.1 ?_ hheard
            have hstate : (m.happen lib settings (.replica a)).swarm.replicas a.uuid =
                (m.swarm.outcome lib a).state := Function.update_self ..
            show Attests lib ((m.happen lib settings (.replica a)).swarm.replicas a.uuid) msg
            rw [hstate]
            exact handler_speaks lib a.input _ effect hmem msg haudited
      | audit uuid event =>
          refine ⟨hold, htold uuid event fun container number reported hheard => ?_⟩
          rw [Audit.heard_of_not_tells henabled.2.2.1] at hheard
          cases hheard
      | hear uuid src msg =>
          exact ⟨hold, htold uuid (.message msg) fun container number reported hheard =>
            ih.heard henabled hheard⟩

-- The audit of a process raises this error when it hears this.
def Raises (settings : Uuid → AuditSettings) (m : Monitored) (n : Uuid) (msg : SwarmDB.AuditMessage)
    (metricName description : String) : Prop :=
  .error (Audit.statsdNamespacePrefix (settings n) ++ metricName) description ∈
    ((Audit.Event.message msg).handler (settings n) (m.audits n)).effects

-- Whenever an audit reports a conflict of pbft, one of the two reports came from nobody correct.
def Blames (settings : Uuid → AuditSettings) (members faulty : Finset Uuid) (past : List (Monitored × Happening)) :
    Prop :=
  ∀ t n src msg (container : Audit.Container) description, container.raft = false →
    (t, .hear n src msg) ∈ past → Raises settings t n msg container.conflictMetricName description →
      ∃ number reported recorded, reported ≠ recorded ∧
        description = container.conflict number reported recorded ∧
        (Lied members faulty past n container number reported ∨
          Lied members faulty past n container number recorded)

theorem Lied.step (h : Lied members faulty past n container number reported) (m : Monitored) (o : Happening) :
    Lied members faulty ((m, o) :: past) n container number reported := by
  obtain ⟨t, liar, msg, hmem, hrest⟩ := h
  exact ⟨t, liar, msg, List.mem_cons_of_mem _ hmem, hrest⟩

theorem blames_of_run (hinj : Function.Injective lib.requestHash) (hfaulty : faulty.card ≤ f)
    (run : (monitored lib settings f members faulty).Run past m) : Blames settings members faulty past := by
  induction run with
  | start _ =>
      intro t n src msg container description _ hmem
      cases hmem
  | @step past m o run henabled ih =>
      intro t n src msg container description hpbft hmem hraises
      rcases List.mem_cons.mp hmem with heq | hbefore
      · obtain ⟨rfl, rfl⟩ := Prod.mk.inj heq
        have hhearsay := hearsay_of_run run
        have hvouched : Audit.Vouched (settings n) (Said lib f members faulty ((t, .hear n src msg) :: past)
            (t.happen lib settings (.hear n src msg)) n) (t.audits n) :=
          (hhearsay.vouched n).mono fun _ _ _ hsaid => hsaid.step _
        obtain ⟨number, reported, recorded, hne, hreported, hrecorded, hdescription⟩ :=
          hvouched.conflict (fun _ _ _ hheard => hhearsay.heard henabled hheard) hraises
        refine ⟨number, reported, recorded, hne, hdescription, ?_⟩
        rcases hreported with hgenuine | hlied
        · rcases hrecorded with hgenuine' | hlied
          · have hswarm := (monitored_refines lib settings f members faulty).run (run.step henabled)
            exact absurd (genuine_unique hinj hfaulty hswarm henabled.1 henabled.2.1 hpbft hgenuine hgenuine') hne
          · exact Or.inr hlied
        · exact Or.inl hlied
      · obtain ⟨number, reported, recorded, hne, hdescription, hlied⟩ :=
          ih t n src msg container description hpbft hbefore hraises
        exact ⟨number, reported, recorded, hne, hdescription, hlied.imp (fun h => h.step m o) fun h => h.step m o⟩

end Blame

section Run

def auditOfPbft (uuid : Uuid) : AuditSettings := { uuid := uuid, memSize := 100, usePbft := true }

noncomputable def watchedMachine : Machine Monitored Happening :=
  monitored openLibrary auditOfPbft 1 {"A", "B", "C", "D"} {"B"}

noncomputable def watchedSystem : Monitored := ⟨freshSwarm, fun _ => {}, []⟩

def commitOf (sender : Uuid) (operation : String) : SwarmDB.AuditMessage :=
  .pbftCommit { senderUuid := sender, sequenceNumber := 1, operation := operation }

-- A and D commit x, and A hears so from D. Then the faulty B tells A that it has committed y.
noncomputable def slander : List Happening :=
  twoPreprepares.map .replica ++ [.hear "A" "D" (commitOf "D" (openLibrary.requestHash (readRequest "x"))),
    .hear "A" "B" (commitOf "B" "y")]

noncomputable def slanderRun : List (Monitored × Happening) × Monitored :=
  watchedMachine.replay [] watchedSystem slander

noncomputable instance (m : Monitored) (o : Happening) : Decidable (watchedMachine.enabled m o) :=
  inferInstanceAs (Decidable (m.Possible {"A", "B", "C", "D"} {"B"} o))

theorem slanderRun_run : watchedMachine.Run slanderRun.1 slanderRun.2 := by
  have hpeers : (initializeConfiguration openLibrary fourPeers).current.map Configuration.sortedPeers =
      some fourPeers := by decide +kernel
  have hinit : watchedMachine.init watchedSystem := by
    refine ⟨⟨rfl, ?_⟩, fun _ => rfl, rfl⟩
    intro n _ _
    exact ⟨fourPeers, freshReplica n, true, construct_four n, rfl, fourPeers, hpeers, rfl, by decide⟩
  exact (Machine.Run.start hinit).replay slander (by decide +kernel)

theorem blames_of_run_slander : (slanderRun.2.audits "A").errorStrings =
      [Audit.conflictingPbftCommit { sequenceNumber := 1, operation := "y" }
        (openLibrary.requestHash (readRequest "x"))] ∧
    Blames auditOfPbft {"A", "B", "C", "D"} {"B"} slanderRun.1 :=
  ⟨by decide +kernel, blames_of_run requestText_injective (by decide) slanderRun_run⟩

end Run

end SwarmDB.Pbft
