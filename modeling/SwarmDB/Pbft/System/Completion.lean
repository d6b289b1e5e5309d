import SwarmDB.Pbft.Monitor
import SwarmDB.Pbft.Replica.Progress
import SwarmDB.Pbft.System.Checkpoints

namespace SwarmDB.Pbft

open Replica Service

-- Whether the call that an event makes, of the replica or of the service, returns.
def Process.returns (lib : Library) (parse : Bytes → Option Request) (p : Process) (event : Event) : Bool :=
  match event with
  | .receive input => Pbft.returns lib p.replica input
  | .perform index session locks freed =>
    match p.jobs[index]? with
    | some (.applyOperation op) =>
      match (applyOperation parse locks op.sequence op.request session p.service).result with
      | .ok () => true
      | .error _ => false
    | some (.execute _ sequence) =>
      match executeHandler sequence freed with
      | some input => Pbft.returns lib p.replica input
      | none => true
    | none => true

-- No call throws, which would end the process, no preprepare is taken but the primary's, and no checkpoint is
-- erased while it is read.
def Undisturbed (lib : Library) (parse : Bytes → Option Request) (s : System) (o : Occurrence) : Prop :=
  (s.processes o.uuid).returns lib parse o.event = true ∧
    ∀ input ∈ (s.processes o.uuid).input o.event, FromPrimary lib (s.processes o.uuid).replica input ∧
      ¬VotesFirst lib (s.processes o.uuid).replica input

instance (lib : Library) (parse : Bytes → Option Request) (s : System) (o : Occurrence) :
    Decidable (Undisturbed lib parse s o) :=
  inferInstanceAs (Decidable (_ ∧ ∀ input ∈ (s.processes o.uuid).input o.event,
    FromPrimary lib (s.processes o.uuid).replica input ∧ ¬VotesFirst lib (s.processes o.uuid).replica input))

-- What one process tells another about operations.
def Effect.telling (n : Uuid) : Effect → Option Envelope
  | .send peer (.pbft envelope) => if peer.uuid = n ∧ envelope.pbft.type ≠ .checkpoint then some envelope else none
  | .send _ (.audit _) | .forward _ _ | .applyOperation _ => none

-- What the correct processes have told each other about operations has arrived, at least once when it
-- was not above the receiver's high water mark, and whatever was posted has been performed.
structure AtRest (lib : Library) (members faulty : Finset Uuid) (past : List (System × Occurrence)) (s : System) :
    Prop where
  delivered : ∀ m ∈ members, m ∉ faulty → ∀ n ∈ members, n ∉ faulty →
    ∀ envelope ∈ (done lib (history (journal past) m)).filterMap (Effect.telling n),
      ∃ step ∈ history (journal past) n, step.2 = .message envelope.pbft envelope ∧
        envelope.pbft.sequence ≤ step.1.highWaterMark
  performed : ∀ n ∈ members, n ∉ faulty → (s.processes n).jobs = []

-- The process n has executed all that p has given numbers, in the order of the numbers, and no more.
structure Finished (lib : Library) (parse : Bytes → Option Request) (past : List (System × Occurrence))
    (s : System) (p n : Uuid) : Prop where
  count : (executions parse past n).length + 1 = (s.processes p).replica.nextIssuedSequenceNumber
  requests : ∀ envelope, Sent (done lib (history (journal past) p)) envelope → envelope.pbft.type = .preprepare →
    1 ≤ envelope.pbft.sequence ∧
      (executions parse past n)[envelope.pbft.sequence - 1]? = some envelope.pbft.requestOf.operationOf

variable {lib : Library} {parse : Bytes → Option Request} {f : Nat} {members faulty : Finset Uuid}
  {past : List (System × Occurrence)} {s : System} {n p : Uuid} {key : OperationKey} {envelope : Envelope}

section Histories

theorem step_of_history {step : Replica × Input} (h : step ∈ history (journal past) n) :
    ∃ whole ∈ past, whole.2.uuid = n ∧ (whole.1.processes n).input whole.2.event = some step.2 ∧
      step.1 = (whole.1.processes n).replica := by
  obtain ⟨middle, hmiddle, rfl, rfl⟩ := Machine.mem_life h
  obtain ⟨whole, hwhole, haction, hview⟩ := Machine.mem_seen hmiddle
  obtain ⟨input, hinput, hsame⟩ := Option.map_eq_some_iff.mp haction
  rw [← hsame]
  exact ⟨whole, hwhole, rfl, hinput, by rw [hview]; rfl⟩

-- The replica of a process whose calls return is one whose calls return.
theorem returns_of_step {whole : System × Occurrence} {input : Input}
    (h : (whole.1.processes n).returns lib parse whole.2.event = true)
    (hinput : (whole.1.processes n).input whole.2.event = some input) :
    returns lib (whole.1.processes n).replica input = true := by
  cases hevent : whole.2.event with
  | receive received =>
      rw [hevent] at h hinput
      cases hinput
      exact h
  | perform index session locks freed =>
      rw [hevent] at h hinput
      unfold Process.input at hinput
      unfold Process.returns at h
      dsimp only at h hinput
      cases hjob : (whole.1.processes n).jobs[index]? with
      | none => simp [hjob] at hinput
      | some job =>
          cases job with
          | applyOperation op => simp [hjob] at hinput
          | execute request sequence =>
              simp only [hjob] at h hinput
              simpa only [hinput] using h

-- What an undisturbed call of a replica does not do.
structure Calm (lib : Library) (r : Replica) (input : Input) : Prop where
  returns : returns lib r input = true
  fromPrimary : FromPrimary lib r input
  kept : ¬VotesFirst lib r input

theorem calm_of_run (run : ((system lib parse f members faulty).guard (Undisturbed lib parse)).Run past s) :
    ∀ step ∈ history (journal past) n, Calm lib step.1 step.2 := by
  intro step hstep
  obtain ⟨whole, hwhole, huuid, hinput, hreplica⟩ := step_of_history hstep
  obtain ⟨hreturns, hcalls⟩ := run.guarded whole hwhole
  rw [huuid] at hreturns hcalls
  rw [hreplica]
  obtain ⟨hprimary, hkept⟩ := hcalls _ hinput
  exact ⟨returns_of_step hreturns hinput, hprimary, hkept⟩

theorem history_length (past : List (System × Occurrence)) (n : Uuid) :
    (history (journal past) n).length ≤ past.length :=
  (List.length_filterMap_le _ _).trans (List.length_filterMap_le _ _)

end Histories

section Primary

theorem primaryUuid_eq {r : Replica} {peers : List PeerAddress} (hpeers : r.configured = some peers) :
    primaryUuid r = (peers[r.view % peers.length]?).map PeerAddress.uuid := by
  unfold primaryUuid getPrimary
  simp only [Bind.bind, Handler.bind, currentPeers_run hpeers, Handler.reads]
  cases peers[r.view % peers.length]? <;> rfl

-- Replicas that are configured for the same members name the same primary.
theorem primaryUuid_of_leads {r r' : Replica} (hranked : Ranked r) (hranked' : Ranked r')
    (hconfigured : ConfiguredFor f members r) (hconfigured' : ConfiguredFor f members r') (hview : r.view = r'.view)
    (hleads : leads r' = true) : primaryUuid r = some r'.uuid := by
  obtain ⟨peers, hpeers, hsorted⟩ := hranked
  obtain ⟨peers', hpeers', hsorted'⟩ := hranked'
  obtain ⟨_, hother, hlength, hmembers⟩ := hconfigured
  obtain rfl := Option.some.inj (hpeers.symm.trans hother)
  obtain ⟨_, hother', hlength', hmembers'⟩ := hconfigured'
  obtain rfl := Option.some.inj (hpeers'.symm.trans hother')
  have hincreasing : (peers.map PeerAddress.uuid).Pairwise (· < ·) := List.pairwise_map.mpr hsorted
  have hincreasing' : (peers'.map PeerAddress.uuid).Pairwise (· < ·) := List.pairwise_map.mpr hsorted'
  have hperm : (peers.map PeerAddress.uuid).Perm (peers'.map PeerAddress.uuid) := by
    refine (List.perm_ext_iff_of_nodup (hincreasing.imp fun hlt => ne_of_lt hlt)
      (hincreasing'.imp fun hlt => ne_of_lt hlt)).mpr fun uuid => ?_
    rw [← List.mem_toFinset, ← List.mem_toFinset, hmembers, hmembers']
  have hsame : peers.map PeerAddress.uuid = peers'.map PeerAddress.uuid := by
    refine hperm.eq_of_pairwise ?_ hincreasing hincreasing'
    intro u v _ _ hlt hgt
    exact absurd hgt (lt_asymm hlt)
  rw [leads_eq, hpeers'] at hleads
  dsimp only at hleads
  rw [primaryUuid_eq hpeers, ← List.getElem?_map, hsame, List.getElem?_map, hlength, hview, ← hlength']
  split at hleads
  · rename_i primary hget
    rw [hget]
    exact congrArg some (eq_of_beq hleads)
  · cases hleads

-- In whatever state a process gets a call, it names the primary.
theorem primary_of_step (run : (system lib parse f members faulty).Run past s) (hp : p ∈ members) (hpf : p ∉ faulty)
    (hleads : leads (s.processes p).replica = true) (hn : n ∈ members) (hnf : n ∉ faulty)
    {step : Replica × Input} (hstep : step ∈ history (journal past) n) : primaryUuid step.1 = some p := by
  obtain ⟨whole, hwhole, _, _, hreplica⟩ := step_of_history hstep
  obtain ⟨before, hbefore⟩ := run.visited (Or.inr ⟨whole.2, hwhole⟩)
  have hrun := replica_run hn hnf hbefore
  have hrun' := replica_run hp hpf run
  have hidentity := identity_of_run hp hpf (swarm_run run)
  rw [hreplica, primaryUuid_of_leads (ranked_of_run hrun) (ranked_of_run hrun')
    (identity_of_run hn hnf (swarm_run hbefore)).configured hidentity.configured
    ((view_of_run hrun).trans (view_of_run hrun').symm) hleads]
  exact congrArg some hidentity.uuid

end Primary

section Orders

-- A run to a state of rest in which the primary p is correct and no call throws.
structure Led (lib : Library) (parse : Bytes → Option Request) (f : Nat) (members faulty : Finset Uuid)
    (past : List (System × Occurrence)) (s : System) (p : Uuid) : Prop where
  run : ((system lib parse f members faulty).guard (Undisturbed lib parse)).Run past s
  short : past.length < 2 ^ 64 - 1
  member : p ∈ members
  correct : p ∉ faulty
  leads : leads (s.processes p).replica = true

-- The primary has sent the preprepare with this key.
def Called (lib : Library) (past : List (System × Occurrence)) (p : Uuid) (key : OperationKey) : Prop :=
  ∃ envelope, Sent (done lib (history (journal past) p)) envelope ∧ envelope.pbft.type = .preprepare ∧
    envelope.pbft.key lib = key

variable (h : Led lib parse f members faulty past s p)

include h

theorem Led.life (hn : n ∈ members) (hnf : n ∉ faulty) :
    (lifetime lib).Run (history (journal past) n) (s.processes n).replica := replica_run hn hnf h.run.of_guard

theorem Led.keeps (hn : n ∈ members) (hnf : n ∉ faulty) :
    (keepsCheckpoints lib).Run (history (journal past) n) (s.processes n).replica :=
  (h.life hn hnf).guard_of fun step hstep => (calm_of_run h.run step hstep).kept

theorem Led.consecutive (hn : n ∈ members) (hnf : n ∉ faulty) :
    Consecutive (history (journal past) n) (done lib (history (journal past) n)) (s.processes n).replica := by
  refine consecutive_of_run ((h.life hn hnf).guard_of fun step hstep => (calm_of_run h.run step hstep).returns) ?_
  exact (history_length past n).trans_lt h.short

theorem Led.uuid (hn : n ∈ members) (hnf : n ∉ faulty) : (s.processes n).replica.uuid = n :=
  (identity_of_run hn hnf (swarm_run h.run.of_guard)).uuid

theorem Led.kept (hn : n ∈ members) (hnf : n ∉ faulty) {op : Operation}
    (hop : (s.processes n).replica.operations key = some op) : op.key lib = key :=
  ((sound_of_run (replica_run hn hnf h.run.of_guard)).kept key op hop).1

theorem Led.prompt (hn : n ∈ members) (hnf : n ∉ faulty) :
    Prompt lib (history (journal past) n) (s.processes n).replica := by
  refine prompt_of_run ((h.life hn hnf).guard_of fun step hstep => ?_)
  have hcalm := calm_of_run h.run step hstep
  exact ⟨hcalm.returns, hcalm.kept⟩

-- What a process has accepted is what the primary has called.
theorem Led.called (hn : n ∈ members) (hnf : n ∉ faulty) {place : Nat × Nat}
    (haccepted : (s.processes n).replica.acceptedPreprepares place = some key) : Called lib past p key := by
  have hswarm := swarm_run h.run.of_guard
  obtain ⟨step, hstep, msg, original, hinput, htype, hkey, _, hprimary⟩ :=
    ordered_of_run ((h.life hn hnf).guard_of fun step hstep => (calm_of_run h.run step hstep).fromPrimary) place key
      haccepted
  have hsender : original.sender = p := by
    have hleader := primary_of_step h.run.of_guard h.member h.correct h.leads hn hnf hstep
    exact Option.some.inj (hprimary.symm.trans hleader)
  obtain ⟨whole, hwhole, _, rfl⟩ := Machine.mem_life hstep
  obtain ⟨rfl, _, hauthentic⟩ := received_of_run hswarm hwhole hinput
  rw [hsender] at hauthentic
  obtain ⟨m, hm, hmf, hsent⟩ := sent_of_run hswarm (hauthentic.resolve_left h.correct)
  obtain ⟨hself, _⟩ := (h.consecutive hm hmf).range original hsent htype
  rw [h.uuid hm hmf, hsender] at hself
  subst hself
  exact ⟨original, hsent, htype, hkey⟩

-- There is one call for each number.
theorem Led.called_unique {key' : OperationKey} (hkey : Called lib past p key) (hkey' : Called lib past p key')
    (hsequence : key.sequence = key'.sequence) : key = key' := by
  obtain ⟨envelope, hsent, htype, rfl⟩ := hkey
  obtain ⟨envelope', hsent', htype', rfl⟩ := hkey'
  rw [(h.consecutive h.member h.correct).once envelope envelope' hsent hsent' htype htype' hsequence]

theorem Led.peers (hn : n ∈ members) (hnf : n ∉ faulty) :
    ∃ peers, (s.processes n).replica.configured = some peers ∧ peers.length = 3 * f + 1 ∧
      (peers.map PeerAddress.uuid).toFinset = members :=
  (identity_of_run hn hnf (swarm_run h.run.of_guard)).configured

-- The other member has an entry among the peers.
theorem Led.peer {m : Uuid} (hn : n ∈ members) (hnf : n ∉ faulty) (hm : m ∈ members) :
    ∃ peers, (s.processes n).replica.configured = some peers ∧ ∃ peer ∈ peers, peer.uuid = m := by
  obtain ⟨peers, hpeers, _, hmembers⟩ := h.peers hn hnf
  rw [← hmembers] at hm
  obtain ⟨peer, hpeer, huuid⟩ := List.mem_map.mp (List.mem_toFinset.mp hm)
  exact ⟨peers, hpeers, peer, hpeer, huuid⟩

-- What is handed over had been called.
theorem Led.called_of_handed (hn : n ∈ members) (hnf : n ∉ faulty) {op : Operation}
    (hop : op ∈ handedOver lib past n) : Called lib past p (op.key lib) := by
  obtain ⟨hprepares, _⟩ := (h.prompt hn hnf).handed op hop
  obtain ⟨peers, hpeers, peer, hpeer, _⟩ := h.peer hn hnf hn
  obtain ⟨msg, htype, hkey, hmem⟩ := hprepares peers hpeers peer hpeer
  have hvote : msg.isVote = true := by simp [PbftMsg.isVote, htype]
  obtain ⟨_, _, haccepted⟩ := votes_of_run (replica_run hn hnf h.run.of_guard) _ ⟨peer, hmem⟩ hvote
  rw [← hkey]
  exact h.called hn hnf haccepted

-- Every call goes to everybody.
theorem Led.called_spread (hkey : Called lib past p key) : Spread lib (s.processes p).replica
    (done lib (history (journal past) p)) .preprepare key := by
  have hconsecutive := h.consecutive h.member h.correct
  obtain ⟨envelope, hsent, htype, rfl⟩ := hkey
  obtain ⟨hsender, _, hpos, hlt⟩ := hconsecutive.range envelope hsent htype
  obtain ⟨other, hother, hsequence, hspread⟩ := hconsecutive.spread _ hpos hlt
  intro peers hpeers peer hpeer
  have hmem := hspread peers hpeers peer hpeer
  obtain rfl := hconsecutive.once other envelope ⟨peer, hmem⟩ hsent hother htype hsequence
  refine ⟨other.pbft, htype, rfl, ?_⟩
  rw [← hsender]
  exact hmem

-- The votes of all correct processes are enough.
theorem Led.enough (hfaulty : faulty.card ≤ f) (hn : n ∈ members) (hnf : n ∉ faulty) {op : Operation}
    (hop : (s.processes n).replica.operations key = some op) {votes : Finset Uuid} (hvotes : members \ faulty ⊆ votes) :
    2 * op.faultyNodesBound < votes.card := by
  have hrun := replica_run hn hnf h.run.of_guard
  obtain ⟨peers, hpeers, hlength, hmembers⟩ := h.peers hn hnf
  obtain ⟨_, hother, hsorted⟩ := ranked_of_run hrun
  obtain rfl := Option.some.inj (hpeers.symm.trans hother)
  obtain rfl := Option.some.inj (hpeers.symm.trans ((sound_of_run hrun).kept key op hop).2)
  have hnodup : (op.peers.map PeerAddress.uuid).Nodup := by
    have hincreasing : (op.peers.map PeerAddress.uuid).Pairwise (· < ·) := List.pairwise_map.mpr hsorted
    exact hincreasing.imp fun hlt => ne_of_lt hlt
  have hcard : members.card = 3 * f + 1 := by
    rw [← hmembers, List.toFinset_card_of_nodup hnodup, List.length_map, hlength]
  have hbound : op.faultyNodesBound = f := by
    unfold Operation.faultyNodesBound
    rw [if_neg (by omega)]
    omega
  have hcorrect : members.card ≤ (members \ faulty).card + faulty.card := Finset.card_le_card_sdiff_add_card
  have hsubset := Finset.card_le_card hvotes
  omega

end Orders

section Gathering

variable {requests : Nat → Request} {m : Uuid} {type : MsgType}

-- The operation has been handed to the service.
def Handed (lib : Library) (past : List (System × Occurrence)) (n : Uuid) (key : OperationKey) : Prop :=
  ∃ op ∈ handedOver lib past n, op.key lib = key

-- What lies below the low water mark has been executed, and so handed over.
theorem handed_of_low (run : (system lib parse f members faulty).Run past s)
    (hkept : (keepsCheckpoints lib).Run (history (journal past) n) (s.processes n).replica)
    (hagreed : Agreed lib parse members faulty past requests) (hn : n ∈ members) (hnf : n ∉ faulty) {x : Nat}
    (hpos : 1 ≤ x) (hlow : x ≤ (s.processes n).replica.lowWaterMark) :
    ∃ op ∈ handedOver lib past n, op.sequence = x := by
  obtain ⟨m, hm⟩ := serving_of_run run hagreed hn hnf
  obtain ⟨cp, hcp, hmark⟩ := (marked_of_run hkept).lowWaterMark (by omega)
  obtain ⟨_, hbelow, _⟩ := hm.reached cp hcp
  exact hm.applied x hpos (by omega)

variable (h : Led lib parse f members faulty past s p) (hagreed : Agreed lib parse members faulty past requests)
  (hrest : AtRest lib members faulty past s) (hkey : Called lib past p key)

include h hkey

theorem Led.place : key.view = 1 ∧ 1 ≤ key.sequence := by
  obtain ⟨envelope, hsent, htype, rfl⟩ := hkey
  obtain ⟨_, hview, hpos, _⟩ := (h.consecutive h.member h.correct).range envelope hsent htype
  exact ⟨hview.trans (view_of_run (replica_run h.member h.correct h.run.of_guard)), hpos⟩

-- Nothing else is ever accepted at its place.
theorem Led.unopposed (hn : n ∈ members) (hnf : n ∉ faulty) {step : Replica × Input}
    (hstep : step ∈ history (journal past) n) {msg : PbftMsg} (hmsg : msg.key lib = key) :
    conflictingPreprepare lib msg step.1 = false := by
  have hrun := replica_run hn hnf h.run.of_guard
  unfold conflictingPreprepare
  cases haccepted : step.1.acceptedPreprepares (msg.view, msg.sequence) with
  | none => rfl
  | some accepted =>
      have hfinal := (onward_of_run (h.keeps hn hnf) step hstep).accepted _ accepted haccepted
      have hplaced := (sound_of_run hrun).placed _ accepted hfinal
      have hsequence : accepted.sequence = key.sequence := by
        rw [← hmsg]
        exact congrArg Prod.snd hplaced
      obtain rfl := h.called_unique (h.called hn hnf hfinal) hkey hsequence
      have hhash : accepted.hash = lib.requestHash msg.requestOf := by
        rw [← hmsg]
        rfl
      simp [hhash]

include hagreed hrest

-- A message that a process has told everybody is in the records of each, which are there until the
-- operation has been executed.
theorem Led.arrives (hm : m ∈ members) (hmf : m ∉ faulty) (hn : n ∈ members) (hnf : n ∉ faulty)
    (htype : type = .preprepare ∨ type = .prepare ∨ type = .commit)
    (hspread : Spread lib (s.processes m).replica (done lib (history (journal past) m)) type key) :
    Handed lib past n key ∨ ∃ op msg, (s.processes n).replica.operations key = some op ∧ msg.type = type ∧
      Records msg ⟨m, msg⟩ op := by
  have hrun := replica_run hn hnf h.run.of_guard
  obtain ⟨hview, hpos⟩ := h.place hkey
  obtain ⟨peers, hpeers, peer, hpeer, huuid⟩ := h.peer hm hmf hn
  obtain ⟨msg, hmsg, hmsgKey, hmem⟩ := hspread peers hpeers peer hpeer
  rw [h.uuid hm hmf] at hmem
  have htelling : (⟨m, msg⟩ : Envelope) ∈
      (done lib (history (journal past) m)).filterMap (Effect.telling n) := by
    refine List.mem_filterMap.mpr ⟨_, hmem, ?_⟩
    have hcheckpoint : msg.type ≠ .checkpoint := by
      rcases htype with rfl | rfl | rfl <;> simp [hmsg]
    simp [Effect.telling, huuid, hcheckpoint]
  obtain ⟨step, hstep, hinput, hhigh⟩ := hrest.delivered m hm hmf n hn hnf _ htelling
  obtain ⟨whole, hwhole, _, _, hreplica⟩ := step_of_history hstep
  obtain ⟨before, hbefore⟩ := h.run.of_guard.visited (Or.inr ⟨whole.2, hwhole⟩)
  have hstepView : msg.view = step.1.view := by
    rw [hreplica, view_of_run (replica_run hn hnf hbefore), ← hview, ← hmsgKey]
    rfl
  have harrived := (h.prompt hn hnf).arrived (h.keeps hn hnf) hstep hinput hstepView hhigh (by rw [hmsg]; exact htype)
    fun _ => h.unopposed hkey hn hnf hstep hmsgKey
  rw [hmsgKey] at harrived
  rcases harrived with hlow | ⟨op, hop, hrecords⟩
  · left
    have hsequence : msg.sequence = key.sequence := congrArg OperationKey.sequence hmsgKey
    obtain ⟨op, hop, hplace⟩ := handed_of_low h.run.of_guard (h.keeps hn hnf) hagreed hn hnf
      (hsequence ▸ hpos) hlow
    refine ⟨op, hop, ?_⟩
    exact h.called_unique (h.called_of_handed hn hnf hop) hkey (hplace.trans hsequence)
  · exact Or.inr ⟨op, msg, hop, hmsg, hrecords⟩

-- Every correct process accepts what is called, and answers it.
theorem Led.prepares (hn : n ∈ members) (hnf : n ∉ faulty) :
    (Handed lib past n key ∨ ∃ op, (s.processes n).replica.operations key = some op ∧ op.preprepareSeen = true) ∧
      Spread lib (s.processes n).replica (done lib (history (journal past) n)) .prepare key := by
  rcases h.arrives hagreed hrest hkey h.member h.correct hn hnf (Or.inl rfl) (h.called_spread hkey) with
    hhanded | ⟨op, msg, hop, htype, hrecords⟩
  · refine ⟨Or.inl hhanded, ?_⟩
    obtain ⟨op, hop, rfl⟩ := hhanded
    exact ((h.prompt hn hnf).handed op hop).1
  · have hseen : op.preprepareSeen = true := by simpa [Records, htype] using hrecords
    refine ⟨Or.inr ⟨op, hop, hseen⟩, ?_⟩
    have hspread := ((h.prompt hn hnf).carried key op hop).prepares hseen
    rwa [h.kept hn hnf hop] at hspread

-- What all correct processes have told is in the record of each of them.
theorem Led.collects (hn : n ∈ members) (hnf : n ∉ faulty)
    (htype : type = .preprepare ∨ type = .prepare ∨ type = .commit)
    (hall : ∀ m ∈ members, m ∉ faulty →
      Spread lib (s.processes m).replica (done lib (history (journal past) m)) type key) {op : Operation}
    (hop : (s.processes n).replica.operations key = some op) :
    Handed lib past n key ∨ ∀ m ∈ members \ faulty, ∃ msg : PbftMsg, msg.type = type ∧ Records msg ⟨m, msg⟩ op := by
  by_cases hhanded : Handed lib past n key
  · exact Or.inl hhanded
  · right
    intro m hm
    obtain ⟨hmember, hcorrect⟩ := Finset.mem_sdiff.mp hm
    obtain ⟨found, msg, hfound, hmsg, hrecords⟩ :=
      (h.arrives hagreed hrest hkey hmember hcorrect hn hnf htype (hall m hmember hcorrect)).resolve_left hhanded
    obtain rfl := Option.some.inj (hfound.symm.trans hop)
    exact ⟨msg, hmsg, hrecords⟩

theorem Led.commits (hfaulty : faulty.card ≤ f) (hn : n ∈ members) (hnf : n ∉ faulty) :
    (Handed lib past n key ∨ ∃ op, (s.processes n).replica.operations key = some op ∧ op.isPrepared = true) ∧
      Spread lib (s.processes n).replica (done lib (history (journal past) n)) .commit key := by
  have hhand : Handed lib past n key →
      Spread lib (s.processes n).replica (done lib (history (journal past) n)) .commit key := by
    rintro ⟨op, hop, rfl⟩
    exact ((h.prompt hn hnf).handed op hop).2
  rcases (h.prepares hagreed hrest hkey hn hnf).1 with hhanded | ⟨op, hop, hseen⟩
  · exact ⟨Or.inl hhanded, hhand hhanded⟩
  · rcases h.collects hagreed hrest hkey hn hnf (Or.inr (Or.inl rfl))
      (fun m hm hmf => (h.prepares hagreed hrest hkey hm hmf).2) hop with hhanded | hvotes
    · exact ⟨Or.inl hhanded, hhand hhanded⟩
    · have hsubset : members \ faulty ⊆ op.preparesSeen := by
        intro m hm
        obtain ⟨msg, htype, hrecords⟩ := hvotes m hm
        simpa [Records, htype] using hrecords
      have hprepared : op.isPrepared = true := by
        simpa [Operation.isPrepared, hseen] using h.enough hfaulty hn hnf hop hsubset
      refine ⟨Or.inr ⟨op, hop, hprepared⟩, ?_⟩
      have hcarried := (h.prompt hn hnf).carried key op hop
      have hspread := hcarried.commits fun hstate => by
        rw [hcarried.preparing hstate] at hprepared
        cases hprepared
      rwa [h.kept hn hnf hop] at hspread

-- Every correct process hands over what is called.
theorem Led.hands (hfaulty : faulty.card ≤ f) (hn : n ∈ members) (hnf : n ∉ faulty) : Handed lib past n key := by
  rcases (h.commits hagreed hrest hkey hfaulty hn hnf).1 with hhanded | ⟨op, hop, hprepared⟩
  · exact hhanded
  · rcases h.collects hagreed hrest hkey hn hnf (Or.inr (Or.inr rfl))
      (fun m hm hmf => (h.commits hagreed hrest hkey hfaulty hm hmf).2) hop with hhanded | hvotes
    · exact hhanded
    · have hsubset : members \ faulty ⊆ op.commitsSeen := by
        intro m hm
        obtain ⟨msg, htype, hrecords⟩ := hvotes m hm
        simpa [Records, htype] using hrecords
      have hcommitted : op.isCommitted = true := by
        simpa [Operation.isCommitted, hprepared] using h.enough hfaulty hn hnf hop hsubset
      have hcarried := (h.prompt hn hnf).carried key op hop
      cases hstate : op.state with
      | prepare =>
          rw [hcarried.preparing hstate] at hprepared
          cases hprepared
      | commit =>
          rw [hcarried.committing hstate] at hcommitted
          cases hcommitted
      | committed =>
          obtain ⟨other, hother, hsame⟩ := hcarried.applied hstate
          exact ⟨other, hother, hsame.trans (h.kept hn hnf hop)⟩

end Gathering

section Services

variable {requests : Nat → Request} {ops : List Operation} {reached : List Checkpoint} {log : List DatabaseMsg}
  {process : Process} {m : Nat}

-- What was handed to a service waits for its call, or waits for the one before it, or was executed.
structure Awaiting (ops : List Operation) (log : List DatabaseMsg) (p : Process) : Prop where
  next : p.service.record (log.length + 1) = none
  pending : ∀ op ∈ ops, .applyOperation op ∈ p.jobs ∨ op.sequence ≤ log.length ∨
    (p.service.record op.sequence).isSome = true

theorem Awaiting.call (h : Awaiting ops log process) (lib : Library) (input : Input) :
    Awaiting (ops ++ appliedIn (input.handler lib process.replica).effects) log (process.call lib input) := by
  refine ⟨h.next, ?_⟩
  intro op hop
  rcases List.mem_append.mp hop with hold | hnew
  · rcases h.pending op hold with hjob | hlater
    · exact Or.inl (List.mem_append_left _ hjob)
    · exact Or.inr hlater
  · left
    obtain ⟨effect, heffect, happlied⟩ := List.mem_filterMap.mp hnew
    refine List.mem_append_right _ (List.mem_filterMap.mpr ⟨effect, heffect, ?_⟩)
    cases effect with
    | applyOperation other =>
        cases happlied
        rfl
    | send | forward => cases happlied

theorem Awaiting.withoutJob (h : Awaiting ops log process) {index : Nat} {request : Request} {x : Nat}
    (hjob : process.jobs[index]? = some (.execute request x)) : Awaiting ops log (process.withoutJob index) := by
  refine ⟨h.next, ?_⟩
  intro op hop
  rcases h.pending op hop with hmem | hlater
  · left
    obtain ⟨i, hi⟩ := List.mem_iff_getElem?.mp hmem
    refine List.mem_eraseIdx_iff_getElem?.mpr ⟨i, ?_, hi⟩
    rintro rfl
    rw [hjob] at hi
    cases hi
  · exact Or.inr hlater

-- A call of the service that returns has stored its request, and has gone on as far as there are
-- requests.
theorem Awaiting.serve (h : Awaiting ops log process) (hserving : Serving requests ops reached log process m)
    {index : Nat} {op : Operation} (hjob : process.jobs[index]? = some (.applyOperation op))
    (hservable : Servable parse requests op) {session : Option Session} {locks : Nat → Bool}
    (hreturns : process.returns lib parse (.perform index session locks freed) = true) :
    Awaiting ops (log ++ executedIn (applyOperation parse locks op.sequence op.request session process.service).effects)
      ((process.withoutJob index).serve parse op session locks) := by
  obtain ⟨hrequest, hparse, hpos, hlt⟩ := hservable
  have hcall : Application.handler parse requests ⟨op.sequence, session, locks⟩ process.service =
      applyOperation parse locks op.sequence op.request session process.service := by
    simp only [Application.handler, hrequest]
  rcases handler_cases hparse hserving.standing ⟨op.sequence, session, locks⟩ hpos hlt with
    ⟨hfits, _, es, m', t', hrun, hdrains, _⟩ | ⟨_, e, hrun⟩
  · rw [hcall] at hrun
    have hdrained := hdrains.drained (hserving.standing.accept hpos hlt hfits session)
    have hexecuted : executedIn (.create (Bytes.decimal op.sequence) (requests op.sequence).serialize :: es) =
        (List.range' m (m' - m)).map fun x => (requests x).operationOf := hdrained.executed
    have hlength := hserving.length
    have hle := hdrained.le
    obtain ⟨after, hafter⟩ : ∃ after, log ++ executedIn (.create (Bytes.decimal op.sequence)
        (requests op.sequence).serialize :: es) = after := ⟨_, rfl⟩
    have hcount : after.length + 1 = m' := by
      rw [← hafter, hexecuted, List.length_append, List.length_map, List.length_range']
      omega
    -- what was stored, or is stored by this call, has been executed or is stored still
    have hstored : ∀ x, ((accept op.sequence (requests op.sequence) session process.service).record x).isSome = true →
        x < m' ∨ (t'.record x).isSome = true := by
      intro x hx
      rw [show t'.record x = _ from hdrained.records x]
      by_cases hin : m ≤ x ∧ x < m'
      · exact Or.inl hin.2
      · rw [if_neg hin]
        exact Or.inr hx
    unfold Process.serve
    rw [Process.withoutJob_service, hrun]
    change Awaiting ops (log ++ executedIn (.create (Bytes.decimal op.sequence)
      (requests op.sequence).serialize :: es)) _
    rw [hafter]
    refine ⟨?_, ?_⟩
    · rw [hcount]
      exact hdrained.ended
    · intro other hother
      rcases h.pending other hother with hmem | hbefore | hrecord
      · obtain ⟨i, hi⟩ := List.mem_iff_getElem?.mp hmem
        by_cases hindex : i = index
        · subst hindex
          rw [hjob] at hi
          cases hi
          right
          rcases hstored op.sequence (by rw [accept_record, if_pos rfl]; rfl) with hdone | hstill
          · exact Or.inl (by omega)
          · exact Or.inr hstill
        · exact Or.inl (List.mem_append_left _ (List.mem_eraseIdx_iff_getElem?.mpr ⟨i, hindex, hi⟩))
      · exact Or.inr (Or.inl (by omega))
      · right
        have haccepted : ((accept op.sequence (requests op.sequence) session process.service).record
            other.sequence).isSome = true := by
          rw [accept_record]
          split
          · rfl
          · exact hrecord
        rcases hstored other.sequence haccepted with hdone | hstill
        · exact Or.inl (by omega)
        · exact Or.inr hstill
  · rw [hcall] at hrun
    simp [Process.returns, hjob, hrun] at hreturns

theorem Awaiting.step (h : Awaiting ops log process) (hserving : Serving requests ops reached log process m)
    (hops : ∀ op ∈ ops, Servable parse requests op) (event : Event)
    (hreturns : process.returns lib parse event = true) :
    Awaiting (ops ++ appliedIn (process.effects lib event)) (log ++ executedIn (process.serviceEffects parse event))
      (process.next lib parse event) := by
  cases event with
  | receive input =>
      simpa [Process.effects, Process.input, Process.serviceEffects, Process.next, executedIn] using h.call lib input
  | perform index session locks freed =>
      cases hjob : process.jobs[index]? with
      | none =>
          simpa [Process.effects, Process.input, Process.serviceEffects, Process.next, hjob, executedIn,
            appliedIn] using h
      | some job =>
          cases job with
          | applyOperation op =>
              have hop := hserving.waiting op (List.mem_of_getElem? hjob)
              have hserve := h.serve hserving hjob (hops op hop) hreturns
              simpa [Process.effects, Process.input, Process.serviceEffects, Process.next, hjob,
                appliedIn] using hserve
          | execute request x =>
              have hwithout := h.withoutJob hjob
              cases hhandler : executeHandler x freed with
              | none =>
                  simpa [Process.effects, Process.input, Process.serviceEffects, Process.next, hjob, hhandler,
                    executedIn, appliedIn] using hwithout
              | some input =>
                  simpa [Process.effects, Process.input, Process.serviceEffects, Process.next, hjob, hhandler,
                    executedIn] using hwithout.call lib input

theorem awaiting_of_run (run : ((system lib parse f members faulty).guard (Undisturbed lib parse)).Run past s)
    (hagreed : Agreed lib parse members faulty past requests) (hn : n ∈ members) (hnf : n ∉ faulty) :
    Awaiting (handedOver lib past n) (executions parse past n) (s.processes n) := by
  induction run with
  | start hinit =>
      obtain ⟨_, hservice⟩ := hinit.2 n hn hnf
      refine ⟨?_, ?_⟩
      · rw [hservice]
        exact fresh_record n ∅ _
      · intro op hop
        cases hop
  | @step past s o run henabled ih =>
      have hbefore := hagreed.before s o
      have hawaiting := ih hbefore
      by_cases hn' : o.uuid = n
      · subst hn'
        obtain ⟨m, hserving⟩ := serving_of_run run.of_guard hbefore hn hnf
        have hops : ∀ op ∈ handedOver lib past o.uuid, Servable parse requests op := by
          intro op hop
          obtain ⟨_, hpos, hhigh, hlt⟩ := handedOver_bounds hn hnf run.of_guard hop
          exact ⟨hbefore.agrees _ hn hnf op hop, hbefore.parses _ hn hnf (List.ne_nil_of_mem hop), hpos,
            hhigh.trans_lt hlt⟩
        have hstep := hawaiting.step hserving hops o.event henabled.2.1
        rw [handedOver_step, if_pos rfl, executions, if_pos rfl]
        change Awaiting _ _ ((s.act lib parse o).processes o.uuid)
        simpa only [System.act, Function.update_self] using hstep
      · rw [handedOver_step, if_neg hn', List.append_nil, executions, if_neg hn', List.append_nil]
        change Awaiting _ _ ((s.act lib parse o).processes n)
        simpa only [System.act, Function.update_of_ne (Ne.symm hn')] using hawaiting

end Services

section Completion

theorem finished_of_run (hinj : Function.Injective lib.requestHash) (hfaulty : faulty.card ≤ f)
    (run : ((system lib parse f members faulty).guard (Undisturbed lib parse)).Run past s)
    (hshort : past.length < 2 ^ 64 - 1) (hreadable : Readable lib parse members faulty past)
    (hrest : AtRest lib members faulty past s) (hp : p ∈ members) (hpf : p ∉ faulty)
    (hleads : leads (s.processes p).replica = true) (hn : n ∈ members) (hnf : n ∉ faulty) :
    Finished lib parse past s p n := by
  have hled : Led lib parse f members faulty past s p := ⟨run, hshort, hp, hpf, hleads⟩
  have hconsecutive := hled.consecutive hp hpf
  obtain ⟨requests, hagreed⟩ := agreed_of_run hinj hfaulty run.of_guard hreadable
  obtain ⟨m, hserving⟩ := serving_of_run run.of_guard hagreed hn hnf
  have hawaiting := awaiting_of_run run hagreed hn hnf
  have hlength := hserving.length
  have hlow := hserving.low
  -- whatever is called is handed over, and nothing else
  have hcalled : ∀ x, 1 ≤ x → x < (s.processes p).replica.nextIssuedSequenceNumber →
      ∃ op ∈ handedOver lib past n, op.sequence = x := by
    intro x hpos hlt
    obtain ⟨envelope, htype, hsequence, hspread⟩ := hconsecutive.spread x hpos hlt
    obtain ⟨peers, hpeers, peer, hpeer, _⟩ := hled.peer hp hpf hp
    have hkey : Called lib past p (envelope.pbft.key lib) :=
      ⟨envelope, ⟨peer, hspread peers hpeers peer hpeer⟩, htype, rfl⟩
    obtain ⟨op, hop, hsame⟩ := hled.hands hagreed hrest hkey hfaulty hn hnf
    exact ⟨op, hop, (congrArg OperationKey.sequence hsame).trans hsequence⟩
  have hbounded : ∀ op ∈ handedOver lib past n, op.sequence < (s.processes p).replica.nextIssuedSequenceNumber := by
    intro op hop
    obtain ⟨envelope, hsent, htype, hkey⟩ := hled.called_of_handed hn hnf hop
    have hsequence : envelope.pbft.sequence = op.sequence := congrArg OperationKey.sequence hkey
    rw [← hsequence]
    exact (hconsecutive.range envelope hsent htype).2.2.2
  have hcount : m = (s.processes p).replica.nextIssuedSequenceNumber := by
    apply le_antisymm
    · by_contra hmore
      obtain ⟨op, hop, hsequence⟩ := hserving.applied _ hconsecutive.low (not_le.mp hmore)
      have hbelow := hbounded op hop
      omega
    · by_contra hless
      obtain ⟨op, hop, hsequence⟩ := hcalled m hlow (not_le.mp hless)
      rcases hawaiting.pending op hop with hjob | hdone | hrecord
      · rw [hrest.performed n hn hnf] at hjob
        cases hjob
      · omega
      · rw [hsequence, ← hlength, hawaiting.next] at hrecord
        cases hrecord
  refine ⟨by omega, ?_⟩
  intro envelope hsent htype
  obtain ⟨_, _, hpos, hlt⟩ := hconsecutive.range envelope hsent htype
  refine ⟨hpos, ?_⟩
  obtain ⟨op, hop, hkey⟩ := hled.hands hagreed hrest ⟨envelope, hsent, htype, rfl⟩ hfaulty hn hnf
  have hsequence : op.sequence = envelope.pbft.sequence := congrArg OperationKey.sequence hkey
  have hrequest : op.request = envelope.pbft.requestOf := hinj (congrArg OperationKey.hash hkey)
  rw [hserving.executed, List.getElem?_map, List.getElem?_range' (by omega), Option.map_some]
  have hagrees := hagreed.agrees n hn hnf op hop
  rw [← hrequest, ← hagrees, hsequence]
  congr 3
  omega

-- One of the four members is silent. A client asks the primary, and everything arrives.
noncomputable def silentMachine : Machine System Occurrence :=
  (system openLibrary parseRead 1 {"A", "B", "C", "D"} {"D"}).guard (Undisturbed openLibrary parseRead)

noncomputable instance (s : System) (o : Occurrence) : Decidable (silentMachine.enabled s o) :=
  inferInstanceAs (Decidable (((system openLibrary parseRead 1 {"A", "B", "C", "D"} {"D"}).guard
    (Undisturbed openLibrary parseRead)).enabled s o))

theorem silentMachine_start : silentMachine.Run [] freshSystem := by
  have hpeers : (initializeConfiguration openLibrary fourPeers).current.map Configuration.sortedPeers =
      some fourPeers := by decide +kernel
  refine .start ⟨⟨rfl, ?_⟩, fun _ _ _ => ⟨rfl, rfl⟩⟩
  intro n _ _
  exact ⟨fourPeers, freshReplica n, true, construct_four n, rfl, fourPeers, hpeers, rfl, by decide⟩

def wholeRound : List Occurrence :=
  let correct := ["A", "B", "C"]
  ⟨"B", .receive (.request (readRequest "x") "")⟩ ::
    (correct.map fun n => ⟨n, .receive (.first .preprepare "x" "B")⟩) ++
    (correct.flatMap fun n => correct.map fun sender => ⟨n, .receive (.first .prepare "x" sender)⟩) ++
    (correct.flatMap fun n => correct.map fun sender => ⟨n, .receive (.first .commit "x" sender)⟩) ++
    (correct.flatMap fun n => List.replicate 2 ⟨n, .perform 0 none (fun _ => false) (zeroedLate 0)⟩)

noncomputable def roundRun : List (System × Occurrence) × System := silentMachine.replay [] freshSystem wholeRound

theorem run_roundRun : silentMachine.Run roundRun.1 roundRun.2 :=
  silentMachine_start.replay wholeRound (by decide +kernel)

instance (msg : PbftMsg) (original : Envelope) : (input : Input) → Decidable (input = .message msg original)
  | .message other sent => decidable_of_iff (other = msg ∧ sent = original) (by simp)
  | .request .. | .membership _ | .checkpointReachedLocally .. | .auditHeartbeatTimeout _ | .failure =>
      isFalse (by simp)

theorem atRest_roundRun : AtRest openLibrary {"A", "B", "C", "D"} {"D"} roundRun.1 roundRun.2 :=
  ⟨by decide +kernel, by decide +kernel⟩

theorem readable_roundRun : Readable openLibrary parseRead {"A", "B", "C", "D"} {"D"} roundRun.1 := by
  intro n hmember hcorrect
  have hn : n = "A" ∨ n = "B" ∨ n = "C" := by
    simp only [Finset.mem_insert, Finset.mem_singleton] at hmember hcorrect
    tauto
  rcases hn with rfl | rfl | rfl <;> decide +kernel

theorem finished_of_run_silent : (roundRun.2.processes "B").replica.nextIssuedSequenceNumber = 2 ∧
    executions parseRead roundRun.1 "A" = [{ command := .read "x" }] ∧
    Finished openLibrary parseRead roundRun.1 roundRun.2 "B" "A" := by
  refine ⟨by decide +kernel, by decide +kernel, ?_⟩
  exact finished_of_run requestText_injective (by decide) run_roundRun (by decide +kernel) readable_roundRun
    atRest_roundRun (by decide) (by decide) (by decide +kernel) (by decide) (by decide)

end Completion

end SwarmDB.Pbft
