import SwarmDB.Quorum
import SwarmDB.Pbft.Replica.Safety

namespace SwarmDB.Pbft

open Replica

-- The replicas, and every envelope that one of them sent.
structure Swarm where
  replicas : Uuid → Replica
  sent : List Envelope

-- One replica gets one input.
structure Action where
  uuid : Uuid
  input : Input

def Effect.envelope : Effect → Option Envelope
  | .send _ (.pbft envelope) => some envelope
  | _ => none

namespace Swarm

variable (lib : Library) (members faulty : Finset Uuid) (s : Swarm) (a : Action)

def outcome : Outcome Replica Effect Exception Unit := a.input.handler lib (s.replicas a.uuid)

def act : Swarm where
  replicas := Function.update s.replicas a.uuid (s.outcome lib a).state
  sent := s.sent ++ (s.outcome lib a).effects.filterMap Effect.envelope

-- An envelope names its sender, a member. From a faulty one anything may come, from any other
-- only what it sent, at any time and any number of times, to whomever.
def Receivable : Input → Prop
  | .message msg original => msg = original.pbft ∧ original.sender ∈ members ∧
      (original.sender ∈ faulty ∨ original ∈ s.sent)
  | _ => True

instance : (input : Input) → Decidable (s.Receivable members faulty input)
  | .message msg original => inferInstanceAs (Decidable (msg = original.pbft ∧ original.sender ∈ members ∧
      (original.sender ∈ faulty ∨ original ∈ s.sent)))
  | .request .. | .membership .. | .checkpointReachedLocally .. | .auditHeartbeatTimeout .. | .failure =>
    inferInstanceAs (Decidable True)

end Swarm

-- The replica is configured with 3f+1 peers, and these are the members.
def ConfiguredFor (f : Nat) (members : Finset Uuid) (r : Replica) : Prop :=
  ∃ peers, r.configured = some peers ∧ peers.length = 3 * f + 1 ∧
    (peers.map PeerAddress.uuid).toFinset = members

-- The members that are not faulty run pbft.
def swarm (lib : Library) (f : Nat) (members faulty : Finset Uuid) : Machine Swarm Action where
  init s := s.sent = [] ∧ ∀ n ∈ members, n ∉ faulty → ∃ peers fresh setting,
    construct lib peers n = .ok fresh ∧ s.replicas n = fresh.setAuditEnabled setting ∧
      ConfiguredFor f members fresh
  enabled s a := a.uuid ∈ members ∧ a.uuid ∉ faulty ∧ s.Receivable members faulty a.input
  next s a := s.act lib a

instance (lib : Library) (f : Nat) (members faulty : Finset Uuid) (s : Swarm) (a : Action) :
    Decidable ((swarm lib f members faulty).enabled s a) :=
  inferInstanceAs (Decidable (a.uuid ∈ members ∧ a.uuid ∉ faulty ∧ s.Receivable members faulty a.input))

-- The steps of one replica in a run of them all.
def history (past : List (Swarm × Action)) (n : Uuid) : List (Replica × Input) :=
  Machine.life Swarm.replicas Action.uuid Action.input past n

variable {lib : Library} {f : Nat} {members faulty : Finset Uuid} {past : List (Swarm × Action)}
  {s : Swarm} {n : Uuid}

-- A replica that is not faulty lives the life of a single one.
theorem history_run (hmember : n ∈ members) (hcorrect : n ∉ faulty)
    (run : (swarm lib f members faulty).Run past s) : (lifetime lib).Run (history past n) (s.replicas n) := by
  refine Machine.Member.run ⟨?_, ?_, ?_⟩ run
  · intro s hinit
    obtain ⟨peers, fresh, setting, hfresh, hreplica, _⟩ := hinit.2 n hmember hcorrect
    exact ⟨peers, n, fresh, setting, hfresh, hreplica⟩
  · intro s a _ huuid
    subst huuid
    exact ⟨trivial, Function.update_self ..⟩
  · intro s a huuid
    exact Function.update_of_ne (Ne.symm huuid) ..

theorem history_self (past : List (Swarm × Action)) (s : Swarm) (a : Action) :
    history ((s, a) :: past) a.uuid = (s.replicas a.uuid, a.input) :: history past a.uuid :=
  Machine.life_self past s a

theorem history_other (past : List (Swarm × Action)) (s : Swarm) {a : Action} (h : n ≠ a.uuid) :
    history ((s, a) :: past) n = history past n :=
  Machine.life_other past s h

section Agreement

-- Who a replica is and whom it counts on stays the same.
structure Identity (f : Nat) (members : Finset Uuid) (n : Uuid) (r : Replica) : Prop where
  uuid : r.uuid = n
  configured : ConfiguredFor f members r

theorem Identity.of_eq {r r' : Replica} (h : Identity f members n r) (huuid : r'.uuid = r.uuid)
    (hconfigured : r'.configured = r.configured) : Identity f members n r' := by
  refine ⟨huuid.trans h.uuid, ?_⟩
  unfold ConfiguredFor
  rw [hconfigured]
  exact h.configured

theorem identity_fresh {peers : List PeerAddress} {fresh : Replica} {setting : Bool}
    (hfresh : construct lib peers n = .ok fresh) (hconfigured : ConfiguredFor f members fresh) :
    Identity f members n (fresh.setAuditEnabled setting) := by
  refine ⟨?_, hconfigured⟩
  unfold construct at hfresh
  split at hfresh
  · cases hfresh
  · cases hfresh
    rfl

theorem identity_handler {r : Replica} (h : Identity f members n r) (hsound : Sound lib r) (input : Input) :
    Identity f members n (input.handler lib r).state := by
  refine (handler_turn lib input hsound.kept).keeps ?_ ?_ h
  · intro r es r' hmove h
    exact h.of_eq hmove.unmoved.uuid hmove.unmoved.configured
  · intro r es r' hclear h
    cases hclear with
    | side hbeside _ => exact h.of_eq hbeside.uuid hbeside.configured
    | clear cp => exact h.of_eq rfl rfl

theorem identity_of_run (hmember : n ∈ members) (hcorrect : n ∉ faulty)
    (run : (swarm lib f members faulty).Run past s) : Identity f members n (s.replicas n) := by
  induction run with
  | start hinit =>
      obtain ⟨peers, fresh, setting, hfresh, hreplica, hconfigured⟩ := hinit.2 n hmember hcorrect
      rw [hreplica]
      exact identity_fresh hfresh hconfigured
  | @step past s a run _ ih =>
      change Identity f members n (Function.update s.replicas a.uuid (s.outcome lib a).state n)
      by_cases hn : n = a.uuid
      · subst hn
        rw [Function.update_self]
        exact identity_handler ih (sound_of_run (history_run hmember hcorrect run)) a.input
      · rw [Function.update_of_ne hn]
        exact ih

-- What was sent has a replica that sent it.
theorem sent_of_run (run : (swarm lib f members faulty).Run past s) {envelope : Envelope}
    (hsent : envelope ∈ s.sent) :
    ∃ n ∈ members, n ∉ faulty ∧ Sent (done lib (history past n)) envelope := by
  induction run with
  | start hinit =>
      rw [hinit.1] at hsent
      cases hsent
  | @step past s a run henabled ih =>
      rcases List.mem_append.mp hsent with hold | hnew
      · obtain ⟨n, hmember, hcorrect, peer, hmem⟩ := ih hold
        refine ⟨n, hmember, hcorrect, peer, ?_⟩
        by_cases hn : n = a.uuid
        · subst hn
          rw [history_self]
          exact List.mem_append_left _ hmem
        · rw [history_other past s hn]
          exact hmem
      · obtain ⟨effect, hmem, henvelope⟩ := List.mem_filterMap.mp hnew
        obtain ⟨peer, rfl⟩ : ∃ peer, effect = .send peer (.pbft envelope) := by
          unfold Effect.envelope at henvelope
          split at henvelope
          · cases henvelope
            exact ⟨_, rfl⟩
          · cases henvelope
        refine ⟨a.uuid, henabled.1, henabled.2.1, peer, ?_⟩
        rw [history_self]
        exact List.mem_append_right _ hmem

-- What was received is authentic.
theorem received_of_run (run : (swarm lib f members faulty).Run past s) {step : Swarm × Action}
    (hstep : step ∈ past) {msg : PbftMsg} {original : Envelope}
    (hinput : step.2.input = .message msg original) :
    msg = original.pbft ∧ original.sender ∈ members ∧
      (original.sender ∈ faulty ∨ original ∈ s.sent) := by
  induction run with
  | start => cases hstep
  | @step past s a run henabled ih =>
      have hreceived : msg = original.pbft ∧ original.sender ∈ members ∧
          (original.sender ∈ faulty ∨ original ∈ s.sent) := by
        rcases List.mem_cons.mp hstep with rfl | hstep
        · have hreceivable := henabled.2.2
          rw [hinput] at hreceivable
          exact hreceivable
        · exact ih hstep
      obtain ⟨hmsg, hmember, hfaulty | hsent⟩ := hreceived
      · exact ⟨hmsg, hmember, Or.inl hfaulty⟩
      · exact ⟨hmsg, hmember, Or.inr (List.mem_append_left _ hsent)⟩

-- A replica sent a prepare message for the key.
def Prepares (lib : Library) (past : List (Swarm × Action)) (n : Uuid) (key : OperationKey) : Prop :=
  ∃ envelope, Sent (done lib (history past n)) envelope ∧ envelope.pbft.type = .prepare ∧
    envelope.pbft.key lib = key

-- Whoever was heard to prepare is a member, and did prepare if it is not faulty.
theorem prepares_of_heard (run : (swarm lib f members faulty).Run past s) {sender : Uuid}
    {key : OperationKey} (h : Heard lib (history past n) sender key) :
    sender ∈ members ∧ (sender ∉ faulty → Prepares lib past sender key) := by
  obtain ⟨step, hmem, msg, original, hinput, htype, hkey, rfl⟩ := h
  obtain ⟨whole, hwhole, _, rfl⟩ := Machine.mem_life hmem
  obtain ⟨rfl, hmember, hauthentic⟩ := received_of_run run hwhole hinput
  refine ⟨hmember, ?_⟩
  intro hcorrect
  have hsent := hauthentic.resolve_left hcorrect
  obtain ⟨m, hm, hmcorrect, hmsent⟩ := sent_of_run run hsent
  have hvote : original.pbft.isVote = true := by simp [PbftMsg.isVote, htype]
  obtain ⟨hsender, _⟩ := votes_of_run (history_run hm hmcorrect run) original hmsent hvote
  rw [(identity_of_run hm hmcorrect run).uuid] at hsender
  rw [hsender]
  exact ⟨original, hmsent, htype, hkey⟩

-- No correct replica prepares two requests at one place.
theorem prepares_unique (hinj : Function.Injective lib.requestHash)
    (run : (swarm lib f members faulty).Run past s) (hmember : n ∈ members) (hcorrect : n ∉ faulty)
    {key key' : OperationKey} (h : Prepares lib past n key) (h' : Prepares lib past n key')
    (hview : key.view = key'.view) (hsequence : key.sequence = key'.sequence) : key = key' := by
  obtain ⟨envelope, hsent, htype, rfl⟩ := h
  obtain ⟨envelope', hsent', htype', rfl⟩ := h'
  have hvote : envelope.pbft.isVote = true := by simp [PbftMsg.isVote, htype]
  have hvote' : envelope'.pbft.isVote = true := by simp [PbftMsg.isVote, htype']
  have hsame := vote_unique hinj (history_run hmember hcorrect run) hsent hsent' hvote hvote' hview
    hsequence
  have hrequest : envelope.pbft.requestOf = envelope'.pbft.requestOf := by
    rw [PbftMsg.requestOf, PbftMsg.requestOf, hsame]
  rw [PbftMsg.key, PbftMsg.key, hrequest]
  exact congrArg₂ (fun view sequence => OperationKey.mk view sequence _) hview hsequence

theorem card_members (run : (swarm lib f members faulty).Run past s) (hmember : n ∈ members)
    (hcorrect : n ∉ faulty) : members.card ≤ 3 * f + 1 := by
  obtain ⟨peers, _, hlength, rfl⟩ := (identity_of_run hmember hcorrect run).configured
  calc
    (peers.map PeerAddress.uuid).toFinset.card ≤ (peers.map PeerAddress.uuid).length :=
      List.toFinset_card_le _
    _ = 3 * f + 1 := by rw [List.length_map, hlength]

-- Every applied operation was prepared by more than 2f members.
theorem certified_of_applied (run : (swarm lib f members faulty).Run past s) (hmember : n ∈ members)
    (hcorrect : n ∉ faulty) {op : Operation} (hop : op ∈ appliedIn (done lib (history past n))) :
    Quorum.Certified members faulty f (Prepares lib past) (op.key lib) := by
  obtain ⟨hprepared, hpeers, hheard⟩ :=
    (tallied_of_run (history_run hmember hcorrect run)).applied op hop
  obtain ⟨peers, hconfigured, hlength, _⟩ := (identity_of_run hmember hcorrect run).configured
  obtain rfl := Option.some.inj (hpeers.symm.trans hconfigured)
  have hcount := of_decide_eq_true (Bool.and_eq_true_iff.mp hprepared).2
  have hbound : op.faultyNodesBound = f := by
    unfold Operation.faultyNodesBound
    rw [if_neg (by omega)]
    omega
  rw [hbound] at hcount
  refine ⟨op.preparesSeen, ?_, hcount, ?_⟩
  · intro sender hmem
    exact (prepares_of_heard run (hheard sender hmem)).1
  · intro sender hmem
    exact (prepares_of_heard run (hheard sender hmem)).2

theorem agreement_of_run (hinj : Function.Injective lib.requestHash) (hfaulty : faulty.card ≤ f)
    (run : (swarm lib f members faulty).Run past s) {p q : Uuid} (hp : p ∈ members) (hpf : p ∉ faulty)
    (hq : q ∈ members) (hqf : q ∉ faulty) {op op' : Operation}
    (hop : op ∈ appliedIn (done lib (history past p)))
    (hop' : op' ∈ appliedIn (done lib (history past q)))
    (hview : op.view = op'.view) (hsequence : op.sequence = op'.sequence) :
    op.request = op'.request := by
  have hcertified := certified_of_applied run hp hpf hop
  have hcertified' := certified_of_applied run hq hqf hop'
  have hkeys : op.key lib = op'.key lib := by
    refine hcertified.unique hcertified' (card_members run hp hpf) hfaulty ?_
    intro u hmember hcorrect h h'
    exact prepares_unique hinj run hmember hcorrect h h' hview hsequence
  exact hinj (congrArg OperationKey.hash hkeys)

-- Four members, of which the primary is faulty.
noncomputable def fourMachine : Machine Swarm Action := swarm openLibrary 1 {"A", "B", "C", "D"} {"B"}

noncomputable def freshSwarm : Swarm := ⟨freshReplica, []⟩

noncomputable instance (s : Swarm) (a : Action) : Decidable (fourMachine.enabled s a) :=
  inferInstanceAs (Decidable ((swarm openLibrary 1 {"A", "B", "C", "D"} {"B"}).enabled s a))

theorem fourMachine_start : fourMachine.Run [] freshSwarm := by
  have hpeers : (initializeConfiguration openLibrary fourPeers).current.map Configuration.sortedPeers =
      some fourPeers := by decide +kernel
  refine .start ⟨rfl, ?_⟩
  intro n _ _
  exact ⟨fourPeers, freshReplica n, true, construct_four n, rfl, fourPeers, hpeers, rfl, by decide⟩

-- It sends one preprepare to two of the others and a different one to the third, and then
-- prepares and commits along with the two.
def twoPreprepares : List Action :=
  ⟨"C", .first .preprepare "y" "B"⟩ :: (["A", "D"].map fun n => ⟨n, .first .preprepare "x" "B"⟩) ++
    (["A", "D"].flatMap fun n => ["A", "B", "D"].map fun sender => ⟨n, .first .prepare "x" sender⟩) ++
    (["A", "D"].flatMap fun n => ["A", "B", "D"].map fun sender => ⟨n, .first .commit "x" sender⟩)

theorem agreement_of_run_four :
    let past := (fourMachine.replay [] freshSwarm twoPreprepares).1
    (∀ n ∈ ["A", "D"], (appliedIn (done openLibrary (history past n))).map Operation.request =
        [readRequest "x"]) ∧
      ∀ op ∈ appliedIn (done openLibrary (history past "A")),
        ∀ op' ∈ appliedIn (done openLibrary (history past "D")),
          op.view = op'.view → op.sequence = op'.sequence → op.request = op'.request := by
  refine ⟨by decide +kernel, ?_⟩
  intro op hop op' hop'
  exact @agreement_of_run openLibrary 1 {"A", "B", "C", "D"} {"B"} _ _ requestText_injective (by simp)
    (fourMachine_start.replay twoPreprepares (by decide +kernel)) "A" "D" (by simp) (by simp) (by simp)
    (by simp) op op' hop hop'

end Agreement

end SwarmDB.Pbft
