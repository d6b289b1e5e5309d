import SwarmDB.Pbft.Configuration.Peers
import SwarmDB.Pbft.Replica.Quorums

namespace SwarmDB.Pbft

open Replica

section Changes

-- A peer that wants to join or to leave.
structure Change where
  type : MembershipType
  peer : PeerAddress
  deriving DecidableEq, Repr

-- The peers before the change and those after it.
def Change.Makes (change : Change) (before after : List PeerAddress) : Prop :=
  ∀ p, p ∈ after ↔
    match change.type with
    | .join => p ∈ before ∨ p = change.peer
    | .leave => p ∈ before ∧ ¬PeerAddress.same change.peer p = true
    | .undefined => p ∈ before

-- The same peer joins, or the same one leaves.
def Change.Alike (change other : Change) : Prop :=
  match change.type with
  | .join => other.type = .join ∧ change.peer = other.peer
  | .leave => other.type = .leave ∧ PeerAddress.same change.peer other.peer = true
  | .undefined => False

instance Change.Alike.decidable : (change other : Change) → Decidable (change.Alike other)
  | ⟨.join, _⟩, _ | ⟨.leave, _⟩, _ => inferInstanceAs (Decidable (_ ∧ _))
  | ⟨.undefined, _⟩, _ => inferInstanceAs (Decidable False)

variable (lib : Library)

-- The change that a primary proposes on a message, if its current configuration can be changed so.
def MembershipMsg.accepted (msg : MembershipMsg) (r : Replica) : Option Change :=
  match msg.peerInfo, (isPrimary r).result, r.configurations.current with
  | some info, .ok true, some config =>
    if msg.type ≠ .undefined ∧ (changedConfiguration lib msg.type info.address config).1 = true then
      some ⟨msg.type, info.address⟩
    else none
  | _, _, _ => none

def Stimulus.accepted (r : Replica) : Stimulus → Option Change
  | .input (.membership msg) => msg.accepted lib r
  | .input (.message _ _) | .input (.request _ _) | .input (.checkpointReachedLocally ..)
  | .input (.auditHeartbeatTimeout _) | .input .failure | .moveToNewConfiguration _ => none

def Change.proposed (change : Change) (config : Configuration) : Configuration :=
  (changedConfiguration lib change.type change.peer config).2

-- The changes proposed in a run, the latest first.
def changes (past : List (Replica × Stimulus)) : List Change :=
  past.filterMap fun step => step.2.accepted lib step.1

-- Each proposal makes its change to the one before it, and the first one to the current configuration.
def NoneLost (config : Configuration) : List Change → Prop
  | [] => True
  | change :: earlier =>
    change.Makes ((earlier.head?.map fun last => last.proposed lib config).getD config).peers
      (change.proposed lib config).peers ∧ NoneLost config earlier

end Changes

section Proposals

variable {lib : Library} {r : Replica} {msg : MembershipMsg} {change other : Change} {config : Configuration}

-- What has to hold for a change to be accepted.
theorem accepted_iff (hcurrent : r.configurations.current = some config) : msg.accepted lib r = some change ↔
    (isPrimary r).result = .ok true ∧ msg.type ≠ .undefined ∧
      ∃ info, msg.peerInfo = some info ∧ change = ⟨msg.type, info.address⟩ ∧
        (changedConfiguration lib msg.type info.address config).1 = true := by
  unfold MembershipMsg.accepted
  rw [hcurrent]
  cases hinfo : msg.peerInfo with
  | none => simp
  | some info =>
      cases hprimary : (isPrimary r).result with
      | error e => simp
      | ok primary =>
          cases primary with
          | false => simp
          | true =>
              simp only [true_and, Option.some.injEq, exists_eq_left']
              split
              · rename_i hchange
                simp [hchange, eq_comm]
              · rename_i hchange
                simp only [reduceCtorEq, false_iff, not_and]
                intro htype _ hchanged
                exact hchange ⟨htype, hchanged⟩

theorem handleMembershipMessage_some {info : PeerInfo} (hinfo : msg.peerInfo = some info)
    (htype : msg.type ≠ .undefined) (r : Replica) :
    handleMembershipMessage lib msg r = handleJoinOrLeave lib msg.type info r := by
  obtain ⟨type, peerInfo⟩ := msg
  obtain rfl : peerInfo = some info := hinfo
  cases type with
  | undefined => exact absurd rfl htype
  | join => rfl
  | leave => rfl

-- What is accepted is added to the store and broadcast.
theorem handleMembershipMessage_accepted (hcurrent : r.configurations.current = some config)
    (haccepted : msg.accepted lib r = some change) : handleMembershipMessage lib msg r =
      broadcastNewConfiguration lib (change.proposed lib config)
        (updateConfigurations (fun store => store.add (change.proposed lib config)) r) := by
  obtain ⟨hprimary, htype, info, hinfo, rfl, hchanged⟩ := (accepted_iff hcurrent).mp haccepted
  have hrun := Replica.isPrimary_run r
  rw [hprimary] at hrun
  rw [handleMembershipMessage_some hinfo htype]
  simp [handleJoinOrLeave, Bind.bind, Handler.bind, hrun, Handler.reads, hcurrent, hchanged, Handler.updates]
  rfl

-- Nothing comes of any other message.
theorem handleMembershipMessage_refused (hcurrent : r.configurations.current = some config)
    (hrefused : msg.accepted lib r = none) :
    (handleMembershipMessage lib msg r).state = r ∧ (handleMembershipMessage lib msg r).effects = [] := by
  cases hinfo : msg.peerInfo with
  | none => simp [handleMembershipMessage, hinfo, Pure.pure]
  | some info =>
      by_cases htype : msg.type = .undefined
      · simp [handleMembershipMessage, hinfo, htype, Pure.pure]
      · rw [handleMembershipMessage_some hinfo htype]
        have hrun := Replica.isPrimary_run r
        cases hprimary : (isPrimary r).result with
        | error e =>
            rw [hprimary] at hrun
            simp [handleJoinOrLeave, Bind.bind, Handler.bind, hrun]
        | ok primary =>
            rw [hprimary] at hrun
            cases primary with
            | false => simp [handleJoinOrLeave, Bind.bind, Handler.bind, hrun, Pure.pure]
            | true =>
                have hunchanged : ¬(changedConfiguration lib msg.type info.address config).1 = true := by
                  intro hchanged
                  have haccepted := (accepted_iff hcurrent).mpr ⟨hprimary, htype, info, hinfo, rfl, hchanged⟩
                  rw [hrefused] at haccepted
                  cases haccepted
                simp [handleJoinOrLeave, Bind.bind, Handler.bind, hrun, Handler.reads, hcurrent, hunchanged,
                  Pure.pure]

end Proposals

section Overlaps

variable {lib : Library} {r : Replica} {change other third : Change} {config : Configuration} {p q x : PeerAddress}
  {during : List (Replica × Stimulus)}

-- A change that the configuration takes, with what comes of it.
inductive Adopts (lib : Library) (config : Configuration) : Change → Prop
  | join {peer : PeerAddress} (hfits : Configuration.Fits config.peers peer)
      (hproposed : Change.proposed lib ⟨.join, peer⟩ config =
        Configuration.rebuilt lib.toCodec (config.peers ++ [peer])) :
      Adopts lib config ⟨.join, peer⟩
  | leave {peer : PeerAddress} (hpresent : ∃ p ∈ config.peers, PeerAddress.same peer p = true)
      (hproposed : Change.proposed lib ⟨.leave, peer⟩ config =
        Configuration.rebuilt lib.toCodec (config.peers.filter fun p => !PeerAddress.same peer p)) :
      Adopts lib config ⟨.leave, peer⟩

theorem adopts_of_changed {type : MembershipType} {peer : PeerAddress} (htype : type ≠ .undefined)
    (hchanged : (changedConfiguration lib type peer config).1 = true) : Adopts lib config ⟨type, peer⟩ := by
  cases type with
  | undefined => exact absurd rfl htype
  | join =>
      by_cases hfits : Configuration.Fits config.peers peer
      · have hrun := Configuration.addPeer_fits lib.toCodec hfits
        refine .join hfits ?_
        simp only [Change.proposed, changedConfiguration, hrun, Configuration.cacheSortedPeers_eq]
      · simp [changedConfiguration, Configuration.addPeer_unfit lib.toCodec hfits] at hchanged
  | leave =>
      by_cases hpresent : config.peers.any (PeerAddress.same peer) = true
      · have hrun := Configuration.removePeer_present lib.toCodec hpresent
        refine .leave (List.any_eq_true.mp hpresent) ?_
        simp only [Change.proposed, changedConfiguration, hrun, Configuration.cacheSortedPeers_eq]
      · simp [changedConfiguration, Configuration.removePeer_absent lib.toCodec hpresent] at hchanged

theorem adopts_of_mem (hsteady : ∀ step ∈ during, step.1.configurations.current = some config)
    (hmem : change ∈ changes lib during) : Adopts lib config change := by
  obtain ⟨⟨r, stimulus⟩, hstep, haccepted⟩ := List.mem_filterMap.mp hmem
  cases stimulus with
  | moveToNewConfiguration _ => cases haccepted
  | input input =>
      cases input with
      | membership msg =>
          obtain ⟨_, htype, info, _, rfl, hchanged⟩ := (accepted_iff (hsteady _ hstep)).mp haccepted
          exact adopts_of_changed htype hchanged
      | message | request | checkpointReachedLocally | auditHeartbeatTimeout | failure =>
          cases haccepted

theorem Change.Alike.trans (h : change.Alike other) (h' : other.Alike third) : change.Alike third := by
  obtain ⟨type, peer⟩ := change
  obtain ⟨type', peer'⟩ := other
  cases type with
  | undefined => exact absurd h id
  | join =>
      obtain ⟨rfl, rfl⟩ := h
      exact h'
  | leave =>
      obtain ⟨rfl, hsame⟩ := h
      obtain ⟨htype, hsame'⟩ := h'
      exact ⟨htype, Configuration.same_trans hsame hsame'⟩

-- The first proposal makes its change to the current configuration.
theorem Adopts.makes_first (h : Adopts lib config change) :
    change.Makes config.peers (change.proposed lib config).peers := by
  cases h with
  | join hfits hproposed =>
      intro p
      rw [hproposed]
      simp
  | leave hpresent hproposed =>
      intro p
      rw [hproposed]
      simp

-- A later one makes its change to the one before it only where they are alike: the earlier peer would have to be
-- there already, or to be gone, and it is not.
theorem Adopts.makes_later (h : Adopts lib config change) (hother : Adopts lib config other) :
    change.Makes (other.proposed lib config).peers (change.proposed lib config).peers ↔ change.Alike other := by
  have hmade := h.makes_first
  have hmade' := hother.makes_first
  cases h with
  | @join peer hfits _ =>
      cases hother with
      | @join peer' hfits' _ =>
          simp only [Change.Makes, Change.Alike, true_and] at hmade hmade' ⊢
          simp only [hmade, hmade']
          constructor
          · intro hmakes
            rcases (hmakes peer').mpr (Or.inl (Or.inr rfl)) with hthere | hsame
            · exact absurd (Configuration.conflict_self peer') (hfits'.2 peer' hthere)
            · exact hsame.symm
          · rintro rfl p
            exact ⟨Or.inl, fun h => h.elim id Or.inr⟩
      | @leave peer' hpresent' _ =>
          simp only [Change.Makes, Change.Alike, reduceCtorEq, false_and, iff_false] at hmade hmade' ⊢
          simp only [hmade, hmade']
          intro hmakes
          obtain ⟨gone, hgone, hsame⟩ := hpresent'
          rcases (hmakes gone).mp (Or.inl hgone) with ⟨_, hkept⟩ | rfl
          · simp [hsame] at hkept
          · exact hfits.2 gone hgone (Configuration.conflict_self gone)
  | @leave peer hpresent _ =>
      cases hother with
      | @join peer' hfits' _ =>
          simp only [Change.Makes, Change.Alike, reduceCtorEq, false_and, iff_false] at hmade hmade' ⊢
          simp only [hmade, hmade']
          intro hmakes
          have hstays : ¬PeerAddress.same peer peer' = true := by
            intro hsame
            obtain ⟨gone, hgone, hsame'⟩ := hpresent
            have htwin := Configuration.same_trans (Configuration.same_symm hsame') hsame
            exact hfits'.2 gone hgone (Configuration.conflict_of_same htwin)
          obtain ⟨hthere, _⟩ := (hmakes peer').mpr ⟨Or.inr rfl, hstays⟩
          exact hfits'.2 peer' hthere (Configuration.conflict_self peer')
      | @leave peer' hpresent' _ =>
          simp only [Change.Makes, Change.Alike, true_and] at hmade hmade' ⊢
          simp only [hmade, hmade']
          constructor
          · intro hmakes
            obtain ⟨gone, hgone, hsame⟩ := hpresent'
            by_cases hboth : PeerAddress.same peer gone = true
            · exact Configuration.same_trans hboth (Configuration.same_symm hsame)
            · obtain ⟨⟨_, hkept⟩, _⟩ := (hmakes gone).mp ⟨hgone, hboth⟩
              exact absurd hsame hkept
          · intro hsame p
            constructor
            · rintro ⟨hp, hstays⟩
              exact ⟨⟨hp, fun hsame' => hstays (Configuration.same_trans hsame hsame')⟩, hstays⟩
            · rintro ⟨⟨hp, _⟩, hstays⟩
              exact ⟨hp, hstays⟩

theorem Adopts.listed (h : Adopts lib config change) :
    (change.proposed lib config).sortedPeers.Perm (change.proposed lib config).peers := by
  cases h with
  | join _ hproposed =>
      rw [hproposed]
      exact Configuration.cacheSortedPeers_perm lib.toCodec _
  | leave _ hproposed =>
      rw [hproposed]
      exact Configuration.cacheSortedPeers_perm lib.toCodec _

theorem noneLost_iff {proposed : List Change} (hadopts : ∀ change ∈ proposed, Adopts lib config change) :
    NoneLost lib config proposed ↔ proposed.Pairwise Change.Alike := by
  induction proposed with
  | nil => simp [NoneLost]
  | cons change earlier ih =>
      obtain ⟨hchange, hearlier⟩ := List.forall_mem_cons.mp hadopts
      cases earlier with
      | nil => simp [NoneLost, hchange.makes_first]
      | cons last rest =>
          have hlast := hearlier last List.mem_cons_self
          have hsplit : (change :: last :: rest).Pairwise Change.Alike ↔
              (∀ other ∈ last :: rest, change.Alike other) ∧ (last :: rest).Pairwise Change.Alike := List.pairwise_cons
          rw [NoneLost, ih hearlier, hsplit]
          apply and_congr_left
          intro hpairwise
          have hmakes : change.Makes (((last :: rest).head?.map fun last => last.proposed lib config).getD config).peers
              (change.proposed lib config).peers ↔ change.Alike last := hchange.makes_later hlast
          rw [hmakes, List.forall_mem_cons]
          constructor
          · intro halike
            exact ⟨halike, fun other hother => halike.trans ((List.pairwise_cons.mp hpairwise).1 other hother)⟩
          · exact And.left

end Overlaps

section Segments

variable {lib : Library} {r : Replica} {stimuli : List Stimulus} {config : Configuration}

-- What the primary does about a message while a configuration is current.
def Answers (lib : Library) (config : Configuration) (r : Replica) (msg : MembershipMsg) : Prop :=
  match msg.accepted lib r with
  | some change => handleMembershipMessage lib msg r =
      broadcastNewConfiguration lib (change.proposed lib config)
        (updateConfigurations (fun store => store.add (change.proposed lib config)) r) ∧
      (change.proposed lib config).sortedPeers.Perm (change.proposed lib config).peers
  | none => (handleMembershipMessage lib msg r).state = r ∧ (handleMembershipMessage lib msg r).effects = []

-- While one configuration is current, no change is lost just where all that are proposed are alike: a proposal
-- starts from the current configuration, whatever has been proposed before.
theorem none_lost_iff (hsteady : ∀ step ∈ ((reconfigurable lib).replay [] r stimuli).1,
      step.1.configurations.current = some config) :
    (∀ s msg, (s, .input (.membership msg)) ∈ ((reconfigurable lib).replay [] r stimuli).1 →
      Answers lib config s msg) ∧
    (NoneLost lib config (changes lib ((reconfigurable lib).replay [] r stimuli).1) ↔
      (changes lib ((reconfigurable lib).replay [] r stimuli).1).Pairwise Change.Alike) := by
  refine ⟨?_, noneLost_iff fun change hmem => adopts_of_mem hsteady hmem⟩
  intro s msg hstep
  have hcurrent := hsteady _ hstep
  unfold Answers
  cases haccepted : msg.accepted lib s with
  | none => exact handleMembershipMessage_refused hcurrent haccepted
  | some change =>
      have hmem : change ∈ changes lib _ := List.mem_filterMap.mpr ⟨_, hstep, haccepted⟩
      exact ⟨handleMembershipMessage_accepted hcurrent haccepted, (adopts_of_mem hsteady hmem).listed⟩

-- Somebody asks the primary of the four peers to let it join.
def joining (name : String) (port : Nat) : Stimulus :=
  .input (.membership { type := .join, peerInfo := some ⟨"127.0.0.1", port, port + 1, name, name⟩ })

theorem none_lost_iff_repeated :
    let during := ((reconfigurable openLibrary).replay [] (freshReplica "B")
      [joining "erin" 60000, joining "erin" 60000]).1
    (changes openLibrary during).length = 2 ∧
      NoneLost openLibrary (configurationOf fourPeers) (changes openLibrary during) :=
  ⟨by decide +kernel, (none_lost_iff (by decide +kernel)).2.mpr (by decide +kernel)⟩

-- The second proposal does without the peer of the first.
theorem none_lost_broken : ¬∀ (lib : Library) (r : Replica) (stimuli : List Stimulus) (config : Configuration),
    (∀ step ∈ ((reconfigurable lib).replay [] r stimuli).1, step.1.configurations.current = some config) →
      NoneLost lib config (changes lib ((reconfigurable lib).replay [] r stimuli).1) := by
  intro h
  have hnone := h openLibrary (freshReplica "B") [joining "erin" 60000, joining "frank" 61000]
    (configurationOf fourPeers) (by decide +kernel)
  have hmakes := hnone.1 ⟨"127.0.0.1", 60000, 60001, "erin", "erin"⟩
  exact absurd hmakes (by decide +kernel)

end Segments

end SwarmDB.Pbft
