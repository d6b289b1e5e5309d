import SwarmDB.Pbft.Replica.Move
import Mathlib.Data.Countable.Basic
import Mathlib.Logic.Equiv.List
import Mathlib.Tactic.DeriveCountable

namespace SwarmDB.Pbft

open Replica

variable {lib : Library} {input : Input} {past : List (Replica × Input)} {r r' : Replica}
  {op : Operation} {es fs : List Effect}

section Records

namespace Operation

-- What a record has, it keeps.
structure Grows (op later : Operation) : Prop where
  request : later.request = op.request
  peers : later.peers = op.peers
  preprepareSeen : op.preprepareSeen = true → later.preprepareSeen = true
  preparesSeen : op.preparesSeen ⊆ later.preparesSeen
  committed : op.state = .committed → later.state = .committed

theorem Grows.refl (op : Operation) : Grows op op := ⟨rfl, rfl, id, Finset.Subset.refl _, id⟩

end Operation

-- The records and the accepted preprepares of a replica belong together.
structure Sound (lib : Library) (r : Replica) : Prop where
  kept : Kept lib r
  accepted : ∀ key op, r.operations key = some op → op.preprepareSeen = true →
    r.acceptedPreprepares (op.view, op.sequence) = some (op.key lib)
  placed : ∀ place key, r.acceptedPreprepares place = some key → (key.view, key.sequence) = place

theorem store_other {key : OperationKey} (h : key ≠ op.key lib) :
    (store lib op r).operations key = r.operations key :=
  Function.update_of_ne h ..

theorem store_cases {key : OperationKey} {found : Operation}
    (h : (store lib op r).operations key = some found) :
    (key = op.key lib ∧ found = op) ∨ r.operations key = some found := by
  by_cases hkey : key = op.key lib
  · subst hkey
    rw [store_self] at h
    exact Or.inl ⟨rfl, (Option.some.inj h).symm⟩
  · rw [store_other hkey] at h
    exact Or.inr h

theorem Sound.store (h : Sound lib r) (hpeers : r.configured = some op.peers)
    (hseen : op.preprepareSeen = true →
      r.acceptedPreprepares (op.view, op.sequence) = some (op.key lib)) :
    Sound lib (store lib op r) := by
  refine ⟨?_, ?_, h.placed⟩
  · intro key found hfound
    rcases store_cases hfound with ⟨rfl, rfl⟩ | hfound
    · exact ⟨rfl, hpeers⟩
    · exact h.kept key found hfound
  · intro key found hfound hprepared
    rcases store_cases hfound with ⟨rfl, rfl⟩ | hfound
    · exact hseen hprepared
    · exact h.accepted key found hfound hprepared

theorem Sound.of_beside (h : Sound lib r) (hbeside : Beside r r') : Sound lib r' := by
  obtain ⟨⟨_, _, _, hconfigured⟩, hoperations, haccepted⟩ := hbeside
  refine ⟨?_, ?_, ?_⟩
  · intro key op hop
    rw [hoperations] at hop
    rw [hconfigured]
    exact h.kept key op hop
  · intro key op hop
    rw [hoperations] at hop
    rw [haccepted]
    exact h.accepted key op hop
  · rw [haccepted]
    exact h.placed

-- Accepting again what was accepted before changes nothing.
theorem accepted_eq_key (h : Sound lib r) {key : OperationKey}
    (haccepted : r.acceptedPreprepares (op.view, op.sequence) = some key)
    (hhash : key.hash = lib.requestHash op.request) : key = op.key lib := by
  have hplace := h.placed _ _ haccepted
  obtain ⟨view, sequence, hash⟩ := key
  obtain ⟨rfl, rfl⟩ := Prod.mk.inj hplace
  dsimp only at hhash
  rw [hhash]
  rfl

theorem acceptPreprepare_kept (h : Sound lib r)
    (hfree : ∀ accepted, r.acceptedPreprepares (op.view, op.sequence) = some accepted →
      accepted.hash = lib.requestHash op.request) {place : Nat × Nat} {key : OperationKey}
    (hkey : r.acceptedPreprepares place = some key) :
    (acceptPreprepare lib op.recordPreprepare r).acceptedPreprepares place = some key := by
  by_cases hplace : place = (op.view, op.sequence)
  · subst hplace
    obtain rfl := accepted_eq_key h hkey (hfree key hkey)
    exact Function.update_self ..
  · exact (Function.update_of_ne hplace ..).trans hkey

theorem Sound.accept (h : Sound lib r) (hop : Handling lib r op)
    (hfree : ∀ accepted, r.acceptedPreprepares (op.view, op.sequence) = some accepted →
      accepted.hash = lib.requestHash op.request) :
    Sound lib (acceptPreprepare lib op.recordPreprepare r) := by
  refine ⟨?_, ?_, ?_⟩
  · intro key found hfound
    rcases store_cases hfound with ⟨rfl, rfl⟩ | hfound
    · exact ⟨rfl, hop.peers⟩
    · exact h.kept key found hfound
  · intro key found hfound hseen
    rcases store_cases hfound with ⟨rfl, rfl⟩ | hfound
    · exact Function.update_self ..
    · exact acceptPreprepare_kept h hfree (h.accepted key found hfound hseen)
  · intro place key hkey
    by_cases hplace : place = (op.view, op.sequence)
    · subst hplace
      have hnew : (acceptPreprepare lib op.recordPreprepare r).acceptedPreprepares (op.view, op.sequence) =
          some (op.key lib) := Function.update_self ..
      rw [hnew] at hkey
      cases hkey
      rfl
    · exact h.placed place key ((Function.update_of_ne hplace ..).symm.trans hkey)

theorem Move.accepted_kept (hmove : Move lib input r es r') (h : Sound lib r) {place : Nat × Nat}
    {key : OperationKey} (hkey : r.acceptedPreprepares place = some key) :
    r'.acceptedPreprepares place = some key := by
  cases hmove with
  | side hbeside _ =>
      rw [hbeside.acceptedPreprepares]
      exact hkey
  | accept _ _ _ _ hfree => exact acceptPreprepare_kept h hfree hkey
  | create | recordPrepare | recordCommit | sendPrepare | beginCommit | sendCommit | finish => exact hkey

theorem Move.sound (hmove : Move lib input r es r') (h : Sound lib r) : Sound lib r' := by
  cases hmove with
  | side hbeside _ => exact h.of_beside hbeside
  | create _ hpeers hop =>
      refine h.store hpeers ?_
      rw [hop]
      intro hseen
      cases hseen
  | accept _ _ _ hop hfree => exact h.accept hop hfree
  | recordPrepare _ _ _ hop | recordCommit _ _ _ hop | beginCommit hop _ _ | finish hop _ _ _ _ =>
      have haccepted := h.accepted _ _ hop.stored
      exact h.store hop.peers haccepted
  | sendPrepare | sendCommit => exact h

theorem Clearing.sound {erased : Prop} (hclear : Clearing erased r es r') (h : Sound lib r) : Sound lib r' := by
  cases hclear with
  | side hbeside _ => exact h.of_beside hbeside
  | clear cp =>
      refine ⟨?_, ?_, h.placed⟩
      · intro key op hop
        exact h.kept key op (Option.eq_some_of_filter_eq_some hop)
      · intro key op hop
        exact h.accepted key op (Option.eq_some_of_filter_eq_some hop)

theorem Move.unmoved (hmove : Move lib input r es r') : Unmoved r r' := by
  cases hmove with
  | side hbeside _ => exact hbeside.toUnmoved
  | create | accept | recordPrepare | recordCommit | sendPrepare | beginCommit | sendCommit | finish =>
      exact ⟨rfl, rfl, rfl, rfl⟩

theorem Operation.Grows.store {key : OperationKey} {found changed : Operation}
    (hstored : r.operations (changed.key lib) = some op) (hgrows : op.Grows changed)
    (hfound : r.operations key = some found) :
    ∃ later, (Replica.store lib changed r).operations key = some later ∧ found.Grows later := by
  by_cases hkey : key = changed.key lib
  · subst hkey
    obtain rfl := Option.some.inj (hstored.symm.trans hfound)
    exact ⟨changed, store_self, hgrows⟩
  · exact ⟨found, (store_other hkey).trans hfound, .refl found⟩

theorem Move.grows (hmove : Move lib input r es r') {key : OperationKey} {found : Operation}
    (hfound : r.operations key = some found) :
    ∃ later, r'.operations key = some later ∧ found.Grows later := by
  cases hmove with
  | side hbeside _ =>
      rw [hbeside.operations]
      exact ⟨found, hfound, .refl found⟩
  | @create op hnew _ _ =>
      have hkey : key ≠ op.key lib := by
        rintro rfl
        rw [hnew] at hfound
        cases hfound
      exact ⟨found, (store_other hkey).trans hfound, .refl found⟩
  | accept _ _ _ hop _ =>
      exact Operation.Grows.store hop.stored ⟨rfl, rfl, fun _ => rfl, Finset.Subset.refl _, id⟩ hfound
  | recordPrepare _ _ _ hop =>
      exact Operation.Grows.store hop.stored ⟨rfl, rfl, id, Finset.subset_insert _ _, id⟩ hfound
  | recordCommit _ _ _ hop =>
      exact Operation.Grows.store hop.stored ⟨rfl, rfl, id, Finset.Subset.refl _, id⟩ hfound
  | beginCommit hop hstate _ =>
      refine Operation.Grows.store hop.stored ⟨rfl, rfl, id, Finset.Subset.refl _, ?_⟩ hfound
      intro hcommitted
      rw [hstate] at hcommitted
      cases hcommitted
  | finish hop _ _ _ _ =>
      exact Operation.Grows.store hop.stored ⟨rfl, rfl, id, Finset.Subset.refl _, fun _ => rfl⟩ hfound
  | sendPrepare | sendCommit => exact ⟨found, hfound, .refl found⟩

end Records

section Effects

variable {peer : PeerAddress} {envelope : Envelope}

-- A vote is for a record of the replica whose preprepare it accepted, and a commit is for one
-- that is prepared.
theorem Move.vote_cases (hmove : Move lib input r es r') (hsend : .send peer (.pbft envelope) ∈ es)
    (hvote : envelope.pbft.isVote = true) :
    r' = r ∧ envelope.sender = r.uuid ∧ ∃ op, Handling lib r op ∧ op.preprepareSeen = true ∧
      peer ∈ op.peers ∧ (envelope.pbft = commonMessageSetup op .prepare ∨
        (envelope.pbft = commonMessageSetup op .commit ∧ op.isPrepared = true)) := by
  have hnoise : (Effect.send peer (.pbft envelope)).isQuiet = false := by simp [Effect.isQuiet, hvote]
  have hquiet : ∀ fs : List Effect, (∀ e ∈ fs, e.isQuiet = true) → .send peer (.pbft envelope) ∉ fs := by
    intro fs hall hmem
    rw [hall _ hmem] at hnoise
    cases hnoise
  cases hmove with
  | side _ hall => exact absurd hsend (hquiet _ hall)
  | finish _ _ _ hall htail =>
      rcases List.mem_append.mp hsend with hmem | hmem
      · exact absurd hmem (hquiet _ hall)
      · rcases htail with rfl | rfl
        · cases hmem
        · simp at hmem
  | sendPrepare hop hseen hsends =>
      obtain ⟨peers, hpeers, other, hmem, heq⟩ := hsends _ hsend
      cases heq
      obtain rfl := Option.some.inj (hop.peers.symm.trans hpeers)
      exact ⟨rfl, rfl, _, hop, hseen, hmem, Or.inl rfl⟩
  | sendCommit hop _ hprepared hsends =>
      obtain ⟨peers, hpeers, other, hmem, heq⟩ := hsends _ hsend
      cases heq
      obtain rfl := Option.some.inj (hop.peers.symm.trans hpeers)
      exact ⟨rfl, rfl, _, hop, (Bool.and_eq_true_iff.mp hprepared).1, hmem, Or.inr ⟨rfl, hprepared⟩⟩
  | create | accept | recordPrepare | recordCommit | beginCommit => cases hsend

def Effect.applied : Effect → Option Operation
  | .applyOperation op => some op
  | _ => none

-- The operations handed to the service.
def appliedIn (es : List Effect) : List Operation := es.filterMap Effect.applied

@[simp] theorem appliedIn_append (es fs : List Effect) :
    appliedIn (es ++ fs) = appliedIn es ++ appliedIn fs := List.filterMap_append

theorem appliedIn_quiet (h : ∀ e ∈ es, e.isQuiet = true) : appliedIn es = [] := by
  apply List.filterMap_eq_nil_iff.mpr
  intro e he
  have hquiet := h e he
  cases e with
  | send | forward => rfl
  | applyOperation op => cases hquiet

theorem appliedIn_sends {wire : Wire} (h : Sends r wire es) : appliedIn es = [] := by
  apply List.filterMap_eq_nil_iff.mpr
  intro e he
  obtain ⟨_, _, _, _, rfl⟩ := h e he
  rfl

-- A move hands over nothing, or the record it marks as committed.
theorem Move.applied_cases (hmove : Move lib input r es r') :
    appliedIn es = [] ∨ ∃ op, Handling lib r op ∧ op.state = .commit ∧ op.isCommitted = true ∧
      appliedIn es = [{ op with state := .committed }] ∧
      r' = store lib { op with state := .committed } r := by
  cases hmove with
  | side _ hquiet => exact Or.inl (appliedIn_quiet hquiet)
  | create | accept | recordPrepare | recordCommit | beginCommit => exact Or.inl rfl
  | sendPrepare _ _ hsends => exact Or.inl (appliedIn_sends hsends)
  | sendCommit _ _ _ hsends => exact Or.inl (appliedIn_sends hsends)
  | finish hop hstate hcommitted hquiet htail =>
      rw [appliedIn_append, appliedIn_quiet hquiet]
      rcases htail with rfl | rfl
      · exact Or.inl rfl
      · exact Or.inr ⟨_, hop, hstate, hcommitted, rfl, rfl⟩

theorem Clearing.quiet {erased : Prop} (hclear : Clearing erased r es r') : ∀ e ∈ es, e.isQuiet = true := by
  cases hclear with
  | side _ hquiet => exact hquiet
  | clear => simp

end Effects

section Runs

def Input.checkpoint : Input → Option Checkpoint
  | .checkpointReachedLocally sequence stateHash _ => some (sequence, stateHash)
  | _ => none

-- The checkpoints that the service has reached, the latest first.
def reachedIn (past : List (Replica × Input)) : List Checkpoint := past.filterMap fun step => step.2.checkpoint

-- What both kinds of moves preserve, a call preserves.
theorem Turn.invariant {I : List Effect → Replica → Prop}
    (hmove : ∀ es r fs r', Sound lib r → I es r → Move lib input r fs r' → I (es ++ fs) r')
    (hclear : ∀ es s fs t, Sound lib s → I es s → Clearing (VotesFirst lib r input) s fs t → I (es ++ fs) t)
    (hturn : Turn lib input r fs r') (hsound : Sound lib r) (h : I es r) :
    Sound lib r' ∧ I (es ++ fs) r' := by
  rcases hturn with htrail | htrail
  · refine htrail.invariant (I := fun es r => Sound lib r ∧ I es r) ?_ ⟨hsound, h⟩
    rintro es r fs r' ⟨hsound, h⟩ hstep
    exact ⟨hstep.sound hsound, hmove _ _ _ _ hsound h hstep⟩
  · refine htrail.invariant (I := fun es r => Sound lib r ∧ I es r) ?_ ⟨hsound, h⟩
    rintro es r fs r' ⟨hsound, h⟩ hstep
    exact ⟨hstep.sound hsound, hclear _ _ _ _ hsound h hstep⟩

theorem Turn.keeps {P : Replica → Prop} (hmove : ∀ r es r', Move lib input r es r' → P r → P r')
    (hclear : ∀ s es t, Clearing (VotesFirst lib r input) s es t → P s → P t) (hturn : Turn lib input r fs r')
    (h : P r) : P r' := by
  rcases hturn with htrail | htrail
  · exact htrail.invariant (I := fun _ r => P r) (p := []) (fun _ r es r' h step => hmove r es r' step h) h
  · exact htrail.invariant (I := fun _ r => P r) (p := []) (fun _ r es r' h step => hclear r es r' step h) h

theorem handler_sound (hsound : Sound lib r) (input : Input) : Sound lib (input.handler lib r).state :=
  (handler_turn lib input hsound.kept).keeps (fun _ _ _ hmove h => hmove.sound h)
    (fun _ _ _ hclear h => hclear.sound h) hsound

theorem construct_fresh (hinit : (lifetime lib).init r) :
    r.operations = (fun _ => none) ∧ r.acceptedPreprepares = fun _ => none := by
  obtain ⟨peers, uuid, fresh, setting, hfresh, rfl⟩ := hinit
  unfold construct at hfresh
  split at hfresh
  · cases hfresh
  · cases hfresh
    exact ⟨rfl, rfl⟩

theorem sound_fresh (hinit : (lifetime lib).init r) : Sound lib r := by
  obtain ⟨hoperations, haccepted⟩ := construct_fresh hinit
  refine ⟨?_, ?_, ?_⟩
  · intro key op hop
    rw [hoperations] at hop
    cases hop
  · intro key op hop
    rw [hoperations] at hop
    cases hop
  · intro place key hkey
    rw [haccepted] at hkey
    cases hkey

-- Where each of the calls meets a condition, its moves may count on it.
theorem journal_of_guard {P : Replica → Input → Prop} {I : List Effect → Replica → Prop}
    (hinit : ∀ r, (lifetime lib).init r → I [] r)
    (hmove : ∀ input es r fs r', Sound lib r → I es r → Move lib input r fs r' → I (es ++ fs) r')
    (hclear : ∀ r input, P r input → ∀ es s fs t, Sound lib s → I es s →
      Clearing (VotesFirst lib r input) s fs t → I (es ++ fs) t)
    (run : ((lifetime lib).guard P).Run past r) : Sound lib r ∧ I (done lib past) r := by
  refine run.invariant (I := fun past r => Sound lib r ∧ I (done lib past) r) ?_ ?_
  · intro r h
    exact ⟨sound_fresh h, hinit r h⟩
  · intro past r input _ h henabled
    exact (handler_turn lib input h.1.kept).invariant (hmove input) (hclear r input henabled.2) h.1 h.2

theorem journal_of_run {I : List Effect → Replica → Prop} (hinit : ∀ r, (lifetime lib).init r → I [] r)
    (hmove : ∀ input es r fs r', Sound lib r → I es r → Move lib input r fs r' → I (es ++ fs) r')
    (hclear : ∀ (erased : Prop) es r fs r', Sound lib r → I es r → Clearing erased r fs r' → I (es ++ fs) r')
    (run : (lifetime lib).Run past r) : Sound lib r ∧ I (done lib past) r :=
  journal_of_guard hinit hmove (fun _ _ _ => hclear _) (run.guard_of (P := fun _ _ => True) fun _ _ => trivial)

theorem sound_of_run (run : (lifetime lib).Run past r) : Sound lib r := by
  refine (journal_of_run (I := fun _ _ => True) ?_ ?_ ?_ run).1
  all_goals simp

end Runs

section Fresh

instance charCountable : Countable Char := Function.Injective.countable fun _ _ h => Char.toNat_inj.mp h

instance stringCountable : Countable String := Function.Injective.countable fun _ _ h => String.toList_inj.mp h

instance byteCountable : Countable UInt8 := Function.Injective.countable fun _ _ h => UInt8.toNat_inj.mp h

deriving instance Countable for DatabaseHeader
deriving instance Countable for DatabaseCommand
deriving instance Countable for DatabaseMsg
deriving instance Countable for RequestType
deriving instance Countable for RequestBody
deriving instance Countable for Request

def readRequest (key : String) : Request := { body := .operation { command := .read key } }

-- The text of two requests as protobuf prints it. All others get a number.
noncomputable def requestText (request : Request) : Hash :=
  if request = readRequest "x" then "operation \x7b read \x7b key: \"x\" \x7d \x7d"
  else if request = readRequest "y" then "operation \x7b read \x7b key: \"y\" \x7d \x7d"
  else String.ofList (List.replicate ((exists_injective_nat Request).choose request) '#')

theorem requestText_injective : Function.Injective requestText := by
  have hsharp : ∀ (text : String) (n : Nat), 'o' ∈ text.toList →
      text ≠ String.ofList (List.replicate n '#') := by
    intro text n ho heq
    rw [heq, String.toList_ofList] at ho
    exact absurd (List.eq_of_mem_replicate ho) (by decide)
  intro a b h
  unfold requestText at h
  split at h
  · rename_i ha
    split at h
    · rename_i hb
      rw [ha, hb]
    · split at h
      · exact absurd h (by decide)
      · exact absurd h (hsharp _ _ (by decide))
  · split at h
    · rename_i ha
      split at h
      · exact absurd h (by decide)
      · split at h
        · rename_i hb
          rw [ha, hb]
        · exact absurd h (hsharp _ _ (by decide))
    · split at h
      · exact absurd h.symm (hsharp _ _ (by decide))
      · split at h
        · exact absurd h.symm (hsharp _ _ (by decide))
        · have hlist := congrArg String.toList h
          rw [String.toList_ofList, String.toList_ofList] at hlist
          have hlength := congrArg List.length hlist
          rw [List.length_replicate, List.length_replicate] at hlength
          exact (exists_injective_nat Request).choose_spec hlength

noncomputable def openLibrary : Library where
  parse _ := .ok none
  toStyledString _ := ""
  stdHash _ := 0
  requestHash := requestText
  validAddress _ := true

def fourPeers : List PeerAddress :=
  [⟨"127.0.0.1", 50000, 8080, "alice", "A"⟩, ⟨"127.0.0.1", 50001, 8081, "bob", "B"⟩,
    ⟨"127.0.0.1", 50002, 8082, "carol", "C"⟩, ⟨"127.0.0.1", 50003, 8083, "dave", "D"⟩]

noncomputable def freshReplica (uuid : Uuid) : Replica where
  uuid := uuid
  lowWaterMark := 0
  highWaterMark := highWaterInterval
  configurations := initializeConfiguration openLibrary fourPeers

theorem construct_four (uuid : Uuid) : construct openLibrary fourPeers uuid = .ok (freshReplica uuid) := rfl

theorem run_of_fresh (uuid : Uuid) (inputs : List Input) :
    (lifetime openLibrary).Run ((lifetime openLibrary).replay [] (freshReplica uuid) inputs).1
      ((lifetime openLibrary).replay [] (freshReplica uuid) inputs).2 := by
  have hstart : (lifetime openLibrary).Run [] (freshReplica uuid) :=
    .start ⟨fourPeers, uuid, freshReplica uuid, true, construct_four uuid, rfl⟩
  exact hstart.replay inputs (Machine.admits_of_enabled (fun _ _ => trivial) _ _)

-- A message about a read of a key in the first view, at the first sequence number.
def PbftMsg.first (type : MsgType) (key : String) : PbftMsg :=
  { type := type, view := 1, sequence := 1, request := some (readRequest key) }

def Input.first (type : MsgType) (key : String) (sender : Uuid) : Input :=
  .message (.first type key) ⟨sender, .first type key⟩

-- The primary sends two preprepares, and three peers prepare and commit the earlier one.
def oneRound : List Input :=
  [.first .prepare "x" "C", .first .preprepare "x" "B", .first .preprepare "y" "B"] ++
    ["A", "B"].map (.first .prepare "x") ++ ["A", "B", "C"].map (.first .commit "x")

-- The checkpoint messages of the three peers of A.
def checkpointVotes (sequence : Nat) : List Input :=
  let reached : PbftMsg := { type := .checkpoint, view := 1, sequence := sequence, stateHash := "h" }
  ["B", "C", "D"].map fun sender => .message reached ⟨sender, reached⟩

-- Freed memory that keeps what it held until the operations have been gone through, and is zero then.
def zeroedLate (sequence : Nat) : Reads := ⟨sequence, fun _ => sequence, 0, 0, 0⟩

end Fresh

end SwarmDB.Pbft
