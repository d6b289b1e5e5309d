import SwarmDB.Pbft.Service

namespace SwarmDB.Pbft

open Bytes Service

variable {parse : Bytes → Option Request} {requests : Nat → Request} {locks : Nat → Bool}
  {s t : Service} {m n x : Nat} {es : List ServiceEffect}

theorem decimal_ne_key (x : Nat) : decimal x ≠ nextRequestSequenceKey := by
  intro h
  have hdigits := congrArg toAscii h
  rw [toAscii_decimal] at hdigits
  have hmem : 'n' ∈ Nat.toDigits 10 x := by
    rw [hdigits]
    decide +kernel
  exact absurd (Nat.isDigit_of_mem_toDigits (by decide) (by decide) hmem) (by decide)

-- The counter and the records do not get in each other's way.
theorem record_ne_counter (uuid : Uuid) (x : Nat) : (uuid, decimal x) ≠ (uuid, nextRequestSequenceKey) := by
  intro h
  exact decimal_ne_key x (Prod.ext_iff.mp h).2

theorem record_ne_record (uuid : Uuid) (h : x ≠ n) : (uuid, decimal x) ≠ (uuid, decimal n) := by
  intro hplace
  exact h (decimal_injective (Prod.ext_iff.mp hplace).2)

theorem decimal_fits (h : x < 2 ^ 64) : (decimal x).length ≤ 20 := by
  refine decimal_length_le (by decide) ?_
  omega

namespace Service

-- The record of a sequence number in the unstable storage.
def record (s : Service) (x : Nat) : Option Bytes := s.unstable.lookup (s.uuid, decimal x)

-- The service waits for the sequence number m, and the unstable storage has the counter and some of the
-- requests. The counter wraps around after the last sequence number, which is then waited for in vain.
structure Standing (requests : Nat → Request) (m : Nat) (s : Service) : Prop where
  next : s.nextRequestSequence = m % 2 ^ 64
  bound : m ≤ 2 ^ 64
  counter : s.unstable.lookup (s.uuid, nextRequestSequenceKey) = some (decimal (m % 2 ^ 64))
  records : ∀ x bytes, s.record x = some bytes → 1 ≤ x ∧ x < 2 ^ 64 ∧ bytes = (requests x).serialize ∧
    bytes.length ≤ maxValueSize

theorem Standing.lt_of_record (h : Standing requests m s) (hx : (s.record x).isSome = true) : x < 2 ^ 64 := by
  obtain ⟨bytes, hbytes⟩ := Option.isSome_iff_exists.mp hx
  exact (h.records x bytes hbytes).2.1

theorem Standing.record_eq (h : Standing requests m s) (hx : (s.record x).isSome = true) :
    s.record x = some (requests x).serialize := by
  obtain ⟨bytes, hbytes⟩ := Option.isSome_iff_exists.mp hx
  rw [hbytes, (h.records x bytes hbytes).2.2.1]

-- What the loop looks for is the record of m.
theorem Standing.has_next (h : Standing requests m s) :
    s.unstable.has s.uuid (decimal s.nextRequestSequence) = (s.record m).isSome := by
  rw [MemStorage.has_eq, h.next]
  change (s.record (m % 2 ^ 64)).isSome = _
  rcases Nat.lt_or_eq_of_le h.bound with hlt | rfl
  · rw [Nat.mod_eq_of_lt hlt]
  · rw [Nat.mod_self]
    have hzero : s.record 0 = none := by
      by_contra hsome
      have hpos := h.records 0 _ (Option.eq_some_of_isSome (Option.isSome_iff_ne_none.mpr hsome))
      omega
    have hend : s.record (2 ^ 64) = none := by
      by_contra hsome
      have hlt := h.lt_of_record (Option.isSome_iff_ne_none.mpr hsome)
      omega
    rw [hzero, hend]

-- One turn of the loop.
def advance (request : Request) (s : Service) : Service :=
  let next := (s.nextRequestSequence + 1) % 2 ^ 64
  { s with
    nextRequestSequence := next
    unstable := (s.unstable.erase (s.uuid, decimal s.nextRequestSequence)).insert
      (s.uuid, nextRequestSequenceKey) (decimal next)
    database := Crud.written s.database request.operationOf }

def turn (locks : Nat → Bool) (request : Request) (s : Service) : List ServiceEffect :=
  [.execute s.nextRequestSequence request.operationOf (awaitingSession locks s s.nextRequestSequence),
    .post request s.nextRequestSequence, .remove (decimal s.nextRequestSequence),
    .update nextRequestSequenceKey (decimal ((s.nextRequestSequence + 1) % 2 ^ 64))]

-- It does what it does whether or not there is a counter to save.
theorem executeNext_found {request : Request} {bytes : Bytes} (hread : s.record s.nextRequestSequence = some bytes)
    (hparse : parse bytes = some request) :
    executeNext parse locks s = ⟨{ advance request s with
      unstable := (MemStorage.update s.uuid nextRequestSequenceKey (decimal ((s.nextRequestSequence + 1) % 2 ^ 64))
        (s.unstable.erase (s.uuid, decimal s.nextRequestSequence))).2 }, turn locks request s, .ok ()⟩ := by
  have hread' : s.unstable.read s.uuid (decimal s.nextRequestSequence) = some bytes := hread
  have hremove : s.unstable.remove s.uuid (decimal s.nextRequestSequence) =
      (.ok, s.unstable.erase (s.uuid, decimal s.nextRequestSequence)) := by
    apply MemStorage.remove_ok
    rw [show s.unstable.lookup _ = _ from hread]
    rfl
  simp [executeNext, Bind.bind, Handler.bind, Handler.reads, hread', hparse, crudHandleRequest, Handler.emits,
    unstableRemove, hremove, Handler.updates, saveNextRequestSequence, unstableUpdate, Pure.pure, advance, turn,
    Crud.handleRequest_storage]

theorem executeNext_run {request : Request} (hread : s.record s.nextRequestSequence = some request.serialize)
    (hparse : parse request.serialize = some request)
    (hcounter : (s.unstable.lookup (s.uuid, nextRequestSequenceKey)).isSome = true) :
    executeNext parse locks s = ⟨advance request s, turn locks request s, .ok ()⟩ := by
  have hne := (record_ne_counter s.uuid s.nextRequestSequence).symm
  have hsave : MemStorage.update s.uuid nextRequestSequenceKey (decimal ((s.nextRequestSequence + 1) % 2 ^ 64))
      (s.unstable.erase (s.uuid, decimal s.nextRequestSequence)) = (.ok, (advance request s).unstable) := by
    apply MemStorage.update_ok
    · have hshort := decimal_fits (Nat.mod_lt (s.nextRequestSequence + 1) (by decide : 0 < 2 ^ 64))
      exact hshort.trans (by decide)
    · rw [Finmap.lookup_erase_ne hne]
      exact hcounter
  rw [executeNext_found hread hparse, hsave]

theorem advance_counter (request : Request) (s : Service) :
    (advance request s).unstable.lookup (s.uuid, nextRequestSequenceKey) =
      some (decimal ((s.nextRequestSequence + 1) % 2 ^ 64)) := Finmap.lookup_insert _

theorem advance_record (request : Request) (s : Service) (x : Nat) :
    (advance request s).record x = if x = s.nextRequestSequence then none else s.record x := by
  refine (Finmap.lookup_insert_of_ne _ (record_ne_counter s.uuid x)).trans ?_
  split
  · rename_i hx
    rw [hx]
    exact Finmap.lookup_erase ..
  · rename_i hx
    exact Finmap.lookup_erase_ne (record_ne_record s.uuid hx)

theorem Standing.advance (h : Standing requests m s) (hm : (s.record m).isSome = true) :
    Standing requests (m + 1) (advance (requests m) s) := by
  have hlt := h.lt_of_record hm
  have hnext : s.nextRequestSequence = m := h.next.trans (Nat.mod_eq_of_lt hlt)
  refine ⟨?_, hlt, ?_, ?_⟩
  · rw [← hnext]
    rfl
  · rw [← hnext]
    exact advance_counter _ s
  · intro x bytes hbytes
    rw [advance_record] at hbytes
    split at hbytes
    · cases hbytes
    · exact h.records x bytes hbytes

-- What the loop does: turns, as long as the next record is there.
inductive Drains (locks : Nat → Bool) (requests : Nat → Request) :
    Nat → Service → List ServiceEffect → Nat → Service → Prop
  | done {m : Nat} {s : Service} (hnone : s.record m = none) : Drains locks requests m s [] m s
  | next {m m' : Nat} {s s' : Service} {es : List ServiceEffect} (hsome : (s.record m).isSome = true)
      (hrest : Drains locks requests (m + 1) (advance (requests m) s) es m' s') :
      Drains locks requests m s (turn locks (requests m) s ++ es) m' s'

theorem card_advance (h : Standing requests m s) (hm : (s.record m).isSome = true) :
    (advance (requests m) s).unstable.keys.card + 1 = s.unstable.keys.card := by
  have hnext : s.nextRequestSequence = m := h.next.trans (Nat.mod_eq_of_lt (h.lt_of_record hm))
  have hkeys : (advance (requests m) s).unstable.keys = s.unstable.keys.erase (s.uuid, decimal m) := by
    have hcounter := Finmap.mem_of_lookup_eq_some h.counter
    have hne := (record_ne_counter s.uuid m).symm
    ext place
    rw [Finset.mem_erase, Finmap.mem_keys, Finmap.mem_keys]
    simp only [advance, hnext]
    rw [Finmap.mem_insert, Finmap.mem_erase]
    constructor
    · rintro (rfl | hplace)
      · exact ⟨hne, hcounter⟩
      · exact hplace
    · exact Or.inr
  have hmem : (s.uuid, decimal m) ∈ s.unstable.keys := Finmap.mem_keys.mpr (Finmap.lookup_isSome.mp hm)
  rw [hkeys]
  exact Finset.card_erase_add_one hmem

theorem drain_spec (hparse : ∀ x, parse (requests x).serialize = some (requests x)) (turns : Nat)
    (h : Standing requests m s) (henough : s.unstable.keys.card ≤ turns) :
    ∃ es m' s', drain parse locks turns s = ⟨s', es, .ok ()⟩ ∧ Drains locks requests m s es m' s' ∧
      Standing requests m' s' := by
  induction turns generalizing m s with
  | zero =>
      have hmem := Finmap.mem_keys.mpr (Finmap.mem_of_lookup_eq_some h.counter)
      have hpos := Finset.card_pos.mpr ⟨_, hmem⟩
      omega
  | succ turns ih =>
      cases hm : (s.record m).isSome with
      | false =>
          have hnone : s.record m = none := by simpa using hm
          refine ⟨[], m, s, ?_, .done hnone, h⟩
          simp [drain, Bind.bind, Handler.bind, Handler.reads, h.has_next, hm, Pure.pure]
      | true =>
          have hnext : s.nextRequestSequence = m := h.next.trans (Nat.mod_eq_of_lt (h.lt_of_record hm))
          have hread : s.record s.nextRequestSequence = some (requests m).serialize := by
            rw [hnext]
            exact h.record_eq hm
          have hrun : executeNext parse locks s =
              ⟨advance (requests m) s, turn locks (requests m) s, .ok ()⟩ :=
            executeNext_run hread (hparse m) (by rw [h.counter]; rfl)
          have hcard := card_advance h hm
          obtain ⟨es, m', s', hdrain, hdrains, hstanding⟩ := ih (h.advance hm) (by omega)
          refine ⟨turn locks (requests m) s ++ es, m', s', ?_, .next hm hdrains, hstanding⟩
          simp [drain, Bind.bind, Handler.bind, Handler.reads, h.has_next, hm, hrun, hdrain]

-- The loop takes the records from m on, as far as they go without a gap, and executes them in order.
structure Drained (requests : Nat → Request) (m : Nat) (s : Service) (es : List ServiceEffect) (m' : Nat)
    (s' : Service) : Prop where
  le : m ≤ m'
  uuid : s'.uuid = s.uuid
  stored : ∀ x, m ≤ x → x < m' → (s.record x).isSome = true
  ended : s'.record m' = none
  records : ∀ x, s'.record x = if m ≤ x ∧ x < m' then none else s.record x
  others : ∀ place, place ≠ (s.uuid, nextRequestSequenceKey) → (∀ x, place ≠ (s.uuid, decimal x)) →
    s'.unstable.lookup place = s.unstable.lookup place
  executed : executedIn es = (List.range' m (m' - m)).map fun x => (requests x).operationOf
  sequences : sequencesIn es = List.range' m (m' - m)
  database : s'.database =
    ((List.range' m (m' - m)).map fun x => (requests x).operationOf).foldl Crud.written s.database

theorem Drains.drained {m' : Nat} {s' : Service} (hdrains : Drains locks requests m s es m' s')
    (h : Standing requests m s) : Drained requests m s es m' s' := by
  induction hdrains with
  | done hnone =>
      refine ⟨le_refl _, rfl, ?_, hnone, ?_, fun _ _ _ => rfl, ?_, ?_, ?_⟩
      · intro x hle hlt
        omega
      · intro x
        rw [if_neg (by omega)]
      · simp [executedIn]
      · simp [sequencesIn]
      · simp
  | @next m m' s s' es hsome hrest ih =>
      have hnext : s.nextRequestSequence = m := h.next.trans (Nat.mod_eq_of_lt (h.lt_of_record hsome))
      have hrest := ih (h.advance hsome)
      have hle := hrest.le
      have hsplit : List.range' m (m' - m) = m :: List.range' (m + 1) (m' - (m + 1)) := by
        rw [show m' - m = m' - (m + 1) + 1 by omega, List.range'_succ]
      refine ⟨by omega, hrest.uuid, ?_, hrest.ended, ?_, ?_, ?_, ?_, ?_⟩
      · intro x hlow hhigh
        rcases Nat.eq_or_lt_of_le hlow with rfl | hlow
        · exact hsome
        · have hlater := hrest.stored x hlow hhigh
          rw [advance_record, hnext, if_neg (by omega)] at hlater
          exact hlater
      · intro x
        rw [hrest.records, advance_record, hnext]
        by_cases hx : x = m
        · rw [if_pos hx, ite_self, if_pos (by omega)]
        · rw [if_neg hx]
          by_cases hin : m ≤ x ∧ x < m'
          · rw [if_pos hin, if_pos (by omega)]
          · rw [if_neg hin, if_neg (by omega)]
      · intro place hcounter hrecords
        rw [hrest.others place hcounter hrecords]
        refine (Finmap.lookup_insert_of_ne _ hcounter).trans ?_
        exact Finmap.lookup_erase_ne (hrecords _)
      · rw [executedIn_append, hrest.executed, hsplit]
        rfl
      · rw [sequencesIn_append, hrest.sequences, hsplit, ← hnext]
        rfl
      · rw [hrest.database, hsplit]
        rfl

-- A request that has just been stored, with the session that waits for its response.
def accept (sequence : Nat) (request : Request) (session : Option Session) (s : Service) : Service :=
  { s with
    unstable := s.unstable.insert (s.uuid, decimal sequence) request.serialize
    sessionsAwaitingResponse := Function.update s.sessionsAwaitingResponse sequence (some session) }

theorem accept_record (sequence : Nat) (request : Request) (session : Option Session) (s : Service) (x : Nat) :
    (accept sequence request session s).record x =
      if x = sequence then some request.serialize else s.record x := by
  split
  · rename_i hx
    rw [hx]
    exact Finmap.lookup_insert _
  · rename_i hx
    exact Finmap.lookup_insert_of_ne _ (record_ne_record s.uuid hx)

theorem Standing.accept (h : Standing requests m s) (hpos : 1 ≤ x) (hlt : x < 2 ^ 64)
    (hfits : (requests x).serialize.length ≤ maxValueSize) (session : Option Session) :
    Standing requests m (accept x (requests x) session s) := by
  refine ⟨h.next, h.bound, ?_, ?_⟩
  · exact (Finmap.lookup_insert_of_ne _ (record_ne_counter s.uuid x).symm).trans h.counter
  · intro y bytes hbytes
    rw [accept_record] at hbytes
    split at hbytes
    · rename_i hy
      subst hy
      obtain rfl := Option.some.inj hbytes
      exact ⟨hpos, hlt, rfl, hfits⟩
    · exact h.records y bytes hbytes

-- What the storage does not take leaves the service as it was.
theorem handler_refused {call : Application} {result : StorageResult} (hresult : result ≠ .ok)
    (hcreate : s.unstable.create s.uuid (decimal call.sequence) (requests call.sequence).serialize =
      (result, s.unstable)) :
    ∃ e, call.handler parse requests s =
      ⟨s, [.create (decimal call.sequence) (requests call.sequence).serialize], .error e⟩ := by
  cases result with
  | ok => exact absurd rfl hresult
  | notFound | «exists» | notSaved | valueTooLarge | keyTooLarge =>
      simp [Application.handler, applyOperation, Bind.bind, Handler.bind, unstableCreate, hcreate, Handler.throws]

-- A call throws right away or stores its request and drains what there is then.
theorem handler_cases (hparse : ∀ x, parse (requests x).serialize = some (requests x))
    (h : Standing requests m s) (call : Application) (hpos : 1 ≤ call.sequence) (hlt : call.sequence < 2 ^ 64) :
    ((requests call.sequence).serialize.length ≤ maxValueSize ∧ s.record call.sequence = none ∧
      ∃ es m' s', call.handler parse requests s = ⟨s',
          .create (decimal call.sequence) (requests call.sequence).serialize :: es, .ok ()⟩ ∧
        Drains call.locks requests m (accept call.sequence (requests call.sequence) call.session s) es m' s' ∧
        Standing requests m' s') ∨
      (¬((requests call.sequence).serialize.length ≤ maxValueSize ∧ s.record call.sequence = none) ∧
        ∃ e, call.handler parse requests s = ⟨s,
          [.create (decimal call.sequence) (requests call.sequence).serialize], .error e⟩) := by
  have hkey : (decimal call.sequence).length ≤ maxKeySize := (decimal_fits hlt).trans (by decide)
  by_cases hgood : (requests call.sequence).serialize.length ≤ maxValueSize ∧ s.record call.sequence = none
  · left
    obtain ⟨hvalue, hfree⟩ := hgood
    refine ⟨hvalue, hfree, ?_⟩
    have hcreate := MemStorage.create_ok hvalue hkey hfree
    let stored := accept call.sequence (requests call.sequence) call.session s
    have hstored : Standing requests m stored := h.accept hpos hlt hvalue call.session
    obtain ⟨es, m', s', hdrain, hdrains, hstanding⟩ := drain_spec hparse stored.unstable.keys.card hstored
      (le_refl _)
    refine ⟨es, m', s', ?_, hdrains, hstanding⟩
    have hprocess : processAwaitingOperations parse call.locks stored = ⟨s', es, .ok ()⟩ := by
      simp [processAwaitingOperations, Bind.bind, Handler.bind, Handler.reads, hdrain]
    simp [Application.handler, applyOperation, Bind.bind, Handler.bind, unstableCreate, hcreate, Handler.updates]
    exact ⟨congrArg Outcome.state hprocess, congrArg Outcome.effects hprocess, congrArg Outcome.result hprocess⟩
  · right
    refine ⟨hgood, ?_⟩
    rcases MemStorage.create_cases s.uuid (decimal call.sequence) (requests call.sequence).serialize s.unstable with
      ⟨hvalue, hfree, _⟩ | ⟨result, hresult, hcreate⟩
    · exact absurd ⟨hvalue, hfree⟩ hgood
    · exact handler_refused hresult hcreate

theorem freshService_eq (uuid : Uuid) (database : MemStorage) : freshService uuid database =
    ⟨uuid, 1, fun _ => none, (∅ : MemStorage).insert (uuid, nextRequestSequenceKey) (decimal 1), database⟩ := by
  have hcreate : MemStorage.create uuid nextRequestSequenceKey (decimal 1) ∅ =
      (.ok, (∅ : MemStorage).insert (uuid, nextRequestSequenceKey) (decimal 1)) :=
    MemStorage.create_ok ((decimal_fits (by decide)).trans (by decide)) (by decide +kernel) (Finmap.lookup_empty _)
  simp [freshService, construct, loadNextRequestSequence, Bind.bind, Handler.bind, Handler.reads,
    MemStorage.read, Finmap.lookup_empty, unstableCreate, hcreate, Pure.pure]

theorem fresh_lookup (uuid : Uuid) (database : MemStorage) {place : Uuid × Bytes}
    (h : place ≠ (uuid, nextRequestSequenceKey)) : (freshService uuid database).unstable.lookup place = none := by
  rw [freshService_eq]
  exact (Finmap.lookup_insert_of_ne _ h).trans (Finmap.lookup_empty _)

theorem fresh_record (uuid : Uuid) (database : MemStorage) (x : Nat) :
    (freshService uuid database).record x = none := by
  apply fresh_lookup
  intro h
  exact decimal_ne_key x (Prod.ext_iff.mp h).2

theorem standing_fresh (requests : Nat → Request) (uuid : Uuid) (database : MemStorage) :
    Standing requests 1 (freshService uuid database) := by
  refine ⟨?_, by decide, ?_, ?_⟩
  · rw [freshService_eq]
    rfl
  · rw [freshService_eq]
    exact Finmap.lookup_insert _
  · intro x bytes hbytes
    rw [fresh_record] at hbytes
    cases hbytes

end Service

section Runs

variable {start : Service} {past : List (Service × Application)} {j : Nat}

def Applied (past : List (Service × Application)) (x : Nat) : Prop := ∃ step ∈ past, step.2.sequence = x

theorem applied_cons {call : Application} :
    Applied ((s, call) :: past) x ↔ x = call.sequence ∨ Applied past x := by
  constructor
  · rintro ⟨step, hmem, rfl⟩
    rcases List.mem_cons.mp hmem with rfl | hmem
    · exact Or.inl rfl
    · exact Or.inr ⟨step, hmem, rfl⟩
  · rintro (rfl | ⟨step, hmem, rfl⟩)
    · exact ⟨_, List.mem_cons_self, rfl⟩
    · exact ⟨step, List.mem_cons_of_mem _ hmem, rfl⟩

-- A request is at hand if it was applied or had been stored before.
def AtHand (start : Service) (past : List (Service × Application)) (x : Nat) : Prop :=
  (start.record x).isSome = true ∨ Applied past x

-- What holds after every call: the service started at j and now waits for m, and everything in
-- between was at hand and has been executed in order.
structure CaughtUp (parse : Bytes → Option Request) (requests : Nat → Request) (start : Service) (j : Nat)
    (past : List (Service × Application)) (s : Service) (m : Nat) : Prop where
  standing : Standing requests m s
  owner : s.uuid = start.uuid
  low : j ≤ m
  below : ∀ x, j ≤ x → x < m → AtHand start past x
  ended : past ≠ [] → ¬AtHand start past m
  records : ∀ x, j ≤ x → ((s.record x).isSome = true ↔ m ≤ x ∧ AtHand start past x)
  others : ∀ place, place ≠ (start.uuid, nextRequestSequenceKey) → (∀ x, place ≠ (start.uuid, decimal x)) →
    s.unstable.lookup place = start.unstable.lookup place
  executed : executedIn (performed parse requests past) =
    (List.range' j (m - j)).map fun x => (requests x).operationOf
  sequences : sequencesIn (performed parse requests past) = List.range' j (m - j)
  database : s.database =
    ((List.range' j (m - j)).map fun x => (requests x).operationOf).foldl Crud.written start.database
  returned : ∀ step ∈ past, (step.2.handler parse requests step.1).result = .ok ()

theorem caughtUp_start (h : Standing requests j start) : CaughtUp parse requests start j [] start j := by
  have hnone : ∀ x, ¬Applied [] x := by
    rintro x ⟨_, hmem, _⟩
    cases hmem
  refine ⟨h, rfl, le_refl j, ?_, ?_, ?_, fun _ _ _ => rfl, ?_, ?_, ?_, ?_⟩
  · intro x hle hlt
    omega
  · intro hne
    exact absurd rfl hne
  · intro x hx
    constructor
    · intro hsome
      exact ⟨hx, Or.inl hsome⟩
    · rintro ⟨_, hsome | happlied⟩
      · exact hsome
      · exact absurd happlied (hnone x)
  · simp [executedIn, performed]
  · simp [sequencesIn, performed]
  · simp
  · intro step hmem
    cases hmem

theorem range'_split {j m m' : Nat} (hlow : j ≤ m) (hle : m ≤ m') :
    List.range' j (m' - j) = List.range' j (m - j) ++ List.range' m (m' - m) := by
  rw [show m' - j = (m - j) + (m' - m) by omega, ← List.range'_append_1, show j + (m - j) = m by omega]

theorem CaughtUp.step {call : Application} (hparse : ∀ x, parse (requests x).serialize = some (requests x))
    (h : CaughtUp parse requests start j past s m) (hnew : ¬AtHand start past call.sequence)
    (hlow : j ≤ call.sequence) (hpos : 1 ≤ call.sequence) (hlt : call.sequence < 2 ^ 64)
    (hfits : (requests call.sequence).serialize.length ≤ maxValueSize) :
    ∃ m', CaughtUp parse requests start j ((s, call) :: past) (call.handler parse requests s).state m' := by
  have hfree : s.record call.sequence = none := by
    by_contra hsome
    exact hnew ((h.records _ hlow).mp (Option.isSome_iff_ne_none.mpr hsome)).2
  have hwaits : m ≤ call.sequence := by
    by_contra hlt
    exact hnew (h.below _ hlow (Nat.not_le.mp hlt))
  obtain ⟨_, _, es, m', s', hrun, hdrains, hstanding⟩ | ⟨hbad, _⟩ :=
    handler_cases hparse h.standing call hpos hlt
  · have hdrained := hdrains.drained (h.standing.accept hpos hlt hfits call.session)
    have hle := hdrained.le
    have hstart := h.low
    have hrecord := hdrained.records
    simp only [accept_record] at hrecord
    have hhand : ∀ y, AtHand start ((s, call) :: past) y ↔ y = call.sequence ∨ AtHand start past y := by
      intro y
      rw [AtHand, AtHand, applied_cons, or_left_comm]
    -- what is left after the loop is what was at hand from m' on
    have hleft : ∀ y, j ≤ y →
        ((s'.record y).isSome = true ↔ m' ≤ y ∧ AtHand start ((s, call) :: past) y) := by
      intro y hy
      rw [hrecord, hhand]
      by_cases hin : m ≤ y ∧ y < m'
      · rw [if_pos hin]
        constructor
        · intro hsome
          cases hsome
        · intro hlate
          omega
      · rw [if_neg hin]
        split
        · rename_i hsame
          constructor
          · intro _
            exact ⟨by omega, Or.inl hsame⟩
          · intro _
            rfl
        · rename_i hother
          rw [h.records y hy]
          constructor
          · rintro ⟨hm, hold⟩
            exact ⟨by omega, Or.inr hold⟩
          · rintro ⟨hm, hsame | hold⟩
            · exact absurd hsame hother
            · exact ⟨by omega, hold⟩
    rw [hrun]
    refine ⟨m', hstanding, hdrained.uuid.trans h.owner, h.low.trans hle, ?_, ?_, hleft, ?_, ?_, ?_, ?_, ?_⟩
    · intro y hy hlast
      rw [hhand]
      by_cases hold : y < m
      · exact Or.inr (h.below y hy hold)
      · have hstored := hdrained.stored y (Nat.not_lt.mp hold) hlast
        rw [accept_record] at hstored
        split at hstored
        · rename_i hsame
          exact Or.inl hsame
        · exact Or.inr ((h.records y hy).mp hstored).2
    · intro _ hlast
      have hsome := (hleft m' (h.low.trans hle)).mpr ⟨le_refl _, hlast⟩
      rw [hdrained.ended] at hsome
      cases hsome
    · intro place hcounter hrecords
      rw [← h.owner] at hcounter hrecords
      have hsame : (accept call.sequence (requests call.sequence) call.session s).unstable.lookup place =
          s.unstable.lookup place := Finmap.lookup_insert_of_ne _ (hrecords call.sequence)
      rw [hdrained.others place hcounter hrecords, hsame]
      rw [h.owner] at hcounter hrecords
      exact h.others place hcounter hrecords
    · rw [performed, hrun, executedIn_append, h.executed, range'_split h.low hle, List.map_append,
        ← hdrained.executed]
      rfl
    · rw [performed, hrun, sequencesIn_append, h.sequences, range'_split h.low hle, ← hdrained.sequences]
      rfl
    · rw [hdrained.database, range'_split h.low hle, List.map_append, List.foldl_append, ← h.database]
      rfl
    · intro step hmem
      rcases List.mem_cons.mp hmem with rfl | hmem
      · rw [hrun]
      · exact h.returned step hmem
  · exact absurd ⟨hfits, hfree⟩ hbad

-- Calls for different sequence numbers, with requests that the storage takes.
structure Admissible (requests : Nat → Request) (past : List (Service × Application)) : Prop where
  distinct : (past.map fun step => step.2.sequence).Nodup
  sequences : ∀ step ∈ past, 1 ≤ step.2.sequence ∧ step.2.sequence < 2 ^ 64
  fits : ∀ step ∈ past, (requests step.2.sequence).serialize.length ≤ maxValueSize

theorem Admissible.tail {step : Service × Application} (h : Admissible requests (step :: past)) :
    Admissible requests past :=
  ⟨h.distinct.of_cons, fun step hmem => h.sequences step (List.mem_cons_of_mem _ hmem),
    fun step hmem => h.fits step (List.mem_cons_of_mem _ hmem)⟩

-- From any start, calls for requests that are not there yet are caught up with.
theorem caughtUp_of_run (hparse : ∀ x, parse (requests x).serialize = some (requests x))
    (hstart : Standing requests j start) (run : (serving parse requests start).Run past s)
    (h : Admissible requests past)
    (hnew : ∀ step ∈ past, j ≤ step.2.sequence ∧ start.record step.2.sequence = none) :
    ∃ m, CaughtUp parse requests start j past s m := by
  induction run with
  | start hinit =>
      rw [show _ = start from hinit]
      exact ⟨j, caughtUp_start hstart⟩
  | @step past s call run _ ih =>
      obtain ⟨m, hm⟩ := ih h.tail fun step hmem => hnew step (List.mem_cons_of_mem _ hmem)
      obtain ⟨hpos, hlt⟩ := h.sequences _ List.mem_cons_self
      obtain ⟨hlow, hfree⟩ := hnew _ List.mem_cons_self
      refine hm.step hparse ?_ hlow hpos hlt (h.fits _ List.mem_cons_self)
      rintro (hsome | ⟨step, hmem, hsame⟩)
      · rw [hfree] at hsome
        cases hsome
      · exact (List.nodup_cons.mp h.distinct).1 (List.mem_map.mpr ⟨step, hmem, hsame⟩)

end Runs

section Fresh

variable {uuid : Uuid} {database : MemStorage} {past : List (Service × Application)}

-- The requests up to k were executed, once each and in order, and those above k that were applied wait
-- in the unstable storage, next to the counter.
structure ExecutedUpTo (parse : Bytes → Option Request) (requests : Nat → Request) (uuid : Uuid)
    (past : List (Service × Application)) (s : Service) (k : Nat) : Prop where
  returned : ∀ step ∈ past, (step.2.handler parse requests step.1).result = .ok ()
  executed : executedIn (performed parse requests past) =
    (List.range' 1 k).map fun x => (requests x).operationOf
  unstable : ∀ owner key value, s.unstable.lookup (owner, key) = some value ↔ owner = uuid ∧
    ((key = nextRequestSequenceKey ∧ value = decimal (k + 1)) ∨
      ∃ x, k < x ∧ Applied past x ∧ key = decimal x ∧ value = (requests x).serialize)

theorem atHand_fresh : AtHand (freshService uuid database) past x ↔ Applied past x := by
  rw [AtHand, fresh_record]
  simp

theorem caughtUp_fresh (hparse : ∀ x, parse (requests x).serialize = some (requests x))
    (run : (serving parse requests (freshService uuid database)).Run past s) (h : Admissible requests past) :
    ∃ m, CaughtUp parse requests (freshService uuid database) 1 past s m := by
  refine caughtUp_of_run hparse (standing_fresh requests uuid database) run h ?_
  intro step hmem
  exact ⟨(h.sequences step hmem).1, fresh_record uuid database _⟩

theorem CaughtUp.not_applied (h : CaughtUp parse requests (freshService uuid database) 1 past s m) :
    ¬Applied past m := by
  rintro ⟨step, hmem, hstep⟩
  exact h.ended (List.ne_nil_of_mem hmem) (atHand_fresh.mpr ⟨step, hmem, hstep⟩)

-- The sequence number that is waited for is the smallest that was not applied.
theorem CaughtUp.eq_of_smallest {k : Nat}
    (h : CaughtUp parse requests (freshService uuid database) 1 past s m)
    (hbelow : ∀ x, 1 ≤ x → x ≤ k → Applied past x) (hfirst : ¬Applied past (k + 1)) : m = k + 1 := by
  rcases Nat.lt_trichotomy m (k + 1) with hlt | heq | hgt
  · exact absurd (hbelow m h.low (by omega)) h.not_applied
  · exact heq
  · exact absurd (atHand_fresh.mp (h.below (k + 1) (by omega) hgt)) hfirst

theorem CaughtUp.executedUpTo {k : Nat}
    (h : CaughtUp parse requests (freshService uuid database) 1 past s (k + 1)) (hfits : k + 1 < 2 ^ 64) :
    ExecutedUpTo parse requests uuid past s k := by
  refine ⟨h.returned, h.executed, ?_⟩
  intro owner key value
  have howner : s.uuid = uuid := by
    rw [h.owner, freshService_eq]
  have hfresh : (freshService uuid database).uuid = uuid := by
    rw [freshService_eq]
  have hcounter := h.standing.counter
  rw [howner, Nat.mod_eq_of_lt hfits] at hcounter
  have hrecord : ∀ x, s.unstable.lookup (uuid, decimal x) = s.record x := by
    intro x
    rw [← howner]
    rfl
  constructor
  · intro hlookup
    by_cases hplace : (owner, key) = (uuid, nextRequestSequenceKey)
    · obtain ⟨rfl, rfl⟩ := Prod.mk.inj hplace
      rw [hcounter] at hlookup
      exact ⟨rfl, Or.inl ⟨rfl, (Option.some.inj hlookup).symm⟩⟩
    · by_cases hany : ∃ x, (owner, key) = (uuid, decimal x)
      · obtain ⟨x, hx⟩ := hany
        obtain ⟨rfl, rfl⟩ := Prod.mk.inj hx
        rw [hrecord] at hlookup
        obtain ⟨hpos, _, rfl, _⟩ := h.standing.records x value hlookup
        obtain ⟨hle, hhand⟩ := (h.records x hpos).mp (by rw [hlookup]; rfl)
        exact ⟨rfl, Or.inr ⟨x, hle, atHand_fresh.mp hhand, rfl, rfl⟩⟩
      · have hnone : ∀ x, (owner, key) ≠ (uuid, decimal x) := fun x hx => hany ⟨x, hx⟩
        rw [h.others _ (hfresh.symm ▸ hplace) (hfresh.symm ▸ hnone), fresh_lookup uuid database hplace] at hlookup
        cases hlookup
  · rintro ⟨rfl, ⟨rfl, rfl⟩ | ⟨x, hx, happlied, rfl, rfl⟩⟩
    · exact hcounter
    · rw [hrecord]
      exact h.standing.record_eq ((h.records x (by omega)).mpr ⟨hx, atHand_fresh.mpr happlied⟩)

theorem executedUpTo_of_run (hparse : ∀ x, parse (requests x).serialize = some (requests x))
    (run : (serving parse requests (freshService uuid database)).Run past s) (h : Admissible requests past) :
    (∀ k, (∀ x, 1 ≤ x → x ≤ k → Applied past x) → ¬Applied past (k + 1) → k + 1 < 2 ^ 64 →
        ExecutedUpTo parse requests uuid past s k) ∧
      ∀ other past' s', (serving parse requests (freshService other database)).Run past' s' →
        Admissible requests past' → (∀ x, Applied past x ↔ Applied past' x) →
        s'.database = s.database := by
  obtain ⟨m, hm⟩ := caughtUp_fresh hparse run h
  refine ⟨?_, ?_⟩
  · intro k hbelow hfirst hfits
    obtain rfl := hm.eq_of_smallest hbelow hfirst
    exact hm.executedUpTo hfits
  · intro other past' s' run' h' hsame
    obtain ⟨m', hm'⟩ := caughtUp_fresh hparse run' h'
    have hpos := hm.low
    have heq : m' = m - 1 + 1 := by
      refine hm'.eq_of_smallest ?_ ?_
      · intro x hx hlt
        exact (hsame x).mp (atHand_fresh.mp (hm.below x hx (by omega)))
      · intro happlied
        rw [Nat.sub_add_cancel hpos] at happlied
        exact hm.not_applied ((hsame m).mpr happlied)
    rw [Nat.sub_add_cancel hpos] at heq
    rw [hm'.database, hm.database, heq, freshService_eq, freshService_eq]

end Fresh

section Example

-- Two creates, the second of which is for an even sequence number.
def createRequest (key : String) (value : Bytes) : Request :=
  { body := .operation { header := some { dbUuid := "db" }, command := .create key value } }

def twoRequests (x : Nat) : Request := if x % 2 = 0 then createRequest "y" [2] else createRequest "x" [1]

def parseTwo (bytes : Bytes) : Option Request :=
  [createRequest "x" [1], createRequest "y" [2]].find? fun request => request.serialize == bytes

theorem parseTwo_twoRequests (x : Nat) : parseTwo (twoRequests x).serialize = some (twoRequests x) := by
  unfold twoRequests
  split <;> decide +kernel

theorem run_of_start (parse : Bytes → Option Request) (requests : Nat → Request) (start : Service)
    (calls : List Application) :
    (serving parse requests start).Run ((serving parse requests start).replay [] start calls).1
      ((serving parse requests start).replay [] start calls).2 :=
  Machine.Run.replay (.start rfl) calls (Machine.admits_of_enabled (fun _ _ => trivial) _ _)

-- The requests come in the wrong order, and only the client of the second is still there.
def crossedCalls : List Application :=
  [⟨2, some 7, fun x => x = 2⟩, ⟨4, none, fun _ => true⟩, ⟨1, none, fun x => x = 2⟩]

theorem executedUpTo_of_run_fresh :
    let run := (serving parseTwo twoRequests (freshService "A" ∅)).replay [] (freshService "A" ∅) crossedCalls
    executedIn (performed parseTwo twoRequests run.1) = [(twoRequests 1).operationOf, (twoRequests 2).operationOf] ∧
      ExecutedUpTo parseTwo twoRequests "A" run.1 run.2 2 := by
  intro run
  have hadmissible : Admissible twoRequests run.1 :=
    ⟨by decide +kernel, by decide +kernel, by decide +kernel⟩
  refine ⟨by decide +kernel, (executedUpTo_of_run parseTwo_twoRequests (run_of_start _ _ _ _) hadmissible).1 2
    ?_ ?_ (by decide)⟩
  · intro x hpos hle
    obtain rfl | rfl : x = 1 ∨ x = 2 := by omega
    · exact ⟨_, List.mem_cons_self, rfl⟩
    · exact ⟨_, List.mem_cons_of_mem _ (List.mem_cons_of_mem _ List.mem_cons_self), rfl⟩
  · unfold Applied
    decide +kernel

end Example

end SwarmDB.Pbft
