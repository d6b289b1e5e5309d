import Mathlib.Order.Interval.Finset.Nat
import SwarmDB.Pbft.Service.Order

namespace SwarmDB.Pbft

open Bytes Service

variable {parse : Bytes → Option Request} {requests : Nat → Request} {locks : Nat → Bool}
  {s t base : Service} {m n x j e : Nat} {es q : List ServiceEffect} {past : List (Service × Application)}

section Cuts

-- What a single call does to the unstable storage. It is done as a whole or not at all.
def ServiceEffect.store (uuid : Uuid) (disk : MemStorage) : ServiceEffect → MemStorage
  | create key value => (disk.create uuid key value).2
  | update key value => (disk.update uuid key value).2
  | remove key => (disk.remove uuid key).2
  | execute .. | post .. => disk

-- The unstable storage when the process has stopped after these calls.
def surviving (uuid : Uuid) (disk : MemStorage) (es : List ServiceEffect) : MemStorage :=
  es.foldl (ServiceEffect.store uuid) disk

-- The record of an executed request is gone, and the counter still has the old value.
def removedLast (q : List ServiceEffect) : Bool :=
  match q.getLast? with
  | some (.remove _) => true
  | _ => false

-- Where the process can stop while the loop works on the records from m on: the counter on disk is j, and
-- everything below e has been executed.
structure Cut (m : Nat) (base : Service) (disk : MemStorage) (executed : List Nat) (removed : Bool)
    (j e : Nat) : Prop where
  low : m ≤ j
  bound : j ≤ 2 ^ 64
  counter : disk.lookup (base.uuid, nextRequestSequenceKey) = some (decimal (j % 2 ^ 64))
  executed : executed = List.range' m (e - m)
  phase : e = j ∨ (e = j + 1 ∧ (base.record j).isSome = true)
  between : ∀ x, m ≤ x → x < j → (base.record x).isSome = true
  records : ∀ x, disk.lookup (base.uuid, decimal x) =
    if m ≤ x ∧ x < (if removed then e else j) then none else base.record x
  removed : removed = true → e = j + 1

theorem Cut.whole (h : Standing requests m s) : Cut m s s.unstable [] false m m := by
  refine ⟨le_refl m, h.bound, h.counter, ?_, Or.inl rfl, ?_, ?_, ?_⟩
  · rw [Nat.sub_self]
    rfl
  · intro x hle hlt
    omega
  · intro x
    rw [if_neg]
    · rfl
    · simp only [Bool.false_eq_true, if_false]
      omega
  · intro hfalse
    cases hfalse

-- In the middle of a turn.
theorem Cut.halfway (h : Standing requests m s) (hm : (s.record m).isSome = true) :
    Cut m s s.unstable [m] false m (m + 1) := by
  refine ⟨le_refl m, h.bound, h.counter, ?_, Or.inr ⟨rfl, hm⟩, ?_, (Cut.whole h).records, ?_⟩
  · rw [Nat.add_sub_cancel_left]
    rfl
  · intro x hle hlt
    omega
  · intro hfalse
    cases hfalse

theorem Cut.window (h : Standing requests m s) (hm : (s.record m).isSome = true) :
    Cut m s (s.unstable.erase (s.uuid, decimal m)) [m] true m (m + 1) := by
  have hne := (record_ne_counter s.uuid m).symm
  refine ⟨le_refl m, h.bound, ?_, ?_, Or.inr ⟨rfl, hm⟩, ?_, ?_, fun _ => rfl⟩
  · rw [Finmap.lookup_erase_ne hne]
    exact h.counter
  · rw [Nat.add_sub_cancel_left]
    rfl
  · intro x hle hlt
    omega
  · intro x
    rw [if_pos rfl]
    by_cases hx : x = m
    · rw [if_pos (by omega), hx]
      exact Finmap.lookup_erase ..
    · rw [if_neg (by omega)]
      exact Finmap.lookup_erase_ne (record_ne_record s.uuid hx)

-- A turn in front of it.
theorem Cut.after_turn {disk : MemStorage} {executed : List Nat} {removed : Bool} (h : Standing requests m s)
    (hm : (s.record m).isSome = true) (hcut : Cut (m + 1) (advance (requests m) s) disk executed removed j e) :
    Cut m s disk (m :: executed) removed j e := by
  have hnext : s.nextRequestSequence = m := h.next.trans (Nat.mod_eq_of_lt (h.lt_of_record hm))
  have hlow := hcut.low
  have hphase := hcut.phase
  have hrecord : ∀ x, (advance (requests m) s).record x = if x = m then none else s.record x := by
    intro x
    rw [advance_record, hnext]
  refine ⟨by omega, hcut.bound, hcut.counter, ?_, ?_, ?_, ?_, hcut.removed⟩
  · rw [hcut.executed, show e - m = e - (m + 1) + 1 by omega, List.range'_succ]
  · rcases hphase with hsame | ⟨hlater, hstored⟩
    · exact Or.inl hsame
    · rw [hrecord, if_neg (by omega)] at hstored
      exact Or.inr ⟨hlater, hstored⟩
  · intro x hle hlt
    by_cases hx : x = m
    · rw [hx]
      exact hm
    · have hstored := hcut.between x (by omega) hlt
      rw [hrecord, if_neg hx] at hstored
      exact hstored
  · intro x
    have hdisk := hcut.records x
    rw [hrecord] at hdisk
    have hend : m + 1 ≤ if removed then e else j := by
      split
      · omega
      · exact hlow
    refine hdisk.trans ?_
    by_cases hx : x = m
    · rw [if_pos hx, ite_self, if_pos (by omega)]
    · rw [if_neg hx]
      by_cases hin : m ≤ x ∧ x < if removed then e else j
      · rw [if_pos hin, if_pos (by omega)]
      · rw [if_neg hin, if_neg (by omega)]

theorem surviving_remove (hm : (s.record m).isSome = true) :
    (s.unstable.remove s.uuid (decimal m)).2 = s.unstable.erase (s.uuid, decimal m) := by
  rw [MemStorage.remove_ok hm]

theorem surviving_turn (locks : Nat → Bool) (h : Standing requests m s) (hm : (s.record m).isSome = true) :
    surviving s.uuid s.unstable (turn locks (requests m) s) = (advance (requests m) s).unstable := by
  have hnext : s.nextRequestSequence = m := h.next.trans (Nat.mod_eq_of_lt (h.lt_of_record hm))
  have hne := (record_ne_counter s.uuid m).symm
  have hsave : MemStorage.update s.uuid nextRequestSequenceKey (decimal ((m + 1) % 2 ^ 64))
      (s.unstable.erase (s.uuid, decimal m)) = (.ok, (advance (requests m) s).unstable) := by
    rw [MemStorage.update_ok]
    · simp only [advance, hnext]
    · exact (decimal_fits (Nat.mod_lt (m + 1) (by decide : 0 < 2 ^ 64))).trans (by decide)
    · rw [Finmap.lookup_erase_ne hne, h.counter]
      rfl
  simp only [surviving, turn, hnext, List.foldl_cons, List.foldl_nil, ServiceEffect.store, surviving_remove hm,
    hsave]

theorem Service.Drains.cut {m' : Nat} {s' : Service} (hdrains : Drains locks requests m s es m' s')
    (h : Standing requests m s) (hq : q <+: es) :
    ∃ j e, Cut m s (surviving s.uuid s.unstable q) (sequencesIn q) (removedLast q) j e := by
  induction hdrains generalizing q with
  | done _ =>
      rw [List.prefix_nil.mp hq]
      exact ⟨_, _, Cut.whole h⟩
  | @next m m' s s' es hsome hrest ih =>
      have hnext : s.nextRequestSequence = m := h.next.trans (Nat.mod_eq_of_lt (h.lt_of_record hsome))
      have hwhole := surviving_turn locks h hsome
      rw [turn, hnext] at hq hwhole
      -- one case for each of the four calls of a turn, and one for what comes after it
      rcases List.prefix_cons_iff.mp hq with rfl | ⟨q₁, rfl, hq₁⟩
      · exact ⟨_, _, Cut.whole h⟩
      rcases List.prefix_cons_iff.mp hq₁ with rfl | ⟨q₂, rfl, hq₂⟩
      · exact ⟨_, _, Cut.halfway h hsome⟩
      rcases List.prefix_cons_iff.mp hq₂ with rfl | ⟨q₃, rfl, hq₃⟩
      · exact ⟨_, _, Cut.halfway h hsome⟩
      rcases List.prefix_cons_iff.mp hq₃ with rfl | ⟨q₄, rfl, hq₄⟩
      · have hwindow := Cut.window h hsome
        rw [← surviving_remove hsome] at hwindow
        exact ⟨_, _, hwindow⟩
      obtain ⟨j, e, hcut⟩ := ih (h.advance hsome) hq₄
      refine ⟨j, e, ?_⟩
      have hlater := hcut.after_turn h hsome
      have hlast : removedLast (ServiceEffect.update nextRequestSequenceKey (decimal ((m + 1) % 2 ^ 64)) :: q₄) =
          removedLast q₄ := by
        cases q₄ with
        | nil => rfl
        | cons effect rest => simp [removedLast, List.getLast?_cons_cons]
      rw [← hwhole, ← hlast] at hlater
      exact hlater

-- Where the process can stop during a call. The base is the state before the call or right after it has
-- stored its request.
theorem handler_cut (hparse : ∀ x, parse (requests x).serialize = some (requests x))
    (h : Standing requests m s) (call : Application) (hpos : 1 ≤ call.sequence) (hlt : call.sequence < 2 ^ 64)
    (hq : q <+: (call.handler parse requests s).effects) :
    ∃ base j e, Standing requests m base ∧ base.uuid = s.uuid ∧
      (∀ x, (s.record x).isSome = true → (base.record x).isSome = true) ∧
      (∀ x, (base.record x).isSome = true → (s.record x).isSome = true ∨ x = call.sequence) ∧
      Cut m base (surviving s.uuid s.unstable q) (sequencesIn q) (removedLast q) j e := by
  obtain ⟨hvalue, hfree, es, m', s', hrun, hdrains, _⟩ | ⟨hbad, e, hrun⟩ := handler_cases hparse h call hpos hlt
  · rw [hrun] at hq
    rcases List.prefix_cons_iff.mp hq with rfl | ⟨q', rfl, hq'⟩
    · exact ⟨s, m, m, h, rfl, fun _ hx => hx, fun _ hx => Or.inl hx, Cut.whole h⟩
    · obtain ⟨j, e, hcut⟩ := hdrains.cut (h.accept hpos hlt hvalue call.session) hq'
      have hkey : (decimal call.sequence).length ≤ maxKeySize := (decimal_fits hlt).trans (by decide)
      have hcreate := MemStorage.create_ok hvalue hkey hfree
      refine ⟨_, j, e, h.accept hpos hlt hvalue call.session, rfl, ?_, ?_, ?_⟩
      · intro x hx
        rw [accept_record]
        split
        · rfl
        · exact hx
      · intro x hx
        rw [accept_record] at hx
        split at hx
        · rename_i hsame
          exact Or.inr hsame
        · exact Or.inl hx
      · have hlast : removedLast (.create (decimal call.sequence) (requests call.sequence).serialize :: q') =
            removedLast q' := by
          cases q' with
          | nil => rfl
          | cons effect rest => simp [removedLast, List.getLast?_cons_cons]
        have hdisk : surviving s.uuid s.unstable
            (.create (decimal call.sequence) (requests call.sequence).serialize :: q') =
            surviving s.uuid (accept call.sequence (requests call.sequence) call.session s).unstable q' := by
          simp only [surviving, List.foldl_cons, ServiceEffect.store, hcreate]
          rfl
        rw [hlast, hdisk]
        exact hcut
  · refine ⟨s, m, m, h, rfl, fun _ hx => hx, fun _ hx => Or.inl hx, ?_⟩
    rw [hrun] at hq
    rcases List.prefix_cons_iff.mp hq with rfl | ⟨q', rfl, hq'⟩
    · exact Cut.whole h
    · rw [List.prefix_nil.mp hq']
      rcases MemStorage.create_cases s.uuid (decimal call.sequence) (requests call.sequence).serialize s.unstable with
        ⟨hvalue, hfree, _⟩ | ⟨result, _, hcreate⟩
      · exact absurd ⟨hvalue, hfree⟩ hbad
      · have hsame : surviving s.uuid s.unstable
            [.create (decimal call.sequence) (requests call.sequence).serialize] = s.unstable := by
          simp only [surviving, List.foldl_cons, List.foldl_nil, ServiceEffect.store, hcreate]
        rw [hsame]
        exact Cut.whole h

end Cuts

section Steady

variable {uuid : Uuid} {database : MemStorage}

-- What every run keeps, calls that throw included: everything before m was executed, in order, and
-- what was taken after that is stored.
structure Steady (parse : Bytes → Option Request) (requests : Nat → Request)
    (past : List (Service × Application)) (s : Service) (m : Nat) : Prop where
  standing : Standing requests m s
  positive : 1 ≤ m
  sequences : sequencesIn (performed parse requests past) = List.range' 1 (m - 1)
  fits : ∀ x, 1 ≤ x → x < m → (requests x).serialize.length ≤ maxValueSize
  kept : ∀ step ∈ past, (step.2.handler parse requests step.1).result = .ok () →
    step.2.sequence < m ∨ (s.record step.2.sequence).isSome = true
  ended : ∀ step ∈ past, (step.2.handler parse requests step.1).result = .ok () → s.record m = none
  called : ∀ x, 1 ≤ x → x < m ∨ (s.record x).isSome = true → Applied past x

theorem Steady.step {call : Application} (hparse : ∀ x, parse (requests x).serialize = some (requests x))
    (h : Steady parse requests past s m) (hpos : 1 ≤ call.sequence) (hlt : call.sequence < 2 ^ 64) :
    ∃ m', Steady parse requests ((s, call) :: past) (call.handler parse requests s).state m' := by
  obtain ⟨hvalue, hfree, es, m', s', hrun, hdrains, hstanding⟩ | ⟨_, e, hrun⟩ :=
    handler_cases hparse h.standing call hpos hlt
  · have haccept := h.standing.accept hpos hlt hvalue call.session
    have hdrained := hdrains.drained haccept
    have hle := hdrained.le
    rw [hrun]
    refine ⟨m', hstanding, h.positive.trans hle, ?_, ?_, ?_, fun _ _ _ => hdrained.ended, ?_⟩
    · rw [performed, hrun, sequencesIn_append, h.sequences, range'_split h.positive hle, ← hdrained.sequences]
      rfl
    · intro x hx hm
      by_cases hold : x < m
      · exact h.fits x hx hold
      · obtain ⟨bytes, hbytes⟩ := Option.isSome_iff_exists.mp (hdrained.stored x (by omega) hm)
        obtain ⟨_, _, rfl, hfits⟩ := haccept.records x bytes hbytes
        exact hfits
    · -- a record goes away only by being executed
      have hstays : ∀ x,
          x < m ∨ ((accept call.sequence (requests call.sequence) call.session s).record x).isSome = true →
          x < m' ∨ (s'.record x).isSome = true := by
        rintro x (hx | hx)
        · exact Or.inl (hx.trans_le hle)
        · rw [hdrained.records]
          by_cases hin : m ≤ x ∧ x < m'
          · exact Or.inl hin.2
          · rw [if_neg hin]
            exact Or.inr hx
      intro step hmem hok
      apply hstays
      rw [accept_record]
      rcases List.mem_cons.mp hmem with rfl | hmem
      · rw [if_pos rfl]
        exact Or.inr rfl
      · rcases h.kept step hmem hok with hbefore | hstored
        · exact Or.inl hbefore
        · right
          split
          · rfl
          · exact hstored
    · intro x hx hwhere
      rw [applied_cons]
      have hbefore : x < m ∨
          ((accept call.sequence (requests call.sequence) call.session s).record x).isSome = true := by
        by_cases hold : x < m
        · exact Or.inl hold
        · right
          rcases hwhere with hm | hstored
          · exact hdrained.stored x (by omega) hm
          · rw [hdrained.records] at hstored
            split at hstored
            · cases hstored
            · exact hstored
      rw [accept_record] at hbefore
      rcases hbefore with hold | hstored
      · exact Or.inr (h.called x hx (Or.inl hold))
      · split at hstored
        · rename_i hsame
          exact Or.inl hsame
        · exact Or.inr (h.called x hx (Or.inr hstored))
  · rw [hrun]
    refine ⟨m, h.standing, h.positive, ?_, h.fits, ?_, ?_, ?_⟩
    · rw [performed, hrun, sequencesIn_append, h.sequences]
      simp [sequencesIn, ServiceEffect.sequence]
    · intro step hmem hok
      rcases List.mem_cons.mp hmem with rfl | hmem
      · rw [hrun] at hok
        cases hok
      · exact h.kept step hmem hok
    · intro step hmem hok
      rcases List.mem_cons.mp hmem with rfl | hmem
      · rw [hrun] at hok
        cases hok
      · exact h.ended step hmem hok
    · intro x hx hwhere
      exact applied_cons.mpr (Or.inr (h.called x hx hwhere))

theorem steady_of_run (hparse : ∀ x, parse (requests x).serialize = some (requests x))
    (run : (serving parse requests (freshService uuid database)).Run past s)
    (hcalls : ∀ step ∈ past, 1 ≤ step.2.sequence ∧ step.2.sequence < 2 ^ 64) :
    ∃ m, Steady parse requests past s m := by
  induction run with
  | start hinit =>
      rw [show _ = freshService uuid database from hinit]
      refine ⟨1, standing_fresh requests uuid database, le_refl 1, rfl, ?_, ?_, ?_, ?_⟩
      · intro x hx hm
        omega
      · intro step hmem
        cases hmem
      · intro step hmem
        cases hmem
      · rintro x hx (hm | hstored)
        · omega
        · rw [fresh_record] at hstored
          cases hstored
  | @step past s call run _ ih =>
      obtain ⟨m, hm⟩ := ih fun step hmem => hcalls step (List.mem_cons_of_mem _ hmem)
      obtain ⟨hpos, hlt⟩ := hcalls _ List.mem_cons_self
      exact hm.step hparse hpos hlt

end Steady

section Restart

variable {uuid : Uuid} {database : MemStorage} {disk : MemStorage} {executed : List Nat} {removed : Bool}
  {call : Application}

-- The service as it comes up over what is left of the unstable storage.
def restarted (uuid : Uuid) (disk database : MemStorage) : Service := (construct uuid disk database).state

-- A sequence number that was neither executed nor is stored.
def Missing (uuid : Uuid) (disk : MemStorage) (executed : List Nat) (x : Nat) : Prop :=
  1 ≤ x ∧ x < 2 ^ 64 ∧ x ∉ executed ∧ disk.lookup (uuid, decimal x) = none

-- Over this disk, and after these executions, the service starts, has lost nothing and, given the missing
-- requests up to any of them, goes on to execute all of them.
structure Recovers (parse : Bytes → Option Request) (requests : Nat → Request) (uuid : Uuid) (disk : MemStorage)
    (executed : List Nat) (past : List (Service × Application)) (database : MemStorage) : Prop where
  starts : (construct uuid disk database).result = .ok ()
  passed : ∀ x, 1 ≤ x → x < (restarted uuid disk database).nextRequestSequence → x ∈ executed
  stored : ∀ step ∈ past, (step.2.handler parse requests step.1).result = .ok () →
    step.2.sequence ∉ executed →
    disk.lookup (uuid, decimal step.2.sequence) = some (requests step.2.sequence).serialize
  completes : ∀ last later t, Missing uuid disk executed last →
    (serving parse requests (restarted uuid disk database)).Run later t →
    (later.map fun step => step.2.sequence).Nodup →
    (∀ x, Applied later x ↔ Missing uuid disk executed x ∧ x ≤ last) →
    (∀ step ∈ later, (step.2.handler parse requests step.1).result = .ok ()) ∧
      ∀ x, 1 ≤ x → x ≤ last → x ∈ executed ∨ x ∈ sequencesIn (performed parse requests later)

theorem construct_counter (database : MemStorage) (hn : n < 2 ^ 64)
    (h : disk.lookup (uuid, nextRequestSequenceKey) = some (decimal n)) :
    construct uuid disk database = ⟨⟨uuid, n, fun _ => none, disk, database⟩, [], .ok ()⟩ := by
  simp [construct, loadNextRequestSequence, Bind.bind, Handler.bind, Handler.reads, MemStorage.read, h,
    lexicalCast_decimal hn, Handler.updates]

-- What a crash in a run leaves behind.
structure Left (requests : Nat → Request) (uuid : Uuid) (disk : MemStorage) (executed : List Nat)
    (removed : Bool) (j e : Nat) : Prop where
  positive : 1 ≤ j
  bound : j ≤ 2 ^ 64
  counter : disk.lookup (uuid, nextRequestSequenceKey) = some (decimal (j % 2 ^ 64))
  sequences : executed = List.range' 1 (e - 1)
  phase : e = j ∨ e = j + 1
  records : ∀ x bytes, disk.lookup (uuid, decimal x) = some bytes → 1 ≤ x ∧ x < 2 ^ 64 ∧
    bytes = (requests x).serialize ∧ bytes.length ≤ maxValueSize
  fits : ∀ x, 1 ≤ x → x < e → (requests x).serialize.length ≤ maxValueSize
  lost : removed = true → e = j + 1 ∧ disk.lookup (uuid, decimal j) = none
  pending : removed = false → e = j + 1 → (disk.lookup (uuid, decimal j)).isSome = true

theorem Left.mem_executed (h : Left requests uuid disk executed removed j e) :
    x ∈ executed ↔ 1 ≤ x ∧ x < e := by
  have hphase := h.phase
  have hpos := h.positive
  rw [h.sequences, List.mem_range'_1]
  omega

theorem Left.standing (h : Left requests uuid disk executed removed j e) (database : MemStorage) :
    Standing requests j (restarted uuid disk database) := by
  have hn : j % 2 ^ 64 < 2 ^ 64 := Nat.mod_lt _ (by decide)
  rw [restarted, construct_counter database hn h.counter]
  exact ⟨rfl, h.bound, h.counter, h.records⟩

theorem restarted_lookup (h : Left requests uuid disk executed removed j e) (database : MemStorage) (x : Nat) :
    (restarted uuid disk database).record x = disk.lookup (uuid, decimal x) := by
  have hn : j % 2 ^ 64 < 2 ^ 64 := Nat.mod_lt _ (by decide)
  rw [restarted, construct_counter database hn h.counter]
  rfl

-- What is missing has not been waited for yet.
theorem Left.le_missing (h : Left requests uuid disk executed removed j e) (hx : Missing uuid disk executed x) :
    e ≤ x ∧ j ≤ x := by
  obtain ⟨hpos, _, hnot, _⟩ := hx
  have hphase := h.phase
  rw [h.mem_executed] at hnot
  omega

theorem Left.caughtUp {later : List (Service × Application)} (h : Left requests uuid disk executed removed j e)
    (hparse : ∀ x, parse (requests x).serialize = some (requests x))
    (hfits : ∀ x, 1 ≤ x → x < 2 ^ 64 → (requests x).serialize.length ≤ maxValueSize)
    (run : (serving parse requests (restarted uuid disk database)).Run later t)
    (hdistinct : (later.map fun step => step.2.sequence).Nodup)
    (hlater : ∀ x, Applied later x → Missing uuid disk executed x) :
    ∃ m, CaughtUp parse requests (restarted uuid disk database) j later t m := by
  refine caughtUp_of_run hparse (h.standing database) run ⟨hdistinct, ?_, ?_⟩ ?_
  · intro step hmem
    obtain ⟨hpos, hlt, _⟩ := hlater _ ⟨step, hmem, rfl⟩
    exact ⟨hpos, hlt⟩
  · intro step hmem
    obtain ⟨hpos, hlt, _⟩ := hlater _ ⟨step, hmem, rfl⟩
    exact hfits _ hpos hlt
  · intro step hmem
    have hmissing := hlater _ ⟨step, hmem, rfl⟩
    refine ⟨(h.le_missing hmissing).2, ?_⟩
    rw [restarted_lookup h]
    exact hmissing.2.2.2

-- Outside the window nothing is in the way of what comes next.
theorem Left.completes {later : List (Service × Application)} {last : Nat}
    (h : Left requests uuid disk executed false j e)
    (hparse : ∀ x, parse (requests x).serialize = some (requests x))
    (hfits : ∀ x, 1 ≤ x → x < 2 ^ 64 → (requests x).serialize.length ≤ maxValueSize)
    (hlast : Missing uuid disk executed last)
    (run : (serving parse requests (restarted uuid disk database)).Run later t)
    (hdistinct : (later.map fun step => step.2.sequence).Nodup)
    (hlater : ∀ x, Applied later x ↔ Missing uuid disk executed x ∧ x ≤ last) :
    (∀ step ∈ later, (step.2.handler parse requests step.1).result = .ok ()) ∧
      ∀ x, 1 ≤ x → x ≤ last → x ∈ executed ∨ x ∈ sequencesIn (performed parse requests later) := by
  obtain ⟨m, hm⟩ := h.caughtUp hparse hfits run hdistinct fun x hx => ((hlater x).mp hx).1
  have hphase := h.phase
  have hlow := hm.low
  -- the service cannot wait for a number up to the last one, as all of them are at hand
  have hpast : last < m := by
    by_contra hwaits
    obtain ⟨step, hmem, _⟩ := (hlater last).mpr ⟨hlast, le_refl last⟩
    refine hm.ended (List.ne_nil_of_mem hmem) ?_
    have hpos := h.positive
    have hlt := hlast.2.1
    by_cases hfree : disk.lookup (uuid, decimal m) = none
    · right
      refine (hlater m).mpr ⟨⟨by omega, by omega, ?_, hfree⟩, by omega⟩
      rw [h.mem_executed]
      rintro ⟨_, hexecuted⟩
      have hsame : m = j := by omega
      have hpending := h.pending rfl (by omega)
      rw [← hsame, hfree] at hpending
      cases hpending
    · left
      rw [restarted_lookup h]
      exact Option.isSome_iff_ne_none.mpr hfree
  refine ⟨hm.returned, ?_⟩
  intro x hx hle
  by_cases hold : x < j
  · exact Or.inl (h.mem_executed.mpr ⟨hx, by omega⟩)
  · right
    rw [hm.sequences, List.mem_range'_1]
    omega

theorem Cut.disk_cases (h : Cut m base disk executed removed j e) (x : Nat) :
    disk.lookup (base.uuid, decimal x) = base.record x ∨
      (disk.lookup (base.uuid, decimal x) = none ∧ m ≤ x ∧ x < e) := by
  have hphase := h.phase
  rw [h.records]
  by_cases hin : m ≤ x ∧ x < if removed then e else j
  · rw [if_pos hin]
    refine Or.inr ⟨rfl, hin.1, ?_⟩
    split at hin
    · exact hin.2
    · omega
  · rw [if_neg hin]
    exact Or.inl rfl

theorem Cut.stored_below (h : Cut m base disk executed removed j e) (hlow : m ≤ x) (hx : x < e) :
    (base.record x).isSome = true := by
  by_cases hbefore : x < j
  · exact h.between x hlow hbefore
  · rcases h.phase with hsame | ⟨hnext, hstored⟩
    · omega
    · rw [show x = j by omega]
      exact hstored

theorem left_of_run (hparse : ∀ x, parse (requests x).serialize = some (requests x))
    (run : (serving parse requests (freshService uuid database)).Run past s)
    (hcalls : ∀ step ∈ past, 1 ≤ step.2.sequence ∧ step.2.sequence < 2 ^ 64) (hpos : 1 ≤ call.sequence)
    (hlt : call.sequence < 2 ^ 64) (hq : q <+: (call.handler parse requests s).effects) :
    ∃ j e, Left requests s.uuid (surviving s.uuid s.unstable q)
        (sequencesIn (performed parse requests past ++ q)) (removedLast q) j e ∧
      (∀ step ∈ past, (step.2.handler parse requests step.1).result = .ok () → e ≤ step.2.sequence →
        (surviving s.uuid s.unstable q).lookup (s.uuid, decimal step.2.sequence) =
          some (requests step.2.sequence).serialize) ∧
      ∀ x, 1 ≤ x → x < e ∨ (surviving s.uuid s.unstable q).lookup (s.uuid, decimal x) ≠ none →
        Applied past x ∨ x = call.sequence := by
  obtain ⟨m, hm⟩ := steady_of_run hparse run hcalls
  obtain ⟨base, j, e, hbase, huuid, hmore, hless, hcut⟩ := handler_cut hparse hm.standing call hpos hlt hq
  have hlow := hcut.low
  have hone := hm.positive
  have hphase : e = j ∨ e = j + 1 := hcut.phase.imp id And.left
  have hcalled : ∀ x, 1 ≤ x → (base.record x).isSome = true → Applied past x ∨ x = call.sequence := by
    intro x hx hstored
    rcases hless x hstored with hstored | hsame
    · exact Or.inl (hm.called x hx (Or.inr hstored))
    · exact Or.inr hsame
  rw [← huuid] at hcut ⊢
  refine ⟨j, e, ⟨by omega, hcut.bound, hcut.counter, ?_, hphase, ?_, ?_, ?_, ?_⟩, ?_, ?_⟩
  · rw [sequencesIn_append, hm.sequences, hcut.executed, ← range'_split hone (by omega)]
  · intro x bytes hbytes
    rcases hcut.disk_cases x with hsame | ⟨hnone, _⟩
    · exact hbase.records x bytes (hsame ▸ hbytes)
    · rw [hnone] at hbytes
      cases hbytes
  · intro x hx hbefore
    by_cases hold : x < m
    · exact hm.fits x hx hold
    · obtain ⟨bytes, hbytes⟩ := Option.isSome_iff_exists.mp (hcut.stored_below (Nat.not_lt.mp hold) hbefore)
      obtain ⟨_, _, rfl, hfits⟩ := hbase.records x bytes hbytes
      exact hfits
  · intro hremoved
    have hnext := hcut.removed hremoved
    refine ⟨hnext, ?_⟩
    rw [hcut.records, if_pos hremoved, if_pos (by omega)]
  · intro hremoved hnext
    rw [hcut.records, hremoved, if_neg]
    · exact hcut.stored_below hlow (by omega)
    · simp only [Bool.false_eq_true, if_false]
      omega
  · intro step hmem hok hlate
    rcases hm.kept step hmem hok with hbefore | hstored
    · omega
    · rcases hcut.disk_cases step.2.sequence with hsame | ⟨_, _, hearly⟩
      · rw [hsame]
        exact hbase.record_eq (hmore _ hstored)
      · omega
  · rintro x hx (hbefore | hsome)
    · by_cases hold : x < m
      · exact Or.inl (hm.called x hx (Or.inl hold))
      · exact hcalled x hx (hcut.stored_below (Nat.not_lt.mp hold) hbefore)
    · rcases hcut.disk_cases x with hsame | ⟨hnone, _⟩
      · exact hcalled x hx (Option.isSome_iff_ne_none.mpr (hsame ▸ hsome))
      · exact absurd hnone hsome

open Classical in
-- The missing requests can always be applied, one after the other.
theorem exists_missing_run (parse : Bytes → Option Request) (requests : Nat → Request) (uuid : Uuid)
    (disk : MemStorage) (executed : List Nat) (database : MemStorage) (last : Nat) :
    ∃ later t, (serving parse requests (restarted uuid disk database)).Run later t ∧
      (later.map fun step => step.2.sequence).Nodup ∧
      ∀ x, Applied later x ↔ Missing uuid disk executed x ∧ x ≤ last := by
  let wanted := (List.range (last + 1)).filter fun x => decide (Missing uuid disk executed x)
  let calls : List Application := wanted.map fun x => ⟨x, none, fun _ => true⟩
  let start := restarted uuid disk database
  have hactions : ((serving parse requests start).replay [] start calls).1.map Prod.snd = calls.reverse := by
    rw [Machine.replay_actions, List.map_nil, List.append_nil]
  have hsequences : ((serving parse requests start).replay [] start calls).1.map
      (fun step => step.2.sequence) = wanted.reverse := by
    have hmap := congrArg (List.map Application.sequence) hactions
    rw [List.map_map, List.map_reverse, List.map_map] at hmap
    refine hmap.trans ?_
    congr 1
    exact List.map_id wanted
  refine ⟨_, _, run_of_start parse requests start calls, ?_, ?_⟩
  · rw [hsequences, List.nodup_reverse]
    exact List.nodup_range.filter _
  · intro x
    have hmem : Applied ((serving parse requests start).replay [] start calls).1 x ↔ x ∈ wanted.reverse := by
      rw [← hsequences, List.mem_map]
      rfl
    rw [hmem, List.mem_reverse, List.mem_filter, List.mem_range, decide_eq_true_iff]
    constructor
    · rintro ⟨hle, hmissing⟩
      exact ⟨hmissing, by omega⟩
    · rintro ⟨hmissing, hle⟩
      exact ⟨by omega, hmissing⟩

theorem handler_too_large (parse : Bytes → Option Request) (call : Application) (s : Service)
    (h : maxValueSize < (requests call.sequence).serialize.length) :
    (call.handler parse requests s).result ≠ .ok () := by
  have hcreate : s.unstable.create s.uuid (decimal call.sequence) (requests call.sequence).serialize =
      (.valueTooLarge, s.unstable) := by
    rw [MemStorage.create, if_pos h]
  simp [Application.handler, applyOperation, Bind.bind, Handler.bind, unstableCreate, hcreate, Handler.throws]

-- Some sequence number has not come up yet.
theorem exists_uncalled (called : List Nat) (h : called.length + 1 < 2 ^ 64) :
    ∃ x, 1 ≤ x ∧ x < 2 ^ 64 ∧ x ∉ called := by
  have hcard : called.toFinset.card < (Finset.Ico 1 (2 ^ 64)).card := by
    rw [Nat.card_Ico]
    have hle := List.toFinset_card_le called
    omega
  obtain ⟨x, hmem, hnot⟩ := Finset.exists_mem_notMem_of_card_lt_card hcard
  obtain ⟨hpos, hlt⟩ := Finset.mem_Ico.mp hmem
  exact ⟨x, hpos, hlt, fun hcalled => hnot (List.mem_toFinset.mpr hcalled)⟩

-- Where a service over a storage that survives a crash recovers, the crash point being given by the calls it
-- made after the run.
def RecoversAt (parse : Bytes → Option Request) (requests : Nat → Request) (past : List (Service × Application))
    (s : Service) (q : List ServiceEffect) (after : MemStorage) : Prop :=
  Recovers parse requests s.uuid (surviving s.uuid s.unstable q)
    (sequencesIn (performed parse requests past ++ q)) past after

-- All the requests that the swarm may agree on fit into a record.
def AllFit (requests : Nat → Request) : Prop :=
  ∀ x, 1 ≤ x → x < 2 ^ 64 → (requests x).serialize.length ≤ maxValueSize

theorem recoversAt_of_outside (hparse : ∀ x, parse (requests x).serialize = some (requests x))
    (run : (serving parse requests (freshService uuid database)).Run past s)
    (hcalls : ∀ step ∈ past, 1 ≤ step.2.sequence ∧ step.2.sequence < 2 ^ 64) (hpos : 1 ≤ call.sequence)
    (hlt : call.sequence < 2 ^ 64) (hq : q <+: (call.handler parse requests s).effects)
    (after : MemStorage) (hwindow : removedLast q = false) (hfits : AllFit requests) :
    RecoversAt parse requests past s q after := by
  obtain ⟨j, e, hleft, hstored, hcalled⟩ := left_of_run hparse run hcalls hpos hlt hq
  have hphase := hleft.phase
  rw [hwindow] at hleft
  have hn : j % 2 ^ 64 < 2 ^ 64 := Nat.mod_lt _ (by decide)
  have hconstruct := construct_counter after hn hleft.counter
  refine ⟨by rw [hconstruct], ?_, ?_, ?_⟩
  · intro x hx hbefore
    rw [restarted, hconstruct] at hbefore
    have hle : j % 2 ^ 64 ≤ j := Nat.mod_le _ _
    have hsmall : x < j % 2 ^ 64 := hbefore
    exact hleft.mem_executed.mpr ⟨hx, by omega⟩
  · intro step hmem hok hnot
    rw [hleft.mem_executed] at hnot
    have hpositive := (hcalls step hmem).1
    exact hstored step hmem hok (by omega)
  · intro last later t hlast hrun hdistinct hlater
    exact hleft.completes hparse hfits hlast hrun hdistinct hlater

theorem allFit_of_recoversAt (hparse : ∀ x, parse (requests x).serialize = some (requests x))
    (run : (serving parse requests (freshService uuid database)).Run past s)
    (hcalls : ∀ step ∈ past, 1 ≤ step.2.sequence ∧ step.2.sequence < 2 ^ 64) (hpos : 1 ≤ call.sequence)
    (hlt : call.sequence < 2 ^ 64) (hq : q <+: (call.handler parse requests s).effects) {after : MemStorage}
    (hrecovers : RecoversAt parse requests past s q after) : AllFit requests := by
  obtain ⟨j, e, hleft, _⟩ := left_of_run hparse run hcalls hpos hlt hq
  intro x hx hbound
  by_contra hlarge
  have hmissing : Missing s.uuid (surviving s.uuid s.unstable q)
      (sequencesIn (performed parse requests past ++ q)) x := by
    refine ⟨hx, hbound, ?_, ?_⟩
    · intro hexecuted
      exact hlarge (hleft.fits x hx (hleft.mem_executed.mp hexecuted).2)
    · by_contra hsome
      obtain ⟨bytes, hbytes⟩ := Option.ne_none_iff_exists'.mp hsome
      obtain ⟨_, _, rfl, hsmall⟩ := hleft.records x bytes hbytes
      exact hlarge hsmall
  obtain ⟨later, t, hrun, hdistinct, hlater⟩ := exists_missing_run parse requests s.uuid
    (surviving s.uuid s.unstable q) (sequencesIn (performed parse requests past ++ q)) after x
  obtain ⟨step, hmem, hstep⟩ := (hlater x).mpr ⟨hmissing, le_refl x⟩
  have hok := (hrecovers.completes x later t hmissing hrun hdistinct hlater).1 step hmem
  exact handler_too_large parse step.2 step.1 (by rw [hstep]; omega) hok

-- In the window the service waits for a number that was executed before the crash and does not come again.
theorem not_recoversAt_of_removed (hparse : ∀ x, parse (requests x).serialize = some (requests x))
    (run : (serving parse requests (freshService uuid database)).Run past s)
    (hcalls : ∀ step ∈ past, 1 ≤ step.2.sequence ∧ step.2.sequence < 2 ^ 64) (hpos : 1 ≤ call.sequence)
    (hlt : call.sequence < 2 ^ 64) (hq : q <+: (call.handler parse requests s).effects) {after : MemStorage}
    (hroom : past.length + 2 < 2 ^ 64) (hwindow : removedLast q = true) :
    ¬RecoversAt parse requests past s q after := by
  intro hrecovers
  have hfits := allFit_of_recoversAt hparse run hcalls hpos hlt hq hrecovers
  obtain ⟨j, e, hleft, _, hcalled⟩ := left_of_run hparse run hcalls hpos hlt hq
  obtain ⟨hnext, hgone⟩ := hleft.lost hwindow
  obtain ⟨last, hone, hbound, hnew⟩ := exists_uncalled (call.sequence :: past.map fun step => step.2.sequence)
    (by simpa using hroom)
  have hmissing : Missing s.uuid (surviving s.uuid s.unstable q)
      (sequencesIn (performed parse requests past ++ q)) last := by
    have hnever : ¬(Applied past last ∨ last = call.sequence) := by
      rintro (⟨step, hmem, hstep⟩ | hsame)
      · exact hnew (List.mem_cons_of_mem _ (List.mem_map.mpr ⟨step, hmem, hstep⟩))
      · exact hnew (hsame ▸ List.mem_cons_self)
    refine ⟨hone, hbound, ?_, ?_⟩
    · intro hexecuted
      exact hnever (hcalled last hone (Or.inl (hleft.mem_executed.mp hexecuted).2))
    · by_contra hsome
      exact hnever (hcalled last hone (Or.inr hsome))
  obtain ⟨later, t, hrun, hdistinct, hlater⟩ := exists_missing_run parse requests s.uuid
    (surviving s.uuid s.unstable q) (sequencesIn (performed parse requests past ++ q)) after last
  obtain ⟨m, hm⟩ := hleft.caughtUp hparse hfits hrun hdistinct fun x hx => ((hlater x).mp hx).1
  have hstuck : m = j := by
    by_contra hmoved
    have hlow := hm.low
    rcases hm.below j (le_refl j) (by omega) with hdisk | happlied
    · rw [restarted_lookup hleft, hgone] at hdisk
      cases hdisk
    · have hagain := hleft.le_missing ((hlater j).mp happlied).1
      omega
  rcases (hrecovers.completes last later t hmissing hrun hdistinct hlater).2 last hone (le_refl last) with
    hbefore | hafter
  · exact hmissing.2.2.1 hbefore
  · rw [hm.sequences, hstuck, Nat.sub_self] at hafter
    cases hafter

-- A crash is survived exactly where it does not come between the removal of a record and the save of the
-- counter, as long as all requests fit. That there are sequence numbers left is only needed to see that
-- the service is stuck otherwise.
theorem recoversAt_iff (hparse : ∀ x, parse (requests x).serialize = some (requests x))
    (run : (serving parse requests (freshService uuid database)).Run past s)
    (hcalls : ∀ step ∈ past, 1 ≤ step.2.sequence ∧ step.2.sequence < 2 ^ 64) (hpos : 1 ≤ call.sequence)
    (hlt : call.sequence < 2 ^ 64) (hq : q <+: (call.handler parse requests s).effects)
    (after : MemStorage) :
    (removedLast q = false ∧ AllFit requests → RecoversAt parse requests past s q after) ∧
      (past.length + 2 < 2 ^ 64 → RecoversAt parse requests past s q after →
        removedLast q = false ∧ AllFit requests) := by
  refine ⟨?_, ?_⟩
  · rintro ⟨hwindow, hfits⟩
    exact recoversAt_of_outside hparse run hcalls hpos hlt hq after hwindow hfits
  · intro hroom hrecovers
    refine ⟨?_, allFit_of_recoversAt hparse run hcalls hpos hlt hq hrecovers⟩
    by_contra hwindow
    exact not_recoversAt_of_removed hparse run hcalls hpos hlt hq hroom
      (Bool.eq_true_of_not_eq_false hwindow) hrecovers

theorem twoRequests_fit : AllFit twoRequests := by
  intro x _ _
  unfold twoRequests
  split <;> decide +kernel

-- The first request, and the calls that are made for it: the record, the execution with its handler, the
-- removal of the record and the save of the counter.
def firstCall : Application := ⟨1, none, fun _ => true⟩

def firstEffects : List ServiceEffect := (firstCall.handler parseTwo twoRequests (freshService "A" ∅)).effects

theorem recoversAt_iff_executed : removedLast (firstEffects.take 3) = false ∧
    RecoversAt parseTwo twoRequests [] (freshService "A" ∅) (firstEffects.take 3) ∅ :=
  ⟨by decide +kernel, (recoversAt_iff parseTwo_twoRequests (.start rfl) (by simp) (by decide) (by decide)
    (List.take_prefix 3 firstEffects) ∅).1 ⟨by decide +kernel, twoRequests_fit⟩⟩

theorem recoversAt_broken : ¬∀ q, q <+: firstEffects →
    RecoversAt parseTwo twoRequests [] (freshService "A" ∅) q ∅ := by
  intro h
  have hprefix : firstEffects.take 4 <+: firstEffects := List.take_prefix 4 firstEffects
  have hpos : 1 ≤ firstCall.sequence := by decide
  have hlt : firstCall.sequence < 2 ^ 64 := by decide
  exact not_recoversAt_of_removed parseTwo_twoRequests (.start rfl) (by simp) hpos hlt hprefix (by decide)
    (by decide +kernel) (h _ hprefix)

end Restart

end SwarmDB.Pbft
