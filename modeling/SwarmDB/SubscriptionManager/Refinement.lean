import Mathlib.Data.Set.Insert
import SwarmDB.SubscriptionManager

namespace SwarmDB

open Assoc (readAt Sets)

-- What a client subscribes to, and as what.
structure Subscription where
  uuid : Uuid
  key : String
  sessionId : Nat
  transactionId : Nat
  deriving DecidableEq, Repr

def Subscription.path (t : Subscription) : Uuid × String × Nat × Nat :=
  (t.uuid, t.key, t.sessionId, t.transactionId)

theorem Subscription.path_inj {t other : Subscription} : t.path = other.path ↔ t = other := by
  obtain ⟨uuid, key, sessionId, transactionId⟩ := t
  obtain ⟨uuid', key', sessionId', transactionId'⟩ := other
  simp [path]

namespace Subscribers

-- The session that the maps hold for a subscription.
def find (subscribers : Subscribers) (t : Subscription) : Option Session :=
  readAt (readAt (readAt Assoc.get)) subscribers t.path

-- No map inside is empty.
def NoEmptyLevel (subscribers : Subscribers) : Prop :=
  Assoc.Every (fun keys : Keys => keys.entries ≠ [] ∧
    Assoc.Every (fun sessions : Sessions => sessions.entries ≠ [] ∧
      Assoc.Every (fun transactions : Transactions => transactions.entries ≠ []) sessions) keys) subscribers

end Subscribers

namespace SubscriptionManager

variable {uuid : Uuid} {key : String} {transactionId : Nat} {session : Session} {subscribers : Subscribers}
  {t : Subscription} {alive : Session → Bool} {operation : OperationType} {value : Bytes}
  {transactions : Transactions} {d : Datagram}

section Changes

theorem sets_add (uuid : Uuid) (key : String) (transactionId : Nat) (session : Session) :
    Sets (readAt (readAt (readAt Assoc.get))) (add uuid key transactionId session)
      (uuid, key, session.getSessionId, transactionId) (some session) :=
  (((Assoc.sets_insert transactionId session).alter (fun _ => rfl) session.getSessionId).alter
    (Assoc.readAt_empty _) key).alter (Assoc.readAt_empty _) uuid

theorem sets_drop (uuid : Uuid) (key : String) (transactionId : Nat) (session : Session) :
    Sets (readAt (readAt (readAt Assoc.get))) (drop uuid key transactionId session)
      (uuid, key, session.getSessionId, transactionId) none :=
  (((Assoc.sets_erase transactionId).alter (fun _ => rfl) session.getSessionId).alter
    (Assoc.readAt_empty _) key).alter (Assoc.readAt_empty _) uuid

theorem find_of_sets {f : Subscribers → Subscribers} {leaf : Option Session}
    (h : Sets (readAt (readAt (readAt Assoc.get))) f t.path leaf) (subscribers : Subscribers) (other : Subscription) :
    (f subscribers).find other = if other = t then leaf else subscribers.find other := by
  split
  · rename_i hother
    rw [hother]
    exact h.here subscribers
  · rename_i hother
    exact h.elsewhere subscribers other.path fun heq => hother (Subscription.path_inj.mp heq)

theorem isSome_find_add (uuid : Uuid) (key : String) (transactionId : Nat) (session : Session)
    (subscribers : Subscribers) (other : Subscription) :
    ((add uuid key transactionId session subscribers).find other).isSome ↔
      other = ⟨uuid, key, session.getSessionId, transactionId⟩ ∨ (subscribers.find other).isSome := by
  rw [find_of_sets (t := ⟨uuid, key, session.getSessionId, transactionId⟩) (sets_add uuid key transactionId session)]
  split
  · rename_i hother
    exact iff_of_true rfl (Or.inl hother)
  · rename_i hother
    exact (or_iff_right hother).symm

theorem isSome_find_drop (uuid : Uuid) (key : String) (transactionId : Nat) (session : Session)
    (subscribers : Subscribers) (other : Subscription) :
    ((drop uuid key transactionId session subscribers).find other).isSome ↔
      (subscribers.find other).isSome ∧ other ≠ ⟨uuid, key, session.getSessionId, transactionId⟩ := by
  rw [find_of_sets (t := ⟨uuid, key, session.getSessionId, transactionId⟩) (sets_drop uuid key transactionId session)]
  split
  · rename_i hother
    exact iff_of_false Bool.noConfusion fun h => h.2 hother
  · rename_i hother
    exact (and_iff_left hother).symm

-- The lookups on the way down end where the path does.
theorem subscribe_eq : subscribe uuid key transactionId session subscribers =
    if (subscribers.find ⟨uuid, key, session.getSessionId, transactionId⟩).isSome then
      (some msgDuplicateSub, subscribers)
    else (none, add uuid key transactionId session subscribers) := by
  unfold subscribe Subscribers.find readAt Subscription.path
  cases subscribers.lookup uuid with
  | none => rfl
  | some keys =>
      simp only [Option.bind_some]
      cases keys.lookup key with
      | none => rfl
      | some sessions =>
          rcases Option.eq_none_or_eq_some (sessions.lookup session.getSessionId) with hnone | ⟨transactions, hsome⟩
          · simp [hnone]
          · simp only [hsome, Option.bind_some, Assoc.get]
            cases transactions.lookup transactionId <;> rfl

theorem unsubscribe_eq (uuid : Uuid) (key : String) (transactionId : Nat) (session : Session)
    (subscribers : Subscribers) : ∃ error, unsubscribe uuid key transactionId session subscribers =
    if (subscribers.find ⟨uuid, key, session.getSessionId, transactionId⟩).isSome then
      (none, drop uuid key transactionId session subscribers)
    else (some error, subscribers) := by
  unfold unsubscribe Subscribers.find readAt Subscription.path
  cases subscribers.lookup uuid with
  | none => exact ⟨msgInvalidUuid, rfl⟩
  | some keys =>
      simp only [Option.bind_some]
      cases keys.lookup key with
      | none => exact ⟨msgInvalidKey, rfl⟩
      | some sessions =>
          refine ⟨msgInvalidSub, ?_⟩
          rcases Option.eq_none_or_eq_some (sessions.lookup session.getSessionId) with hnone | ⟨transactions, hsome⟩
          · simp [hnone]
          · simp only [hsome, Option.bind_some, Assoc.get]

end Changes

section Purge

theorem find_purge (alive : Session → Bool) (subscribers : Subscribers) (t : Subscription) :
    (purgeClosedSessions alive false subscribers).find t = (subscribers.find t).filter alive := by
  have hempty : ∀ p, (∅ : Transactions).get p = none := fun _ => rfl
  have htransactions := Assoc.drops_inner hempty (Assoc.get_sweep (K := Nat) (V := Session) alive)
  have hsessions := Assoc.drops_inner (Assoc.readAt_empty _) (htransactions.sweep (K := Nat))
  have hkeys := Assoc.drops_inner (Assoc.readAt_empty _) (hsessions.sweep (K := String))
  exact hkeys.sweep subscribers t.path

theorem noEmptyLevel_purge (alive : Session → Bool) (subscribers : Subscribers) :
    (purgeClosedSessions alive false subscribers).NoEmptyLevel := by
  refine Assoc.every_sweepInner (fun keys => Assoc.every_sweepInner (fun sessions => ?_) keys) subscribers
  intro sessionId transactions hlookup
  have hevery : Assoc.Every (fun transactions : Transactions => transactions.entries ≠ [] ∧ True)
      (Assoc.sweepInner (Assoc.sweep fun session => if alive session then some session else none) sessions) :=
    Assoc.every_sweepInner (fun _ => trivial) sessions
  exact (hevery sessionId transactions hlookup).1

end Purge

section Notices

-- Every subscription holds the session that it is named after.
def Own (subscribers : Subscribers) : Prop :=
  ∀ t session, subscribers.find t = some session → session.getSessionId = t.sessionId

theorem own_empty : Own ∅ := by
  intro t session hfind
  rw [Subscribers.find, Assoc.readAt_empty] at hfind
  cases hfind

theorem Own.add (h : Own subscribers) (uuid : Uuid) (key : String) (transactionId : Nat) (session : Session) :
    Own (add uuid key transactionId session subscribers) := by
  intro t held hfind
  rw [find_of_sets (t := ⟨uuid, key, session.getSessionId, transactionId⟩)
    (sets_add uuid key transactionId session)] at hfind
  split at hfind
  · rename_i ht
    rw [ht, ← Option.some.inj hfind]
  · exact h t held hfind

theorem Own.drop (h : Own subscribers) (uuid : Uuid) (key : String) (transactionId : Nat) (session : Session) :
    Own (drop uuid key transactionId session subscribers) := by
  intro t held hfind
  rw [find_of_sets (t := ⟨uuid, key, session.getSessionId, transactionId⟩)
    (sets_drop uuid key transactionId session)] at hfind
  split at hfind
  · cases hfind
  · exact h t held hfind

theorem Own.purge (h : Own subscribers) (alive : Session → Bool) :
    Own (purgeClosedSessions alive false subscribers) := by
  intro t held hfind
  rw [find_purge] at hfind
  exact h t held (Option.filter_eq_some_iff.mp hfind).1

-- A walk through the sessions of a key meets every subscription to it.
theorem find_iff_entries {sessionId : Nat} {keys : Keys} {sessions : Sessions}
    (hkeys : subscribers.lookup uuid = some keys) (hsessions : keys.lookup key = some sessions) :
    subscribers.find ⟨uuid, key, sessionId, transactionId⟩ = some session ↔
      ∃ transactions, ⟨sessionId, transactions⟩ ∈ sessions.entries ∧
        ⟨transactionId, session⟩ ∈ transactions.entries := by
  simp only [Subscribers.find, readAt, Subscription.path, hkeys, hsessions, Option.bind_some,
    Option.bind_eq_some_iff, Assoc.mem_entries, Assoc.get]

theorem find_none_of_path {sessionId : Nat} (h : ∀ keys, subscribers.lookup uuid = some keys → keys.lookup key = none) :
    subscribers.find ⟨uuid, key, sessionId, transactionId⟩ = none := by
  unfold Subscribers.find readAt Subscription.path
  cases hkeys : subscribers.lookup uuid with
  | none => rfl
  | some keys => simp [h keys hkeys]

-- What a subscription is told of a change.
def noticeOf (t : Subscription) (operation : OperationType) (value : Bytes) : Datagram where
  session := t.sessionId
  response :=
    { dbUuid := t.uuid, transactionId := t.transactionId, key := t.key, value := value, operation := operation }

theorem noticeOf_inj {other : Subscription}
    (h : noticeOf t operation value = noticeOf other operation value) : t = other := by
  simp only [noticeOf, Datagram.mk.injEq, SubscriptionUpdate.mk.injEq] at h
  obtain ⟨hsession, huuid, htransaction, hkey, -⟩ := h
  exact Subscription.path_inj.mp (by simp [Subscription.path, hsession, huuid, htransaction, hkey])

-- The datagrams to the subscriptions of one session.
def notices (alive : Session → Bool) (uuid : Uuid) (key : String) (operation : OperationType) (value : Bytes)
    (transactions : Transactions) : List Datagram :=
  transactions.entries.filterMap fun subscription =>
    if alive subscription.2 then some (noticeOf ⟨uuid, key, subscription.2, subscription.1⟩ operation value) else none

theorem mem_notices : d ∈ notices alive uuid key operation value transactions ↔
    ∃ transactionId session, ⟨transactionId, session⟩ ∈ transactions.entries ∧ alive session ∧
      d = noticeOf ⟨uuid, key, session, transactionId⟩ operation value := by
  unfold notices
  rw [List.mem_filterMap]
  constructor
  · rintro ⟨⟨transactionId, session⟩, hmem, hsome⟩
    split at hsome
    · rename_i halive
      exact ⟨transactionId, session, hmem, halive, (Option.some.inj hsome).symm⟩
    · cases hsome
  · rintro ⟨transactionId, session, hmem, halive, rfl⟩
    exact ⟨⟨transactionId, session⟩, hmem, if_pos halive⟩

theorem notices_nodup (transactions : Transactions) : (notices alive uuid key operation value transactions).Nodup := by
  refine transactions.nodupKeys.nodup.filterMap ?_
  rintro ⟨first, session⟩ ⟨second, session'⟩ d hfirst hsecond
  obtain ⟨-, hthis⟩ := Option.ite_none_right_eq_some.mp (Option.mem_def.mp hfirst)
  obtain ⟨-, hthat⟩ := Option.ite_none_right_eq_some.mp (Option.mem_def.mp hsecond)
  obtain ⟨-, -, rfl, rfl⟩ := Subscription.mk.inj (noticeOf_inj (Option.some.inj (hthis.trans hthat.symm)))
  rfl

theorem notifySessions_eq {keys : Keys} {sessions : Sessions} (hkeys : subscribers.lookup uuid = some keys)
    (hsessions : keys.lookup key = some sessions) : notifySessions alive uuid operation key value subscribers =
      sessions.entries.flatMap fun held => notices alive uuid key operation value held.2 := by
  unfold notifySessions
  rw [hkeys]
  dsimp only
  rw [hsessions]
  rfl

theorem notifySessions_nil (h : ∀ keys, subscribers.lookup uuid = some keys → keys.lookup key = none) :
    notifySessions alive uuid operation key value subscribers = [] := by
  unfold notifySessions
  split
  · rfl
  · rename_i keys hkeys
    rw [h keys hkeys]

-- A subscription to the key lies behind the two lookups.
theorem path_cases (subscribers : Subscribers) (uuid : Uuid) (key : String) :
    (∀ keys, subscribers.lookup uuid = some keys → keys.lookup key = none) ∨
      ∃ keys sessions, subscribers.lookup uuid = some keys ∧ keys.lookup key = some sessions := by
  cases hkeys : subscribers.lookup uuid with
  | none => exact Or.inl (by simp)
  | some keys =>
      cases hsessions : keys.lookup key with
      | none => exact Or.inl (by simp [hsessions])
      | some sessions => exact Or.inr ⟨keys, sessions, rfl, hsessions⟩

theorem notifySessions_nodup (h : Own subscribers) (alive : Session → Bool) (uuid : Uuid) (key : String)
    (operation : OperationType) (value : Bytes) :
    (notifySessions alive uuid operation key value subscribers).Nodup := by
  rcases path_cases subscribers uuid key with hnone | ⟨keys, sessions, hkeys, hsessions⟩
  · rw [notifySessions_nil hnone]
    exact List.nodup_nil
  · rw [notifySessions_eq hkeys hsessions]
    refine List.nodup_flatMap.mpr ⟨fun held _ => notices_nodup held.2, ?_⟩
    -- A session has one entry, so that two entries have no session in common.
    refine (List.nodupKeys_iff_pairwise.mp sessions.nodupKeys).imp_of_mem ?_
    rintro ⟨sessionId, transactions⟩ ⟨otherId, others⟩ hmem hother hne d hd hd'
    obtain ⟨transactionId, session, hentry, -, rfl⟩ := mem_notices.mp hd
    obtain ⟨otherTransactionId, otherSession, hotherEntry, -, heq⟩ := mem_notices.mp hd'
    obtain ⟨-, -, rfl, -⟩ := Subscription.mk.inj (noticeOf_inj heq)
    have hself := h _ _ ((find_iff_entries hkeys hsessions).mpr ⟨transactions, hmem, hentry⟩)
    have hthere := h _ _ ((find_iff_entries hkeys hsessions).mpr ⟨others, hother, hotherEntry⟩)
    exact hne (hself.symm.trans hthere)

theorem mem_notifySessions (h : Own subscribers) : d ∈ notifySessions alive uuid operation key value subscribers ↔
    ∃ t, (subscribers.find t).isSome ∧ t.uuid = uuid ∧ t.key = key ∧ alive t.sessionId ∧
      d = noticeOf t operation value := by
  rcases path_cases subscribers uuid key with hnone | ⟨keys, sessions, hkeys, hsessions⟩
  · rw [notifySessions_nil hnone]
    refine iff_of_false (by simp) ?_
    rintro ⟨⟨_, _, sessionId, transactionId⟩, hfind, rfl, rfl, -⟩
    rw [find_none_of_path hnone] at hfind
    cases hfind
  · rw [notifySessions_eq hkeys hsessions, List.mem_flatMap]
    constructor
    · rintro ⟨⟨sessionId, transactions⟩, hmem, hd⟩
      obtain ⟨transactionId, session, hentry, halive, rfl⟩ := mem_notices.mp hd
      have hfind := (find_iff_entries hkeys hsessions).mpr ⟨transactions, hmem, hentry⟩
      obtain rfl : session = sessionId := h _ _ hfind
      exact ⟨⟨uuid, key, session, transactionId⟩, Option.isSome_of_eq_some hfind, rfl, rfl, halive, rfl⟩
    · rintro ⟨⟨_, _, sessionId, transactionId⟩, hsome, rfl, rfl, halive, rfl⟩
      obtain ⟨session, hfind⟩ := Option.isSome_iff_exists.mp hsome
      obtain rfl : session = sessionId := h _ _ hfind
      obtain ⟨transactions, hmem, hentry⟩ := (find_iff_entries hkeys hsessions).mp hfind
      exact ⟨⟨session, transactions⟩, hmem, mem_notices.mpr ⟨transactionId, session, hentry, halive, rfl⟩⟩

end Notices

end SubscriptionManager

namespace SubscriptionHub

open SubscriptionManager

variable {S : Type} {base : StorageBase S} {parse : String → Option BznMsg} {hub : SubscriptionHub S}
  {past : List (SubscriptionHub S × HubEvent)}

-- What the maps stand for.
def subscriptions (hub : SubscriptionHub S) : Set Subscription := {t | (hub.subscribers.find t).isSome}

-- The message changes this key of this database, and the storage takes the change.
inductive Announces (base : StorageBase S) (parse : String → Option BznMsg) (storage : S) :
    Raft.JsonMessage → Uuid → String → OperationType → Bytes → Prop
  | create {text : String} {request : DatabaseMsg} {key : String} {value : Bytes}
      (hparse : parse text = some (.db request)) (hcommand : request.command = .create key value)
      (hok : (base.create (Crud.dbUuid request) (Bytes.ofString key) value storage).1 = .ok) :
      Announces base parse storage (.database text) (Crud.dbUuid request) key .update value
  | update {text : String} {request : DatabaseMsg} {key : String} {value : Bytes}
      (hparse : parse text = some (.db request)) (hcommand : request.command = .update key value)
      (hok : (base.update (Crud.dbUuid request) (Bytes.ofString key) value storage).1 = .ok) :
      Announces base parse storage (.database text) (Crud.dbUuid request) key .update value
  | delete {text : String} {request : DatabaseMsg} {key : String}
      (hparse : parse text = some (.db request)) (hcommand : request.command = .delete key)
      (hok : (base.remove (Crud.dbUuid request) (Bytes.ofString key) storage).1 = .ok) :
      Announces base parse storage (.database text) (Crud.dbUuid request) key .delete []

section Commits

theorem commit_subscribers (msg : Raft.JsonMessage) (hub : SubscriptionHub S) :
    (commit base parse msg hub).hub.subscribers = hub.subscribers := by
  unfold commit
  split
  · split
    · split <;> rfl
    all_goals rfl
  all_goals rfl

theorem commit_announced {msg : Raft.JsonMessage} {uuid : Uuid} {key : String} {operation : OperationType}
    {value : Bytes} (h : Announces base parse hub.storage msg uuid key operation value) :
    (commit base parse msg hub).datagrams =
      notifySessions hub.alive uuid operation key value hub.subscribers := by
  cases h with
  | create hparse hcommand hok =>
      simp [commit, hparse, commitHandlers, hcommand, Raft.commitCreate, Raft.commitWrite, hok, inspectCommit]
  | update hparse hcommand hok =>
      simp [commit, hparse, commitHandlers, hcommand, Raft.commitUpdate, Raft.commitWrite, hok, inspectCommit]
  | delete hparse hcommand hok =>
      simp [commit, hparse, commitHandlers, hcommand, Raft.commitDelete, Raft.commitWrite, hok, inspectCommit]

theorem announces_of_handled {text : String} {request : DatabaseMsg} {s after : S}
    (hparse : parse text = some (.db request)) (h : commitHandlers base request s = some (true, after)) :
    ∃ uuid key operation value, Announces base parse s (.database text) uuid key operation value := by
  unfold commitHandlers at h
  split at h
  · rename_i key value hcommand
    obtain ⟨hok, -⟩ := Prod.mk.inj (Option.some.inj h)
    exact ⟨_, _, _, _, .create hparse hcommand (of_decide_eq_true hok)⟩
  · rename_i key value hcommand
    obtain ⟨hok, -⟩ := Prod.mk.inj (Option.some.inj h)
    exact ⟨_, _, _, _, .update hparse hcommand (of_decide_eq_true hok)⟩
  · rename_i key hcommand
    obtain ⟨hok, -⟩ := Prod.mk.inj (Option.some.inj h)
    exact ⟨_, _, _, _, .delete hparse hcommand (of_decide_eq_true hok)⟩
  all_goals cases h

theorem commit_silent {msg : Raft.JsonMessage}
    (h : ∀ uuid key operation value, ¬ Announces base parse hub.storage msg uuid key operation value) :
    (commit base parse msg hub).datagrams = [] := by
  unfold commit
  split
  · rename_i text
    split
    · rename_i request hparse
      split
      · rename_i after hhandled
        obtain ⟨uuid, key, operation, value, hannounces⟩ := announces_of_handled hparse hhandled
        exact absurd hannounces (h uuid key operation value)
      all_goals rfl
    all_goals rfl
  all_goals rfl

end Commits

-- What every call answers, sends and leaves behind, in terms of the set.
structure Refines (base : StorageBase S) (parse : String → Option BznMsg) (hub : SubscriptionHub S) : Prop where
  subscribed : ∀ uuid key transactionId (session : Session),
    let t : Subscription := ⟨uuid, key, session.getSessionId, transactionId⟩
    let reaction := hub.react base parse (.subscribe uuid key transactionId session)
    reaction.datagrams = [] ∧
      (t ∉ hub.subscriptions → reaction.error = none ∧ reaction.hub.subscriptions = insert t hub.subscriptions) ∧
      (t ∈ hub.subscriptions → reaction.error = some msgDuplicateSub ∧ reaction.hub = hub)
  unsubscribed : ∀ uuid key transactionId (session : Session),
    let t : Subscription := ⟨uuid, key, session.getSessionId, transactionId⟩
    let reaction := hub.react base parse (.unsubscribe uuid key transactionId session)
    reaction.datagrams = [] ∧
      (t ∈ hub.subscriptions → reaction.error = none ∧ reaction.hub.subscriptions = hub.subscriptions \ {t}) ∧
      (t ∉ hub.subscriptions → reaction.error.isSome ∧ reaction.hub = hub)
  purged : ∀ canceled, let reaction := hub.react base parse (.purge canceled)
    reaction.datagrams = [] ∧ (canceled → reaction.hub = hub) ∧
      (¬ canceled → reaction.hub.subscribers.NoEmptyLevel ∧
        reaction.hub.subscriptions = {t ∈ hub.subscriptions | t.sessionId ∉ hub.closed})
  closed : ∀ session, let reaction := hub.react base parse (.close session)
    reaction.datagrams = [] ∧ reaction.hub.subscriptions = hub.subscriptions ∧
      reaction.hub.closed = insert session hub.closed
  committed : ∀ msg, let reaction := hub.react base parse (.commit msg)
    reaction.hub.subscriptions = hub.subscriptions ∧
      (∀ uuid key operation value, Announces base parse hub.storage msg uuid key operation value →
        reaction.datagrams.Nodup ∧ ∀ d, d ∈ reaction.datagrams ↔
          ∃ t ∈ hub.subscriptions, t.uuid = uuid ∧ t.key = key ∧ t.sessionId ∉ hub.closed ∧
            d = noticeOf t operation value) ∧
      ((∀ uuid key operation value, ¬ Announces base parse hub.storage msg uuid key operation value) →
        reaction.datagrams = [])

theorem own_step (h : Own hub.subscribers) (event : HubEvent) : Own (hub.react base parse event).hub.subscribers := by
  cases event with
  | subscribe uuid key transactionId session =>
      unfold react
      dsimp only
      rw [subscribe_eq]
      split
      · exact h
      · exact h.add uuid key transactionId session
  | unsubscribe uuid key transactionId session =>
      obtain ⟨error, hunsubscribe⟩ := unsubscribe_eq uuid key transactionId session hub.subscribers
      unfold react
      dsimp only
      rw [hunsubscribe]
      split
      · exact h.drop uuid key transactionId session
      · exact h
  | purge canceled =>
      cases canceled with
      | true => exact h
      | false => exact h.purge hub.alive
  | close session => exact h
  | commit msg =>
      unfold react
      dsimp only
      rw [commit_subscribers]
      exact h

theorem own_of_run (run : (machine base parse).Run past hub) : Own hub.subscribers := by
  refine run.invariant (I := fun _ hub => Own hub.subscribers) (fun hub hinit => ?_) fun _ hub event _ h _ =>
    own_step h event
  rw [hinit.1]
  exact own_empty

theorem mem_subscriptions {t : Subscription} : t ∈ hub.subscriptions ↔ (hub.subscribers.find t).isSome := Iff.rfl

theorem subscribe_subscriptions (uuid : Uuid) (key : String) (transactionId : Nat) (session : Session) :
    let t : Subscription := ⟨uuid, key, session.getSessionId, transactionId⟩
    let reaction := hub.react base parse (.subscribe uuid key transactionId session)
    reaction.datagrams = [] ∧
      (t ∉ hub.subscriptions → reaction.error = none ∧ reaction.hub.subscriptions = insert t hub.subscriptions) ∧
      (t ∈ hub.subscriptions → reaction.error = some msgDuplicateSub ∧ reaction.hub = hub) := by
  intro t reaction
  refine ⟨rfl, fun habsent => ?_, fun hpresent => ?_⟩
  · have hanswer : subscribe uuid key transactionId session hub.subscribers =
        (none, add uuid key transactionId session hub.subscribers) :=
      subscribe_eq.trans (if_neg habsent)
    refine ⟨congrArg Prod.fst hanswer, Set.ext fun other => ?_⟩
    have hhub : reaction.hub.subscribers = add uuid key transactionId session hub.subscribers :=
      congrArg Prod.snd hanswer
    rw [mem_subscriptions, hhub]
    exact isSome_find_add uuid key transactionId session hub.subscribers other
  · have hanswer : subscribe uuid key transactionId session hub.subscribers =
        (some msgDuplicateSub, hub.subscribers) :=
      subscribe_eq.trans (if_pos hpresent)
    refine ⟨congrArg Prod.fst hanswer, ?_⟩
    change { hub with subscribers := (subscribe uuid key transactionId session hub.subscribers).2 } = hub
    rw [hanswer]

theorem unsubscribe_subscriptions (uuid : Uuid) (key : String) (transactionId : Nat) (session : Session) :
    let t : Subscription := ⟨uuid, key, session.getSessionId, transactionId⟩
    let reaction := hub.react base parse (.unsubscribe uuid key transactionId session)
    reaction.datagrams = [] ∧
      (t ∈ hub.subscriptions → reaction.error = none ∧ reaction.hub.subscriptions = hub.subscriptions \ {t}) ∧
      (t ∉ hub.subscriptions → reaction.error.isSome ∧ reaction.hub = hub) := by
  intro t reaction
  obtain ⟨error, hunsubscribe⟩ := unsubscribe_eq uuid key transactionId session hub.subscribers
  refine ⟨rfl, fun hpresent => ?_, fun habsent => ?_⟩
  · have hanswer : unsubscribe uuid key transactionId session hub.subscribers =
        (none, drop uuid key transactionId session hub.subscribers) :=
      hunsubscribe.trans (if_pos hpresent)
    refine ⟨congrArg Prod.fst hanswer, Set.ext fun other => ?_⟩
    have hhub : reaction.hub.subscribers = drop uuid key transactionId session hub.subscribers :=
      congrArg Prod.snd hanswer
    rw [mem_subscriptions, hhub]
    exact isSome_find_drop uuid key transactionId session hub.subscribers other
  · have hanswer : unsubscribe uuid key transactionId session hub.subscribers = (some error, hub.subscribers) :=
      hunsubscribe.trans (if_neg habsent)
    refine ⟨?_, ?_⟩
    · change (unsubscribe uuid key transactionId session hub.subscribers).1.isSome
      rw [hanswer]
      rfl
    · change { hub with subscribers := (unsubscribe uuid key transactionId session hub.subscribers).2 } = hub
      rw [hanswer]

theorem purge_subscriptions (h : Own hub.subscribers) :
    (hub.react base parse (.purge false)).hub.subscriptions =
      {t ∈ hub.subscriptions | t.sessionId ∉ hub.closed} := by
  refine Set.ext fun t => ?_
  have hfind := find_purge hub.alive hub.subscribers t
  rw [mem_subscriptions, Set.mem_sep_iff, mem_subscriptions]
  change ((purgeClosedSessions hub.alive false hub.subscribers).find t).isSome ↔ _
  rw [hfind]
  cases hheld : hub.subscribers.find t with
  | none => simp
  | some session =>
      have hsession : session = t.sessionId := h t session hheld
      simp [Option.filter, alive, hsession]

theorem refines_of_own (h : Own hub.subscribers) : Refines base parse hub where
  subscribed := subscribe_subscriptions
  unsubscribed := unsubscribe_subscriptions
  purged canceled := by
    refine ⟨rfl, fun hcanceled => ?_, fun hcanceled => ?_⟩
    · rw [hcanceled]
      rfl
    · rw [Bool.eq_false_iff.mpr hcanceled]
      exact ⟨noEmptyLevel_purge hub.alive hub.subscribers, purge_subscriptions h⟩
  closed session := ⟨rfl, rfl, rfl⟩
  committed msg := by
    refine ⟨?_, fun uuid key operation value hannounces => ?_, commit_silent⟩
    · unfold subscriptions react
      dsimp only
      rw [commit_subscribers]
    · change (commit base parse msg hub).datagrams.Nodup ∧ ∀ d, d ∈ (commit base parse msg hub).datagrams ↔ _
      rw [commit_announced hannounces]
      refine ⟨notifySessions_nodup h hub.alive uuid key operation value, fun d => ?_⟩
      rw [mem_notifySessions h]
      simp [mem_subscriptions, alive]

-- The subscriptions of a node are a set, from an empty one on.
theorem refines_set (run : (machine base parse).Run past hub) :
    (past = [] → hub.subscriptions = ∅) ∧ Refines base parse hub := by
  refine ⟨fun hpast => ?_, refines_of_own (own_of_run run)⟩
  subst hpast
  cases run with
  | start hinit =>
      refine Set.eq_empty_of_forall_notMem fun t hmem => ?_
      rw [mem_subscriptions, hinit.1, Subscribers.find, Assoc.readAt_empty] at hmem
      cases hmem

def parsePut (text : String) : Option BznMsg :=
  if text = "put" then some (.db { header := some { dbUuid := "db" }, command := .create "k" [1] }) else none

def startHub : SubscriptionHub MemStorage where
  subscribers := ∅
  closed := ∅
  storage := memStorage.opened

-- Two sessions subscribe to a key, and one of them goes away before it is created.
def putEvents : List HubEvent :=
  [.subscribe "db" "k" 7 1, .subscribe "db" "k" 8 2, .subscribe "db" "k" 7 1, .close 2, .commit (.database "put")]

def putRun : List (SubscriptionHub MemStorage × HubEvent) × SubscriptionHub MemStorage :=
  (machine memStorage parsePut).replay [] startHub putEvents

theorem putRun_run : (machine memStorage parsePut).Run putRun.1 putRun.2 :=
  (Machine.Run.start (M := machine memStorage parsePut) ⟨rfl, rfl⟩).replay putEvents
    (Machine.admits_of_enabled (fun _ _ => trivial) _ _)

theorem refines_set_of_put : ((putRun.1 = [] → putRun.2.subscriptions = ∅) ∧ Refines memStorage parsePut putRun.2) ∧
    putRun.1.map (fun step => ((step.1.react memStorage parsePut step.2).error,
        (step.1.react memStorage parsePut step.2).datagrams)) =
      [(none, [noticeOf ⟨"db", "k", 1, 7⟩ .update [1]]), (none, []), (some msgDuplicateSub, []), (none, []),
        (none, [])] :=
  ⟨refines_set putRun_run, by decide +kernel⟩

end SubscriptionHub

end SwarmDB
