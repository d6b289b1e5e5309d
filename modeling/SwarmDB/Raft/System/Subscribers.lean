import SwarmDB.Raft.System.Replication
import SwarmDB.SubscriptionManager.Refinement

namespace SwarmDB.Raft

open Machine SubscriptionManager

variable {S : Type} {base : StorageBase S} {reader : StorageReader S} {parse : String → Option BznMsg} {env : Env}
  {first : LogEntry} {past : List (System S × Occurrence)} {s : System S} {o : Occurrence} {n : Uuid}
  {hub : SubscriptionHub S} {t : Subscription} {committed : Nat → JsonMessage}

section Changes

-- A write that the storage has taken.
structure Change where
  uuid : Uuid
  key : String
  operation : OperationType
  value : Bytes
  deriving DecidableEq

def changeBy (request : DatabaseMsg) : Option Change :=
  match request.command with
  | .create key value | .update key value => some ⟨Crud.dbUuid request, key, .update, value⟩
  | .delete key => some ⟨Crud.dbUuid request, key, .delete, []⟩
  | .unset | .read _ | .has _ | .keys | .size | .subscribe _ | .unsubscribe .. => none

def changeOf (base : StorageBase S) (parse : String → Option BznMsg) (s : S) : JsonMessage → Option Change
  | .database text =>
    match parse text with
    | some (.db request) =>
      match SubscriptionHub.commitHandlers base request s with
      | some (true, _) => changeBy request
      | some (false, _) | none => none
    | some .unset | some (.json _) | none => none
  | .null | .singleQuorum _ | .jointQuorum .. | .other _ => none

-- The changes that messages make one after the other.
def changes (base : StorageBase S) (parse : String → Option BznMsg) : S → List JsonMessage → List Change
  | _, [] => []
  | s, msg :: rest =>
    (changeOf base parse s msg).toList ++ changes base parse (commitHandler base parse msg s) rest

theorem changes_append (s : S) (msgs more : List JsonMessage) : changes base parse s (msgs ++ more) =
    changes base parse s msgs ++
      changes base parse (msgs.foldl (fun s msg => commitHandler base parse msg s) s) more := by
  induction msgs generalizing s with
  | nil => rfl
  | cons msg rest ih =>
      change (changeOf base parse s msg).toList ++ changes base parse _ (rest ++ more) = _
      rw [ih, ← List.append_assoc]
      rfl

def Change.concerns (t : Subscription) (change : Change) : Bool :=
  decide (change.uuid = t.uuid ∧ change.key = t.key)

-- What the holder of a subscription is to hear of changes.
def noticesOf (t : Subscription) (changes : List Change) : List Datagram :=
  (changes.filter (Change.concerns t)).map fun change => noticeOf t change.operation change.value

theorem noticesOf_append (t : Subscription) (changes more : List Change) :
    noticesOf t (changes ++ more) = noticesOf t changes ++ noticesOf t more := by
  simp [noticesOf]

end Changes

section Commits

def isFor (t : Subscription) (d : Datagram) : Bool :=
  decide (d.session = t.sessionId ∧ d.response.dbUuid = t.uuid ∧ d.response.key = t.key ∧
    d.response.transactionId = t.transactionId)

theorem isFor_noticeOf {t other : Subscription} {operation : OperationType} {value : Bytes} :
    isFor t (noticeOf other operation value) = true ↔ other = t := by
  obtain ⟨uuid, key, sessionId, transactionId⟩ := t
  obtain ⟨uuid', key', sessionId', transactionId'⟩ := other
  have hfields : (sessionId' = sessionId ∧ uuid' = uuid ∧ key' = key ∧ transactionId' = transactionId) ↔
      uuid' = uuid ∧ key' = key ∧ sessionId' = sessionId ∧ transactionId' = transactionId := by tauto
  rw [Subscription.mk.injEq]
  exact decide_eq_true_iff.trans hfields

theorem filter_eq_singleton {A : Type} [DecidableEq A] {l : List A} (hnodup : l.Nodup) {p : A → Bool} {a : A}
    (ha : a ∈ l) (hp : ∀ d ∈ l, p d = true ↔ d = a) : l.filter p = [a] := by
  have hsame : l.filter p = l.filter fun d => decide (d = a) := by
    apply List.filter_congr
    intro d hd
    rw [Bool.eq_iff_iff, hp d hd, decide_eq_true_iff]
  rw [hsame, List.filter_eq, List.count_eq_one_of_mem hnodup ha]
  rfl

theorem commit_datagrams (msg : JsonMessage) (hub : SubscriptionHub S) :
    (SubscriptionHub.commit base parse msg hub).datagrams =
      match changeOf base parse hub.storage msg with
      | some change =>
        notifySessions hub.alive change.uuid change.operation change.key change.value hub.subscribers
      | none => [] := by
  unfold SubscriptionHub.commit changeOf
  cases msg with
  | null | singleQuorum _ | jointQuorum _ _ | other _ => rfl
  | database text =>
      dsimp only
      cases parse text with
      | none => rfl
      | some wrapped =>
          cases wrapped with
          | unset | json _ => rfl
          | db request =>
              dsimp only
              cases SubscriptionHub.commitHandlers base request hub.storage with
              | none => rfl
              | some result =>
                  obtain ⟨taken, storage⟩ := result
                  cases taken with
                  | false => rfl
                  | true =>
                      dsimp only
                      unfold inspectCommit changeBy
                      cases request.command <;> rfl

theorem commit_closed (msg : JsonMessage) (hub : SubscriptionHub S) :
    (SubscriptionHub.commit base parse msg hub).hub.closed = hub.closed := by
  unfold SubscriptionHub.commit
  split
  · split
    · split <;> rfl
    all_goals rfl
  all_goals rfl

-- A subscription that stands hears of a change of its record, and once.
theorem notify_hears {subscribers : Subscribers} {alive : Session → Bool} (hown : Own subscribers)
    (hheld : (subscribers.find t).isSome) (halive : alive t.sessionId = true) (change : Change) :
    (notifySessions alive change.uuid change.operation change.key change.value subscribers).filter (isFor t) =
      noticesOf t [change] := by
  obtain ⟨uuid, key, operation, value⟩ := change
  have hnodup := notifySessions_nodup hown alive uuid key operation value
  have hfor : ∀ d ∈ notifySessions alive uuid operation key value subscribers,
      isFor t d = true ↔ d = noticeOf t operation value := by
    intro d hd
    obtain ⟨other, _, _, _, _, rfl⟩ := (mem_notifySessions hown).mp hd
    rw [isFor_noticeOf]
    constructor
    · rintro rfl
      rfl
    · exact noticeOf_inj
  by_cases hconcerns : uuid = t.uuid ∧ key = t.key
  · have hthis : noticeOf t operation value ∈ notifySessions alive uuid operation key value subscribers :=
      (mem_notifySessions hown).mpr ⟨t, hheld, hconcerns.1.symm, hconcerns.2.symm, halive, rfl⟩
    have hnotices : noticesOf t [⟨uuid, key, operation, value⟩] = [noticeOf t operation value] := by
      simp [noticesOf, Change.concerns, hconcerns]
    rw [hnotices]
    exact filter_eq_singleton hnodup hthis hfor
  · have hnotices : noticesOf t [⟨uuid, key, operation, value⟩] = [] := by
      simp [noticesOf, Change.concerns, hconcerns]
    rw [hnotices, List.filter_eq_nil_iff]
    intro d hd hisfor
    obtain ⟨other, _, huuid, hkey, _, rfl⟩ := (mem_notifySessions hown).mp hd
    obtain rfl := isFor_noticeOf.mp hisfor
    exact hconcerns ⟨huuid.symm, hkey.symm⟩

theorem commit_hears (hown : Own hub.subscribers) (hheld : t ∈ hub.subscriptions)
    (halive : t.sessionId ∉ hub.closed)
    (msg : JsonMessage) : (SubscriptionHub.commit base parse msg hub).datagrams.filter (isFor t) =
      noticesOf t (changeOf base parse hub.storage msg).toList := by
  rw [commit_datagrams]
  cases changeOf base parse hub.storage msg with
  | none => rfl
  | some change => exact notify_hears hown hheld (decide_eq_true halive) change

theorem commits_hear (hown : Own hub.subscribers) (hheld : t ∈ hub.subscriptions)
    (halive : t.sessionId ∉ hub.closed)
    (msgs : List JsonMessage) : (hub.commits base parse msgs).datagrams.filter (isFor t) =
      noticesOf t (changes base parse hub.storage msgs) := by
  induction msgs generalizing hub with
  | nil => rfl
  | cons msg rest ih =>
      have hsubscribers : (SubscriptionHub.commit base parse msg hub).hub.subscribers = hub.subscribers :=
        SubscriptionHub.commit_subscribers msg hub
      have hrest := @ih (SubscriptionHub.commit base parse msg hub).hub (by rw [hsubscribers]; exact hown)
        (by rw [SubscriptionHub.mem_subscriptions, hsubscribers]; exact hheld) (by rw [commit_closed]; exact halive)
      change ((SubscriptionHub.commit base parse msg hub).datagrams ++
        ((SubscriptionHub.commit base parse msg hub).hub.commits base parse rest).datagrams).filter (isFor t) = _
      rw [List.filter_append, hrest, commit_hears hown hheld halive, SubscriptionHub.commit_storage,
        ← noticesOf_append]
      rfl

theorem commits_subscribers (base : StorageBase S) (parse : String → Option BznMsg) (msgs : List JsonMessage)
    (hub : SubscriptionHub S) : (hub.commits base parse msgs).hub.subscribers = hub.subscribers := by
  induction msgs generalizing hub with
  | nil => rfl
  | cons msg rest ih => exact (ih _).trans (SubscriptionHub.commit_subscribers msg hub)

end Commits

section Own

-- What crud does to the subscriptions is a call of the manager, or nothing.
theorem own_routing (base : StorageBase S) (parse : String → Option BznMsg) {d daemon : Daemon S} {text : String}
    {request : DatabaseMsg} {session : Session} {body : CrudAnswer} (h : Own d.hub.subscribers)
    (hrouted : d.doRaftTaskRouting reader text request session = .ok (daemon, body)) : Own daemon.hub.subscribers := by
  have hnode : ∀ handled : Except Exception (Node × CrudAnswer),
      handled.map (fun result => ({ d with node := result.1 }, result.2)) = .ok (daemon, body) →
        Own daemon.hub.subscribers := by
    intro handled hmap
    cases handled with
    | error e => cases hmap
    | ok result =>
        obtain ⟨rfl, _⟩ := Prod.mk.inj (Except.ok.inj hmap)
        exact h
  unfold Daemon.doRaftTaskRouting at hrouted
  split at hrouted
  · rename_i key _
    obtain ⟨rfl, _⟩ := Prod.mk.inj (Except.ok.inj hrouted)
    have hstep : Own (d.hub.react base parse (.subscribe (Crud.dbUuid request) key
        (Crud.headerOf request).transactionId session)).hub.subscribers := SubscriptionHub.own_step h _
    exact hstep
  · rename_i key transactionId _
    obtain ⟨rfl, _⟩ := Prod.mk.inj (Except.ok.inj hrouted)
    have hstep : Own (d.hub.react base parse (.unsubscribe (Crud.dbUuid request) key transactionId
        session)).hub.subscribers := SubscriptionHub.own_step h _
    exact hstep
  all_goals split at hrouted <;> exact hnode _ hrouted

theorem own_crud (base : StorageBase S) (d : Daemon S) (session : Session) (message : Option String)
    (h : Own d.hub.subscribers) :
    Own (d.handleWsCrudMessages reader parse session message).daemon.hub.subscribers := by
  unfold Daemon.handleWsCrudMessages
  split
  · exact h
  · rename_i text
    split
    · exact h
    · exact h
    · exact h
    · rename_i request _
      split
      · exact h
      · rename_i hrouted
        exact own_routing base parse h hrouted

theorem own_next {d : Daemon S} (h : Own d.hub.subscribers) (o : Occurrence) :
    Own (d.next base reader parse env o).hub.subscribers := by
  cases o with
  | raft a =>
      have hsubscribers : (d.next base reader parse env (.raft a)).hub.subscribers = d.hub.subscribers :=
        commits_subscribers base parse _ d.hub
      rw [hsubscribers]
      exact h
  | client uuid session message => exact own_crud base d session message h
  | http uuid verb target body =>
      obtain ⟨hhub, _⟩ := doReadRequest_cases reader d verb target body rfl
      exact hhub ▸ h
  | purge uuid canceled =>
      have hstep : Own (d.hub.react base parse (.purge canceled)).hub.subscribers := SubscriptionHub.own_step h _
      exact hstep
  | close uuid session => exact h
  | restart uuid peers enableAudit enablePeerValidation signedKey => exact own_empty

theorem own_of_system (run : (system base reader parse env first).Run past s) (n : Uuid) :
    Own (s.daemons n).hub.subscribers := by
  induction run generalizing n with
  | @start s hinit =>
      rw [hinit.2 n]
      exact own_empty
  | @step past s o _ _ ih =>
      change Own ((s.act base reader parse env o).daemons n).hub.subscribers
      rcases act_daemons_cases base reader parse env s o n with ⟨_, hself⟩ | hother
      · rw [hself]
        exact own_next (ih n) o
      · rw [hother]
        exact ih n

end Own

section Hearing

-- What a daemon sends to subscribers in these steps.
def heard (base : StorageBase S) (parse : String → Option BznMsg) (env : Env) :
    List (System S × Occurrence) → Uuid → List Datagram
  | [], _ => []
  | (s, o) :: earlier, n => heard base parse env earlier n ++
    if o.uuid = n then (s.daemons n).datagrams base parse env o else []

-- In these steps the subscription stands.
def Stands (later : List (System S × Occurrence)) (n : Uuid) (t : Subscription) : Prop :=
  ∀ step ∈ later, t ∈ (step.1.daemons n).hub.subscriptions ∧ t.sessionId ∉ (step.1.daemons n).hub.closed

-- The messages of the sequence that a daemon commits on its way from one commit index to another.
def between (committed : Nat → JsonMessage) (k k' : Nat) : List JsonMessage := (List.range' k (k' - k)).map committed

theorem between_append (committed : Nat → JsonMessage) {i j k : Nat} (hij : i ≤ j) (hjk : j ≤ k) :
    between committed i k = between committed i j ++ between committed j k := by
  unfold between
  rw [← List.map_append]
  have hj : j = i + (j - i) := by omega
  have hsum : j - i + (k - j) = k - i := by omega
  rw [← hsum, ← List.range'_append_1, ← hj]

theorem stateAfter_between {i j : Nat} (hpos : 1 ≤ i) (hle : i ≤ j) : stateAfter base parse committed j =
    (between committed i j).foldl (fun s msg => commitHandler base parse msg s)
      (stateAfter base parse committed i) := by
  have hsplit := between_append committed hpos hle
  unfold between at hsplit
  unfold stateAfter between
  rw [hsplit, List.foldl_append]

theorem submits_commitIndex {node node' : Node} {text : String} (h : Submits node text node') :
    node'.commitIndex = node.commitIndex := by
  rw [h.node_eq]
  unfold Node.appendLog Node.appendLogUnsafe
  split <;> rfl

theorem between_self (committed : Nat → JsonMessage) (k : Nat) : between committed k k = [] := by
  simp [between]

-- One step: what a daemon sends tells of the messages it commits.
theorem next_hears {d : Daemon S} (hown : Own d.hub.subscribers) (hheld : t ∈ d.hub.subscriptions)
    (halive : t.sessionId ∉ d.hub.closed) (hregular : Regular env s o) (hpos : 1 ≤ d.node.commitIndex)
    (hlogged : ∀ i, 1 ≤ i → i < (d.next base reader parse env o).node.commitIndex →
      ∃ entry, (d.next base reader parse env o).node.log.entries[i]? = some entry ∧ entry.msg = committed i) :
    d.node.commitIndex ≤ (d.next base reader parse env o).node.commitIndex ∧
      (d.datagrams base parse env o).filter (isFor t) = noticesOf t (changes base parse d.hub.storage
        (between committed d.node.commitIndex (d.next base reader parse env o).node.commitIndex)) := by
  have hidle : (d.next base reader parse env o).node.commitIndex = d.node.commitIndex →
      d.datagrams base parse env o = [] → d.node.commitIndex ≤ (d.next base reader parse env o).node.commitIndex ∧
        (d.datagrams base parse env o).filter (isFor t) = noticesOf t (changes base parse d.hub.storage
          (between committed d.node.commitIndex (d.next base reader parse env o).node.commitIndex)) := by
    intro hindex hsilent
    rw [hindex, hsilent, between_self]
    exact ⟨le_refl _, rfl⟩
  cases o with
  | raft a =>
      obtain ⟨count, hindex, _, hcalls⟩ := step_calls env d.node a.input
      have hindex : (d.next base reader parse env (.raft a)).node.commitIndex = d.node.commitIndex + count := hindex
      have hslice : (((d.next base reader parse env (.raft a)).node.log.entries.drop d.node.commitIndex).take
          count).map LogEntry.msg = between committed d.node.commitIndex (d.node.commitIndex + count) := by
        unfold between
        rw [Nat.add_sub_cancel_left]
        exact logged_slice fun i hlow hhigh => hlogged i (by omega) (by omega)
      rw [hindex]
      refine ⟨Nat.le_add_right _ _, ?_⟩
      change (d.hub.commits base parse (((d.node.step env a.input).effects.filterMap Effect.committed).map
        Prod.snd)).datagrams.filter (isFor t) = _
      rw [hcalls, commits_hear hown hheld halive]
      exact congrArg (fun msgs => noticesOf t (changes base parse d.hub.storage msgs)) hslice
  | client uuid session message =>
      obtain ⟨_, _, hnode | ⟨_, _, _, _, hsubmits, _⟩⟩ :=
        handleWsCrudMessages_cases reader parse d session message rfl
      · exact hidle (congrArg Node.commitIndex hnode) rfl
      · exact hidle (submits_commitIndex hsubmits) rfl
  | http uuid verb target body =>
      obtain ⟨_, hnode | ⟨_, _, hsubmits, _⟩⟩ := doReadRequest_cases reader d verb target body rfl
      · exact hidle (congrArg Node.commitIndex hnode) rfl
      · exact hidle (submits_commitIndex hsubmits) rfl
  | purge _ _ | close _ _ => exact hidle rfl rfl
  | restart _ _ _ _ _ => exact absurd hregular id

theorem visited_origin (later earlier : List (System S × Occurrence)) (s : System S) :
    Visited (later ++ earlier) s (origin later s) := by
  cases hlast : later.getLast? with
  | none => exact Or.inl (by simp [origin, hlast])
  | some oldest =>
      refine Or.inr ⟨oldest.2, List.mem_append_left _ ?_⟩
      have hmem := List.mem_of_getLast? hlast
      simpa [origin, hlast] using hmem

-- One step of the system, as the holder of a subscription sees it.
theorem act_hears (hlabelled : first.Labelled)
    (run : ((system base reader parse env first).guard (Regular env)).Run past s) (hregular : Regular env s o)
    (hheld : t ∈ (s.daemons n).hub.subscriptions) (halive : t.sessionId ∉ (s.daemons n).hub.closed)
    (hlogged : ∀ i, 1 ≤ i → i < ((s.act base reader parse env o).daemons n).node.commitIndex → ∃ entry,
      ((s.act base reader parse env o).daemons n).node.log.entries[i]? = some entry ∧ entry.msg = committed i) :
    (s.daemons n).node.commitIndex ≤ ((s.act base reader parse env o).daemons n).node.commitIndex ∧
      (heard base parse env [(s, o)] n).filter (isFor t) = noticesOf t (changes base parse (s.daemons n).hub.storage
        (between committed (s.daemons n).node.commitIndex
          ((s.act base reader parse env o).daemons n).node.commitIndex)) := by
  change _ ∧ (if o.uuid = n then (s.daemons n).datagrams base parse env o else []).filter (isFor t) = _
  by_cases hn : o.uuid = n
  · subst hn
    rw [act_daemons_self] at hlogged ⊢
    rw [if_pos rfl]
    exact next_hears (own_of_system run.of_guard o.uuid) hheld halive hregular
      (follows_of_run hlabelled run o.uuid).bounds.1 hlogged
  · rw [act_daemons_other (Ne.symm hn), if_neg hn, between_self]
    exact ⟨le_refl _, rfl⟩

-- A stretch of a run: the holder of a subscription that stands hears of the changes in order.
theorem hears_of_stretch {later earlier : List (System S × Occurrence)} (hfirst : first.entryType = .singleQuorum)
    (hlabelled : first.Labelled)
    (run : ((system base reader parse env first).guard (Regular env)).Run (later ++ earlier) s)
    (hlogged : Logged (later ++ earlier) s committed) (hstands : Stands later n t) :
    ((origin later s).daemons n).node.commitIndex ≤ (s.daemons n).node.commitIndex ∧
      (heard base parse env later n).filter (isFor t) = noticesOf t (changes base parse
        (stateAfter base parse committed ((origin later s).daemons n).node.commitIndex)
        (between committed ((origin later s).daemons n).node.commitIndex (s.daemons n).node.commitIndex)) := by
  induction later generalizing s with
  | nil =>
      change (s.daemons n).node.commitIndex ≤ (s.daemons n).node.commitIndex ∧ _ = noticesOf t (changes base parse
        (stateAfter base parse committed (s.daemons n).node.commitIndex)
        (between committed (s.daemons n).node.commitIndex (s.daemons n).node.commitIndex))
      rw [between_self]
      exact ⟨le_refl _, rfl⟩
  | cons step later ih =>
      obtain ⟨u, o⟩ := step
      rw [List.cons_append] at run
      cases run with
      | step run henabled =>
          have hbefore : Logged (later ++ earlier) u committed := fun v hv => hlogged v (hv.step o _)
          obtain ⟨hle, hheard⟩ := ih run hbefore fun step hmem => hstands step (List.mem_cons_of_mem _ hmem)
          obtain ⟨hheld, halive⟩ := hstands (u, o) List.mem_cons_self
          have hstart : 1 ≤ ((origin later u).daemons n).node.commitIndex := by
            obtain ⟨before, hrun⟩ := run.visited (visited_origin later earlier u)
            exact (follows_of_run hlabelled hrun n).bounds.1
          obtain ⟨hgrown, hstep⟩ := act_hears hlabelled run henabled.2 hheld halive (hlogged _ (Or.inl rfl) n)
          rw [origin_step]
          refine ⟨hle.trans hgrown, ?_⟩
          change (heard base parse env later n ++ (heard base parse env [(u, o)] n)).filter (isFor t) =
            noticesOf t (changes base parse _ (between committed _
              ((u.act base reader parse env o).daemons n).node.commitIndex))
          rw [List.filter_append, hheard, hstep, between_append committed hle hgrown, changes_append, noticesOf_append,
            ← stateAfter_between hstart hle, stored_of_logged hfirst hlabelled run hbefore (Or.inl rfl) n]

theorem run_of_append {M : Machine (System S) Occurrence} {latest earlier : List (System S × Occurrence)}
    (run : M.Run (latest ++ earlier) s) : M.Run earlier (origin latest s) := by
  induction latest generalizing s with
  | nil => exact run
  | cons step latest ih =>
      obtain ⟨u, o⟩ := step
      rw [List.cons_append] at run
      cases run with
      | step run henabled =>
          rw [origin_step]
          exact ih run

theorem visited_append {latest earlier : List (System S × Occurrence)} {v : System S}
    (h : Visited earlier (origin latest s) v) : Visited (latest ++ earlier) s v := by
  rcases h with rfl | ⟨o, hmem⟩
  · exact visited_origin latest earlier s
  · exact Or.inr ⟨o, List.mem_append_right _ hmem⟩

-- The daemons go through one sequence of messages. Whoever subscribes at one of them hears, while the
-- subscription stands, of the changes of the record that the daemon commits in that time, and of no others.
structure Informed (base : StorageBase S) (parse : String → Option BznMsg) (env : Env)
    (past : List (System S × Occurrence)) (s : System S) (committed : Nat → JsonMessage) : Prop where
  logged : Logged past s committed
  hears : ∀ latest later earlier, past = latest ++ (later ++ earlier) → ∀ n t, Stands later n t →
    let u := origin latest s
    let k := ((origin later u).daemons n).node.commitIndex
    k ≤ (u.daemons n).node.commitIndex ∧ (heard base parse env later n).filter (isFor t) =
      noticesOf t (changes base parse (stateAfter base parse committed k)
        (between committed k (u.daemons n).node.commitIndex))

theorem informed_of_run (hfirst : first.entryType = .singleQuorum) (hlabelled : first.Labelled)
    (run : ((system base reader parse env first).guard (Regular env)).Run past s) :
    ∃ committed, Informed base parse env past s committed := by
  obtain ⟨committed, hlogged⟩ := committed_of_run hfirst run
  refine ⟨committed, hlogged, ?_⟩
  rintro latest later earlier rfl n t hstands
  exact hears_of_stretch hfirst hlabelled (run_of_append run) (fun v hv => hlogged v (visited_append hv)) hstands

-- A client of C subscribes to the record k before A creates it, with the request subscribeK.
def subscribeK : DatabaseMsg := { header := some ⟨"db", 1⟩, command := .subscribe "k" }

def subscribeKText : String := "Ug0KBgoCZGIQAUoDCgFr"

def parseSubscription (text : String) : Option BznMsg :=
  if text = subscribeKText then some (.db subscribeK) else parseRecord text

def hearingSystem : Machine (System MemStorage) Occurrence :=
  system memStorage memReader parseSubscription openEnv (createDatFile threePeers)

instance (s : System MemStorage) (o : Occurrence) : Decidable (hearingSystem.enabled s o) :=
  inferInstanceAs (Decidable (s.Possible o))

def hearingRun : List (System MemStorage × Occurrence) × System MemStorage :=
  hearingSystem.replay [] freshSystem (.client "C" 5 (some subscribeKText) :: oneRead)

theorem hearingRun_run : (hearingSystem.guard (Regular openEnv)).Run hearingRun.1 hearingRun.2 := by
  have hinit : hearingSystem.init freshSystem := ⟨⟨rfl, fun _ => ⟨_, _, _, _, rfl⟩⟩, fun _ => rfl⟩
  refine ((Machine.Run.start hinit).replay _ (by decide +kernel)).guard_of ?_
  decide +kernel

theorem informed_of_run_three :
    heard memStorage parseSubscription openEnv hearingRun.1 "C" = [noticeOf ⟨"db", "k", 5, 1⟩ .update [118]] ∧
      ∃ committed, Informed memStorage parseSubscription openEnv hearingRun.1 hearingRun.2 committed :=
  ⟨by decide +kernel,
    informed_of_run rfl (.of_ne (by simp [createDatFile]) (by simp [createDatFile])) hearingRun_run⟩

end Hearing

end SwarmDB.Raft
