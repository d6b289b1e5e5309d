import SwarmDB.Raft.Restart.Replay
import SwarmDB.Raft.System

namespace SwarmDB.Raft

open ReplicatedLog Machine

variable {S : Type} {base : StorageBase S} {reader : StorageReader S} {parse : String → Option BznMsg} {env : Env}
  {first : LogEntry} {past : List (System S × Occurrence)} {s t : System S} {o : Occurrence} {d : Daemon S} {n : Uuid}
  {text : String}

section Safe

-- The steps of raft keep what is committed, and no daemon starts again.
def Regular (env : Env) (s : System S) : Occurrence → Prop
  | .raft a => Faithful env s.swarm a
  | .restart .. => False
  | .client .. | .http .. | .purge .. | .close .. => True

instance (env : Env) (s : System S) : (o : Occurrence) → Decidable (Regular env s o)
  | .raft a => inferInstanceAs (Decidable (Faithful env s.swarm a))
  | .restart .. => inferInstanceAs (Decidable False)
  | .client .. | .http .. | .purge .. | .close .. => inferInstanceAs (Decidable True)

def Event.action : Event → Option Action
  | .act a => some a
  | .restart .. => none

theorem faithful_appendLog (env : Env) (s : Swarm) (uuid : Uuid) (text : String) :
    Faithful env s (.appendLog uuid text) where
  orderly := {
    administers := rfl
    steady := ⟨by simp [Node.RollsBack, Action.input], by simp [Node.Wraps, Node.Campaigns, Action.input]⟩
    stepsDown := by simp [Node.StaysLeader, Action.input] }
  inRange := by simp [Node.AcceptsStray, Action.input]
  honest := by simp [Swarm.Misleads, Action.input]

-- Where raft keeps what is committed, so does the whole.
theorem regular_refines (base : StorageBase S) (reader : StorageReader S) (parse : String → Option BznMsg) (env : Env)
    (first : LogEntry) : Refines ((system base reader parse env first).guard (Regular env))
      ((swarm env first).guard (Faithful env)) System.swarm
      (fun s o => (s.action base reader parse env o).bind Event.action) where
  init := fun s hinit => hinit.1
  moves := by
    intro s o a henabled haction
    obtain ⟨event, hevent, hact⟩ := Option.bind_eq_some_iff.mp haction
    obtain ⟨hmoves, hnext⟩ := (system_refines base reader parse env first).moves s o event henabled.1 hevent
    cases event with
    | restart _ _ _ _ _ => cases hact
    | act b =>
        obtain rfl : b = a := Option.some.inj hact
        refine ⟨⟨hmoves, ?_⟩, hnext⟩
        cases o with
        | raft a =>
            obtain rfl : a = b := Event.act.inj (Option.some.inj hevent)
            exact henabled.2
        | client uuid _ _ | http uuid _ _ _ =>
            obtain ⟨_, hsubmitted, heq⟩ := Option.map_eq_some_iff.mp hevent
            obtain rfl := Event.act.inj heq
            unfold submitted at hsubmitted
            split at hsubmitted
            · obtain ⟨text, _, rfl⟩ := Option.map_eq_some_iff.mp hsubmitted
              exact faithful_appendLog env s.swarm uuid text
            · cases hsubmitted
        | purge _ _ | close _ _ => cases hevent
        | restart _ _ _ _ _ => cases hevent
  rests := by
    intro s o henabled haction
    cases hevent : s.action base reader parse env o with
    | none => exact (system_refines base reader parse env first).rests s o henabled.1 hevent
    | some event =>
        cases event with
        | act a => simp [hevent, Event.action] at haction
        | restart _ _ _ _ _ =>
            -- only a restart is seen as one
            cases o with
            | restart _ _ _ _ _ => exact absurd henabled.2 id
            | raft _ => cases hevent
            | client uuid _ _ | http uuid _ _ _ =>
                obtain ⟨_, _, heq⟩ := Option.map_eq_some_iff.mp hevent
                cases heq
            | purge _ _ | close _ _ => cases hevent

theorem faithful_run (run : ((system base reader parse env first).guard (Regular env)).Run past s) :
    ((swarm env first).guard (Faithful env)).Run (seen System.swarm
      (fun s o => (s.action base reader parse env o).bind Event.action) past) s.swarm :=
  (regular_refines base reader parse env first).run run

theorem cores_visited (run : ((system base reader parse env first).guard (Regular env)).Run past s)
    (hvisited : Visited past s t) (n : Uuid) : t.swarm.cores n <+: s.swarm.cores n := by
  induction run with
  | start hinit =>
      rcases hvisited with rfl | ⟨_, hmem⟩
      · exact List.prefix_rfl
      · cases hmem
  | @step past s o run henabled ih =>
      rcases visited_step_cases hvisited with rfl | hbefore
      · exact List.prefix_rfl
      · refine (ih hbefore).trans ?_
        change s.swarm.cores n <+: (s.act base reader parse env o).swarm.cores n
        rw [act_swarm]
        cases s.action base reader parse env o with
        | none => exact List.prefix_rfl
        | some event => exact handle_grows env s.swarm event n

end Safe

section Following

-- The storage of a daemon holds what is committed in its log, and nothing else.
structure Daemon.Follows (base : StorageBase S) (parse : String → Option BznMsg) (d : Daemon S) : Prop where
  labelled : ∀ entry ∈ d.node.log.entries, entry.Labelled
  bounds : 1 ≤ d.node.commitIndex ∧ d.node.commitIndex ≤ d.node.log.size
  stored : d.hub.storage = contents base parse (d.node.log.entries.take d.node.commitIndex)

theorem commits_storage (base : StorageBase S) (parse : String → Option BznMsg) (msgs : List JsonMessage)
    (hub : SubscriptionHub S) : (hub.commits base parse msgs).hub.storage =
      msgs.foldl (fun s msg => commitHandler base parse msg s) hub.storage := by
  induction msgs generalizing hub with
  | nil => rfl
  | cons msg rest ih =>
      change ((SubscriptionHub.commit base parse msg hub).hub.commits base parse rest).hub.storage = _
      rw [ih, SubscriptionHub.commit_storage]
      rfl

theorem contents_take_add (entries : List LogEntry) (k count : Nat) :
    contents base parse (entries.take (k + count)) =
      applied base parse (contents base parse (entries.take k)) ((entries.drop k).take count) := by
  rw [List.take_add]
  exact applied_append _ _ _

theorem committed_msgs (first : Nat) (entries : List LogEntry) :
    ((Node.commitEffects first entries).filterMap Effect.committed).map Prod.snd = entries.map LogEntry.msg := by
  have hfst : (entries.zipIdx first).map (LogEntry.msg ∘ Prod.fst) = entries.map LogEntry.msg := by
    rw [← List.map_map, List.zipIdx_map_fst]
  rw [committed_commitEffects, List.map_map]
  exact hfst

-- A step of the node commits the entries behind the old commit index, in the order of the log.
theorem step_calls (env : Env) (node : Node) (input : Input) :
    ∃ count, (node.step env input).node.commitIndex = node.commitIndex + count ∧
      (0 < count → node.commitIndex + count ≤ (node.step env input).node.log.size) ∧
      ((node.step env input).effects.filterMap Effect.committed).map Prod.snd =
        (((node.step env input).node.log.entries.drop node.commitIndex).take count).map LogEntry.msg := by
  obtain ⟨count, hcommits⟩ := (Node.step_move env node input).commits
  have hcalls : (node.step env input).effects.filterMap Effect.committed = (Node.commitEffects node.commitIndex
      (((node.step env input).node.log.entries.drop node.commitIndex).take count)).filterMap Effect.committed := by
    rw [filterMap_committed]
    exact congrArg (List.filterMap Effect.committed) hcommits.effects_eq
  refine ⟨count, hcommits.index_eq, hcommits.inside, ?_⟩
  rw [hcalls, committed_msgs]

theorem step_storage (base : StorageBase S) (parse : String → Option BznMsg) (env : Env)
    (d : Daemon S) (input : Input) :
    ∃ count, (d.node.step env input).node.commitIndex = d.node.commitIndex + count ∧
      (0 < count → d.node.commitIndex + count ≤ (d.node.step env input).node.log.size) ∧
      (d.step parse base env input).1.hub.storage = commitAll base parse
        (((d.node.step env input).node.log.entries.drop d.node.commitIndex).take count) d.hub.storage := by
  obtain ⟨count, hindex, hinside, hcalls⟩ := step_calls env d.node input
  refine ⟨count, hindex, hinside, ?_⟩
  refine (commits_storage base parse _ d.hub).trans ?_
  rw [hcalls, List.foldl_map]
  rfl

theorem Daemon.Follows.step (h : d.Follows base parse) (env : Env) {input : Input}
    (hrequest : ∀ msg entryType, input = .appendLog msg entryType →
      entryType = .database ∧ ∃ text, msg = .database text) :
    (d.step parse base env input).1.Follows base parse := by
  obtain ⟨count, hindex, hinside, hstorage⟩ := step_storage base parse env d input
  have hlabelled : ∀ entry ∈ (d.node.step env input).node.log.entries, entry.Labelled :=
    step_labelled h.labelled hrequest
  have hgrown := Node.step_log_grows env d.node input
  have hbounds := h.bounds
  refine ⟨hlabelled, ?_, ?_⟩
  · change 1 ≤ (d.node.step env input).node.commitIndex ∧
      (d.node.step env input).node.commitIndex ≤ (d.node.step env input).node.log.size
    rw [hindex]
    refine ⟨by omega, ?_⟩
    rcases Nat.eq_zero_or_pos count with rfl | hpos
    · exact hbounds.2.trans hgrown.length_le
    · exact hinside hpos
  · change (d.step parse base env input).1.hub.storage = contents base parse
      ((d.node.step env input).node.log.entries.take (d.node.step env input).node.commitIndex)
    rw [hstorage, commitAll_eq_applied, hindex, contents_take_add, h.stored, take_of_grown hgrown hbounds.2]
    intro entry hentry
    exact hlabelled entry (List.mem_of_mem_drop (List.mem_of_mem_take hentry))

-- The log grows behind what is committed.
theorem Daemon.Follows.submits (h : d.Follows base parse) {daemon : Daemon S}
    (hsubmits : Submits d.node text daemon.node) (hstorage : daemon.hub.storage = d.hub.storage) :
    daemon.Follows base parse := by
  have hentries : daemon.node.log.entries =
      d.node.log.entries ++ [⟨.database, d.node.log.size, d.node.currentTerm, .database text⟩] := by
    rw [hsubmits.log_eq]
    rfl
  have hindex : daemon.node.commitIndex = d.node.commitIndex := by
    rw [hsubmits.node_eq]
    unfold Node.appendLog Node.appendLogUnsafe
    split <;> rfl
  have hbounds := h.bounds
  refine ⟨?_, ?_, ?_⟩
  · intro entry hentry
    rw [hentries] at hentry
    rcases List.mem_append.mp hentry with hold | hnew
    · exact h.labelled entry hold
    · rw [List.mem_singleton.mp hnew]
      exact labelled_copy (.database text) _ _
  · rw [hindex]
    refine ⟨hbounds.1, hbounds.2.trans ?_⟩
    unfold RaftLog.size
    rw [hentries, List.length_append]
    exact Nat.le_add_right _ _
  · rw [hstorage, h.stored, hindex, hentries, List.take_append_of_le_length hbounds.2]

theorem Daemon.Follows.same (h : d.Follows base parse) {daemon : Daemon S} (hnode : daemon.node = d.node)
    (hstorage : daemon.hub.storage = d.hub.storage) : daemon.Follows base parse := by
  refine ⟨?_, ?_, ?_⟩
  · rw [hnode]
    exact h.labelled
  · rw [hnode]
    exact h.bounds
  · rw [hstorage, hnode]
    exact h.stored

theorem Daemon.Follows.next (h : d.Follows base parse) (hregular : Regular env s o) :
    (d.next base reader parse env o).Follows base parse := by
  cases o with
  | raft a => exact h.step env fun msg entryType hinput => request_of_input a hinput
  | client uuid session message =>
      obtain ⟨hstorage, _, hnode | ⟨_, _, _, _, hsubmits, _⟩⟩ :=
        handleWsCrudMessages_cases reader parse d session message rfl
      · exact h.same hnode hstorage
      · exact h.submits hsubmits hstorage
  | http uuid verb target body =>
      obtain ⟨hhub, hnode | ⟨_, _, hsubmits, _⟩⟩ := doReadRequest_cases reader d verb target body rfl
      · exact h.same hnode (congrArg SubscriptionHub.storage hhub)
      · exact h.submits hsubmits (congrArg SubscriptionHub.storage hhub)
  | purge _ _ | close _ _ => exact h.same rfl rfl
  | restart _ _ _ _ _ => exact absurd hregular id

theorem follows_of_run (hfirst : first.Labelled)
    (run : ((system base reader parse env first).guard (Regular env)).Run past s) (n : Uuid) :
    (s.daemons n).Follows base parse := by
  induction run generalizing n with
  | @start s hinit =>
      obtain ⟨hswarm, hhub⟩ := hinit
      obtain ⟨peers, enableAudit, enablePeerValidation, signedKey, hnode⟩ := hswarm.2 n
      have hlabelled : ∀ entry ∈ (startLog first).entries, entry.Labelled := by
        intro entry hentry
        rw [List.mem_singleton.mp hentry]
        exact hfirst
      change (s.daemons n).node = _ at hnode
      refine ⟨?_, ?_, ?_⟩
      · rw [hnode]
        exact hlabelled
      · rw [hnode]
        exact ⟨le_refl _, le_refl _⟩
      · rw [hnode, hhub n, initializeStorageFromLog_eq hlabelled]
        rfl
  | @step past s o run henabled ih =>
      rcases act_daemons_cases base reader parse env s o n with ⟨_, hself⟩ | hother
      · change ((s.act base reader parse env o).daemons n).Follows base parse
        rw [hself]
        exact (ih n).next henabled.2
      · change ((s.act base reader parse env o).daemons n).Follows base parse
        rw [hother]
        exact ih n

end Following

section Sequence

-- What the commit handlers make of the first messages of a sequence. The sequence starts at index 1.
def stateAfter (base : StorageBase S) (parse : String → Option BznMsg) (committed : Nat → JsonMessage)
    (k : Nat) : S :=
  ((List.range' 1 (k - 1)).map committed).foldl (fun s msg => commitHandler base parse msg s) base.opened

-- What any daemon has committed at any time stands in one sequence of messages.
def Logged (past : List (System S × Occurrence)) (s : System S) (committed : Nat → JsonMessage) : Prop :=
  ∀ t, Visited past s t → ∀ n i, 1 ≤ i → i < (t.daemons n).node.commitIndex →
    ∃ entry, (t.daemons n).node.log.entries[i]? = some entry ∧ entry.msg = committed i

-- All daemons go through the contents that one sequence of messages gives, each as far as it has got, and
-- what they answer is read off that.
structure OneSequence (base : StorageBase S) (reader : StorageReader S) (parse : String → Option BznMsg)
    (past : List (System S × Occurrence)) (s : System S) (committed : Nat → JsonMessage) : Prop where
  logged : Logged past s committed
  stored : ∀ t, Visited past s t → ∀ n,
    (t.daemons n).hub.storage = stateAfter base parse committed (t.daemons n).node.commitIndex
  answered : ∀ t o, (t, o) ∈ past → ∀ uuid session text request, o = .client uuid session (some text) →
    parse text = some (.db request) → ∀ sent, (t.daemons uuid).sent reader parse o = some sent →
      sent.session = session ∧ Shows reader (stateAfter base parse committed (t.daemons uuid).node.commitIndex)
        request sent.response.body

-- The messages that majorities hold.
theorem committed_of_run (hfirst : first.entryType = .singleQuorum)
    (run : ((system base reader parse env first).guard (Regular env)).Run past s) :
    ∃ committed, Logged past s committed := by
  have hchoice : ∀ i, ∃ msg : JsonMessage, ∀ e, Chosen (members first) s.swarm.cores i e → e.2 = msg := by
    intro i
    by_cases hany : ∃ e, Chosen (members first) s.swarm.cores i e
    · obtain ⟨e, he⟩ := hany
      exact ⟨e.2, fun e' he' => congrArg Prod.snd (he'.unique he)⟩
    · exact ⟨.null, fun e he => absurd ⟨e, he⟩ hany⟩
  choose committed hcommitted using hchoice
  refine ⟨committed, ?_⟩
  intro t hvisited n i hpos hlt
  obtain ⟨before, hbefore⟩ := run.visited hvisited
  obtain ⟨e, he, hchosen⟩ := settled_of_run hfirst (faithful_run hbefore) n i hpos hlt
  have hfinal := hcommitted i e (hchosen.grow (cores_visited run hvisited))
  unfold Swarm.cores at he
  rw [List.getElem?_map] at he
  obtain ⟨entry, hentry, hcore⟩ := Option.map_eq_some_iff.mp he
  refine ⟨entry, hentry, ?_⟩
  rw [← hfinal, ← hcore]
  rfl

theorem logged_slice {entries : List LogEntry} {committed : Nat → JsonMessage} {k count : Nat}
    (h : ∀ i, k ≤ i → i < k + count → ∃ entry, entries[i]? = some entry ∧ entry.msg = committed i) :
    ((entries.drop k).take count).map LogEntry.msg = (List.range' k count).map committed := by
  apply List.ext_getElem?
  intro i
  rw [List.getElem?_map, List.getElem?_map]
  by_cases hi : i < count
  · obtain ⟨entry, hentry, hmsg⟩ := h (k + i) (by omega) (by omega)
    rw [List.getElem?_take_of_lt hi, List.getElem?_drop, hentry, List.getElem?_range' hi]
    simp [hmsg]
  · rw [List.getElem?_eq_none (by rw [List.length_take]; omega), List.getElem?_eq_none (by simpa using hi)]
    rfl

-- The first entry does nothing to the storage.
theorem contents_eq_stateAfter (hlabelled : ∀ entry ∈ d.node.log.entries, entry.Labelled)
    (hbounds : 1 ≤ d.node.commitIndex ∧ d.node.commitIndex ≤ d.node.log.size) {committed : Nat → JsonMessage}
    (hroot : ∃ entry, d.node.log.entries[0]? = some entry ∧ entry.entryType ≠ .database)
    (hlogged : ∀ i, 1 ≤ i → i < d.node.commitIndex →
      ∃ entry, d.node.log.entries[i]? = some entry ∧ entry.msg = committed i) :
    contents base parse (d.node.log.entries.take d.node.commitIndex) =
      stateAfter base parse committed d.node.commitIndex := by
  obtain ⟨hpos, hsize⟩ := hbounds
  obtain ⟨root, hroot, hplain⟩ := hroot
  have hsize : d.node.commitIndex ≤ d.node.log.entries.length := hsize
  have hsplit : d.node.log.entries.take d.node.commitIndex =
      root :: (d.node.log.entries.take d.node.commitIndex).drop 1 := by
    have hdrop := List.take_append_drop 1 (d.node.log.entries.take d.node.commitIndex)
    rw [List.take_take, Nat.min_eq_left hpos] at hdrop
    rw [← hdrop]
    have hone : d.node.log.entries.take 1 = [root] := by
      rw [List.take_one, List.head?_eq_getElem?, hroot]
      rfl
    simp [hone]
  have hmsgs : ((d.node.log.entries.take d.node.commitIndex).drop 1).map LogEntry.msg =
      (List.range' 1 (d.node.commitIndex - 1)).map committed := by
    rw [List.drop_take]
    exact logged_slice fun i hlow hhigh => hlogged i hlow (by omega)
  unfold contents stateAfter
  rw [← hmsgs, List.foldl_map, hsplit]
  change applied base parse (applied base parse base.opened [root]) _ = _
  have hroot : applied base parse base.opened [root] = base.opened :=
    applied_plain base.opened (by simpa using hplain)
  rw [hroot]
  refine (commitAll_eq_applied ?_ base.opened).symm.trans rfl
  intro entry hentry
  exact hlabelled entry (List.mem_of_mem_take (List.mem_of_mem_drop hentry))

theorem stored_of_logged (hfirst : first.entryType = .singleQuorum) (hlabelled : first.Labelled)
    (run : ((system base reader parse env first).guard (Regular env)).Run past s) {committed : Nat → JsonMessage}
    (hlogged : Logged past s committed) (hvisited : Visited past s t) (n : Uuid) :
    (t.daemons n).hub.storage = stateAfter base parse committed (t.daemons n).node.commitIndex := by
  obtain ⟨before, hbefore⟩ := run.visited hvisited
  have hfollows := follows_of_run hlabelled hbefore n
  rw [hfollows.stored]
  refine contents_eq_stateAfter hfollows.labelled hfollows.bounds ?_ (hlogged t hvisited n)
  have hroot := cores_root (faithful_run hbefore).of_guard n
  have hfirstCore : (t.swarm.cores n)[0]? = some first.core := by
    rw [← List.getElem?_take_of_lt (show 0 < 1 by omega), hroot]
    rfl
  unfold Swarm.cores at hfirstCore
  rw [List.getElem?_map] at hfirstCore
  obtain ⟨entry, hentry, hcore⟩ := Option.map_eq_some_iff.mp hfirstCore
  refine ⟨entry, hentry, ?_⟩
  intro hdatabase
  -- the message of the first entry is no text
  obtain ⟨text, htext⟩ := (hfollows.labelled entry (List.mem_of_getElem? hentry)).mp hdatabase
  have hmsg : first.msg = .database text := by
    rw [← htext]
    exact (congrArg Prod.snd hcore).symm
  have htype := hlabelled.mpr ⟨text, hmsg⟩
  rw [hfirst] at htype
  cases htype

theorem oneSequence_of_run (hfirst : first.entryType = .singleQuorum) (hlabelled : first.Labelled)
    (run : ((system base reader parse env first).guard (Regular env)).Run past s) :
    ∃ committed, OneSequence base reader parse past s committed := by
  obtain ⟨committed, hlogged⟩ := committed_of_run hfirst run
  have hstored := fun t (hvisited : Visited past s t) n => stored_of_logged hfirst hlabelled run hlogged hvisited n
  refine ⟨committed, hlogged, hstored, ?_⟩
  rintro t _ hmem uuid session text request rfl hparse sent hsent
  obtain ⟨hsession, hshows⟩ := sent_shows hparse hsent
  rw [hstored t (Or.inr ⟨_, hmem⟩) uuid] at hshows
  exact ⟨hsession, hshows⟩

-- A request to read the record k of the database db, and its text.
def readK : DatabaseMsg := { header := some ⟨"db", 1⟩, command := .read "k" }

def readKText : String := "Ug0KBgoCZGIQARoDCgFr"

def parseRecord (text : String) : Option BznMsg := if text = readKText then some (.db readK) else parseK text

def threeSystem : Machine (System MemStorage) Occurrence :=
  system memStorage memReader parseRecord openEnv (createDatFile threePeers)

instance (s : System MemStorage) (o : Occurrence) : Decidable (threeSystem.enabled s o) :=
  inferInstanceAs (Decidable (s.Possible o))

def freshSystem : System MemStorage := ⟨fun n => ⟨freshNode n, ⟨∅, ∅, ∅⟩⟩, []⟩

theorem threeSystem_start : threeSystem.init freshSystem :=
  ⟨⟨rfl, fun _ => ⟨_, _, _, _, rfl⟩⟩, fun _ => rfl⟩

-- A takes the request of a client, commits it with the help of C, and tells C so. Then a client reads at C.
def oneRead : List Occurrence :=
  (firstLeader.map .raft) ++ [.client "A" 7 (some createKText), .raft (.heartbeatTimeout "A" false),
    .raft (.pass "A" "C" (createAppendEntriesRequest "A" 1 1 0 0 1 (.database createKText))),
    .raft (.pass "C" "A" (createAppendEntriesResponse "C" 1 true 2)), .raft (.heartbeatTimeout "A" false),
    .raft (.pass "A" "C" (createAppendEntriesRequest "A" 1 2 1 1 0 .null)), .client "C" 8 (some readKText)]

def readRun : List (System MemStorage × Occurrence) × System MemStorage :=
  threeSystem.replay [] freshSystem oneRead

theorem readRun_run : (threeSystem.guard (Regular openEnv)).Run readRun.1 readRun.2 := by
  refine ((Machine.Run.start threeSystem_start).replay oneRead (by decide +kernel)).guard_of ?_
  decide +kernel

theorem oneSequence_of_run_three :
    (readRun.2.daemons "C").sent memReader parseRecord (.client "C" 8 (some readKText)) =
        some ⟨8, { header := ⟨"db", 1⟩, body := .plain (.read "k" [118]) }, false⟩ ∧
      ∃ committed, OneSequence memStorage memReader parseRecord readRun.1 readRun.2 committed :=
  ⟨by decide +kernel,
    oneSequence_of_run rfl (.of_ne (by simp [createDatFile]) (by simp [createDatFile])) readRun_run⟩

end Sequence

end SwarmDB.Raft
