import SwarmDB.Raft.Node.Tracking
import SwarmDB.Raft.Restart.Alternation
import SwarmDB.Raft.System.Replication

namespace SwarmDB.Raft

open ReplicatedLog Machine Bytes

section Requests

variable {parse : String → Option BznMsg} {entries entries' : List LogEntry} {entry : LogEntry}

def requestsIn (parse : String → Option BznMsg) (entries : List LogEntry) : List DatabaseMsg :=
  entries.filterMap (requestIn parse)

theorem requestsIn_append (entries more : List LogEntry) :
    requestsIn parse (entries ++ more) = requestsIn parse entries ++ requestsIn parse more := List.filterMap_append

theorem requestIn_eq_none (h : ∀ text, entry.msg ≠ .database text) : requestIn parse entry = none := by
  unfold requestIn
  split
  · rename_i text hmsg
    exact absurd hmsg (h text)
  · rfl

theorem requestIn_text {request : DatabaseMsg} (h : requestIn parse entry = some request) :
    ∃ text, entry.msg = .database text ∧ parse text = some (.db request) := by
  unfold requestIn at h
  split at h
  · rename_i text hmsg
    refine ⟨text, hmsg, ?_⟩
    split at h
    · rename_i hparse
      rw [hparse, Option.some.inj h]
    all_goals cases h
  · cases h

theorem requestsIn_eq_nil (h : ∀ entry ∈ entries, ∀ text, entry.msg ≠ .database text) :
    requestsIn parse entries = [] :=
  List.filterMap_eq_nil_iff.mpr fun entry hentry => requestIn_eq_none (h entry hentry)

-- The request that an entry brings is in its core.
def coreRequest (parse : String → Option BznMsg) (core : Nat × JsonMessage) : Option DatabaseMsg :=
  requestIn parse ⟨.database, 0, core.1, core.2⟩

theorem requestsIn_cores (entries : List LogEntry) :
    requestsIn parse entries = (entries.map LogEntry.core).filterMap (coreRequest parse) := by
  rw [List.filterMap_map]
  rfl

theorem requestsIn_begins (h : entries.map LogEntry.core <+: entries'.map LogEntry.core) :
    requestsIn parse entries <+: requestsIn parse entries' := by
  rw [requestsIn_cores, requestsIn_cores]
  exact h.filterMap _

theorem CreatesFirst.of_begins (h : CreatesFirst parse entries')
    (hbegins : requestsIn parse entries <+: requestsIn parse entries') : CreatesFirst parse entries := by
  intro place request hfind
  obtain ⟨rest, hrest⟩ := hbegins
  refine h place request ?_
  change (requestsIn parse entries').find? _ = _
  change (requestsIn parse entries).find? _ = _ at hfind
  rw [← hrest, List.find?_append, hfind]
  rfl

-- A request that touches a place for the first time has to create it.
theorem CreatesFirst.append (h : CreatesFirst parse entries)
    (hnew : ∀ request, requestIn parse entry = some request → Creates request ∨
      ∃ earlier ∈ requestsIn parse entries, placeOf earlier = placeOf request) :
    CreatesFirst parse (entries ++ [entry]) := by
  intro place request hfind
  change (requestsIn parse (entries ++ [entry])).find? _ = _ at hfind
  rw [requestsIn_append, List.find?_append] at hfind
  cases hbefore : (requestsIn parse entries).find? fun other => placeOf other = some place with
  | some earlier =>
      rw [hbefore] at hfind
      exact h place request (hbefore.trans hfind)
  | none =>
      rw [hbefore, Option.none_or] at hfind
      have hmem := List.mem_of_find?_eq_some hfind
      obtain ⟨last, hlast, hrequest⟩ := List.mem_filterMap.mp hmem
      rw [List.mem_singleton.mp hlast] at hrequest
      rcases hnew request hrequest with hcreates | ⟨earlier, hearlier, hplace⟩
      · exact hcreates
      · have htouched : placeOf request = some place := by simpa using List.find?_some hfind
        have hnot := List.find?_eq_none.mp hbefore earlier hearlier
        exact absurd (decide_eq_true (hplace.trans htouched)) hnot

end Requests

section Held

variable {parse : String → Option BznMsg} {entries entries' : List LogEntry} {storage : MemStorage}
  {request : DatabaseMsg} {place : Uuid × Bytes} {value : Bytes}

-- A request that may have put a value there.
def Writes (request : DatabaseMsg) (place : Uuid × Bytes) (value : Bytes) : Prop :=
  ∃ key, place = (Crud.dbUuid request, ofString key) ∧
    (request.command = .create key value ∨ request.command = .update key value)

theorem Writes.placeOf (h : Writes request place value) : placeOf request = some place := by
  obtain ⟨key, rfl, hcommand | hcommand⟩ := h
  · simp [Raft.placeOf, hcommand]
  · simp [Raft.placeOf, hcommand]

-- Whatever a storage holds comes from a request among these.
def Held (parse : String → Option BznMsg) (entries : List LogEntry) (storage : MemStorage) : Prop :=
  ∀ place value, storage.lookup place = some value →
    ∃ request ∈ requestsIn parse entries, Writes request place value

theorem held_empty : Held parse entries ∅ := by
  intro place value h
  rw [Finmap.lookup_empty] at h
  cases h

theorem Held.mono (h : Held parse entries storage) (hmore : requestsIn parse entries ⊆ requestsIn parse entries') :
    Held parse entries' storage := by
  intro place value hlookup
  obtain ⟨request, hmem, hwrites⟩ := h place value hlookup
  exact ⟨request, hmore hmem, hwrites⟩

theorem cellOp_writes {op : CellOp Bytes} {held : Option Bytes} (h : cellOp place request = some op)
    (hvalue : op.perform held = some value) : held = some value ∨ Writes request place value := by
  unfold cellOp at h
  split at h
  · rename_i key written hcommand
    split at h
    · rename_i hlimits
      obtain rfl := Option.some.inj h
      cases held with
      | some old => exact Or.inl hvalue
      | none =>
          obtain rfl : written = value := Option.some.inj hvalue
          exact Or.inr ⟨key, hlimits.1.symm, Or.inl hcommand⟩
    · cases h
  · rename_i key written hcommand
    split at h
    · rename_i hlimits
      obtain rfl := Option.some.inj h
      cases held with
      | some old =>
          obtain rfl : written = value := Option.some.inj hvalue
          exact Or.inr ⟨key, hlimits.1.symm, Or.inr hcommand⟩
      | none => cases hvalue
    · cases h
  · split at h
    · obtain rfl := Option.some.inj h
      cases hvalue
    · cases h
  · cases h

theorem Held.commit (h : Held parse entries storage) {entry : LogEntry} (hentry : entry ∈ entries) :
    Held parse entries (commitHandler memStorage parse entry.msg storage) := by
  intro place value hlookup
  rw [lookup_commitHandler] at hlookup
  cases hrequest : requestIn parse entry with
  | none =>
      rw [hrequest] at hlookup
      exact h place value hlookup
  | some request =>
      rw [hrequest, Option.bind_some] at hlookup
      cases hop : cellOp place request with
      | none =>
          rw [hop] at hlookup
          exact h place value hlookup
      | some op =>
          rw [hop] at hlookup
          rcases cellOp_writes hop hlookup with hheld | hwrites
          · exact h place value hheld
          · exact ⟨request, List.mem_filterMap.mpr ⟨entry, hentry, hrequest⟩, hwrites⟩

theorem Held.commits (h : Held parse entries storage) {committed : List LogEntry} (hown : committed ⊆ entries) :
    Held parse entries (commitAll memStorage parse committed storage) := by
  induction committed generalizing storage with
  | nil => exact h
  | cons entry rest ih =>
      refine ih (h.commit (hown List.mem_cons_self)) fun other hother => ?_
      exact hown (List.mem_cons_of_mem _ hother)

end Held

section Run

variable {parse : String → Option BznMsg} {env : Env} {first : LogEntry}
  {past : List (System MemStorage × Occurrence)}
  {s : System MemStorage} {o : Occurrence} {n : Uuid} {d : Daemon MemStorage} {text : String} {request : DatabaseMsg}

-- A leader has let the text into its log, after a look into its storage. A client had sent it.
def Accepted (parse : String → Option BznMsg) (past : List (System MemStorage × Occurrence))
    (text : String) : Prop :=
  ∃ t o request, (t, o) ∈ past ∧ (t.daemons o.uuid).node.currentState = .leader ∧
    parse text = some (.db request) ∧
    Admits ((t.daemons o.uuid).view memReader) (Crud.dbUuid request) request.command ∧
    ((∃ session, o = .client o.uuid session (some text)) ∨
      ∃ verb target body, o = .http o.uuid verb target body ∧
      httpPost verb target body = some request ∧ text = httpText request)

-- The texts of the http requests can be read again.
def Occurrence.Decodes (parse : String → Option BznMsg) : Occurrence → Prop
  | .http _ verb target body =>
    ∀ request ∈ httpPost verb target body, parse (httpText request) = some (.db request)
  | .raft _ | .client .. | .purge .. | .close .. | .restart .. => True

instance (parse : String → Option BznMsg) : (o : Occurrence) → Decidable (o.Decodes parse)
  | .http _ verb target body => inferInstanceAs (Decidable
    (∀ request ∈ httpPost verb target body, parse (httpText request) = some (.db request)))
  | .raft _ | .client .. | .purge .. | .close .. | .restart .. => inferInstanceAs (Decidable True)

def Decodes (parse : String → Option BznMsg) (past : List (System MemStorage × Occurrence)) : Prop :=
  ∀ step ∈ past, step.2.Decodes parse

theorem Accepted.step (h : Accepted parse past text) (s : System MemStorage) (o : Occurrence) :
    Accepted parse ((s, o) :: past) text := by
  obtain ⟨t, o', request, hmem, hrest⟩ := h
  exact ⟨t, o', request, List.mem_cons_of_mem _ hmem, hrest⟩

-- Every request in a log was let in by a leader, the first for a place creates it, and the storage holds
-- nothing else.
structure Valid (parse : String → Option BznMsg) (past : List (System MemStorage × Occurrence))
    (d : Daemon MemStorage) : Prop where
  labelled : ∀ entry ∈ d.node.log.entries, entry.Labelled
  accepted : ∀ entry ∈ d.node.log.entries, ∀ text, entry.msg = .database text → Accepted parse past text
  createsFirst : CreatesFirst parse d.node.log.entries
  held : Held parse d.node.log.entries d.hub.storage

theorem Valid.step (h : Valid parse past d) (s : System MemStorage) (o : Occurrence) :
    Valid parse ((s, o) :: past) d :=
  ⟨h.labelled, fun entry hentry text htext => (h.accepted entry hentry text htext).step s o, h.createsFirst, h.held⟩

theorem Valid.same (h : Valid parse past d) {daemon : Daemon MemStorage} (hnode : daemon.node = d.node)
    (hstorage : daemon.hub.storage = d.hub.storage) : Valid parse past daemon := by
  obtain ⟨node, hub⟩ := daemon
  dsimp only at hnode hstorage
  subst hnode
  refine ⟨h.labelled, h.accepted, h.createsFirst, ?_⟩
  dsimp only
  rw [hstorage]
  exact h.held

theorem creates_or_held {storage : MemStorage} {entries : List LogEntry} (hheld : Held parse entries storage)
    (hadmits : Admits (memReader.view storage) (Crud.dbUuid request) request.command) :
    Creates request ∨ ∃ earlier ∈ requestsIn parse entries, placeOf earlier = placeOf request := by
  have hfound : ∀ key, placeOf request = some (Crud.dbUuid request, ofString key) →
      (memReader.view storage).has (Crud.dbUuid request) (ofString key) = true →
        ∃ earlier ∈ requestsIn parse entries, placeOf earlier = placeOf request := by
    intro key hplace hhas
    change storage.has (Crud.dbUuid request) (ofString key) = true at hhas
    rw [MemStorage.has_eq] at hhas
    obtain ⟨value, hvalue⟩ := Option.isSome_iff_exists.mp hhas
    obtain ⟨earlier, hmem, hwrites⟩ := hheld _ value hvalue
    exact ⟨earlier, hmem, by rw [hwrites.placeOf, hplace]⟩
  unfold Admits at hadmits
  split at hadmits
  · rename_i key value hcommand
    exact Or.inl ⟨key, value, hcommand, hadmits.2.1, hadmits.1⟩
  · rename_i key value hcommand
    exact Or.inr (hfound key (by simp [placeOf, hcommand]) hadmits.2)
  · rename_i key hcommand
    exact Or.inr (hfound key (by simp [placeOf, hcommand]) hadmits)
  all_goals exact absurd hadmits id

-- A leader takes a request.
theorem Valid.submits (h : Valid parse past d) {daemon : Daemon MemStorage} (haccepted : Accepted parse past text)
    (hparse : parse text = some (.db request)) (hsubmits : Submits d.node text daemon.node)
    (hadmits : Admits (d.view memReader) (Crud.dbUuid request) request.command)
    (hstorage : daemon.hub.storage = d.hub.storage) : Valid parse past daemon := by
  have hentries : daemon.node.log.entries =
      d.node.log.entries ++ [⟨.database, d.node.log.size, d.node.currentTerm, .database text⟩] := by
    rw [hsubmits.log_eq]
    rfl
  refine ⟨?_, ?_, ?_, ?_⟩
  · rw [hentries]
    intro entry hentry
    rcases List.mem_append.mp hentry with hold | hnew
    · exact h.labelled entry hold
    · rw [List.mem_singleton.mp hnew]
      exact labelled_copy (.database text) _ _
  · rw [hentries]
    intro entry hentry other htext
    rcases List.mem_append.mp hentry with hold | hnew
    · exact h.accepted entry hold other htext
    · rw [List.mem_singleton.mp hnew] at htext
      obtain rfl : text = other := JsonMessage.database.inj htext
      exact haccepted
  · rw [hentries]
    refine h.createsFirst.append fun other hother => ?_
    obtain ⟨same, hsame, hdecoded⟩ := requestIn_text hother
    obtain rfl : text = same := JsonMessage.database.inj hsame
    rw [hparse] at hdecoded
    obtain rfl : request = other := BznMsg.db.inj (Option.some.inj hdecoded)
    exact creates_or_held h.held hadmits
  · rw [hentries, hstorage]
    refine h.held.mono ?_
    rw [requestsIn_append]
    exact List.subset_append_left _ _

-- A step of raft itself adds no text to a log, or takes the log over from the sender of an AppendEntries.
theorem raft_requests (env : Env) (s : Swarm) (a : Action) (hsubmits : a.submits = false) :
    (∃ added, (s.outcome env a).node.log.entries = (s.nodes a.uuid).log.entries ++ added ∧
      ∀ entry ∈ added, ∀ text, entry.msg ≠ .database text) ∨
    ∃ msg stray prevIndex prevTerm entries entryTerm commitIndex, (s.nodes a.uuid).Hears a.input msg stray ∧
      msg.cmd = .appendEntries prevIndex prevTerm entries entryTerm commitIndex ∧
      (s.nodes a.uuid).log.entryAccepted prevIndex prevTerm (stray prevIndex) = true ∧
      prevIndex + 1 = (s.nodes a.uuid).log.size ∧
      Continues (s.nodes a.uuid).log (s.outcome env a).node.log prevIndex entries entryTerm := by
  have hnothing : (s.outcome env a).node.log = (s.nodes a.uuid).log →
      ∃ added, (s.outcome env a).node.log.entries = (s.nodes a.uuid).log.entries ++ added ∧
        ∀ entry ∈ added, ∀ text, entry.msg ≠ .database text := by
    intro hlog
    exact ⟨[], by rw [hlog, List.append_nil], by simp⟩
  cases Node.step_appends env (s.nodes a.uuid) a.input with
  | nothing hlog => exact Or.inl (hnothing hlog)
  | request msg entryType hinput hlog =>
      cases a with
      | appendLog _ _ => cases hsubmits
      | deliver packet stray pick =>
          obtain ⟨src, dst, payload⟩ := packet
          cases payload <;> cases hinput
      | electionTimeout _ _ _ | heartbeatTimeout _ _ | command _ _ _ => cases hinput
  | joint last old new _ _ _ _ _ hlog =>
      left
      refine ⟨[⟨.jointQuorum, (s.nodes a.uuid).log.size, (s.nodes a.uuid).currentTerm,
        .jointQuorum old new⟩], ?_, ?_⟩
      · exact congrArg RaftLog.entries hlog
      · intro entry hentry text
        rw [List.mem_singleton.mp hentry]
        simp
  | commit turns tracked _ hlog _ =>
      left
      obtain ⟨added, hadded, hpromoted⟩ :=
        Node.commitLoop_added env turns { s.nodes a.uuid with peerMatchIndex := tracked }
      refine ⟨added, (congrArg RaftLog.entries hlog).trans hadded, ?_⟩
      intro entry hentry text htext
      obtain ⟨_, _, source, _, _, _, _, hmsg⟩ := hpromoted entry hentry
      unfold createSingleQuorumFromJointQuorum at hmsg
      cases hlists : source.msg.oldAndNew with
      | error e => simp [hlists, Except.map] at hmsg
      | ok lists => simp [hlists, Except.map, htext] at hmsg
  | copy msg stray prevIndex prevTerm entries entryTerm commitIndex hears hcmd haccepted hentries hend hlog =>
      exact Or.inr ⟨msg, stray, prevIndex, prevTerm, entries, entryTerm, commitIndex, hears, hcmd, haccepted, hend,
        Or.inr ⟨hentries, hlog⟩⟩

theorem Valid.raft (h : ∀ n, Valid parse past (s.daemons n)) (hquoted : Quoted s.swarm)
    (hmatching : ∀ {n m : Uuid} {i term : Nat} {msg msg' : JsonMessage},
      (s.swarm.cores n)[i]? = some (term, msg) → (s.swarm.cores m)[i]? = some (term, msg') →
        (s.swarm.cores n).take (i + 1) = (s.swarm.cores m).take (i + 1))
    {a : Action} (henabled : s.swarm.Enabled a) (hsubmits : a.submits = false) :
    Valid parse past ((s.daemons a.uuid).step parse memStorage env a.input).1 := by
  have hgrown := Node.step_log_grows env (s.daemons a.uuid).node a.input
  have hrequests : requestsIn parse (s.daemons a.uuid).node.log.entries ⊆
      requestsIn parse ((s.daemons a.uuid).node.step env a.input).node.log.entries :=
    (requestsIn_begins (hgrown.map LogEntry.core)).subset
  obtain ⟨count, _, _, hstorage⟩ := step_storage memStorage parse env (s.daemons a.uuid) a.input
  have hheld : Held parse ((s.daemons a.uuid).node.step env a.input).node.log.entries
      ((s.daemons a.uuid).step parse memStorage env a.input).1.hub.storage := by
    rw [hstorage]
    exact ((h a.uuid).held.mono hrequests).commits fun entry hentry =>
      List.mem_of_mem_drop (List.mem_of_mem_take hentry)
  have hlabelled : ∀ entry ∈ ((s.daemons a.uuid).node.step env a.input).node.log.entries, entry.Labelled :=
    step_labelled (h a.uuid).labelled fun msg entryType hinput => request_of_input a hinput
  rcases raft_requests env s.swarm a hsubmits with ⟨added, hadded, hplain⟩ |
    ⟨msg, stray, prevIndex, prevTerm, entries, entryTerm, commitIndex, hears, hcmd, haccepted, hend, hnext⟩
  · -- no request is new
    change ((s.daemons a.uuid).node.step env a.input).node.log.entries = _ at hadded
    refine ⟨hlabelled, ?_, ?_, hheld⟩
    · intro entry hentry text htext
      change entry ∈ ((s.daemons a.uuid).node.step env a.input).node.log.entries at hentry
      rw [hadded] at hentry
      rcases List.mem_append.mp hentry with hold | hnew
      · exact (h a.uuid).accepted entry hold text htext
      · exact absurd htext (hplain entry hnew text)
    · refine (h a.uuid).createsFirst.of_begins ?_
      change requestsIn parse ((s.daemons a.uuid).node.step env a.input).node.log.entries <+: _
      rw [hadded, requestsIn_append, requestsIn_eq_nil hplain, List.append_nil]
      exact List.prefix_rfl
  · -- the log is a beginning of the sender's now
    obtain ⟨packet, _, _, _, hgrown⟩ :=
      accepted_follows hquoted hmatching henabled hears hcmd haccepted hend hnext
    have hbegins : ((s.daemons a.uuid).node.step env a.input).node.log.entries.map LogEntry.core <+:
        (s.daemons packet.src).node.log.entries.map LogEntry.core := by
      have hcores := hgrown
      rw [Swarm.cores, Swarm.act_nodes_self] at hcores
      exact hcores
    refine ⟨hlabelled, ?_, (h packet.src).createsFirst.of_begins (requestsIn_begins hbegins), hheld⟩
    intro entry hentry text htext
    have hcore := hbegins.subset (List.mem_map_of_mem (f := LogEntry.core) hentry)
    obtain ⟨source, hsource, hsame⟩ := List.mem_map.mp hcore
    refine (h packet.src).accepted source hsource text ?_
    rw [← htext]
    exact congrArg Prod.snd hsame

theorem Valid.restart (h : Valid parse past d) (uuid : Uuid) (peers : List PeerAddress)
    (enableAudit enablePeerValidation : Bool) (signedKey : String) : Valid parse past (d.next memStorage memReader parse
      env (.restart uuid peers enableAudit enablePeerValidation signedKey)) := by
  refine ⟨h.labelled, h.accepted, h.createsFirst, ?_⟩
  change Held parse d.node.log.entries (initializeStorageFromLog memStorage parse d.node.log ∅)
  rw [initializeStorageFromLog_eq h.labelled, ← commitAll_eq_applied h.labelled]
  exact held_empty.commits (List.Subset.refl _)

theorem oneLeader_before (h : OneLeader (journal memStorage memReader parse env ((s, o) :: past))
    (s.act memStorage memReader parse env o).swarm) :
    OneLeader (journal memStorage memReader parse env past) s.swarm := by
  have hswarm := act_swarm memStorage memReader parse env s o
  unfold journal at h
  cases haction : s.action memStorage memReader parse env o with
  | none =>
      rw [haction] at hswarm
      rw [seen_none past haction, hswarm] at h
      exact h
  | some event =>
      rw [seen_some past haction] at h
      exact h.before

theorem valid_of_run (hfirst : first.Labelled) (hplain : first.entryType ≠ .database)
    (run : (system memStorage memReader parse env first).Run past s) (hdecodes : Decodes parse past)
    (hleaders : OneLeader (journal memStorage memReader parse env past) s.swarm) (n : Uuid) :
    Valid parse past (s.daemons n) := by
  induction run generalizing n with
  | @start s hinit =>
      obtain ⟨hswarm, hhub⟩ := hinit
      have hentries : (s.daemons n).node.log.entries = [first] := Swarm.start_entries (hswarm.2 n)
      have hnone : ∀ text, first.msg ≠ .database text := fun text htext => hplain (hfirst.mpr ⟨text, htext⟩)
      have hrequests : requestsIn parse [first] = [] := requestsIn_eq_nil (by simpa using hnone)
      refine ⟨?_, ?_, ?_, ?_⟩
      · rw [hentries]
        simpa using hfirst
      · rw [hentries]
        intro entry hentry text htext
        rw [List.mem_singleton.mp hentry] at htext
        exact absurd htext (hnone text)
      · rw [hentries]
        intro place request hfind
        change (requestsIn parse [first]).find? _ = _ at hfind
        rw [hrequests] at hfind
        cases hfind
      · have hlabelled : ∀ entry ∈ (startLog first).entries, entry.Labelled := by
          intro entry hentry
          rw [List.mem_singleton.mp hentry]
          exact hfirst
        rw [hhub n, initializeStorageFromLog_eq hlabelled]
        dsimp only
        rw [applied_plain _ (by simpa [startLog] using hplain)]
        exact held_empty
  | @step past s o run henabled ih =>
      have hbefore := oneLeader_before hleaders
      have hvalid := ih (fun step hmem => hdecodes step (List.mem_cons_of_mem _ hmem)) hbefore
      have hrestarts := swarm_run run
      change Valid parse ((s, o) :: past) ((s.act memStorage memReader parse env o).daemons n)
      rcases act_daemons_cases memStorage memReader parse env s o n with ⟨hself, hnext⟩ | hother
      · rw [hnext]
        subst hself
        cases o with
        | raft a =>
            exact (Valid.raft hvalid (quoted_of_restarts hrestarts) (matching_of_restarts hrestarts hbefore)
              henabled.2 henabled.1).step s _
        | client uuid session message =>
            obtain ⟨hstorage, _, hnode | ⟨text, request, rfl, hparse, hsubmits, hadmits⟩⟩ :=
              handleWsCrudMessages_cases memReader parse (s.daemons uuid) session message rfl
            · exact ((hvalid uuid).same hnode hstorage).step s _
            · refine ((hvalid uuid).step s _).submits ?_ hparse hsubmits hadmits hstorage
              exact ⟨s, _, request, List.mem_cons_self, hsubmits.leads, hparse, hadmits, Or.inl ⟨session, rfl⟩⟩
        | http uuid verb target body =>
            obtain ⟨hhub, hnode | ⟨request, hpost, hsubmits, hadmits⟩⟩ :=
              doReadRequest_cases memReader (s.daemons uuid) verb target body rfl
            · exact ((hvalid uuid).same hnode (congrArg SubscriptionHub.storage hhub)).step s _
            · have hparse : parse (httpText request) = some (.db request) :=
                hdecodes (s, .http uuid verb target body) List.mem_cons_self request hpost
              refine ((hvalid uuid).step s _).submits ?_ hparse hsubmits hadmits (congrArg SubscriptionHub.storage hhub)
              exact ⟨s, _, request, List.mem_cons_self, hsubmits.leads, hparse, hadmits,
                Or.inr ⟨verb, target, body, rfl, hpost, rfl⟩⟩
        | purge uuid canceled => exact ((hvalid uuid).step s _).same rfl rfl
        | close uuid session => exact ((hvalid uuid).step s _).same rfl rfl
        | restart uuid peers enableAudit enablePeerValidation signedKey =>
            exact ((hvalid uuid).restart uuid peers enableAudit enablePeerValidation signedKey).step s _
      · rw [hother]
        exact (hvalid n).step s o

-- C starts again, and A takes a request over http.
def putM : DatabaseMsg := { header := some { dbUuid := "db" }, command := .create "m" [119] }

def parsePut (text : String) : Option BznMsg := if text = httpText putM then some (.db putM) else parseRecord text

def putSystem : Machine (System MemStorage) Occurrence :=
  system memStorage memReader parsePut openEnv (createDatFile threePeers)

instance (s : System MemStorage) (o : Occurrence) : Decidable (putSystem.enabled s o) :=
  inferInstanceAs (Decidable (s.Possible o))

def putRun : List (System MemStorage × Occurrence) × System MemStorage :=
  putSystem.replay [] freshSystem
    (oneRead ++ [.restart "C" threePeers false false "", .http "A" .post "/create/db/m" [119]])

theorem putRun_run : putSystem.Run putRun.1 putRun.2 := by
  have hinit : putSystem.init freshSystem := ⟨⟨rfl, fun _ => ⟨_, _, _, _, rfl⟩⟩, fun _ => rfl⟩
  exact (Machine.Run.start hinit).replay _ (by decide +kernel)

theorem oneLeader_putRun : OneLeader (journal memStorage memReader parsePut openEnv putRun.1) putRun.2.swarm := by
  have hrun := swarm_run putRun_run
  have hleader : ∀ term n, EverLed (journal memStorage memReader parsePut openEnv putRun.1) putRun.2.swarm term n →
      n = "A" := by
    intro term n hled
    obtain ⟨state, hvisited, hstate, _⟩ := hled
    by_contra hn
    by_cases hc : n = "C"
    · subst hc
      have hnever : ∀ step ∈ journal memStorage memReader parsePut openEnv putRun.1,
          (step.1.nodes "C").currentState ≠ .leader := by decide +kernel
      rcases hvisited with rfl | ⟨event, hmem⟩
      · exact absurd hstate (by decide +kernel)
      · exact hnever _ hmem hstate
    · have howners : ∀ step ∈ journal memStorage memReader parsePut openEnv putRun.1,
          step.2.uuid = "A" ∨ step.2.uuid = "C" := by decide +kernel
      have hfollower := untouched_of_restarts (n := n) hrun hvisited (by
        intro step hstep huuid
        rcases howners step hstep with hwho | hwho
        · exact hn (huuid.symm.trans hwho)
        · exact hc (huuid.symm.trans hwho))
      rw [hfollower] at hstate
      cases hstate
  intro term n m hn hm
  exact (hleader term n hn).trans (hleader term m hm).symm

theorem valid_of_run_put : requestsIn parsePut (putRun.2.daemons "A").node.log.entries = [createK, putM] ∧
    Valid parsePut putRun.1 (putRun.2.daemons "A") :=
  ⟨by decide +kernel, valid_of_run (.of_ne (by simp [createDatFile]) (by simp [createDatFile])) (by decide) putRun_run
    (by unfold Decodes; decide +kernel) oneLeader_putRun "A"⟩

end Run

end SwarmDB.Raft
