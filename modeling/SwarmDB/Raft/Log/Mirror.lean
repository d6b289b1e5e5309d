import SwarmDB.Raft.Log.File

namespace SwarmDB.Raft

variable {codec : Codec} {input rest more : Bytes} {entry : LogEntry} {entries : List LogEntry}

section Extraction

theorem readFields_eq_some {fields : UInt8 × Nat × Nat × Bytes} :
    readFields input = some (fields, rest) ↔ ∃ afterType afterIndex afterTerm,
      TextStream.readByte input = some (fields.1, afterType) ∧
      TextStream.readNumber (2 ^ 32) afterType = some (fields.2.1, afterIndex) ∧
      TextStream.readNumber (2 ^ 32) afterIndex = some (fields.2.2.1, afterTerm) ∧
      TextStream.readWord afterTerm = some (fields.2.2.2, rest) := by
  obtain ⟨entryType, logIndex, term, msgString⟩ := fields
  simp only [readFields, bind, pure, Option.bind_eq_some_iff, Prod.exists, Option.some.injEq,
    Prod.mk.injEq]
  constructor
  · rintro ⟨b, afterType, hb, i, afterIndex, hi, t, afterTerm, ht, word, left, hword,
      ⟨rfl, rfl, rfl, rfl⟩, rfl⟩
    exact ⟨afterType, afterIndex, afterTerm, hb, hi, ht, hword⟩
  · rintro ⟨afterType, afterIndex, afterTerm, hb, hi, ht, hword⟩
    exact ⟨_, _, hb, _, _, hi, _, _, ht, _, _, hword, ⟨rfl, rfl, rfl, rfl⟩, rfl⟩

theorem extract_eq_some : extract codec input = .ok (some (entry, rest)) ↔
    ∃ b msgString, readFields input = some ((b, entry.logIndex, entry.term, msgString), rest) ∧
      LogEntryType.ofByte b = entry.entryType ∧
      codec.parse (codec.base64Decode msgString) = some entry.msg := by
  obtain ⟨entryType, logIndex, term, msg⟩ := entry
  unfold extract
  constructor
  · intro h
    split at h
    · simp at h
    · rename_i b i t msgString left hfields
      split at h
      · cases h
      · rename_i parsed hparse
        simp only [Except.ok.injEq, Option.some.injEq, Prod.mk.injEq, LogEntry.mk.injEq] at h
        obtain ⟨⟨htype, rfl, rfl, rfl⟩, rfl⟩ := h
        exact ⟨b, msgString, hfields, htype, hparse⟩
  · rintro ⟨b, msgString, hfields, htype, hparse⟩
    simp [hfields, hparse, htype]

-- An entry that is followed by anything is read the same whatever is written behind the file.
theorem extract_append (h : extract codec input = .ok (some (entry, rest))) (hrest : rest ≠ [])
    (more : Bytes) : extract codec (input ++ more) = .ok (some (entry, rest ++ more)) := by
  obtain ⟨b, msgString, hfields, htype, hparse⟩ := extract_eq_some.mp h
  obtain ⟨afterType, afterIndex, afterTerm, hb, hi, ht, hword⟩ := readFields_eq_some.mp hfields
  have hterm : afterTerm ≠ [] := by
    rintro rfl
    cases hword
  have hindex : afterIndex ≠ [] := by
    rintro rfl
    cases ht
  apply extract_eq_some.mpr
  refine ⟨b, msgString, readFields_eq_some.mpr ?_, htype, hparse⟩
  exact ⟨afterType ++ more, afterIndex ++ more, afterTerm ++ more,
    TextStream.readByte_append hb more, TextStream.readNumber_append hi hindex more,
    TextStream.readNumber_append ht hterm more, TextStream.readWord_append hword hrest more⟩

theorem toByte_visible (entryType : LogEntryType) : TextStream.isSpace entryType.toByte = false := by
  cases entryType <;> rfl

theorem messageWord_visible {msg : JsonMessage} :
    ∀ b ∈ codec.messageWord msg, TextStream.isSpace b = false := by
  intro b hb
  obtain ⟨c, hc, rfl⟩ := List.mem_map.mp hb
  have hall : ('=' :: Base64.alphabet).all (fun c => !TextStream.isSpace (UInt8.ofNat c.toNat)) = true := by
    decide +kernel
  simpa using List.all_eq_true.mp hall c (Base64.mem_of_mem_encode hc)

theorem Codec.Keeps.messageWord_ne {msg : JsonMessage} (h : codec.Keeps msg) :
    codec.messageWord msg ≠ [] := by
  unfold Codec.messageWord Bytes.ofAscii
  simpa using Base64.encode_ne_nil h.1

-- A line that was written comes back as the entry, and only its newline is left.
theorem extract_line (h : entry.Fits codec) (hspace : input.all TextStream.isSpace = true) :
    extract codec (input ++ entry.line codec) = .ok (some (entry, [10])) := by
  apply extract_eq_some.mpr
  refine ⟨entry.entryType.toByte, codec.messageWord entry.msg, readFields_eq_some.mpr ?_,
    LogEntryType.ofByte_toByte entry.entryType, h.keeps.2⟩
  refine ⟨32 :: Bytes.decimal entry.logIndex ++ 32 :: Bytes.decimal entry.term ++
    32 :: codec.messageWord entry.msg ++ [10],
    32 :: Bytes.decimal entry.term ++ 32 :: codec.messageWord entry.msg ++ [10],
    32 :: codec.messageWord entry.msg ++ [10], ?_, ?_, ?_, ?_⟩
  · exact TextStream.readByte_written hspace (toByte_visible _) _
  · simpa using TextStream.readNumber_decimal h.logIndex_lt rfl _
  · simpa using TextStream.readNumber_decimal h.term_lt rfl _
  · exact TextStream.readWord_written h.keeps.messageWord_ne messageWord_visible rfl []

theorem extract_length (h : extract codec input = .ok (some (entry, rest))) :
    rest.length < input.length := by
  obtain ⟨b, msgString, hfields, -, -⟩ := extract_eq_some.mp h
  obtain ⟨afterType, afterIndex, afterTerm, hb, hi, ht, hword⟩ := readFields_eq_some.mp hfields
  have htype := TextStream.readByte_length hb
  have hindex := TextStream.readNumber_length hi
  have hterm := TextStream.readNumber_length ht
  have hmsg := TextStream.readWord_length hword
  omega

theorem extract_numbers_lt (h : extract codec input = .ok (some (entry, rest))) :
    entry.logIndex < 2 ^ 32 ∧ entry.term < 2 ^ 32 := by
  obtain ⟨b, msgString, hfields, -, -⟩ := extract_eq_some.mp h
  obtain ⟨afterType, afterIndex, afterTerm, -, hi, ht, -⟩ := readFields_eq_some.mp hfields
  exact ⟨TextStream.readNumber_lt hi, TextStream.readNumber_lt ht⟩

end Extraction

section Reading

-- What the constructor's loop reads, entry by entry, and what it leaves.
inductive Reads (codec : Codec) : Bytes → List LogEntry → Bytes → Prop
  | stop {input : Bytes} (h : extract codec input = .ok none) : Reads codec input [] input
  | entry {input rest left : Bytes} {entry : LogEntry} {entries : List LogEntry}
      (h : extract codec input = .ok (some (entry, rest))) (hrest : Reads codec rest entries left) :
      Reads codec input (entry :: entries) left

theorem reads_of_readEntries {fuel : Nat} (hfuel : input.length < fuel)
    (h : readEntries codec fuel input = .ok (entries, rest)) : Reads codec input entries rest := by
  induction fuel generalizing input entries with
  | zero => omega
  | succ fuel ih =>
      unfold readEntries at h
      cases hextract : extract codec input with
      | error e => simp [hextract] at h
      | ok found =>
          cases found with
          | none =>
              obtain ⟨rfl, rfl⟩ : [] = entries ∧ input = rest := by simpa [hextract] using h
              exact .stop hextract
          | some pair =>
              obtain ⟨first, left⟩ := pair
              have hlength := extract_length hextract
              simp only [hextract] at h
              cases hread : readEntries codec fuel left with
              | error e => simp [hread, Except.map] at h
              | ok read =>
                  obtain ⟨rfl, rfl⟩ : first :: read.1 = entries ∧ read.2 = rest := by
                    simpa [hread, Except.map] using h
                  exact .entry hextract (ih (by omega) hread)

theorem Reads.readEntries (h : Reads codec input entries rest) {fuel : Nat} (hfuel : input.length < fuel) :
    readEntries codec fuel input = .ok (entries, rest) := by
  induction h generalizing fuel with
  | stop hstop =>
      cases fuel with
      | zero => omega
      | succ fuel => simp [Raft.readEntries, hstop]
  | @entry input rest _ _ _ hextract _ ih =>
      cases fuel with
      | zero => omega
      | succ fuel =>
          have hlength := extract_length hextract
          have hfuel' : rest.length < fuel := by omega
          simp [Raft.readEntries, hextract, ih hfuel', Except.map]

theorem readFile_eq_ok : readFile codec input = .ok (entries, rest) ↔ Reads codec input entries rest := by
  constructor
  · exact reads_of_readEntries (Nat.lt_succ_self _)
  · intro h
    exact h.readEntries (Nat.lt_succ_self _)

theorem Reads.input_ne (h : Reads codec input entries rest) (hrest : rest ≠ []) : input ≠ [] := by
  rintro rfl
  cases h with
  | stop => exact hrest rfl
  | entry hextract _ => cases hextract

-- A file of whole lines: behind its last entry there is white space and nothing else.
structure Holds (codec : Codec) (file : Bytes) (entries : List LogEntry) (rest : Bytes) : Prop where
  reads : Reads codec file entries rest
  space : rest.all TextStream.isSpace = true
  ended : entries ≠ [] → rest ≠ []

theorem holds_empty (codec : Codec) : Holds codec [] [] [] :=
  ⟨.stop rfl, rfl, fun h => absurd rfl h⟩

theorem Reads.append_line (h : Reads codec input entries rest)
    (hspace : rest.all TextStream.isSpace = true) (hended : entries ≠ [] → rest ≠ [])
    (hfits : entry.Fits codec) :
    Reads codec (input ++ entry.line codec) (entries ++ [entry]) [10] := by
  induction h with
  | stop hstop => exact .entry (extract_line hfits hspace) (.stop rfl)
  | entry hextract hreads ih =>
      have hrest := hended (by simp)
      exact .entry (extract_append hextract (hreads.input_ne hrest) _) (ih hspace fun _ => hrest)

theorem Holds.append_line (h : Holds codec input entries rest) (hfits : entry.Fits codec) :
    Holds codec (input ++ entry.line codec) (entries ++ [entry]) [10] :=
  ⟨h.reads.append_line h.space h.ended hfits, rfl, fun _ => by simp⟩

theorem Holds.append_lines (h : Holds codec input entries rest) {added : List LogEntry}
    (hfits : ∀ entry ∈ added, entry.Fits codec) :
    ∃ left, Holds codec (input ++ added.flatMap (LogEntry.line codec)) (entries ++ added) left := by
  induction added generalizing input entries rest with
  | nil => exact ⟨rest, by simpa using h⟩
  | cons entry added ih =>
      obtain ⟨left, hleft⟩ := ih (h.append_line (hfits entry List.mem_cons_self))
        fun other hother => hfits other (List.mem_cons_of_mem _ hother)
      exact ⟨left, by simpa using hleft⟩

theorem Reads.numbers_lt (h : Reads codec input entries rest) :
    ∀ entry ∈ entries, entry.logIndex < 2 ^ 32 ∧ entry.term < 2 ^ 32 := by
  induction h with
  | stop => simp
  | entry hextract _ ih =>
      intro entry hentry
      rcases List.mem_cons.mp hentry with rfl | hentry
      · exact extract_numbers_lt hextract
      · exact ih entry hentry

end Reading

namespace FileLog

variable {P : Type} {s : FileLog P} {file : Nat}

-- Reading the file again gives the log.
def Mirrors (codec : Codec) (s : FileLog P) : Prop :=
  readBack codec s.disk s.entriesLogPath = .ok s.log.entries

-- Behind the last entry of its file there is at least one white space and nothing else.
def Whole (codec : Codec) (s : FileLog P) : Prop :=
  ∃ content rest, s.disk.read s.entriesLogPath = some content ∧
    readFile codec content = .ok (s.log.entries, rest) ∧
    rest.all TextStream.isSpace = true ∧ rest ≠ []

-- The insert finds an entry of another term in its place.
def Conflicts (s : FileLog P) : LogCall → Prop
  | .leaderAppendEntry _ => False
  | .followerInsertEntry index entry => ∃ held, s.log.entries[index]? = some held ∧ entry.term ≠ held.term

-- The file at the path holds the log, and a stream that is open writes to it.
def Intact (codec : Codec) (s : FileLog P) : Prop :=
  ∃ file rest, s.disk.node s.entriesLogPath = some file ∧
    Holds codec (s.disk.content file) s.log.entries rest ∧
    ∀ opened, s.logEntryOutStream = some opened → opened = file

-- The open stream writes to a file that has lost its path, or to one that holds an entry too many.
def Broken (codec : Codec) (s : FileLog P) : Prop :=
  ∃ file, s.logEntryOutStream = some file ∧
    (s.disk.node s.entriesLogPath = none ∨ s.disk.node s.entriesLogPath = some file ∧
      ∃ entries rest, Holds codec (s.disk.content file) entries rest ∧
        entries.length = s.log.size + 1)

theorem readBack_of_holds (hnode : s.disk.node s.entriesLogPath = some file)
    (h : Holds codec (s.disk.content file) entries rest) :
    readBack codec s.disk s.entriesLogPath = .ok entries := by
  unfold readBack
  rw [FileSystem.read_of_node hnode]
  simp [readFile_eq_ok.mpr h.reads, Except.map]

theorem Intact.mirrors (h : s.Intact codec) : s.Mirrors codec := by
  obtain ⟨file, rest, hnode, hholds, -⟩ := h
  exact readBack_of_holds hnode hholds

theorem Broken.not_mirrors (h : s.Broken codec) : ¬s.Mirrors codec := by
  obtain ⟨file, -, hnode | ⟨hnode, entries, rest, hholds, hlength⟩⟩ := h
  · intro hmirrors
    simp only [Mirrors, readBack, FileSystem.read, hnode, Option.map_none, Except.ok.injEq] at hmirrors
    exact s.log.entries_ne hmirrors.symm
  · intro hmirrors
    unfold Mirrors at hmirrors
    rw [readBack_of_holds hnode hholds, Except.ok.injEq] at hmirrors
    rw [hmirrors, RaftLog.size] at hlength
    omega

theorem Whole.intact (h : s.Whole codec) (hclosed : s.logEntryOutStream = none) : s.Intact codec := by
  obtain ⟨content, rest, hread, hfile, hspace, hrest⟩ := h
  obtain ⟨file, hnode, rfl⟩ := FileSystem.node_of_read hread
  refine ⟨file, rest, hnode, ⟨readFile_eq_ok.mp hfile, hspace, fun _ => hrest⟩, ?_⟩
  simp [hclosed]

theorem construct_spec {disk : FileSystem P} {path : P} (h : construct codec disk path = .ok s) :
    s.logEntryOutStream = none := by
  unfold construct at h
  split at h
  · cases h
  · cases h
  · rw [← Except.ok.inj h]

theorem Whole.numbers_lt (h : s.Whole codec) :
    ∀ entry ∈ s.log.entries, entry.logIndex < 2 ^ 32 ∧ entry.term < 2 ^ 32 := by
  obtain ⟨content, rest, -, hfile, -, -⟩ := h
  exact (readFile_eq_ok.mp hfile).numbers_lt

variable [DecidableEq P]

section Disk

@[simp] theorem appendLogDisk_log : (s.appendLogDisk codec entry).log = s.log := rfl

@[simp] theorem appendLogDisk_path : (s.appendLogDisk codec entry).entriesLogPath = s.entriesLogPath := rfl

theorem appendLogDisk_open (codec : Codec) (entry : LogEntry) (hopen : s.logEntryOutStream = some file) :
    (s.appendLogDisk codec entry).logEntryOutStream = some file ∧
      (s.appendLogDisk codec entry).disk = s.disk.append file (entry.line codec) := by
  simp [appendLogDisk, hopen]

theorem appendLogDisk_closed (codec : Codec) (entry : LogEntry) (hclosed : s.logEntryOutStream = none) :
    ∃ file,
    (s.appendLogDisk codec entry).logEntryOutStream = some file ∧
      (s.appendLogDisk codec entry).disk.node s.entriesLogPath = some file ∧
      (s.appendLogDisk codec entry).disk.content file =
        (s.disk.read s.entriesLogPath).getD [] ++ entry.line codec := by
  refine ⟨(s.disk.openAppend s.entriesLogPath).1, ?_, ?_, ?_⟩
  · simp [appendLogDisk, hclosed]
  · simpa [appendLogDisk, hclosed] using FileSystem.openAppend_node
  · simp [appendLogDisk, hclosed, FileSystem.openAppend_content]

theorem appendAll_log (codec : Codec) (s : FileLog P) (added : List LogEntry) :
    (added.foldl (appendLogDisk codec) s).log = s.log ∧
      (added.foldl (appendLogDisk codec) s).entriesLogPath = s.entriesLogPath := by
  induction added generalizing s with
  | nil => exact ⟨rfl, rfl⟩
  | cons entry added ih => exact ih _

theorem appendAll_open (codec : Codec) (hopen : s.logEntryOutStream = some file) (added : List LogEntry) :
    (added.foldl (appendLogDisk codec) s).logEntryOutStream = some file ∧
      (added.foldl (appendLogDisk codec) s).disk.node = s.disk.node ∧
      (added.foldl (appendLogDisk codec) s).disk.content file =
        s.disk.content file ++ added.flatMap (LogEntry.line codec) := by
  induction added generalizing s with
  | nil => simp [hopen]
  | cons entry added ih =>
      obtain ⟨hstream, hdisk⟩ := appendLogDisk_open codec entry hopen
      obtain ⟨hstream', hnode, hcontent⟩ := ih hstream
      refine ⟨hstream', ?_, ?_⟩
      · rw [List.foldl_cons, hnode, hdisk, FileSystem.append_node]
      · rw [List.foldl_cons, hcontent, hdisk, FileSystem.append_content]
        simp

end Disk

section Step

-- The entry takes the place of everything from the index on.
def replaceFrom (codec : Codec) (s : FileLog P) (index : Nat) (entry : LogEntry) : FileLog P :=
  let cut := { s with log := ⟨s.log.entries.take index ++ [entry], List.concat_ne_nil _ _⟩ }
  (cut.rewriteLog codec).appendLogDisk codec entry

-- What a call can do: nothing, write behind the end, or replace where it conflicts.
theorem next_cases (codec : Codec) (s : FileLog P) (call : LogCall) :
    ¬s.Conflicts call ∧ (machine P codec).next s call = s ∨
    ¬s.Conflicts call ∧ (machine P codec).next s call = s.leaderAppendEntry codec call.entry ∨
    s.Conflicts call ∧ ∃ index, index < s.log.size ∧
      (machine P codec).next s call = s.replaceFrom codec index call.entry := by
  cases call with
  | leaderAppendEntry entry => exact Or.inr (Or.inl ⟨id, rfl⟩)
  | followerInsertEntry index entry =>
      cases hheld : s.log.entries[index]? with
      | some held =>
          by_cases hterm : entry.term = held.term
          · refine Or.inl ⟨?_, by simp [machine, perform, followerInsertEntry, hheld, hterm]⟩
            rintro ⟨other, hother, hne⟩
            rw [hheld, Option.some.injEq] at hother
            exact hne (hother ▸ hterm)
          · refine Or.inr (Or.inr ⟨⟨held, hheld, hterm⟩, index, ?_, ?_⟩)
            · exact (List.getElem?_eq_some_iff.mp hheld).1
            · simp [machine, perform, followerInsertEntry, hheld, hterm, replaceFrom, LogCall.entry]
      | none =>
          have hagrees : ¬s.Conflicts (.followerInsertEntry index entry) := by
            rintro ⟨other, hother, -⟩
            rw [hheld] at hother
            cases hother
          by_cases hend : index = s.log.size
          · subst hend
            refine Or.inr (Or.inl ⟨hagrees, ?_⟩)
            simp only [machine, perform, followerInsertEntry, hheld, if_true]
            rfl
          · exact Or.inl ⟨hagrees, by simp [machine, perform, followerInsertEntry, hheld, hend]⟩

theorem Intact.leaderAppendEntry (h : s.Intact codec) (hfits : entry.Fits codec) :
    (s.leaderAppendEntry codec entry).Intact codec := by
  obtain ⟨file, rest, hnode, hholds, hstream⟩ := h
  have hline := hholds.append_line hfits
  let grown := { s with log := s.log.leaderAppendEntry entry }
  cases hopen : s.logEntryOutStream with
  | some opened =>
      obtain rfl := hstream opened hopen
      obtain ⟨hstream', hdisk⟩ := appendLogDisk_open codec entry (show grown.logEntryOutStream = some opened from hopen)
      refine ⟨opened, [10], ?_, ?_, ?_⟩
      · show (grown.appendLogDisk codec entry).disk.node s.entriesLogPath = some opened
        rw [hdisk, FileSystem.append_node]
        exact hnode
      · show Holds codec ((grown.appendLogDisk codec entry).disk.content opened) _ _
        rw [hdisk, FileSystem.append_content]
        exact hline
      · intro other hother
        rw [show (s.leaderAppendEntry codec entry).logEntryOutStream = some opened from hstream'] at hother
        exact (Option.some.inj hother).symm
  | none =>
      obtain ⟨created, hstream', hnode', hcontent⟩ :=
        appendLogDisk_closed codec entry (show grown.logEntryOutStream = none from hopen)
      refine ⟨created, [10], hnode', ?_, ?_⟩
      · show Holds codec ((grown.appendLogDisk codec entry).disk.content created) _ _
        rw [hcontent, show grown.disk.read grown.entriesLogPath = _ from FileSystem.read_of_node hnode]
        exact hline
      · intro other hother
        rw [show (s.leaderAppendEntry codec entry).logEntryOutStream = some created from hstream'] at hother
        exact (Option.some.inj hother).symm

theorem Broken.leaderAppendEntry (h : s.Broken codec) (hfits : entry.Fits codec) :
    (s.leaderAppendEntry codec entry).Broken codec := by
  obtain ⟨file, hopen, hpath⟩ := h
  let grown := { s with log := s.log.leaderAppendEntry entry }
  obtain ⟨hstream, hdisk⟩ := appendLogDisk_open codec entry (show grown.logEntryOutStream = some file from hopen)
  refine ⟨file, hstream, ?_⟩
  show (grown.appendLogDisk codec entry).disk.node s.entriesLogPath = none ∨
    (grown.appendLogDisk codec entry).disk.node s.entriesLogPath = some file ∧ ∃ entries rest,
      Holds codec ((grown.appendLogDisk codec entry).disk.content file) entries rest ∧
        entries.length = (s.log.leaderAppendEntry entry).size + 1
  rw [hdisk, FileSystem.append_node, FileSystem.append_content]
  rcases hpath with hnode | ⟨hnode, entries, rest, hholds, hlength⟩
  · exact Or.inl hnode
  · refine Or.inr ⟨hnode, entries ++ [entry], [10], hholds.append_line hfits, ?_⟩
    simpa [RaftLog.size, RaftLog.leaderAppendEntry] using hlength

-- A conflict found with the stream open takes the path away for good.
theorem replaceFrom_open (hopen : s.logEntryOutStream = some file) (index : Nat) :
    (s.replaceFrom codec index entry).Broken codec := by
  let cut : FileLog P := { s with log := ⟨s.log.entries.take index ++ [entry], by simp⟩,
                                  disk := s.disk.remove s.entriesLogPath }
  obtain ⟨hstream, hnode, -⟩ := appendAll_open codec
    (show cut.logEntryOutStream = some file from hopen) cut.log.entries
  obtain ⟨hstream', hdisk⟩ := appendLogDisk_open codec entry hstream
  refine ⟨file, hstream', Or.inl ?_⟩
  have hpath : (s.replaceFrom codec index entry).entriesLogPath = s.entriesLogPath := (appendAll_log codec cut _).2
  rw [hpath]
  show ((cut.log.entries.foldl (appendLogDisk codec) cut).appendLogDisk codec entry).disk.node
    s.entriesLogPath = none
  rw [hdisk, FileSystem.append_node, hnode]
  exact FileSystem.remove_node

-- One found with the stream closed writes the new entry twice.
theorem replaceFrom_closed (hclosed : s.logEntryOutStream = none) {index : Nat}
    (hheld : ∀ other ∈ s.log.entries, other.Fits codec) (hfits : entry.Fits codec) :
    (s.replaceFrom codec index entry).Broken codec := by
  let cut : FileLog P := { s with log := ⟨s.log.entries.take index ++ [entry], by simp⟩,
                                  disk := s.disk.remove s.entriesLogPath }
  have hcut : ∀ other ∈ cut.log.entries, other.Fits codec := by
    intro other hother
    rcases List.mem_append.mp hother with hother | hother
    · exact hheld other (List.mem_of_mem_take hother)
    · rw [List.mem_singleton.mp hother]
      exact hfits
  obtain ⟨first, others, hentries⟩ := List.exists_cons_of_ne_nil cut.log.entries_ne
  obtain ⟨created, hstream, hnode, hcontent⟩ :=
    appendLogDisk_closed codec first (show cut.logEntryOutStream = none from hclosed)
  have hread : cut.disk.read cut.entriesLogPath = none := by
    simp [FileSystem.read, cut]
  rw [hread] at hcontent
  obtain ⟨hstream', hnode', hcontent'⟩ := appendAll_open codec hstream others
  obtain ⟨hstream'', hdisk⟩ := appendLogDisk_open codec entry hstream'
  obtain ⟨left, hholds⟩ := (holds_empty codec).append_lines hcut
  have hfinal : s.replaceFrom codec index entry =
      (others.foldl (appendLogDisk codec) (cut.appendLogDisk codec first)).appendLogDisk codec entry := by
    show (cut.log.entries.foldl (appendLogDisk codec) cut).appendLogDisk codec entry = _
    rw [hentries, List.foldl_cons]
  obtain ⟨hlog, hpath⟩ := appendAll_log codec (cut.appendLogDisk codec first) others
  rw [hfinal]
  refine ⟨created, hstream'', Or.inr ⟨?_, cut.log.entries ++ [entry], [10], ?_, ?_⟩⟩
  · rw [appendLogDisk_path, hpath, hdisk, FileSystem.append_node, hnode']
    exact hnode
  · rw [hdisk, FileSystem.append_content, hcontent', hcontent]
    have hlines := hholds.append_line hfits
    simp only [List.nil_append, hentries, List.flatMap_cons] at hlines
    simpa [hentries] using hlines
  · rw [appendLogDisk_log, hlog, appendLogDisk_log]
    simp [RaftLog.size]

theorem replaceFrom_log (codec : Codec) (s : FileLog P) (index : Nat) (entry : LogEntry) :
    (s.replaceFrom codec index entry).log.entries = s.log.entries.take index ++ [entry] := by
  show (FileLog.rewriteLog codec _).log.entries = _
  unfold rewriteLog
  rw [(appendAll_log codec _ _).1]

-- The log in memory does not depend on the file.
theorem followerInsertEntry_log (codec : Codec) (s : FileLog P) (index : Nat) (entry : LogEntry) :
    (s.followerInsertEntry codec index entry).map FileLog.log = s.log.followerInsertEntry index entry := by
  unfold followerInsertEntry RaftLog.followerInsertEntry
  cases s.log.entries[index]? with
  | some held =>
      dsimp only
      split
      · rfl
      · show Except.ok (s.replaceFrom codec index entry).log = _
        congr 1
        exact RaftLog.ext (replaceFrom_log codec s index entry)
  | none =>
      dsimp only
      split
      · rfl
      · rfl

theorem next_fits {call : LogCall} (h : ∀ entry ∈ s.log.entries, entry.Fits codec)
    (hfits : call.entry.Fits codec) :
    ∀ entry ∈ ((machine P codec).next s call).log.entries, entry.Fits codec := by
  intro entry hentry
  rcases next_cases codec s call with ⟨-, hnext⟩ | ⟨-, hnext⟩ | ⟨-, index, -, hnext⟩
  · rw [hnext] at hentry
    exact h entry hentry
  · rw [hnext] at hentry
    rcases List.mem_append.mp hentry with hentry | hentry
    · exact h entry hentry
    · rw [List.mem_singleton.mp hentry]
      exact hfits
  · rw [hnext, replaceFrom_log] at hentry
    rcases List.mem_append.mp hentry with hentry | hentry
    · exact h entry (List.mem_of_mem_take hentry)
    · rw [List.mem_singleton.mp hentry]
      exact hfits

end Step

section Run

variable {past : List (FileLog P × LogCall)}

-- Up to the first conflict the file is intact, from then on it is broken.
theorem intact_or_broken_of_run (run : (machine P codec).Run past s)
    (hwhole : (Machine.origin past s).Whole codec)
    (hkeeps : ∀ entry ∈ (Machine.origin past s).log.entries, codec.Keeps entry.msg) :
    (∀ entry ∈ s.log.entries, entry.Fits codec) ∧
      ((∀ step ∈ past, ¬step.1.Conflicts step.2) ∧ s.Intact codec ∨
        (∃ step ∈ past, step.1.Conflicts step.2) ∧ s.Broken codec) := by
  induction run with
  | start hinit =>
      obtain ⟨disk, path, hconstruct⟩ := hinit
      refine ⟨?_, Or.inl ⟨by simp, Whole.intact hwhole (construct_spec hconstruct)⟩⟩
      intro entry hentry
      obtain ⟨hindex, hterm⟩ := hwhole.numbers_lt entry hentry
      exact ⟨hindex, hterm, hkeeps entry hentry⟩
  | @step past s call run henabled ih =>
      rw [Machine.origin_step] at hwhole hkeeps
      obtain ⟨hfits, hfile⟩ := ih hwhole hkeeps
      refine ⟨next_fits hfits henabled, ?_⟩
      rcases next_cases codec s call with ⟨hagrees, hnext⟩ | ⟨hagrees, hnext⟩ |
        ⟨hconflicts, index, hindex, hnext⟩
      · rw [hnext]
        rcases hfile with ⟨hnone, hintact⟩ | ⟨⟨step, hstep, hconflicts⟩, hbroken⟩
        · refine Or.inl ⟨?_, hintact⟩
          simpa [hagrees] using hnone
        · exact Or.inr ⟨⟨step, List.mem_cons_of_mem _ hstep, hconflicts⟩, hbroken⟩
      · rw [hnext]
        rcases hfile with ⟨hnone, hintact⟩ | ⟨⟨step, hstep, hconflicts⟩, hbroken⟩
        · refine Or.inl ⟨?_, hintact.leaderAppendEntry henabled⟩
          simpa [hagrees] using hnone
        · exact Or.inr ⟨⟨step, List.mem_cons_of_mem _ hstep, hconflicts⟩,
            hbroken.leaderAppendEntry henabled⟩
      · rw [hnext]
        refine Or.inr ⟨⟨(s, call), List.mem_cons_self, hconflicts⟩, ?_⟩
        cases hopen : s.logEntryOutStream with
        | some file => exact replaceFrom_open hopen index
        | none => exact replaceFrom_closed hopen hfits henabled

theorem mirrors_iff (run : (machine P codec).Run past s)
    (hwhole : (Machine.origin past s).Whole codec)
    (hkeeps : ∀ entry ∈ (Machine.origin past s).log.entries, codec.Keeps entry.msg) :
    s.Mirrors codec ↔ ∀ step ∈ past, ¬step.1.Conflicts step.2 := by
  rcases (intact_or_broken_of_run run hwhole hkeeps).2 with ⟨hnone, hintact⟩ |
    ⟨⟨step, hstep, hconflicts⟩, hbroken⟩
  · exact ⟨fun _ => hnone, fun _ => hintact.mirrors⟩
  · constructor
    · intro hmirrors
      exact absurd hmirrors hbroken.not_mirrors
    · intro hnone
      exact absurd hconflicts (hnone step hstep)

-- The codec on the one message null, whose text is null and a newline.
def nullCodec : Codec where
  write _ := [110, 117, 108, 108, 10]
  base64Decode word := if word = Bytes.ofAscii "bnVsbAo=".toList then [110, 117, 108, 108, 10] else []
  parse text := if text = [110, 117, 108, 108, 10] then some .null else none

def nullEntry (logIndex term : Nat) : LogEntry := ⟨.undefined, logIndex, term, .null⟩

theorem nullCodec_keeps : nullCodec.Keeps .null := ⟨by decide, by decide +kernel⟩

theorem nullEntry_fits {logIndex term : Nat} (hindex : logIndex < 2 ^ 32) (hterm : term < 2 ^ 32) :
    (nullEntry logIndex term).Fits nullCodec := ⟨hindex, hterm, nullCodec_keeps⟩

-- A disk with one log file of two entries, of the terms 0 and 1.
def twoLines : FileSystem String where
  node path := if path = ".state/node.dat" then some 0 else none
  content _ := [nullEntry 0 0, nullEntry 1 1].flatMap (LogEntry.line nullCodec)
  fresh := 1
  bounded := by
    intro path file h
    split at h
    · rw [← Option.some.inj h]
      decide
    · cases h

def twoLineLog : FileLog String where
  log := ⟨[nullEntry 0 0, nullEntry 1 1], by simp⟩
  totalMemoryUsed := ((twoLines.read ".state/node.dat").getD []).length
  logEntryOutStream := none
  entriesLogPath := ".state/node.dat"
  disk := twoLines

theorem twoLines_holds : ∃ rest, Holds nullCodec (twoLines.content 0) [nullEntry 0 0, nullEntry 1 1] rest := by
  have hfits : ∀ entry ∈ [nullEntry 0 0, nullEntry 1 1], entry.Fits nullCodec := by
    intro entry hentry
    rcases List.mem_pair.mp hentry with rfl | rfl
    · exact nullEntry_fits (by decide) (by decide)
    · exact nullEntry_fits (by decide) (by decide)
  exact (holds_empty nullCodec).append_lines hfits

theorem construct_twoLines : construct nullCodec twoLines ".state/node.dat" = .ok twoLineLog := by
  obtain ⟨rest, hholds⟩ := twoLines_holds
  have hread : readBack nullCodec twoLines ".state/node.dat" = .ok [nullEntry 0 0, nullEntry 1 1] :=
    readBack_of_holds (s := twoLineLog) rfl hholds
  unfold construct
  rw [hread]
  rfl

theorem twoLineLog_whole : twoLineLog.Whole nullCodec := by
  obtain ⟨rest, hholds⟩ := twoLines_holds
  exact ⟨_, rest, rfl, readFile_eq_ok.mpr hholds.reads, hholds.space, hholds.ended (by simp)⟩

theorem run_of_twoLines (calls : List LogCall) (h : ∀ call ∈ calls, call.entry.Fits nullCodec) :
    (machine String nullCodec).Run ((machine String nullCodec).replay [] twoLineLog calls).1
      ((machine String nullCodec).replay [] twoLineLog calls).2 := by
  have hadmits : ∀ s, (machine String nullCodec).Admits s calls := by
    induction calls with
    | nil => exact fun _ => trivial
    | cons call rest ih =>
        exact fun s => ⟨h call List.mem_cons_self,
          ih (fun other hother => h other (List.mem_cons_of_mem _ hother)) _⟩
  have hinit : (machine String nullCodec).init twoLineLog := ⟨_, _, construct_twoLines⟩
  exact (Machine.Run.start hinit).replay calls (hadmits _)

theorem mirrors_iff_appended :
    let run := (machine String nullCodec).replay [] twoLineLog [.leaderAppendEntry (nullEntry 2 1)]
    run.2.log.entries = [nullEntry 0 0, nullEntry 1 1, nullEntry 2 1] ∧ run.2.Mirrors nullCodec := by
  have hfits : ∀ call ∈ [LogCall.leaderAppendEntry (nullEntry 2 1)], call.entry.Fits nullCodec := by
    intro call hcall
    rw [List.mem_singleton.mp hcall]
    exact nullEntry_fits (by decide) (by decide)
  refine ⟨rfl, (mirrors_iff (run_of_twoLines _ hfits) twoLineLog_whole ?_).mpr ?_⟩
  · intro entry hentry
    rcases List.mem_pair.mp hentry with rfl | rfl
    · exact nullCodec_keeps
    · exact nullCodec_keeps
  · intro step hstep
    rw [List.mem_singleton.mp hstep]
    exact id

-- The first call replaces the second entry, and the file holds the new entry twice.
theorem mirrors_broken : ¬∀ past s, (machine String nullCodec).Run past s → s.Mirrors nullCodec := by
  intro h
  have hfits : ∀ call ∈ [LogCall.followerInsertEntry 1 (nullEntry 1 2)], call.entry.Fits nullCodec := by
    intro call hcall
    rw [List.mem_singleton.mp hcall]
    exact nullEntry_fits (by decide) (by decide)
  have hmirrors := h _ _ (run_of_twoLines _ hfits)
  unfold Mirrors at hmirrors
  exact absurd hmirrors (by decide +kernel)

end Run

end FileLog

end SwarmDB.Raft
