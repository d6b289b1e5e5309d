import Mathlib.Data.UInt
import SwarmDB.Raft.Log.Mirror

namespace SwarmDB.Raft

-- What JsonCpp's FastWriter makes of a value before its newline, boost's base64 decoder and JsonCpp's reader,
-- for JSON values of any kind.
structure JsonCodec (M : Type) where
  document : M → Bytes
  base64Decode : Bytes → Bytes
  parse : Bytes → Option M

-- A log_entry with all of its data, which is also the object that is read into.
structure EntryObject (M : Type) where
  entryType : LogEntryType
  logIndex : UInt32
  term : UInt32
  msg : M
  deriving DecidableEq, Repr

variable {M : Type}

namespace JsonCodec

variable (codec : JsonCodec M)

def jsonToString (msg : M) : Bytes := codec.document msg ++ [10]

def messageWord (msg : M) : Bytes := Bytes.ofAscii (Base64.encode (codec.jsonToString msg))

-- Decoding undoes encoding, and the reader undoes the writer.
structure Undoes (msg : M) : Prop where
  decodes : codec.base64Decode (codec.messageWord msg) = codec.jsonToString msg
  parses : codec.parse (codec.jsonToString msg) = some msg

end JsonCodec

namespace EntryObject

variable (codec : JsonCodec M)

-- operator<<. The type is written as a character.
def written (entry : EntryObject M) : Bytes :=
  entry.entryType.toByte :: 32 :: Bytes.decimal entry.logIndex.toNat ++ 32 :: Bytes.decimal entry.term.toNat ++
    32 :: codec.messageWord entry.msg ++ [10]

-- operator>>, with the stream after it if that has not failed. What a failed extraction does to the number
-- it was for is left out: nobody looks at an object after the stream has failed.
def extracted (input : Bytes) (obj : EntryObject M) : Except LogException (Option Bytes × EntryObject M) :=
  let obj := { obj with logIndex := 2 ^ 32 - 1, term := 2 ^ 32 - 1 }
  match TextStream.readByte input with
  | none => .ok (none, { obj with entryType := .undefined })
  | some (entryType, input) =>
    let obj := { obj with entryType := LogEntryType.ofByte entryType }
    match TextStream.readNumber (2 ^ 32) input with
    | none => .ok (none, obj)
    | some (logIndex, input) =>
      let obj := { obj with logIndex := UInt32.ofNat logIndex }
      match TextStream.readNumber (2 ^ 32) input with
      | none => .ok (none, obj)
      | some (term, input) =>
        let obj := { obj with term := UInt32.ofNat term }
        match TextStream.readWord input with
        | none => .ok (none, obj)
        | some (msgString, input) =>
          match codec.parse (codec.base64Decode msgString) with
          | none => .error .encounteredInvalidEntryInLog
          | some msg => .ok (some input, { obj with msg := msg })

variable {codec : JsonCodec M} {input rest : Bytes} {obj entry : EntryObject M}

-- What was in the object before does not survive an extraction that succeeds.
theorem extracted_eq_some : extracted codec input obj = .ok (some rest, entry) ↔
    ∃ b logIndex term msgString, readFields input = some ((b, logIndex, term, msgString), rest) ∧
      codec.parse (codec.base64Decode msgString) = some entry.msg ∧ entry.entryType = LogEntryType.ofByte b ∧
      entry.logIndex = UInt32.ofNat logIndex ∧ entry.term = UInt32.ofNat term := by
  simp only [readFields_eq_some]
  unfold extracted
  constructor
  · intro h
    split at h
    · simp at h
    · rename_i b afterType hb
      split at h
      · simp at h
      · rename_i logIndex afterIndex hi
        split at h
        · simp at h
        · rename_i term afterTerm ht
          split at h
          · simp at h
          · rename_i msgString left hword
            split at h
            · simp at h
            · rename_i msg hparse
              simp only [Except.ok.injEq, Prod.mk.injEq, Option.some.injEq] at h
              obtain ⟨rfl, rfl⟩ := h
              exact ⟨b, logIndex, term, msgString, ⟨afterType, afterIndex, afterTerm, hb, hi, ht, hword⟩, hparse,
                rfl, rfl, rfl⟩
  · obtain ⟨entryType, i, t, msg⟩ := entry
    rintro ⟨b, logIndex, term, msgString, ⟨afterType, afterIndex, afterTerm, hb, hi, ht, hword⟩, hparse, rfl, rfl, rfl⟩
    dsimp only at hb hi ht hword hparse
    simp only [hb, hi, ht, hword, hparse]

theorem extracted_length (h : extracted codec input obj = .ok (some rest, entry)) : rest.length < input.length := by
  obtain ⟨b, logIndex, term, msgString, hfields, -⟩ := extracted_eq_some.mp h
  obtain ⟨afterType, afterIndex, afterTerm, hb, hi, ht, hword⟩ := readFields_eq_some.mp hfields
  have htype := TextStream.readByte_length hb
  have hindex := TextStream.readNumber_length hi
  have hterm := TextStream.readNumber_length ht
  have hmsg := TextStream.readWord_length hword
  omega

-- The loop of the constructor with its one object, and what is unread when the extraction fails.
def readAll (codec : JsonCodec M) (input : Bytes) (obj : EntryObject M) :
    Except LogException (List (EntryObject M) × Bytes) :=
  match _h : extracted codec input obj with
  | .error e => .error e
  | .ok (none, _) => .ok ([], input)
  | .ok (some rest, obj) => (readAll codec rest obj).map fun read => (obj :: read.1, read.2)
termination_by input.length
decreasing_by exact extracted_length _h

-- The loop without what it needs to be seen to end.
theorem readAll_eq (codec : JsonCodec M) (input : Bytes) (obj : EntryObject M) : readAll codec input obj =
    match extracted codec input obj with
    | .error e => .error e
    | .ok (none, _) => .ok ([], input)
    | .ok (some rest, obj) => (readAll codec rest obj).map fun read => (obj :: read.1, read.2) := by
  rw [readAll]
  split
  all_goals
    rename_i heq
    rw [heq]

theorem readAll_error {e : LogException} (h : extracted codec input obj = .error e) :
    readAll codec input obj = .error e := by
  rw [readAll_eq, h]

theorem readAll_some {obj' : EntryObject M} (h : extracted codec input obj = .ok (some rest, obj')) :
    readAll codec input obj = (readAll codec rest obj').map fun read => (obj' :: read.1, read.2) := by
  rw [readAll_eq, h]

theorem readAll_none {obj' : EntryObject M} (h : extracted codec input obj = .ok (none, obj')) :
    readAll codec input obj = .ok ([], input) := by
  rw [readAll_eq, h]

theorem messageWord_visible {msg : M} : ∀ b ∈ codec.messageWord msg, TextStream.isSpace b = false := by
  intro b hb
  let toCodec : Codec := ⟨fun _ => codec.jsonToString msg, codec.base64Decode, fun _ => none⟩
  have hword : b ∈ toCodec.messageWord .null := hb
  exact Raft.messageWord_visible b hword

theorem messageWord_ne (codec : JsonCodec M) (msg : M) : codec.messageWord msg ≠ [] := by
  unfold JsonCodec.messageWord Bytes.ofAscii JsonCodec.jsonToString
  have hdocument : codec.document msg ++ [10] ≠ [] := by simp
  simpa using Base64.encode_ne_nil hdocument

-- A line that was written comes back as the entry, whatever the object held. Its newline is left for the
-- next extraction to skip.
theorem extracted_written (h : codec.Undoes entry.msg) {space : Bytes}
    (hspace : space.all TextStream.isSpace = true) (more : Bytes) (obj : EntryObject M) :
    extracted codec (space ++ (entry.written codec ++ more)) obj = .ok (some (10 :: more), entry) := by
  have hindex : entry.logIndex.toNat < 2 ^ 32 := entry.logIndex.toNat_lt
  have hterm : entry.term.toNat < 2 ^ 32 := entry.term.toNat_lt
  apply extracted_eq_some.mpr
  refine ⟨entry.entryType.toByte, entry.logIndex.toNat, entry.term.toNat, codec.messageWord entry.msg,
    readFields_eq_some.mpr ?_, by rw [h.decodes, h.parses], (LogEntryType.ofByte_toByte _).symm, by simp, by simp⟩
  refine ⟨32 :: Bytes.decimal entry.logIndex.toNat ++ 32 :: Bytes.decimal entry.term.toNat ++
    32 :: codec.messageWord entry.msg ++ 10 :: more,
    32 :: Bytes.decimal entry.term.toNat ++ 32 :: codec.messageWord entry.msg ++ 10 :: more,
    32 :: codec.messageWord entry.msg ++ 10 :: more, ?_, ?_, ?_, ?_⟩
  · simpa [written] using TextStream.readByte_written hspace (toByte_visible entry.entryType)
      (32 :: Bytes.decimal entry.logIndex.toNat ++ 32 :: Bytes.decimal entry.term.toNat ++
        32 :: codec.messageWord entry.msg ++ 10 :: more)
  · simpa using TextStream.readNumber_decimal hindex (b := 32) rfl
      (Bytes.decimal entry.term.toNat ++ 32 :: codec.messageWord entry.msg ++ 10 :: more)
  · simpa using TextStream.readNumber_decimal hterm (b := 32) rfl (codec.messageWord entry.msg ++ 10 :: more)
  · exact TextStream.readWord_written (messageWord_ne codec entry.msg) messageWord_visible rfl more

theorem extracted_space {space : Bytes} (hspace : space.all TextStream.isSpace = true) (codec : JsonCodec M)
    (obj : EntryObject M) : ∃ obj', extracted codec space obj = .ok (none, obj') := by
  have hskip : TextStream.skipSpace space = [] := by
    have hspaces := TextStream.skipSpace_spaces hspace []
    rwa [List.append_nil] at hspaces
  have hnone : TextStream.readByte space = none := by
    unfold TextStream.readByte
    rw [hskip]
  unfold extracted
  rw [hnone]
  exact ⟨_, rfl⟩

theorem readAll_lines {entries : List (EntryObject M)} (h : ∀ entry ∈ entries, codec.Undoes entry.msg)
    {space : Bytes} (hspace : space.all TextStream.isSpace = true) (obj : EntryObject M) :
    ∃ left, readAll codec (space ++ entries.flatMap (written codec)) obj = .ok (entries, left) ∧
      left.all TextStream.isSpace = true := by
  induction entries generalizing space obj with
  | nil =>
      obtain ⟨obj', hnone⟩ := extracted_space hspace codec obj
      rw [List.flatMap_nil, List.append_nil]
      exact ⟨space, readAll_none hnone, hspace⟩
  | cons entry rest ih =>
      have hfirst := extracted_written (h entry List.mem_cons_self) hspace (rest.flatMap (written codec)) obj
      have hnewline : ([10] : Bytes).all TextStream.isSpace = true := rfl
      obtain ⟨left, hread, hleft⟩ := ih (fun entry hentry => h entry (List.mem_cons_of_mem _ hentry)) hnewline entry
      refine ⟨left, ?_, hleft⟩
      rw [List.flatMap_cons, readAll_some hfirst, ← List.singleton_append, hread]
      rfl

-- The entries of a file come back, and the loop ends where nothing but white space is left.
theorem readAll_written {entries : List (EntryObject M)} (h : ∀ entry ∈ entries, codec.Undoes entry.msg)
    (obj : EntryObject M) : ∃ left, readAll codec (entries.flatMap (written codec)) obj = .ok (entries, left) ∧
      left.all TextStream.isSpace = true := by
  have hspace : ([] : Bytes).all TextStream.isSpace = true := rfl
  exact readAll_lines h hspace obj

-- The values null and "a b", with what becomes of them.
def twoValues : JsonCodec (Option String) where
  document
    | none => Bytes.ofAscii "null".toList
    | some text => Bytes.ofAscii ('"' :: text.toList ++ ['"'])
  base64Decode word :=
    if word = Bytes.ofAscii "bnVsbAo=".toList then Bytes.ofAscii "null\n".toList
    else if word = Bytes.ofAscii "ImEgYiIK".toList then Bytes.ofAscii "\"a b\"\n".toList
    else []
  parse text :=
    if text = Bytes.ofAscii "null\n".toList then some none
    else if text = Bytes.ofAscii "\"a b\"\n".toList then some (some "a b")
    else none

theorem readAll_written_two :
    let entries : List (EntryObject (Option String)) :=
      [⟨.singleQuorum, 0, 0, some "a b"⟩, ⟨.database, 1, 2 ^ 32 - 1, none⟩]
    ∃ left, readAll twoValues (entries.flatMap (written twoValues)) ⟨.undefined, 0, 0, none⟩ = .ok (entries, left) ∧
      left.all TextStream.isSpace = true := by
  intro entries
  refine readAll_written ?_ _
  intro entry hentry
  simp only [entries, List.mem_cons, List.not_mem_nil, or_false] at hentry
  rcases hentry with rfl | rfl
  · exact ⟨by decide +kernel, by decide +kernel⟩
  · exact ⟨by decide +kernel, by decide +kernel⟩

section Mirrored

-- As the log keeps the entry.
def toLogEntry (entry : EntryObject JsonMessage) : LogEntry :=
  ⟨entry.entryType, entry.logIndex.toNat, entry.term.toNat, entry.msg⟩

def logCodec (codec : JsonCodec JsonMessage) : Codec := ⟨codec.jsonToString, codec.base64Decode, codec.parse⟩

theorem line_toLogEntry (codec : JsonCodec JsonMessage) (entry : EntryObject JsonMessage) :
    entry.toLogEntry.line (logCodec codec) = entry.written codec := rfl

-- One extraction, without the object.
theorem extract_eq (codec : JsonCodec JsonMessage) (input : Bytes) (obj : EntryObject JsonMessage) :
    extract (logCodec codec) input = (extracted codec input obj).map fun found =>
      found.1.map fun rest => (found.2.toLogEntry, rest) := by
  unfold extract extracted readFields
  cases hb : TextStream.readByte input with
  | none => rfl
  | some type =>
      cases hi : TextStream.readNumber (2 ^ 32) type.2 with
      | none => simp [-Nat.reducePow, hi, Except.map]
      | some index =>
          cases ht : TextStream.readNumber (2 ^ 32) index.2 with
          | none => simp [-Nat.reducePow, hi, ht, Except.map]
          | some term =>
              cases hword : TextStream.readWord term.2 with
              | none => simp [-Nat.reducePow, hi, ht, hword, Except.map]
              | some word =>
                  have hindex := Nat.mod_eq_of_lt (TextStream.readNumber_lt hi)
                  have hterm := Nat.mod_eq_of_lt (TextStream.readNumber_lt ht)
                  cases hparse : codec.parse (codec.base64Decode word.1) with
                  | none => simp [-Nat.reducePow, hi, ht, hword, hparse, logCodec, Except.map]
                  | some msg =>
                      simp [-Nat.reducePow, hi, ht, hword, hparse, logCodec, Except.map, toLogEntry, hindex, hterm]

-- The loop that forgets its object between two entries reads the same.
theorem reads_of_readAll {codec : JsonCodec JsonMessage} {obj : EntryObject JsonMessage}
    {entries : List (EntryObject JsonMessage)} (h : readAll codec input obj = .ok (entries, rest)) :
    Reads (logCodec codec) input (entries.map toLogEntry) rest := by
  induction input, obj using readAll.induct codec generalizing entries with
  | case1 input obj e hextracted =>
      rw [readAll_error hextracted] at h
      cases h
  | case2 input obj obj' hextracted =>
      rw [readAll_none hextracted] at h
      obtain ⟨rfl, rfl⟩ : [] = entries ∧ input = rest := by simpa using h
      exact .stop (by rw [extract_eq _ _ obj, hextracted]; rfl)
  | case3 input obj left obj' hextracted ih =>
      rw [readAll_some hextracted] at h
      cases hread : readAll codec left obj' with
      | error e => simp [hread, Except.map] at h
      | ok read =>
          obtain ⟨rfl, rfl⟩ : obj' :: read.1 = entries ∧ read.2 = rest := by simpa [hread, Except.map] using h
          exact .entry (by rw [extract_eq _ _ obj, hextracted]; rfl) (ih hread)

end Mirrored

end EntryObject

end SwarmDB.Raft
