import SwarmDB.Base64
import SwarmDB.FileSystem
import SwarmDB.Machine
import SwarmDB.Raft.Log.Lemmas
import SwarmDB.TextStream

namespace SwarmDB.Raft

-- What JsonCpp's writer and reader and boost's base64 decoder do to the message of an entry.
structure Codec where
  write : JsonMessage → Bytes
  base64Decode : Bytes → Bytes
  parse : Bytes → Option JsonMessage

namespace Codec

def messageWord (codec : Codec) (msg : JsonMessage) : Bytes :=
  Bytes.ofAscii (Base64.encode (codec.write msg))

-- A message that comes back as it was written. What the writer writes is never empty: it
-- ends in a newline.
def Keeps (codec : Codec) (msg : JsonMessage) : Prop :=
  codec.write msg ≠ [] ∧ codec.parse (codec.base64Decode (codec.messageWord msg)) = some msg

end Codec

namespace LogEntryType

def toByte : LogEntryType → UInt8
  | database => 0
  | singleQuorum => 1
  | jointQuorum => 2
  | undefined => 3

-- Every other byte is an enumerator without a name, which no code tells from undefined.
def ofByte (b : UInt8) : LogEntryType :=
  if b = 0 then database else if b = 1 then singleQuorum else if b = 2 then jointQuorum else undefined

theorem ofByte_toByte (entryType : LogEntryType) : ofByte entryType.toByte = entryType := by
  cases entryType <;> rfl

end LogEntryType

namespace LogEntry

-- operator<<.
def line (codec : Codec) (entry : LogEntry) : Bytes :=
  entry.entryType.toByte :: 32 :: Bytes.decimal entry.logIndex ++ 32 :: Bytes.decimal entry.term ++
    32 :: codec.messageWord entry.msg ++ [10]

-- What a log_entry can hold: two 32 bit numbers and a message.
structure Fits (codec : Codec) (entry : LogEntry) : Prop where
  logIndex_lt : entry.logIndex < 2 ^ 32
  term_lt : entry.term < 2 ^ 32
  keeps : codec.Keeps entry.msg

end LogEntry

-- What the constructor of a log throws.
inductive LogException
  | emptyLogEntryFile
  | encounteredInvalidEntryInLog
  deriving DecidableEq, Repr

section Reading

def readFields (input : Bytes) : Option ((UInt8 × Nat × Nat × Bytes) × Bytes) := do
  let (entryType, input) ← TextStream.readByte input
  let (logIndex, input) ← TextStream.readNumber (2 ^ 32) input
  let (term, input) ← TextStream.readNumber (2 ^ 32) input
  let (msgString, input) ← TextStream.readWord input
  return ((entryType, logIndex, term, msgString), input)

-- operator>>. A stream that fails on the way leaves the message text empty, and an empty text
-- is not parsed.
def extract (codec : Codec) (input : Bytes) : Except LogException (Option (LogEntry × Bytes)) :=
  match readFields input with
  | none => .ok none
  | some ((entryType, logIndex, term, msgString), rest) =>
    match codec.parse (codec.base64Decode msgString) with
    | none => .error .encounteredInvalidEntryInLog
    | some msg => .ok (some (⟨LogEntryType.ofByte entryType, logIndex, term, msg⟩, rest))

-- The loop of the constructor, with what it leaves unread. Every entry takes bytes from the
-- input, so more fuel than there are bytes is never used up.
def readEntries (codec : Codec) : Nat → Bytes → Except LogException (List LogEntry × Bytes)
  | 0, input => .ok ([], input)
  | fuel + 1, input =>
    match extract codec input with
    | .error e => .error e
    | .ok none => .ok ([], input)
    | .ok (some (entry, rest)) =>
      (readEntries codec fuel rest).map fun read => (entry :: read.1, read.2)

def readFile (codec : Codec) (file : Bytes) : Except LogException (List LogEntry × Bytes) :=
  readEntries codec (file.length + 1) file

end Reading

-- A log with its file. The stream is the file it has open, if it has been opened yet.
structure FileLog (P : Type) where
  log : RaftLog
  totalMemoryUsed : Nat
  logEntryOutStream : Option Nat
  entriesLogPath : P
  disk : FileSystem P

-- A call on a log.
inductive LogCall
  | leaderAppendEntry (entry : LogEntry)
  | followerInsertEntry (index : Nat) (entry : LogEntry)

def LogCall.entry : LogCall → LogEntry
  | leaderAppendEntry entry => entry
  | followerInsertEntry _ entry => entry

namespace FileLog

variable {P : Type}

-- What the constructor's loop finds at the path.
def readBack (codec : Codec) (disk : FileSystem P) (path : P) : Except LogException (List LogEntry) :=
  match disk.read path with
  | none => .ok []
  | some file => (readFile codec file).map Prod.fst

def construct (codec : Codec) (disk : FileSystem P) (path : P) : Except LogException (FileLog P) :=
  match readBack codec disk path with
  | .error e => .error e
  | .ok [] => .error .emptyLogEntryFile
  | .ok (first :: rest) =>
    .ok { log := ⟨first :: rest, by simp⟩, totalMemoryUsed := ((disk.read path).getD []).length,
          logEntryOutStream := none, entriesLogPath := path, disk := disk }

variable [DecidableEq P]

-- The directory is there: the file was, when the log was constructed.
def appendLogDisk (codec : Codec) (s : FileLog P) (entry : LogEntry) : FileLog P :=
  let opened :=
    match s.logEntryOutStream with
    | some file => (file, s.disk)
    | none => s.disk.openAppend s.entriesLogPath
  let disk := opened.2.append opened.1 (entry.line codec)
  { s with disk := disk, logEntryOutStream := some opened.1,
           totalMemoryUsed := (disk.content opened.1).length }

-- Only the path is removed. A stream that is open stays so.
def rewriteLog (codec : Codec) (s : FileLog P) : FileLog P :=
  s.log.entries.foldl (appendLogDisk codec) { s with disk := s.disk.remove s.entriesLogPath }

def leaderAppendEntry (codec : Codec) (s : FileLog P) (entry : LogEntry) : FileLog P :=
  { s with log := s.log.leaderAppendEntry entry }.appendLogDisk codec entry

def followerInsertEntry (codec : Codec) (s : FileLog P) (index : Nat) (entry : LogEntry) :
    Except Exception (FileLog P) :=
  match s.log.entries[index]? with
  | some held =>
    if entry.term = held.term then .ok s
    else
      let cut := { s with log := ⟨s.log.entries.take index ++ [entry], by simp⟩ }
      .ok ((cut.rewriteLog codec).appendLogDisk codec entry)
  | none =>
    if index = s.log.size then
      .ok ({ s with log := ⟨s.log.entries ++ [entry], by simp⟩ }.appendLogDisk codec entry)
    else .error .tryingToInsertInvalidEntry

def perform (codec : Codec) (s : FileLog P) : LogCall → Except Exception (FileLog P)
  | .leaderAppendEntry entry => .ok (s.leaderAppendEntry codec entry)
  | .followerInsertEntry index entry => s.followerInsertEntry codec index entry

-- A life of a log object, from its constructor on. A call that throws changes nothing.
def machine (P : Type) [DecidableEq P] (codec : Codec) : Machine (FileLog P) LogCall where
  init s := ∃ disk path, construct codec disk path = .ok s
  enabled _ call := call.entry.Fits codec
  next s call :=
    match s.perform codec call with
    | .ok next => next
    | .error _ => s

end FileLog

end SwarmDB.Raft
