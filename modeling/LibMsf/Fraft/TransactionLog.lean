import LibMsf.Cxx.Files
import LibMsf.Fraft.SortFiles

/-!
The transaction log: `network/fraft/transaction_log.cc` and its headers of
`transaction_log_header.cc`.

The writer appends to one file until it is rolled or closed; the next record then opens
a file that is named after the record's number and starts with a file header. What is
written reaches the file at once, so committing has nothing to do. A header is written
as 40 bytes, while the size that readers use is that of the structure.
-/

namespace LibMsf

open Cxx

structure TransactionLogFileHeader where
  magic : UInt32 := 0
  version : UInt32 := 0
  dbid : UInt32 := 0
deriving DecidableEq, Repr

namespace TransactionLogFileHeader

/-- `FILE_HEADER_SIZE`. -/
def size : Nat := 12

def serialize (h : TransactionLogFileHeader) : Bytes :=
  serializeValue 4 h.magic.toNat ++ serializeValue 4 h.version.toNat ++
    serializeValue 4 h.dbid.toNat

def deserialize (input : Bytes) : Except Fault TransactionLogFileHeader := do
  let magic ← readValue 4 (← substrLen input 0 4)
  let version ← readValue 4 (← substrLen input 4 4)
  let dbid ← readValue 4 (← substr input 8)
  return ⟨.ofNat magic, .ofNat version, .ofNat dbid⟩

theorem length_serialize (h : TransactionLogFileHeader) : h.serialize.length = size := by
  simp only [serialize, List.length_append, length_serializeValue, size]

end TransactionLogFileHeader

structure TransactionHeader where
  clientId : UInt64 := 0
  cxid : UInt32 := 0
  gxid : UInt64 := 0
  time : UInt64 := 0
  type : UInt32 := 0
  checksum : UInt32 := 0
  recordLength : UInt32 := 0
deriving DecidableEq, Repr

namespace TransactionHeader

/-- `TRANSACTION_HEADER_SIZE`, the size of the structure where `uint64_t` is aligned to 8
bytes: four bytes are left free behind `cxid` and four at the end. -/
def size : Nat := 48

def serialize (h : TransactionHeader) : Bytes :=
  serializeValue 8 h.clientId.toNat ++ serializeValue 4 h.cxid.toNat ++
    serializeValue 8 h.gxid.toNat ++ serializeValue 8 h.time.toNat ++
    serializeValue 4 h.type.toNat ++ serializeValue 4 h.checksum.toNat ++
    serializeValue 4 h.recordLength.toNat

def deserialize (input : Bytes) : Except Fault TransactionHeader := do
  let clientId ← readValue 8 (← substrLen input 0 8)
  let cxid ← readValue 4 (← substrLen input 8 4)
  let gxid ← readValue 8 (← substrLen input 12 8)
  let time ← readValue 8 (← substrLen input 20 8)
  let type ← readValue 4 (← substrLen input 28 4)
  let checksum ← readValue 4 (← substrLen input 32 4)
  let recordLength ← readValue 4 (← substrLen input 36 4)
  return ⟨.ofNat clientId, .ofNat cxid, .ofNat gxid, .ofNat time, .ofNat type, .ofNat checksum,
    .ofNat recordLength⟩

theorem length_serialize (h : TransactionHeader) : h.serialize.length = 40 := by
  simp only [serialize, List.length_append, length_serializeValue]

end TransactionHeader

/-- Where a log is kept and in which working directory the process runs. -/
structure LogPlace where
  cwd : Path
  logDir : Bytes

namespace LogPlace

def dir (place : LogPlace) : Path :=
  resolve place.cwd place.logDir

end LogPlace

namespace TransactionLog

def stem : Bytes := ascii ['l', 'o', 'g']

/-- The magic number is `atol("GTLOG")`. -/
def fileHeaderString : Bytes :=
  TransactionLogFileHeader.serialize
    { magic := (longToUint64 (atol (ascii ['G', 'T', 'L', 'O', 'G']))).toUInt32
      version := 1
      dbid := 1 }

/-- The name that `Append` opens. -/
def newFile (place : LogPlace) (gxid : UInt64) : Path :=
  resolve place.cwd
    (place.logDir ++ ascii ['/', 'l', 'o', 'g', '.'] ++ decimal gxid.toNat)

end TransactionLog

/-- The files and the one that is open. -/
structure TransactionLog where
  files : FileSystem
  file : Option Path

namespace TransactionLog

def roll (log : TransactionLog) : TransactionLog :=
  { log with file := none }

def append (place : LogPlace) (log : TransactionLog) (header : TransactionHeader)
    (record : Bytes) : TransactionLog :=
  let opened := match log.file with
    | some path => (path, log.files)
    | none =>
        let path := newFile place header.gxid
        (path, log.files.extend path fileHeaderString)
  { files := (opened.2.extend opened.1 header.serialize).extend opened.1 record
    file := some opened.1 }

def commit (log : TransactionLog) : TransactionLog :=
  log

def close (log : TransactionLog) : TransactionLog :=
  log.roll

/-- A new log object on the same files. -/
def reopen (log : TransactionLog) : TransactionLog :=
  { files := log.close.files, file := none }

inductive LogOp where
  | append (header : TransactionHeader) (record : Bytes)
  | roll
  | commit
  | reopen

def step (place : LogPlace) (log : TransactionLog) : LogOp → TransactionLog
  | .append header record => log.append place header record
  | .roll => log.roll
  | .commit => log.commit
  | .reopen => log.reopen

def run (place : LogPlace) (files : FileSystem) (ops : List LogOp) : TransactionLog :=
  ops.foldl (step place) { files := files, file := none }

end TransactionLog

end LibMsf
