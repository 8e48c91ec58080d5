import Mathlib.Data.List.Sort
import PieRelay.JournalFile
import PieRelay.OperationStore

/-!
The store that keeps one file for each record, executor-manager/internal/control/directory_store.go. The disk is the
directory of the store; any step of a call on it may fail, and then does nothing more than is said here. A call that
fails removes its temporary file, if it can. Left out: files that others put there, contexts that end while `Load` reads,
and the rights of the files.
-/
namespace PieRelay.DirectoryStore
open ControlPlane (Table)
open JournalFile (isField readText)
open JsonNumbers (int64 readInt writeInt)
open JsonObjects (Fields writeObject)
open JsonRecords (compacted nests nullWord unmarshalRecord)
open JsonScanner (Bytes)
open JsonStrings (quoteString unquote)
open OperationStore (validRecordPart)

structure Record where
  kind : String
  id : String
  version : Int
  data : Bytes
  deriving DecidableEq

def fieldsOf (r : Record) (text : Bytes) : Fields :=
  [("kind", quoteString r.kind), ("id", quoteString r.id), ("version", writeInt r.version), ("data", text)]

def marshal (r : Record) : Option Bytes := (compacted r.data).map fun text => writeObject (fieldsOf r text)

def assign (r : Record) (field : String × Bytes) : Option Record :=
  if isField field.1 "data" then some { r with data := field.2 }
  else if field.2 = nullWord then some r
  else if isField field.1 "kind" then (readText field.2 unquote).map fun kind => { r with kind }
  else if isField field.1 "id" then (readText field.2 unquote).map fun id => { r with id }
  else if isField field.1 "version" then (readInt field.2).map fun version => { r with version }
  else some r

def unmarshal (content : Bytes) : Option Record :=
  (unmarshalRecord content).bind fun fields => fields.foldlM assign ⟨"", "", 0, []⟩

abbrev Directory := Table Bytes

abbrev Disk := AList (fun _ : String => Directory)

def suffix : String := ".json"

def fileName (id : String) : String := id ++ suffix

def isRecordFile (name : String) : Bool := suffix.toList.isSuffixOf name.toList

def directory (disk : Disk) (kind : String) : Directory := (disk.lookup kind).getD ∅

def contentOf (disk : Disk) (kind id : String) : Option Bytes := (directory disk kind).lookup (fileName id)

def readRecordVersion (disk : Disk) (kind id : String) : Option Int :=
  match contentOf disk kind id with
  | none => some 0
  | some content => (unmarshal content).map Record.version

def decodeFile (file : String × Bytes) : Option Record :=
  (unmarshal file.2).filter fun r => r.kind = file.1 ∧ r.id ≠ "" ∧ 1 ≤ r.version

def recordFiles (disk : Disk) : List (String × Bytes) := disk.entries.flatMap fun dir =>
  if validRecordPart dir.1 then (dir.2.entries.filter fun file => isRecordFile file.1).map fun file => (dir.1, file.2) else []

def sortedBefore (a b : Record) : Prop := if a.kind = b.kind then a.id ≤ b.id else a.kind < b.kind

instance : DecidableRel sortedBefore := fun _ _ => inferInstanceAs (Decidable (ite _ _ _))

def load (disk : Disk) : Option (List Record) :=
  ((recordFiles disk).mapM decodeFile).map fun records => records.insertionSort sortedBefore

inductive Step where
  | context
  | read
  | mkdirAll
  | createTemp
  | chmod
  | write
  | sync
  | close
  | commit
  | syncDir
  deriving DecidableEq

structure Random where
  text : String
  digits : text.toList.all Char.isDigit
  deriving DecidableEq

def tempName (random : Random) : String := ".control-" ++ random.text

/-- The step that fails, if any, how many bytes a failing write leaves, and whether the temporary file can be removed. -/
structure Faults where
  failing : Option Step
  random : Random
  written : Nat
  removes : Bool
  deriving DecidableEq

inductive Failure where
  | cancelled
  | invalid
  | conflict
  | disk
  deriving DecidableEq

inductive Call where
  | put (record : Record) (expectedVersion : Int) (faults : Faults)
  | delete (kind id : String) (expectedVersion : Int) (faults : Faults)
  deriving DecidableEq

def writeFile (disk : Disk) (kind name : String) (content : Bytes) : Disk :=
  disk.insert kind ((directory disk kind).insert name content)

def removeFile (disk : Disk) (kind name : String) : Disk := disk.insert kind ((directory disk kind).erase name)

def cleanup (disk : Disk) (kind : String) (faults : Faults) (content : Bytes) : Disk :=
  if faults.removes then removeFile disk kind (tempName faults.random)
  else writeFile disk kind (tempName faults.random) content

def checkVersion (disk : Disk) (kind id : String) (expectedVersion : Int) (faults : Faults) : Option Failure :=
  if faults.failing = some .read then some .disk
  else match readRecordVersion disk kind id with
    | none => some .disk
    | some current => if current ≠ expectedVersion then some .conflict else none

def nextVersion (expectedVersion : Int) : Int := (expectedVersion + 1).bmod (2 ^ 64)

def put (disk : Disk) (record : Record) (expectedVersion : Int) (faults : Faults) : Disk × Option Failure :=
  if faults.failing = some .context then (disk, some .cancelled)
  else if !validRecordPart record.kind ∨ !validRecordPart record.id ∨ record.version ≠ nextVersion expectedVersion ∨
      record.data = [] then (disk, some .invalid)
  else match checkVersion disk record.kind record.id expectedVersion faults with
    | some failure => (disk, some failure)
    | none =>
      match marshal record with
      | none => (disk, some .invalid)
      | some data =>
        if faults.failing = some .mkdirAll then (disk, some .disk)
        else
          let made := disk.insert record.kind (directory disk record.kind)
          if faults.failing = some .createTemp ∨ ((directory disk record.kind).lookup (tempName faults.random)).isSome then
            (made, some .disk)
          else match faults.failing with
            | some .chmod => (cleanup made record.kind faults [], some .disk)
            | some .write => (cleanup made record.kind faults (data.take faults.written), some .disk)
            | some .sync | some .close | some .commit => (cleanup made record.kind faults data, some .disk)
            | some .syncDir => (writeFile made record.kind (fileName record.id) data, some .disk)
            | _ => (writeFile made record.kind (fileName record.id) data, none)

def delete (disk : Disk) (kind id : String) (expectedVersion : Int) (faults : Faults) : Disk × Option Failure :=
  if faults.failing = some .context then (disk, some .cancelled)
  else if !validRecordPart kind ∨ !validRecordPart id ∨ expectedVersion < 1 then (disk, some .invalid)
  else match checkVersion disk kind id expectedVersion faults with
    | some failure => (disk, some failure)
    | none =>
      match faults.failing with
      | some .commit => (disk, some .disk)
      | some .syncDir => (removeFile disk kind (fileName id), some .disk)
      | _ => (removeFile disk kind (fileName id), none)

def perform (disk : Disk) : Call → Disk × Option Failure
  | .put record expectedVersion faults => put disk record expectedVersion faults
  | .delete kind id expectedVersion faults => delete disk kind id expectedVersion faults

def step (disk : Disk) (call : Call) : Option Disk := some (perform disk call).1

def Call.kind : Call → String
  | .put record _ _ => record.kind
  | .delete kind _ _ _ => kind

def Call.id : Call → String
  | .put record _ _ => record.id
  | .delete _ id _ _ => id

def Call.faults : Call → Faults
  | .put _ _ faults => faults
  | .delete _ _ _ faults => faults

def written (record : Record) : Record := { record with data := (compacted record.data).getD [] }

def Call.stored : Call → Option Record
  | .put record _ _ => some (written record)
  | .delete _ _ _ _ => none

def Call.content : Call → Option Bytes
  | .put record _ _ => some (writeObject (fieldsOf record (written record).data))
  | .delete _ _ _ _ => none

end PieRelay.DirectoryStore
