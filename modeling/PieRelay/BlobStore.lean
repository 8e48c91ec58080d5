import PieRelay.Admission
import PieRelay.ControlPlane
import PieRelay.Executions
import PieRelay.JsonScanner

/-!
The uploads of users, executor-manager/internal/store/blob.go: `Save` with `SaveBlob`, `Delete`, and the usage that is
kept in memory. A step is one operation on the directory, or one section under `usageMu`; a call holds the lock of its
user from `lock` on. The callers ask `ValidUserID` first, which takes the users that `safeBlobUser` takes. Whatever a
call does on the directory may fail, but the removal of a partial upload. Left out: who owns the files, and the refs and
errors that are returned.
-/
namespace PieRelay.BlobStore
open Admission (load total load_erase load_insert)
open ControlPlane (Table)
open JsonScanner (Bytes)

structure Options where
  maxFile : Nat
  maxUser : Nat

abbrev Directory := Table Bytes

inductive Kind where
  | save (name : String)
  | delete (name : String)
  deriving DecidableEq

inductive Stage where
  | waiting
  | locked
  | counting (size : Nat)
  | scanning (size : Nat) (rest : List String) (total : Nat)
  | counted (size used : Nat)
  | copying (used limit : Nat) (file : String)
  | copied (used count : Nat)
  | removed (size used : Nat)
  deriving DecidableEq

structure Call where
  user : String
  kind : Kind
  stage : Stage
  before : Directory

structure World where
  dirs : String → Option Directory
  usage : Table Nat
  locks : Nat → Option Nat
  calls : AList (fun _ : Nat => Call)
  results : List (Nat × Bool)

def files (w : World) (user : String) : Directory := (w.dirs user).getD ∅

def validUserID (id : String) : Bool :=
  id ≠ "" ∧ id.utf8ByteSize ≤ 128 ∧ id ≠ "." ∧ id ≠ ".." ∧ id.toList.all fun c =>
    ('a' ≤ c ∧ c ≤ 'z') ∨ ('A' ≤ c ∧ c ≤ 'Z') ∨ ('0' ≤ c ∧ c ≤ '9') ∨ c = '-' ∨ c = '_' ∨ c = '.'

def isBase (name : String) : Bool := name ≠ "" ∧ ('/' ∉ name.toList ∨ name = "/")

def pathForRef (user ref : String) : Option String :=
  let own := (user ++ "/").toList
  let name := String.ofList (ref.toList.drop own.length)
  if own.isPrefixOf ref.toList ∧ isBase name ∧ '/' ∉ name.toList ∧ '\\' ∉ name.toList then some name else none

def fileName (random name : String) : String := random ++ "-" ++ if name = "/" then "" else name

def fnv32a (text : Bytes) : UInt32 := text.foldl (fun hash c => (hash ^^^ c.toUInt32) * 16777619) 2166136261

def userLock (user : String) : Nat := (fnv32a user.toUTF8.toList).toNat % 64

def readable (limit : Nat) : Nat := if limit + 1 < 2 ^ 63 then limit + 1 else 0

inductive Action where
  | save (call : Nat) (user name : String)
  | delete (call : Nat) (user ref : String)
  | lock (call : Nat)
  | stat (call : Nat)
  | usage (call : Nat) (ok : Bool)
  | info (call : Nat) (ok : Bool)
  | record (call : Nat)
  | create (call : Nat) (random : String) (made ok : Bool)
  | read (call : Nat) (chunk : Bytes)
  | stop (call : Nat) (ok : Bool)
  | remove (call : Nat) (ok : Bool)
  | finish (call : Nat)
  deriving DecidableEq

def goOn (w : World) (id : Nat) (call : Call) (stage : Stage) : World := { w with
  calls := w.calls.insert id { call with stage } }

def return_ (w : World) (id : Nat) (call : Call) (ok : Bool) : World := { w with
  locks := Function.update w.locks (userLock call.user) none
  calls := w.calls.erase id
  results := (id, ok) :: w.results }

def setDirectory (w : World) (user : String) (files : Directory) : World := { w with
  dirs := Function.update w.dirs user (some files) }

def create (o : Options) (w : World) (id : Nat) (call : Call) (name : String) (used : Nat) (random : String)
    (made ok : Bool) : World :=
  if o.maxUser ≤ used ∨ !isBase name ∨ !made then return_ w id call false
  else
    let file := fileName random name
    let w := setDirectory w call.user (files w call.user)
    if !ok ∨ ((files w call.user).lookup file).isSome then return_ w id call false
    else goOn (setDirectory w call.user ((files w call.user).insert file [])) id call
      (.copying used (min o.maxFile (o.maxUser - used)) file)

def stepCall (o : Options) (w : World) (id : Nat) (call : Call) : Action → Option World
  | .lock _ =>
    if call.stage = .waiting ∧ w.locks (userLock call.user) = none then
      let stage := match call.kind with
        | .save _ => .counting 0
        | .delete _ => .locked
      some { w with
        locks := Function.update w.locks (userLock call.user) (some id)
        calls := w.calls.insert id { call with stage, before := files w call.user } }
    else none
  | .stat _ =>
    match call.stage, call.kind with
    | .locked, .delete name =>
      match (files w call.user).lookup name with
      | some content => some (goOn w id call (.counting content.length))
      | none => some (return_ w id call false)
    | _, _ => none
  | .usage _ ok =>
    match call.stage with
    | .counting size =>
      match w.usage.lookup call.user, w.dirs call.user with
      | some used, _ => some (goOn w id call (.counted size used))
      | none, none => some (if ok then goOn w id call (.counted size 0) else return_ w id call false)
      | none, some dir => some (if ok then goOn w id call (.scanning size dir.keys 0) else return_ w id call false)
    | _ => none
  | .info _ ok =>
    match call.stage with
    | .scanning size (name :: rest) total =>
      match ((files w call.user).lookup name).filter fun _ => ok with
      | some content => some (goOn w id call (.scanning size rest (total + content.length)))
      | none => some (return_ w id call false)
    | _ => none
  | .record _ =>
    match call.stage with
    | .scanning size [] total =>
      some (goOn { w with usage := w.usage.insert call.user total } id call (.counted size total))
    | _ => none
  | .create _ random made ok =>
    match call.stage, call.kind with
    | .counted _ used, .save name => some (create o w id call name used random made ok)
    | _, _ => none
  | .read _ chunk =>
    match call.stage with
    | .copying used limit file =>
      let content := ((files w call.user).lookup file).getD [] ++ chunk
      if content.length ≤ readable limit then
        some (goOn (setDirectory w call.user ((files w call.user).insert file content)) id call (.copying used limit file))
      else none
    | _ => none
  | .stop _ ok =>
    match call.stage with
    | .copying used limit file =>
      let count := (((files w call.user).lookup file).getD []).length
      if ok ∧ count ≤ limit then some (goOn w id call (.copied used count))
      else some (return_ (setDirectory w call.user ((files w call.user).erase file)) id call false)
    | _ => none
  | .remove _ ok =>
    match call.stage, call.kind with
    | .counted size used, .delete name =>
      if ok then some (goOn (setDirectory w call.user ((files w call.user).erase name)) id call (.removed size used))
      else some (return_ w id call false)
    | _, _ => none
  | .finish _ =>
    match call.stage with
    | .copied used count => some (return_ { w with usage := w.usage.insert call.user (used + count) } id call true)
    | .removed size used => some (return_ { w with usage := w.usage.insert call.user (used - size) } id call true)
    | _ => none
  | _ => none

def Action.call : Action → Nat
  | .save call _ _ => call
  | .delete call _ _ => call
  | .lock call => call
  | .stat call => call
  | .usage call _ => call
  | .info call _ => call
  | .record call => call
  | .create call _ _ _ => call
  | .read call _ => call
  | .stop call _ => call
  | .remove call _ => call
  | .finish call => call

def start (w : World) (id : Nat) (user : String) (kind : Kind) : World := { w with
  calls := w.calls.insert id ⟨user, kind, .waiting, ∅⟩ }

def refuse (w : World) (id : Nat) : World := { w with results := (id, false) :: w.results }

def step (o : Options) (w : World) (action : Action) : Option World :=
  match w.calls.lookup action.call, action with
  | none, .save id user name =>
    if !validUserID user then none
    else some (if o.maxFile < 1 ∨ o.maxUser < 1 then refuse w id else start w id user (.save name))
  | none, .delete id user ref =>
    if !validUserID user then none
    else match pathForRef user ref with
      | some name => some (start w id user (.delete name))
      | none => some (refuse w id)
  | some call, _ => stepCall o w action.call call action
  | none, _ => none

def opened (dirs : String → Option Directory) : World := ⟨dirs, ∅, fun _ => none, ∅, []⟩

end PieRelay.BlobStore
