import PieRelay.BlobAccounting

/-!
The refs that uploads are known by, executor-manager/internal/store/blob.go and the check of `Submit` in manager.go. A
ref counts from the moment that its file is complete, which is when `Save` is about to return it, until a `Delete` has
removed the file; the process may be restarted in between. Left out: names that are no texts.
-/
namespace PieRelay.BlobReferences
open BlobStore List Option
open ControlPlane (Table)
open Executions
open JsonScanner (Bytes)

def refOf (user file : String) : String := user ++ "/" ++ file

def lstat (w : World) (user name : String) : Option Bytes :=
  if name = "." ∨ name = ".." then none else (files w user).lookup name

def validateRefs (w : World) (user : String) (refs : List String) : Bool :=
  refs.all fun ref => validUserID user && match pathForRef user ref with
    | some name => (lstat w user name).isSome
    | none => false

def submitRef (user ref : String) : Bool :=
  validUserID user ∧ ref ≠ "" ∧ ref.utf8ByteSize ≤ 512 ∧ user.utf8ByteSize + 2 ≤ ref.utf8ByteSize ∧
    (user ++ "/").toList.isPrefixOf ref.toList

structure Upload where
  user : String
  name : String
  file : String
  deriving DecidableEq

def Upload.ref (u : Upload) : String := refOf u.user u.file

structure Uploads where
  world : World
  saved : List Upload

inductive Event where
  | call (action : Action)
  | restart

def isHex (random : String) : Bool :=
  random.utf8ByteSize = 32 ∧ random.toList.all fun c => c ∈ "0123456789abcdef".toList

def random : Action → Option String
  | .create _ random _ _ => some random
  | _ => none

def track (s : Uploads) (action : Action) (world : World) : List Upload :=
  match action, s.world.calls.lookup action.call with
  | .stop id _, some ⟨user, .save name, .copying _ _ file, _⟩ =>
    if (world.calls.lookup id).isSome then ⟨user, name, file⟩ :: s.saved else s.saved
  | .remove _ true, some ⟨user, .delete name, _, _⟩ => s.saved.filter fun u => ¬ (u.user = user ∧ u.file = name)
  | _, _ => s.saved

def step (o : Options) (s : Uploads) : Event → Option Uploads
  | .call action =>
    if (random action).all isHex then (BlobStore.step o s.world action).map fun world => ⟨world, track s action world⟩ else none
  | .restart => some ⟨opened s.world.dirs, s.saved⟩

def Deletes (o : Options) (w : World) (user ref : String) : Prop :=
  ∀ id, w.calls.lookup id = none → w.locks (userLock user) = none → ∃ actions next name,
    run (BlobStore.step o) w actions = some next ∧ pathForRef user ref = some name ∧
      next.results = (id, true) :: w.results ∧ files next user = (files w user).erase name

structure Usable (o : Options) (w : World) (user ref : String) : Prop where
  valid : validateRefs w user [ref]
  submitted : submitRef user ref
  deleted : Deletes o w user ref

structure Foreign (w : World) (user ref : String) : Prop where
  invalid : ∀ other, other ≠ user → validateRefs w other [ref] = false
  refused : ∀ other, other ≠ user → submitRef other ref = false
  kept : ∀ other, other ≠ user → validUserID other → pathForRef other ref = none

def Denotes (w : World) (user ref : String) : Prop :=
  ∃ file content, ref = refOf user file ∧ '/' ∉ file.toList ∧ file ≠ "" ∧ file ≠ "." ∧ file ≠ ".." ∧
    (files w user).lookup file = some content

def Writable (user name : String) : Prop :=
  '\\' ∉ name.toList ∧ user.utf8ByteSize + 34 + (if name = "/" then 0 else name.utf8ByteSize) ≤ 512

section Refs
variable {user name file : String}

theorem valid_slashless (valid : validUserID user) : '/' ∉ user.toList ∧ '\\' ∉ user.toList := by
  have allowed := (of_decide_eq_true valid).2.2.2.2
  rw [List.all_eq_true] at allowed
  constructor
  · exact fun member => absurd (allowed _ member) (by decide)
  · exact fun member => absurd (allowed _ member) (by decide)

theorem ref_list (user file : String) : (refOf user file).toList = (user ++ "/").toList ++ file.toList := String.toList_append

theorem ref_begins (user file : String) : (user ++ "/").toList.isPrefixOf (refOf user file).toList := by
  rw [ref_list, isPrefixOf_iff_prefix]
  exact prefix_append _ _

theorem path_ref (user file : String) : pathForRef user (refOf user file) =
    if isBase file ∧ '/' ∉ file.toList ∧ '\\' ∉ file.toList then some file else none := by
  have rest : String.ofList ((refOf user file).toList.drop (user ++ "/").toList.length) = file := by
    rw [ref_list, drop_left, String.ofList_toList]
  simp only [pathForRef, rest, ref_begins, true_and]

/-- What a ref is read as, it has been written from. -/
theorem path_known {ref : String} (read : pathForRef user ref = some name) :
    ref = refOf user name ∧ '/' ∉ name.toList ∧ '\\' ∉ name.toList ∧ name ≠ "" := by
  unfold pathForRef at read
  dsimp only at read
  split at read
  · next own =>
    obtain ⟨own, base, slashless, plain⟩ := own
    cases read
    refine ⟨?_, slashless, plain, (of_decide_eq_true base).1⟩
    obtain ⟨rest, whole⟩ := isPrefixOf_iff_prefix.mp own
    apply String.toList_inj.mp
    rw [ref_list, ← whole, drop_left, String.toList_ofList]
  · cases read

/-- The user of a ref is what is before its first slash. -/
theorem prefix_user {ref : String} (valid : validUserID user) (own : (user ++ "/").toList.isPrefixOf ref.toList) :
    ref.toList.takeWhile (· ≠ '/') = user.toList := by
  obtain ⟨rest, whole⟩ := isPrefixOf_iff_prefix.mp own
  have slash : (user ++ "/").toList = user.toList ++ ['/'] := String.toList_append
  have plain : ∀ c ∈ user.toList, decide (c ≠ '/') :=
    fun c member => decide_eq_true fun same => (valid_slashless valid).1 (same ▸ member)
  rw [← whole, slash, append_assoc, takeWhile_append_of_pos plain]
  simp

theorem own_refs {other : String} (valid : validUserID user) (valid' : validUserID other)
    (own : (other ++ "/").toList.isPrefixOf (refOf user file).toList) : other = user := by
  have mine := prefix_user valid (ref_begins user file)
  exact String.toList_inj.mp ((prefix_user valid' own).symm.trans mine)

theorem foreign (w : World) (valid : validUserID user) : Foreign w user (refOf user file) := by
  have refused : ∀ other, other ≠ user → validUserID other → pathForRef other (refOf user file) = none := by
    intro other apart valid'
    unfold pathForRef
    exact if_neg fun read => apart (own_refs valid valid' read.1)
  refine ⟨fun other apart => ?_, fun other apart => ?_, refused⟩
  · cases valid' : validUserID other with
    | false => simp [validateRefs, valid']
    | true => simp [validateRefs, refused other apart valid']
  · refine decide_eq_false fun accepted => ?_
    obtain ⟨valid', _, _, _, own⟩ := accepted
    exact apart (own_refs valid valid' own)

theorem denotes {w : World} {refs : List String} (accepted : validateRefs w user refs) : ∀ ref ∈ refs, Denotes w user ref := by
  intro ref member
  have one := all_eq_true.mp accepted ref member
  rw [Bool.and_eq_true] at one
  cases read : pathForRef user ref with
  | none =>
    rw [read] at one
    cases one.2
  | some file =>
    rw [read] at one
    obtain ⟨same, slashless, _, some_⟩ := path_known read
    obtain ⟨content, there⟩ := isSome_iff_exists.mp one.2
    unfold lstat at there
    split at there
    · cases there
    · next proper =>
      rw [not_or] at proper
      exact ⟨file, content, same, slashless, some_, proper.1, proper.2, there⟩

end Refs

section Deletion
variable {o : Options} {w : World} {id : Nat} {call : Call}

structure Reaches (o : Options) (w : World) (id : Nat) (call : Call) (stage : Stage) : Prop where
  reached : ∃ actions next, run (BlobStore.step o) w actions = some next ∧
    next.calls.lookup id = some { call with stage } ∧ next.dirs = w.dirs ∧ next.results = w.results

section
variable (here : w.calls.lookup id = some call)
include here

theorem step_known {action : Action} (mine : action.call = id) :
    BlobStore.step o w action = stepCall o w id call action := by
  unfold BlobStore.step
  rw [mine, here]

theorem scan_reaches {size : Nat} {rest : List String} {total : Nat}
    (stage : call.stage = .scanning size rest total) (known : ∀ name ∈ rest, name ∈ files w call.user) :
    ∃ used, Reaches o w id call (.counted size used) := by
  induction rest generalizing w call total with
  | nil =>
    refine ⟨total, [.record id], goOn { w with usage := w.usage.insert call.user total } id call (.counted size total), ?_, ?_,
      rfl, rfl⟩
    · rw [run, step_known here rfl]
      simp only [stepCall, stage]
      rfl
    · exact AList.lookup_insert _
  | cons name rest ih =>
    obtain ⟨content, there⟩ := Option.isSome_iff_exists.mp (AList.lookup_isSome.mpr (known name List.mem_cons_self))
    have stepped : BlobStore.step o w (.info id true) =
        some (goOn w id call (.scanning size rest (total + content.length))) := by
      rw [step_known here rfl]
      simp only [stepCall, stage, there, Option.filter, if_true]
    have onward : (goOn w id call (.scanning size rest (total + content.length))).calls.lookup id =
        some { call with stage := .scanning size rest (total + content.length) } := AList.lookup_insert _
    obtain ⟨used, actions, next, ran, reached, dirs, results⟩ :=
      ih onward rfl fun other member => known other (List.mem_cons_of_mem name member)
    refine ⟨used, .info id true :: actions, next, ?_, reached, dirs, results⟩
    rw [run, stepped]
    exact ran

theorem count_reaches {size : Nat} (stage : call.stage = .counting size) :
    ∃ used, Reaches o w id call (.counted size used) := by
  have known := @step_known o w id call here (.usage id true) rfl
  cases usage : w.usage.lookup call.user with
  | some used =>
    refine ⟨used, [.usage id true], goOn w id call (.counted size used), ?_, AList.lookup_insert _, rfl, rfl⟩
    rw [run, known]
    simp only [stepCall, stage, usage]
    rfl
  | none =>
    cases dir : w.dirs call.user with
    | none =>
      refine ⟨0, [.usage id true], goOn w id call (.counted size 0), ?_, AList.lookup_insert _, rfl, rfl⟩
      rw [run, known]
      simp only [stepCall, stage, usage, dir]
      rfl
    | some dir' =>
      have stepped : BlobStore.step o w (.usage id true) = some (goOn w id call (.scanning size dir'.keys 0)) := by
        rw [known]
        simp only [stepCall, stage, usage, dir, if_true]
      have onward : (goOn w id call (.scanning size dir'.keys 0)).calls.lookup id =
          some { call with stage := .scanning size dir'.keys 0 } := AList.lookup_insert _
      have inside : ∀ name ∈ dir'.keys, name ∈ files (goOn w id call (.scanning size dir'.keys 0)) call.user := by
        intro name member
        show name ∈ (w.dirs call.user).getD ∅
        rw [dir]
        exact AList.mem_keys.mp member
      obtain ⟨used, actions, next, ran, reached, dirs, results⟩ := @scan_reaches o _ id _ onward _ _ _ rfl inside
      refine ⟨used, .usage id true :: actions, next, ?_, reached, dirs, results⟩
      rw [run, stepped]
      exact ran

end

theorem delete_begins {user ref name : String} {content : Bytes} (valid : validUserID user)
    (read : pathForRef user ref = some name) (there : (files w user).lookup name = some content)
    (fresh : w.calls.lookup id = none) (free : w.locks (userLock user) = none) : ∃ call middle,
      run (BlobStore.step o) w [.delete id user ref, .lock id, .stat id] = some middle ∧
      middle.calls.lookup id = some call ∧ call.user = user ∧ call.kind = .delete name ∧
      call.stage = .counting content.length ∧ middle.dirs = w.dirs ∧ middle.results = w.results := by
  let waiting := start w id user (.delete name)
  have first : BlobStore.step o w (.delete id user ref) = some waiting := by
    have absent : w.calls.lookup (Action.delete id user ref).call = none := fresh
    unfold BlobStore.step
    rw [absent]
    dsimp only
    rw [if_neg (by rw [valid]; decide), read]
  have here : waiting.calls.lookup id = some ⟨user, .delete name, .waiting, ∅⟩ := AList.lookup_insert _
  let locked : World := { waiting with
    locks := Function.update w.locks (userLock user) (some id)
    calls := waiting.calls.insert id ⟨user, .delete name, .locked, files w user⟩ }
  have second : BlobStore.step o waiting (.lock id) = some locked := by
    rw [step_known here rfl]
    exact if_pos ⟨rfl, free⟩
  have here' : locked.calls.lookup id = some ⟨user, .delete name, .locked, files w user⟩ := AList.lookup_insert _
  have third : BlobStore.step o locked (.stat id) =
      some (goOn locked id ⟨user, .delete name, .locked, files w user⟩ (.counting content.length)) := by
    have found : (files locked user).lookup name = some content := there
    rw [step_known here' rfl]
    simp only [stepCall, found]
  refine ⟨⟨user, .delete name, .counting content.length, files w user⟩,
    goOn locked id ⟨user, .delete name, .locked, files w user⟩ (.counting content.length), ?_, AList.lookup_insert _, rfl, rfl,
    rfl, rfl, rfl⟩
  rw [run, first, bind_some, run, second, bind_some, run, third]
  rfl

theorem delete_ends {call : Call} {name : String} {size used : Nat} (here : w.calls.lookup id = some call)
    (kind : call.kind = .delete name) (stage : call.stage = .counted size used) : ∃ next,
      run (BlobStore.step o) w [.remove id true, .finish id] = some next ∧ next.results = (id, true) :: w.results ∧
      files next call.user = (files w call.user).erase name := by
  let removed := goOn (setDirectory w call.user ((files w call.user).erase name)) id call (.removed size used)
  have first : BlobStore.step o w (.remove id true) = some removed := by
    rw [step_known here rfl]
    simp only [stepCall, stage, kind, if_true]
    rfl
  have here' : removed.calls.lookup id = some { call with stage := .removed size used } := AList.lookup_insert _
  refine ⟨return_ { removed with usage := removed.usage.insert call.user (used - size) } id
    { call with stage := .removed size used } true, ?_, rfl, ?_⟩
  · rw [run, first, bind_some, run, step_known here' rfl]
    rfl
  · exact BlobAccounting.set_files w call.user _

theorem present_deletes {user ref name : String} (valid : validUserID user) (read : pathForRef user ref = some name)
    (there : name ∈ files w user) : Deletes o w user ref := by
  intro id fresh free
  obtain ⟨content, found⟩ := isSome_iff_exists.mp (AList.lookup_isSome.mpr there)
  obtain ⟨call, begun, ran, here, rfl, kind, stage, dirs, results⟩ :=
    @delete_begins o w id _ ref name content valid read found fresh free
  obtain ⟨used, actions, middle, onward, here', dirs', results'⟩ := @count_reaches o begun id call here content.length stage
  obtain ⟨next, ended, results'', files'⟩ := @delete_ends o middle id _ name content.length used here' kind rfl
  refine ⟨[.delete id call.user ref, .lock id, .stat id] ++ actions ++ [.remove id true, .finish id], next, name, ?_, read, ?_, ?_⟩
  · rw [run_append, run_append, ran, bind_some, onward, bind_some, ended]
  · rw [results'', results', results]
  · rw [files', files, dirs', dirs, files]

end Deletion

structure Written (w : World) (u : Upload) : Prop where
  valid : validUserID u.user
  base : isBase u.name
  file : ∃ random, isHex random ∧ u.file = fileName random u.name
  there : u.file ∈ files w u.user

def Copies (s : Uploads) (call : Call) : Prop := ∀ used limit file, call.stage = .copying used limit file →
  ∃ name, call.kind = .save name ∧ Written s.world ⟨call.user, name, file⟩ ∧ ∀ u ∈ s.saved, u.user = call.user → u.file ≠ file

structure Kept (s : Uploads) : Prop where
  owner : ∀ id call, s.world.calls.lookup id = some call → call.stage ≠ .waiting → s.world.locks (userLock call.user) = some id
  users : ∀ id call, s.world.calls.lookup id = some call → validUserID call.user
  copies : ∀ id call, s.world.calls.lookup id = some call → Copies s call
  saved : ∀ u ∈ s.saved, Written s.world u

section Steps
variable {o : Options} {s : Uploads} {id : Nat} {call : Call}
variable {world : World} {used : Nat}

theorem written_same {w next : World} {u : Upload} (written : Written w u) (same : files next u.user = files w u.user) :
    Written next u :=
  ⟨written.valid, written.base, written.file, by rw [same]; exact written.there⟩

theorem copies_same {next : Uploads} (copies : Copies s call) (same : files next.world call.user = files s.world call.user)
    (saved : ∀ u ∈ next.saved, u.user = call.user → u ∈ s.saved) : Copies next call := by
  intro used limit file stage
  obtain ⟨name, kind, written, alone⟩ := copies used limit file stage
  exact ⟨name, kind, written_same written same, fun u member user => alone u (saved u member user) user⟩

theorem copies_waiting (waiting : call.stage = .waiting) : Copies s call := by
  intro used limit file stage
  cases waiting.symm.trans stage

structure Own (s : Uploads) (id : Nat) (call : Call) (next : Uploads) : Prop where
  others : ∀ other, other ≠ id → next.world.calls.lookup other = s.world.calls.lookup other
  mine : ∀ after, next.world.calls.lookup id = some after →
    after.user = call.user ∧ next.world.locks (userLock call.user) = some id ∧ Copies next after
  locks : ∀ n, n ≠ userLock call.user → next.world.locks n = s.world.locks n
  only : ∀ user, user ≠ call.user → files next.world user = files s.world user
  fewer : ∀ u ∈ next.saved, u.user ≠ call.user → u ∈ s.saved
  saved : ∀ u ∈ next.saved, u.user = call.user → Written next.world u

section
variable (kept : Kept s) (here : s.world.calls.lookup id = some call) (active : call.stage ≠ .waiting)
include kept here active

theorem own_kept {next : Uploads} (own : Own s id call next) : Kept next := by
  have mine := kept.owner id call here active
  have apart : ∀ other theirs, other ≠ id → s.world.calls.lookup other = some theirs → theirs.stage ≠ .waiting →
      userLock theirs.user ≠ userLock call.user := by
    intro other theirs different there busy same
    have locked := kept.owner other theirs there busy
    rw [same, mine] at locked
    exact different (some.inj locked).symm
  constructor
  · intro other theirs there busy
    by_cases same : other = id
    · subst same
      obtain ⟨user, locked, _⟩ := own.mine theirs there
      rwa [user]
    · rw [own.others other same] at there
      rw [own.locks _ (apart other theirs same there busy)]
      exact kept.owner other theirs there busy
  · intro other theirs there
    by_cases same : other = id
    · subst same
      obtain ⟨user, _⟩ := own.mine theirs there
      rw [user]
      exact kept.users other call here
    · rw [own.others other same] at there
      exact kept.users other theirs there
  · intro other theirs there
    by_cases same : other = id
    · subst same
      exact (own.mine theirs there).2.2
    · rw [own.others other same] at there
      by_cases busy : theirs.stage = .waiting
      · exact copies_waiting busy
      · have different : theirs.user ≠ call.user :=
          fun same' => apart other theirs same there busy (congrArg userLock same')
        exact copies_same (kept.copies other theirs there) (own.only _ different)
          fun u member user => own.fewer u member (user ▸ different)
  · intro u member
    by_cases user : u.user = call.user
    · exact own.saved u member user
    · exact written_same (kept.saved u (own.fewer u member user)) (own.only _ user)

theorem own_goes {stage : Stage} (plain : ∀ used limit file, stage ≠ .copying used limit file) (usage : Table Nat) :
    Own s id call ⟨goOn { s.world with usage } id call stage, s.saved⟩ := by
  refine ⟨fun other apart => AList.lookup_insert_ne apart, fun after known => ?_, fun _ _ => rfl, fun _ _ => rfl,
    fun _ member _ => member, fun u member _ => written_same (kept.saved u member) rfl⟩
  cases (AList.lookup_insert s.world.calls).symm.trans known
  exact ⟨rfl, kept.owner id call here active, fun used limit file copying => absurd copying (plain used limit file)⟩

end

theorem own_returns {w : World} (calls : w.calls = s.world.calls) (locks : w.locks = s.world.locks)
    (only : ∀ user, user ≠ call.user → files w user = files s.world user) {saved : List Upload}
    (fewer : ∀ u ∈ saved, u.user ≠ call.user → u ∈ s.saved) (written : ∀ u ∈ saved, u.user = call.user → Written w u)
    (ok : Bool) : Own s id call ⟨return_ w id call ok, saved⟩ := by
  refine ⟨fun other apart => ?_, fun after known => ?_, fun n apart => ?_, only, fewer, fun u member user => ?_⟩
  · show (w.calls.erase id).lookup other = _
    rw [AList.lookup_erase_ne apart, calls]
  · cases (AList.lookup_erase id w.calls).symm.trans known
  · show Function.update w.locks _ none n = _
    rw [Function.update_of_ne apart, locks]
  · exact written_same (written u member user) rfl

theorem own_fails (kept : Kept s) (ok : Bool) : Own s id call ⟨return_ s.world id call ok, s.saved⟩ :=
  own_returns rfl rfl (fun _ _ => rfl) (fun _ member _ => member) (fun u member _ => kept.saved u member) ok

theorem lock_kept (kept : Kept s) (here : s.world.calls.lookup id = some call) (free : s.world.locks (userLock call.user) = none)
    {stage : Stage} (plain : ∀ used limit file, stage ≠ .copying used limit file) (before : Directory) :
    Kept ⟨{ s.world with
      locks := Function.update s.world.locks (userLock call.user) (some id)
      calls := s.world.calls.insert id { call with stage, before } }, s.saved⟩ := by
  have known {other : Nat} {theirs : Call} (there : (s.world.calls.insert id { call with stage, before }).lookup other = some theirs) :
      other = id ∧ theirs = { call with stage, before } ∨ other ≠ id ∧ s.world.calls.lookup other = some theirs := by
    by_cases same : other = id
    · subst same
      cases (AList.lookup_insert s.world.calls).symm.trans there
      exact .inl ⟨rfl, rfl⟩
    · exact .inr ⟨same, (AList.lookup_insert_ne same).symm.trans there⟩
  constructor
  · intro other theirs there busy
    show Function.update s.world.locks _ _ _ = _
    obtain ⟨rfl, rfl⟩ | ⟨_, there⟩ := known there
    · exact Function.update_self _ _ _
    · have locked := kept.owner other theirs there busy
      have apart : userLock theirs.user ≠ userLock call.user := by
        intro same
        rw [same, free] at locked
        cases locked
      rwa [Function.update_of_ne apart]
  · intro other theirs there
    obtain ⟨rfl, rfl⟩ | ⟨_, there⟩ := known there
    · exact kept.users other call here
    · exact kept.users other theirs there
  · intro other theirs there
    obtain ⟨rfl, rfl⟩ | ⟨_, there⟩ := known there
    · exact fun used limit file copying => absurd copying (plain used limit file)
    · exact copies_same (kept.copies other theirs there) rfl fun _ member _ => member
  · exact fun u member => written_same (kept.saved u member) rfl

theorem start_kept (kept : Kept s) (fresh : s.world.calls.lookup id = none) {user : String} (valid : validUserID user)
    (kind : Kind) : Kept ⟨start s.world id user kind, s.saved⟩ := by
  have known {other : Nat} {theirs : Call} (there : (start s.world id user kind).calls.lookup other = some theirs) :
      theirs = ⟨user, kind, .waiting, ∅⟩ ∨ s.world.calls.lookup other = some theirs := by
    by_cases same : other = id
    · subst same
      cases (AList.lookup_insert s.world.calls).symm.trans there
      exact .inl rfl
    · exact .inr ((AList.lookup_insert_ne same).symm.trans there)
  constructor
  · intro other theirs there busy
    obtain rfl | there := known there
    · exact absurd rfl busy
    · exact kept.owner other theirs there busy
  · intro other theirs there
    obtain rfl | there := known there
    · exact valid
    · exact kept.users other theirs there
  · intro other theirs there
    obtain rfl | there := known there
    · exact copies_waiting rfl
    · exact copies_same (kept.copies other theirs there) rfl fun _ member _ => member
  · exact fun u member => written_same (kept.saved u member) rfl

theorem refuse_kept (kept : Kept s) (id : Nat) : Kept ⟨refuse s.world id, s.saved⟩ :=
  ⟨kept.owner, kept.users, fun other theirs there => copies_same (kept.copies other theirs there) rfl fun _ member _ => member,
    fun u member => written_same (kept.saved u member) rfl⟩

theorem track_plain {action : Action} (stop : ∀ other ok, action ≠ .stop other ok)
    (remove : ∀ other ok, action ≠ .remove other ok) : track s action world = s.saved := by
  cases action with
  | stop other ok => exact absurd rfl (stop other ok)
  | remove other ok => exact absurd rfl (remove other ok)
  | _ => rfl

section
variable (kept : Kept s) (here : s.world.calls.lookup id = some call)
include kept here

theorem create_kept {n : Nat} {name : String}
    (stage : call.stage = .counted n used) (kind : call.kind = .save name) {random : String} (hex : isHex random)
    (made ok : Bool) : Kept ⟨create o s.world id call name used random made ok, s.saved⟩ := by
  have active : call.stage ≠ .waiting := by
    rw [stage]
    exact nofun
  have made_files : ∀ user, files (setDirectory s.world call.user (files s.world call.user)) user = files s.world user := by
    intro user
    by_cases same : user = call.user
    · rw [same, BlobAccounting.set_files]
    · exact BlobAccounting.only_files (BlobAccounting.set_only s.world call.user _) same
  apply own_kept kept here active
  unfold create
  split
  · exact own_fails kept false
  · next valid =>
    dsimp only
    rw [made_files call.user]
    split
    · exact @own_returns s id call (setDirectory s.world call.user (files s.world call.user)) rfl rfl
        (fun user _ => made_files user) _ (fun _ member _ => member)
        (fun u member _ => written_same (kept.saved u member) (made_files u.user)) false
    · next absent =>
      rw [not_or, Bool.not_eq_true', Bool.not_eq_false] at absent
      have missing : fileName random name ∉ files s.world call.user := fun there =>
        absent.2 (AList.lookup_isSome.mpr there)
      let dir := (files s.world call.user).insert (fileName random name) []
      let after := setDirectory (setDirectory s.world call.user (files s.world call.user)) call.user dir
      have inside : files after call.user = dir := BlobAccounting.set_files _ _ _
      have outside : ∀ user, user ≠ call.user → files after user = files s.world user := by
        intro user apart
        rw [BlobAccounting.only_files (BlobAccounting.set_only _ call.user dir) apart, made_files]
      have own_file : ∀ u ∈ s.saved, u.user = call.user → Written after u := by
        intro u member user
        have written := kept.saved u member
        refine ⟨written.valid, written.base, written.file, ?_⟩
        rw [user, inside, AList.mem_insert]
        exact .inr (user ▸ written.there)
      have base : isBase name := by
        rw [not_or, not_or] at valid
        simpa using valid.2.1
      refine ⟨fun other apart => AList.lookup_insert_ne apart, fun later known => ?_, fun _ _ => rfl, outside,
        fun _ member _ => member, fun u member user => written_same (own_file u member user) rfl⟩
      cases (AList.lookup_insert s.world.calls).symm.trans known
      refine ⟨rfl, kept.owner id call here active, fun used' limit file copying => ?_⟩
      cases copying
      refine ⟨name, kind, ⟨kept.users id call here, base, ⟨random, hex, rfl⟩, ?_⟩, fun u member user same => ?_⟩
      · show fileName random name ∈ files after call.user
        rw [inside, AList.mem_insert]
        exact .inl rfl
      · have there := (kept.saved u member).there
        rw [user, same] at there
        exact missing there

theorem read_kept {limit : Nat} {file : String} (stage : call.stage = .copying used limit file) (content : Bytes) :
    Kept ⟨goOn (setDirectory s.world call.user ((files s.world call.user).insert file content)) id call
      (.copying used limit file), s.saved⟩ := by
  have active : call.stage ≠ .waiting := by
    rw [stage]
    exact fun absurd => by cases absurd
  obtain ⟨name, kind, written, alone⟩ := kept.copies id call here used limit file stage
  let after := setDirectory s.world call.user ((files s.world call.user).insert file content)
  have inside : files after call.user = (files s.world call.user).insert file content := BlobAccounting.set_files _ _ _
  have outside : ∀ user, user ≠ call.user → files after user = files s.world user :=
    fun user apart => BlobAccounting.only_files (BlobAccounting.set_only s.world call.user _) apart
  have grown : ∀ u, u.user = call.user → Written s.world u → Written after u := by
    intro u user written
    refine ⟨written.valid, written.base, written.file, ?_⟩
    rw [user, inside, AList.mem_insert]
    exact .inr (user ▸ written.there)
  apply own_kept kept here active
  refine ⟨fun other apart => AList.lookup_insert_ne apart, fun later known => ?_, fun _ _ => rfl,
    outside, fun _ member _ => member, fun u member user => written_same (grown u user (kept.saved u member)) rfl⟩
  cases (AList.lookup_insert s.world.calls).symm.trans known
  refine ⟨rfl, kept.owner id call here active, fun used' limit' file' copying => ?_⟩
  cases copying
  exact ⟨name, kind, written_same (grown _ rfl written) rfl, alone⟩

theorem stop_kept {limit : Nat} {file : String} (stage : call.stage = .copying used limit file) {ok : Bool}
    (stepped : stepCall o s.world id call (.stop id ok) = some world) : Kept ⟨world, track s (.stop id ok) world⟩ := by
  have active : call.stage ≠ .waiting := by
    rw [stage]
    exact fun absurd => by cases absurd
  obtain ⟨name, kind, written, alone⟩ := kept.copies id call here used limit file stage
  apply own_kept kept here active
  obtain ⟨user, _, _, before⟩ := call
  cases kind
  cases stage
  simp only [stepCall] at stepped
  split at stepped
  · cases stepped
    have tracked : track s (.stop id ok) (goOn s.world id ⟨user, .save name, .copying used limit file, before⟩
        (.copied used (((files s.world user).lookup file).getD []).length)) = ⟨user, name, file⟩ :: s.saved := by
      have present : ((goOn s.world id ⟨user, .save name, .copying used limit file, before⟩
          (.copied used (((files s.world user).lookup file).getD []).length)).calls.lookup id).isSome := by
        rw [goOn, AList.lookup_insert]
        rfl
      simp only [track, Action.call, here, present, if_true]
    rw [tracked]
    refine ⟨fun other apart => AList.lookup_insert_ne apart, fun later known => ?_, fun _ _ => rfl, fun _ _ => rfl,
      fun u member apart => ?_, fun u member same => ?_⟩
    · cases (AList.lookup_insert s.world.calls).symm.trans known
      exact ⟨rfl, kept.owner id _ here active, fun _ _ _ absurd => by cases absurd⟩
    · rcases mem_cons.mp member with rfl | old
      · exact absurd rfl apart
      · exact old
    · rcases mem_cons.mp member with rfl | old
      · exact written_same written rfl
      · exact written_same (kept.saved u old) rfl
  · cases stepped
    have gone : ((return_ (setDirectory s.world user ((files s.world user).erase file)) id
        ⟨user, .save name, .copying used limit file, before⟩ false).calls.lookup id).isSome = false := by
      rw [return_, AList.lookup_erase]
      rfl
    simp only [track, Action.call, here, gone, Bool.false_eq_true, if_false]
    have inside : files (setDirectory s.world user ((files s.world user).erase file)) user = (files s.world user).erase file :=
      BlobAccounting.set_files _ _ _
    have outside : ∀ other, other ≠ user →
        files (setDirectory s.world user ((files s.world user).erase file)) other = files s.world other :=
      fun other apart => BlobAccounting.only_files (BlobAccounting.set_only s.world user _) apart
    refine @own_returns s id ⟨user, .save name, .copying used limit file, before⟩
      (setDirectory s.world user ((files s.world user).erase file)) rfl rfl outside s.saved (fun _ member _ => member)
      (fun u member same => ?_) false
    -- Its file is none of those that count.
    have old := kept.saved u member
    refine ⟨old.valid, old.base, old.file, ?_⟩
    have there := old.there
    have mine : u.user = user := same
    rw [mine] at there ⊢
    rw [inside, AList.mem_erase]
    exact ⟨alone u member same, there⟩

theorem remove_kept {n : Nat} {name : String}
    (stage : call.stage = .counted n used) (kind : call.kind = .delete name) (ok : Bool)
    (stepped : stepCall o s.world id call (.remove id ok) = some world) : Kept ⟨world, track s (.remove id ok) world⟩ := by
  have active : call.stage ≠ .waiting := by
    rw [stage]
    exact nofun
  apply own_kept kept here active
  obtain ⟨user, _, _, before⟩ := call
  cases kind
  cases stage
  cases ok with
  | false =>
    cases stepped
    exact own_fails kept false
  | true =>
    cases stepped
    have tracked : track s (.remove id true) (goOn (setDirectory s.world user ((files s.world user).erase name)) id
        ⟨user, .delete name, .counted n used, before⟩ (.removed n used)) =
        s.saved.filter fun u => ¬ (u.user = user ∧ u.file = name) := by
      simp only [track, Action.call, here]
    rw [tracked]
    have inside : files (setDirectory s.world user ((files s.world user).erase name)) user = (files s.world user).erase name :=
      BlobAccounting.set_files _ _ _
    have outside : ∀ other, other ≠ user →
        files (setDirectory s.world user ((files s.world user).erase name)) other = files s.world other :=
      fun other apart => BlobAccounting.only_files (BlobAccounting.set_only s.world user _) apart
    refine ⟨fun other apart => AList.lookup_insert_ne apart, fun later known => ?_, fun _ _ => rfl, outside,
      fun u member _ => mem_of_mem_filter member, fun u member same => ?_⟩
    · cases (AList.lookup_insert s.world.calls).symm.trans known
      exact ⟨rfl, kept.owner id _ here active, nofun⟩
    · obtain ⟨member, other⟩ := mem_filter.mp member
      have old := kept.saved u member
      have there := old.there
      refine ⟨old.valid, old.base, old.file, ?_⟩
      show u.file ∈ files (setDirectory s.world user ((files s.world user).erase name)) u.user
      have mine : u.user = user := same
      rw [mine] at there ⊢
      rw [inside, AList.mem_erase]
      exact ⟨fun named => of_decide_eq_true other ⟨mine, named⟩, there⟩

end

theorem call_kept (kept : Kept s) {action : Action} (here : s.world.calls.lookup action.call = some call)
    (hex : (random action).all isHex)
    (stepped : stepCall o s.world action.call call action = some world) : Kept ⟨world, track s action world⟩ := by
  have active {stage : Stage} (at_ : call.stage = stage) (busy : stage ≠ .waiting) : call.stage ≠ .waiting := at_ ▸ busy
  cases action with
  | save | delete => cases stepped
  | lock =>
    rw [track_plain (fun _ _ absurd => by cases absurd) (fun _ _ absurd => by cases absurd)]
    dsimp only [stepCall] at stepped
    split at stepped
    · next free =>
      cases stepped
      apply lock_kept kept here free.2
      cases call.kind <;> exact fun _ _ _ absurd => by cases absurd
    · cases stepped
  | stat =>
    rw [track_plain (fun _ _ absurd => by cases absurd) (fun _ _ absurd => by cases absurd)]
    dsimp only [stepCall] at stepped
    split at stepped
    · next stage kind =>
      have active := active stage (by rintro ⟨⟩)
      split at stepped
      · cases stepped
        exact own_kept kept here active (own_goes kept here active (fun _ _ _ absurd => by cases absurd) s.world.usage)
      · cases stepped
        exact own_kept kept here active (own_fails kept false)
    · cases stepped
  | usage =>
    rw [track_plain (fun _ _ absurd => by cases absurd) (fun _ _ absurd => by cases absurd)]
    dsimp only [stepCall] at stepped
    split at stepped
    · next stage =>
      have active := active stage (by rintro ⟨⟩)
      have goes {later : Stage} (plain : ∀ used limit file, later ≠ .copying used limit file) :=
        own_kept kept here active (own_goes kept here active plain s.world.usage)
      split at stepped
      · cases stepped
        exact goes nofun
      · cases stepped
        split
        · exact goes nofun
        · exact own_kept kept here active (own_fails kept false)
      · cases stepped
        split
        · exact goes fun _ _ _ absurd => by cases absurd
        · exact own_kept kept here active (own_fails kept false)
    · cases stepped
  | info =>
    rw [track_plain (fun _ _ absurd => by cases absurd) (fun _ _ absurd => by cases absurd)]
    dsimp only [stepCall] at stepped
    split at stepped
    · next stage =>
      have active := active stage nofun
      split at stepped
      · cases stepped
        exact own_kept kept here active (own_goes kept here active (fun _ _ _ absurd => by cases absurd) s.world.usage)
      · cases stepped
        exact own_kept kept here active (own_fails kept false)
    · cases stepped
  | record =>
    rw [track_plain (fun _ _ absurd => by cases absurd) (fun _ _ absurd => by cases absurd)]
    dsimp only [stepCall] at stepped
    split at stepped
    · next stage =>
      have active := active stage (by rintro ⟨⟩)
      cases stepped
      exact own_kept kept here active (own_goes kept here active (fun _ _ _ absurd => by cases absurd) _)
    · cases stepped
  | create other random made ok =>
    rw [track_plain (fun _ _ absurd => by cases absurd) (fun _ _ absurd => by cases absurd)]
    dsimp only [stepCall] at stepped
    split at stepped
    · next stage kind =>
      cases stepped
      exact create_kept kept here stage kind hex made ok
    · cases stepped
  | read =>
    rw [track_plain (fun _ _ absurd => by cases absurd) (fun _ _ absurd => by cases absurd)]
    dsimp only [stepCall] at stepped
    split at stepped
    · next stage =>
      split at stepped
      · cases stepped
        exact read_kept kept here stage _
      · cases stepped
    · cases stepped
  | stop =>
    cases stage : call.stage with
    | copying => exact stop_kept kept here stage stepped
    | _ =>
      dsimp only [stepCall] at stepped
      rw [stage] at stepped
      cases stepped
  | remove other ok =>
    cases stage : call.stage with
    | counted =>
      cases kind : call.kind with
      | delete => exact remove_kept kept here stage kind ok stepped
      | save =>
        dsimp only [stepCall] at stepped
        rw [stage, kind] at stepped
        cases stepped
    | _ =>
      dsimp only [stepCall] at stepped
      rw [stage] at stepped
      cases stepped
  | finish other =>
    rw [track_plain (fun _ _ absurd => by cases absurd) (fun _ _ absurd => by cases absurd)]
    have ends (used : Nat) (active : call.stage ≠ .waiting) :
        Kept ⟨return_ { s.world with usage := s.world.usage.insert call.user used } other call true, s.saved⟩ := by
      refine own_kept kept here active (@own_returns s other call { s.world with usage := s.world.usage.insert call.user used }
        rfl rfl (fun _ _ => rfl) s.saved (fun _ member _ => member) (fun u member _ => ?_) true)
      exact written_same (kept.saved u member) rfl
    dsimp only [stepCall] at stepped
    split at stepped
    · next stage =>
      cases stepped
      exact ends _ (active stage (by rintro ⟨⟩))
    · next stage =>
      cases stepped
      exact ends _ (active stage nofun)
    · cases stepped

theorem step_kept (s : Uploads) (event : Event) (next : Uploads) (kept : Kept s) (stepped : step o s event = some next) :
    Kept next := by
  cases event with
  | restart =>
    cases stepped
    exact ⟨fun _ _ there => (by cases there), fun _ _ there => (by cases there), fun _ _ there => (by cases there),
      fun u member => written_same (kept.saved u member) rfl⟩
  | call =>
    simp only [step, ite_none_right_eq_some, map_eq_some_iff] at stepped
    obtain ⟨hex, world, stepped, rfl⟩ := stepped
    unfold BlobStore.step at stepped
    split at stepped
    · next id user name absent =>
      rw [track_plain (fun _ _ absurd => by cases absurd) (fun _ _ absurd => by cases absurd)]
      split at stepped
      · cases stepped
      · next valid =>
        cases stepped
        split
        · exact refuse_kept kept id
        · exact start_kept kept absent (by simpa using valid) _
    · next id user ref absent =>
      rw [track_plain (fun _ _ absurd => by cases absurd) (fun _ _ absurd => by cases absurd)]
      split at stepped
      · cases stepped
      · next valid =>
        split at stepped
        · cases stepped
          exact start_kept kept absent (by simpa using valid) _
        · cases stepped
          exact refuse_kept kept id
    · next here => exact call_kept kept here hex stepped
    · cases stepped

end Steps

section Conditions
variable {o : Options} {w : World} {u : Upload}

theorem hex_plain {random : String} (hex : isHex random) : '/' ∉ random.toList ∧ '\\' ∉ random.toList := by
  have digits := all_eq_true.mp (of_decide_eq_true hex).2
  constructor
  · exact fun member => absurd (digits _ member) (by decide)
  · exact fun member => absurd (digits _ member) (by decide)

def tail (name : String) : String := if name = "/" then "" else name

theorem tail_spec {name : String} (base : isBase name) : '/' ∉ (tail name).toList ∧
    ('\\' ∈ (tail name).toList ↔ '\\' ∈ name.toList) ∧ (tail name).utf8ByteSize = if name = "/" then 0 else name.utf8ByteSize := by
  unfold tail
  split
  · next slash =>
    subst slash
    exact ⟨by decide, by decide, rfl⟩
  · next other => exact ⟨(of_decide_eq_true base).2.resolve_right other, Iff.rfl, rfl⟩

theorem file_list (random name : String) : (fileName random name).toList = random.toList ++ '-' :: (tail name).toList := by
  have dash : "-".toList = ['-'] := by decide
  rw [fileName, String.toList_append, String.toList_append, dash, append_assoc]
  rfl

theorem file_size (random name : String) : (fileName random name).utf8ByteSize = random.utf8ByteSize + 1 + (tail name).utf8ByteSize := by
  rw [fileName, String.utf8ByteSize_append, String.utf8ByteSize_append]
  rfl

theorem file_plain (written : Written w u) : '/' ∉ u.file.toList ∧ ('\\' ∈ u.file.toList ↔ '\\' ∈ u.name.toList) ∧
    u.file.utf8ByteSize = 33 + if u.name = "/" then 0 else u.name.utf8ByteSize := by
  obtain ⟨random, hex, same⟩ := written.file
  obtain ⟨slash, back⟩ := hex_plain hex
  obtain ⟨slash', back', size⟩ := tail_spec written.base
  have width : random.utf8ByteSize = 32 := (of_decide_eq_true hex).1
  rw [same, file_list, file_size, size, width, mem_append, mem_append, mem_cons, mem_cons, back']
  refine ⟨?_, ?_, rfl⟩
  · rintro (member | dash | member)
    · exact slash member
    · exact absurd dash (by decide)
    · exact slash' member
  · constructor
    · rintro (member | dash | member)
      · exact absurd member back
      · exact absurd dash (by decide)
      · exact member
    · exact fun member => .inr (.inr member)

theorem ref_size (user file : String) : (refOf user file).utf8ByteSize = user.utf8ByteSize + 1 + file.utf8ByteSize := by
  rw [refOf, String.utf8ByteSize_append, String.utf8ByteSize_append]
  rfl

theorem read_ref (written : Written w u) : pathForRef u.user u.ref = if '\\' ∈ u.name.toList then none else some u.file := by
  obtain ⟨slash, back, size⟩ := file_plain written
  have some_ : u.file ≠ "" := by
    intro none
    rw [none, String.utf8ByteSize_empty] at size
    omega
  have base : isBase u.file := decide_eq_true ⟨some_, .inl slash⟩
  rw [Upload.ref, path_ref]
  by_cases plain : '\\' ∈ u.name.toList
  · rw [if_pos plain, if_neg fun read => read.2.2 (back.mpr plain)]
  · rw [if_neg plain, if_pos ⟨base, slash, fun known => plain (back.mp known)⟩]

theorem usable_iff (written : Written w u) : Usable o w u.user u.ref ↔ Writable u.user u.name := by
  obtain ⟨slash, back, size⟩ := file_plain written
  have read := read_ref written
  have width : u.ref.utf8ByteSize = u.user.utf8ByteSize + 34 + if u.name = "/" then 0 else u.name.utf8ByteSize := by
    rw [Upload.ref, ref_size, size]
    omega
  constructor
  · intro usable
    refine ⟨fun plain => ?_, ?_⟩
    · have valid := usable.valid
      rw [validateRefs, all_cons, read, if_pos plain, Bool.and_false] at valid
      cases valid
    · have short := (of_decide_eq_true usable.submitted).2.2.1
      rwa [width] at short
  · rintro ⟨plain, short⟩
    rw [if_neg plain] at read
    refine ⟨?_, ?_, present_deletes written.valid read written.there⟩
    · have there : (lstat w u.user u.file).isSome := by
        have proper : ¬ (u.file = "." ∨ u.file = "..") := by
          rintro (dot | dots)
          · rw [dot] at size
            have one : ".".utf8ByteSize = 1 := rfl
            omega
          · rw [dots] at size
            have two : "..".utf8ByteSize = 2 := rfl
            omega
        rw [lstat, if_neg proper]
        exact AList.lookup_isSome.mpr written.there
      rw [validateRefs, all_cons, read, written.valid]
      exact (Bool.and_true _).trans there
    · have some_ : u.ref ≠ "" := by
        intro none
        rw [none, String.utf8ByteSize_empty] at width
        omega
      refine decide_eq_true ⟨written.valid, some_, by omega, by omega, ref_begins u.user u.file⟩

structure Referenced (o : Options) (w : World) (u : Upload) : Prop where
  usable : Usable o w u.user u.ref
  foreign : Foreign w u.user u.ref

/-- In every run the ref of an upload is good for its user alone, exactly where its name has no backslash and is not too
    long; and what is accepted is a file of the user. -/
theorem blob_references (o : Options) {dirs : String → Option Directory} {events : List Event} {s : Uploads}
    (ran : run (step o) ⟨opened dirs, []⟩ events = some s) :
    (∀ u ∈ s.saved, Referenced o s.world u ↔ Writable u.user u.name) ∧
      ∀ user refs, validateRefs s.world user refs → ∀ ref ∈ refs, Denotes s.world user ref := by
  have start : Kept ⟨opened dirs, []⟩ :=
    ⟨fun _ _ there => (by cases there), fun _ _ there => (by cases there), fun _ _ there => (by cases there), nofun⟩
  have kept := run_invariant Kept step_kept ran start
  refine ⟨fun u member => ?_, fun user refs accepted => denotes accepted⟩
  have written := kept.saved u member
  constructor
  · exact fun referenced => (usable_iff written).mp referenced.usable
  · exact fun writable => ⟨(usable_iff written).mpr writable, foreign s.world written.valid⟩

end Conditions

def sixteen : String := "000102030405060708090a0b0c0d0e0f"

def upload (name : String) : List Event :=
  [.call (.save 1 "ada" name), .call (.lock 1), .call (.usage 1 true), .call (.create 1 sixteen true true),
    .call (.read 1 [1]), .call (.stop 1 true), .call (.finish 1), .restart]

theorem upload_referenced : ∃ s, run (step ⟨4, 6⟩) ⟨opened fun _ => none, []⟩ (upload "a.txt") = some s ∧
    s.saved.map Upload.ref = ["ada/000102030405060708090a0b0c0d0e0f-a.txt"] ∧
    ∀ u ∈ s.saved, Referenced ⟨4, 6⟩ s.world u ↔ Writable u.user u.name := by
  obtain ⟨s, ran, refs⟩ := map_eq_some_iff.mp
    (show (run (step ⟨4, 6⟩) ⟨opened fun _ => none, []⟩ (upload "a.txt")).map (fun s => s.saved.map Upload.ref) =
      some ["ada/000102030405060708090a0b0c0d0e0f-a.txt"] from by decide +kernel)
  exact ⟨s, ran, refs, (blob_references ⟨4, 6⟩ ran).1⟩

/-- A name with a backslash is taken, and its ref refused. -/
theorem upload_stuck : ∃ s, run (step ⟨4, 6⟩) ⟨opened fun _ => none, []⟩ (upload "a\\b.txt") = some s ∧
    s.saved.map Upload.ref = ["ada/000102030405060708090a0b0c0d0e0f-a\\b.txt"] ∧
    ∀ u ∈ s.saved, validateRefs s.world u.user [u.ref] = false ∧ pathForRef u.user u.ref = none := by
  obtain ⟨s, ran, facts⟩ := map_eq_some_iff.mp
    (show (run (step ⟨4, 6⟩) ⟨opened fun _ => none, []⟩ (upload "a\\b.txt")).map (fun s => (s.saved.map Upload.ref,
      s.saved.all fun u => validateRefs s.world u.user [u.ref] = false ∧ pathForRef u.user u.ref = none)) =
      some (["ada/000102030405060708090a0b0c0d0e0f-a\\b.txt"], true) from by decide +kernel)
  simp only [Prod.mk.injEq] at facts
  exact ⟨s, ran, facts.1, fun u member => of_decide_eq_true (all_eq_true.mp facts.2 u member)⟩

end PieRelay.BlobReferences
