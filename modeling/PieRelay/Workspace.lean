import PieRelay.RealPaths

/-!
The file requests of client/node-executor/workspace.mjs, over a tree of files that nothing else changes. What a text names
the system resolves in the tree, following links; any call may be refused, save for the stat of the file that was just
saved. Left out: languages, times, and the order in which entries are shown. Texts and names are well-formed Unicode, a
file has one name, and a write that fails has written nothing.
-/
namespace PieRelay.Workspace
open FileTrees RealPaths List Option

abbrev Bytes := List UInt8

structure File where
  mode : Nat
  bytes : Bytes
  deriving DecidableEq

abbrev Files := FileTrees.Tree File

inductive Call where
  | realpath (p : Path)
  | lstat (p : Path)
  | stat (p : Path)
  | readdir (p : Path)
  | open (p : Path)
  | create
  | write
  | sync
  | rename
  | syncParent
  | unlink

structure System where
  workspaceRoot : String
  cwd : String
  linkLimit : Nat
  refuses : Call → Bool
  sha256 : Bytes → String
  uuid : String
  umask : Nat

inductive Value where
  | absent
  | text (value : String)
  | other

structure Request where
  requestId : Value
  operation : Value
  projectPath : Value
  path : Value
  content : Value
  baseRevision : Value
  create : Bool

structure WorkspaceError where
  code : String
  message : String
  currentRevision : Option String

inductive Thrown where
  | workspace (error : WorkspaceError)
  | system

structure Entry where
  name : String
  path : String
  directory : Bool
  size : Option Nat
  deriving DecidableEq

/-- The data of an answer, and where the system found what was listed or read, which the answer does not say. -/
inductive Data where
  | listing (found : Path) (path : String) (entries : List Entry)
  | content (found : Path) (path content revision : String) (size : Nat)
  | saved (path revision : String) (size : Nat) (created : Bool)

abbrev Result (β : Type) := Except Thrown β

def fail {β : Type} (code message : String) : Result β := .error (.workspace ⟨code, message, none⟩)

def demand (holds : Bool) (code message : String) : Result Unit := if holds then .ok () else fail code message

def maxFileBytes : Nat := 2 * 1024 * 1024

def maxEntries : Nat := 500

def utf16Length (text : String) : Nat := text.toList.foldr (fun c length => (if c.toNat < 0x10000 then 1 else 2) + length) 0

/-- The letters beyond ASCII that have an ASCII letter in lower case; the others stay beyond ASCII. -/
def toLowerCase (text : String) : String := String.ofList (text.toList.flatMap fun c =>
  if c.toNat = 0x212A then ['k'] else if c.toNat = 0x130 then ['i', Char.ofNat 0x307] else [c.toLower])

def alwaysHiddenSegments : List String :=
  [".git", ".claude", ".kroot", ".pie", ".ssh", ".aws", "node_modules", ".next", ".nuxt", ".turbo", ".cache", "coverage",
    "dist", "build", "secrets"]

def protectedSegment (segment : String) : Bool :=
  let lower := toLowerCase segment
  alwaysHiddenSegments.contains lower || lower = ".env" || ".env.".toList.isPrefixOf lower.toList

def control (c : Char) : Bool := c.toNat < 0x20 || c.toNat = 0x7F

def segments (text : String) : Path := (components text).filter fun segment => segment ≠ "" && segment ≠ "."

def normalizeWorkspacePath (value : Value) (allowEmpty : Bool) : Result Path :=
  match value with
  | .other => fail "invalid_path" "유효하지 않은 파일 경로입니다."
  | .absent => if allowEmpty then .ok [] else fail "invalid_path" "파일 경로가 필요합니다."
  | .text text =>
    let parts := segments text
    if 4096 < utf16Length text || text.toList.any control then fail "invalid_path" "유효하지 않은 파일 경로입니다."
    else if text.toList.contains '\\' || absolute text then
      fail "invalid_path" "프로젝트 내부의 상대 경로만 사용할 수 있습니다."
    else if parts.any fun segment => segment = ".." || 255 < segment.utf8ByteSize then
      fail "invalid_path" "프로젝트 밖으로 이동하는 경로는 사용할 수 없습니다."
    else if !allowEmpty && parts.isEmpty then fail "invalid_path" "파일 경로가 필요합니다."
    else if parts.any protectedSegment then fail "forbidden" "인증정보나 빌드 산출물 경로에는 접근할 수 없습니다."
    else .ok parts

/-- A path inside another, as their texts tell: the root's own text is the separator, and no other starts with two. -/
def isInside (root candidate : Path) : Bool := candidate = root || (root ≠ [] && root.isPrefixOf candidate)

section Calls
variable (s : System) (t : Files)

def realpathSync (p : Path) : Result Path :=
  if s.refuses (.realpath p) then .error .system
  else match realpath t s.linkLimit p with
    | some q => .ok q
    | none => .error .system

def locate (p : Path) : Option Path :=
  match p.getLast? with
  | none => some []
  | some name => (namei t s.linkLimit p.dropLast).map fun parent => parent ++ [name]

def lstatSync (p : Path) : Result (Node File) :=
  if s.refuses (.lstat p) then .error .system
  else match (locate s t p).bind (find t) with
    | some n => .ok n
    | none => .error .system

def statSync (p : Path) : Result (Node File) :=
  match (namei t s.linkLimit p).bind (find t) with
  | some n => .ok n
  | none => .error .system

def readdirSync (p : Path) : Result (Path × List String) :=
  if s.refuses (.readdir p) then .error .system
  else match namei t s.linkLimit p with
    | none => .error .system
    | some q => match get t q with
      | some (.dir entries) => .ok (q, entries.map Prod.fst)
      | _ => .error .system

def openSync (p : Path) : Result (Path × Node File) :=
  if s.refuses (.open p) then .error .system
  else match locate s t p with
    | none => .error .system
    | some q => match find t q with
      | none | some (.link _) => .error .system
      | some n => .ok (q, n)

end Calls

section Requests
variable (s : System) (t : Files)

def workspaceRoot : Result Path := realpathSync s t (resolve (resolve [] s.cwd) s.workspaceRoot)

def resolveProjectRoot (projectPath : Value) : Result Path :=
  match projectPath with
  | .text text =>
    if text = "" then fail "invalid_project" "프로젝트 작업 경로가 없습니다."
    else match workspaceRoot s t, realpathSync s t (resolve (resolve [] s.cwd) text) with
      | .ok root, .ok project =>
        if project.dropLast ≠ root || !isInside root project then
          fail "forbidden" "허용된 프로젝트 작업공간이 아닙니다."
        else .ok project
      | _, _ => fail "not_found" "프로젝트 작업공간을 찾을 수 없습니다."
  | _ => fail "invalid_project" "프로젝트 작업 경로가 없습니다."

def isLink : Node File → Bool
  | .link _ => true
  | _ => false

def isFile : Node File → Bool
  | .file _ => true
  | _ => false

def isDirectory : Node File → Bool
  | .dir => true
  | _ => false

inductive Kind where
  | file
  | directory

def notFound {β : Type} : Result β := fail "not_found" "파일 또는 폴더를 찾을 수 없습니다."

def refuseLink (projectRoot relativePath : Path) : Result Unit :=
  if relativePath = [] then .ok ()
  else match lstatSync s t (projectRoot ++ relativePath) with
    | .ok n => demand (!isLink n) "forbidden" "심볼릭 링크에는 접근할 수 없습니다."
    | .error _ => notFound

def lookUp (projectRoot relativePath : Path) : Result (Path × Node File) := do
  let _ ← refuseLink s t projectRoot relativePath
  match realpathSync s t (projectRoot ++ relativePath) with
  | .error _ => notFound
  | .ok resolved =>
    if s.refuses (.stat resolved) then notFound
    else match statSync s t resolved with
      | .error _ => notFound
      | .ok info => .ok (resolved, info)

def demandKind (info : Node File) : Kind → Result Unit
  | .file => demand (isFile info) "not_file" "일반 파일이 아닙니다."
  | .directory => demand (isDirectory info) "not_directory" "폴더가 아닙니다."

def resolveExisting (projectRoot relativePath : Path) (kind : Kind) : Result Path := do
  let (resolved, info) ← lookUp s t projectRoot relativePath
  let _ ← demand (isInside projectRoot resolved) "forbidden" "프로젝트 밖의 경로에는 접근할 수 없습니다."
  let canonicalRelative := joined (resolved.drop projectRoot.length)
  let _ ← normalizeWorkspacePath (.text canonicalRelative) true
  let _ ← demandKind info kind
  .ok resolved

def revisionFor (bytes : Bytes) : String := "sha256:" ++ s.sha256 bytes

/-- `TextDecoder` with `fatal`: a byte order mark is left out. -/
def decode (bytes : Bytes) : Option String :=
  (String.fromUTF8? ⟨bytes.toArray⟩).map fun text =>
    match text.toList with
    | first :: rest => if first.toNat = 0xFEFF then String.ofList rest else text
    | [] => text

def readRegularFile (p : Path) : Result (Path × File × String) := do
  let (q, n) ← openSync s t p
  match n with
  | .file file =>
    if maxFileBytes < file.bytes.length then fail "too_large" "2MiB보다 큰 파일은 편집기에서 열 수 없습니다."
    else if file.bytes.contains 0 then fail "binary" "바이너리 파일은 편집기에서 열 수 없습니다."
    else match decode file.bytes with
      | some content => .ok (q, file, content)
      | none => fail "binary" "UTF-8 텍스트 파일만 편집할 수 있습니다."
  | _ => fail "not_file" "일반 파일이 아닙니다."

def shown (resolved relativePath : Path) (name : String) : Option Entry :=
  if protectedSegment name then none
  else match lstatSync s t (resolved ++ [name]) with
    | .ok (.file file) => some ⟨name, joined (relativePath ++ [name]), false, some file.bytes.length⟩
    | .ok .dir => some ⟨name, joined (relativePath ++ [name]), true, none⟩
    | _ => none

def listWorkspace (projectPath path : Value) : Result Data := do
  let projectRoot ← resolveProjectRoot s t projectPath
  let relativePath ← normalizeWorkspacePath path true
  let resolved ← resolveExisting s t projectRoot relativePath .directory
  let (found, names) ← readdirSync s t resolved
  let values := names.filterMap (shown s t resolved relativePath)
  if maxEntries < values.length then fail "too_many_entries" "한 폴더에는 최대 500개 항목만 표시할 수 있습니다."
  else .ok (.listing found (joined relativePath) values)

def readWorkspaceFile (projectPath path : Value) : Result Data := do
  let projectRoot ← resolveProjectRoot s t projectPath
  let relativePath ← normalizeWorkspacePath path false
  let resolved ← resolveExisting s t projectRoot relativePath .file
  let (found, file, content) ← readRegularFile s t resolved
  .ok (.content found (joined relativePath) content (revisionFor s file.bytes) file.bytes.length)

def missingFile {β : Type} : Result β := fail "not_found" "저장할 파일을 찾을 수 없습니다."

def current (destination : Path) (baseRevision : String) (create : Bool) : Result (Option File) :=
  let missing := if !create || baseRevision ≠ "" then missingFile else .ok none
  match lstatSync s t destination with
  | .error _ => missing
  | .ok n =>
    if isLink n then fail "forbidden" "심볼릭 링크에는 저장할 수 없습니다."
    else match readRegularFile s t destination with
      | .error .system => missing
      | .error (.workspace error) => .error (.workspace error)
      | .ok (_, file, _) =>
        if baseRevision = "" || revisionFor s file.bytes ≠ baseRevision then
          .error (.workspace ⟨"conflict", "다른 작업에서 파일이 먼저 변경되었습니다.", some (revisionFor s file.bytes)⟩)
        else .ok (some file)

structure Save where
  relativePath : Path
  parent : Path
  destination : Path
  bytes : Bytes
  mode : Nat
  created : Bool

def textOf : Value → Option String
  | .text value => some value
  | _ => none

def encode (text : String) : Bytes := text.toList.flatMap String.utf8EncodeChar

def checkWrite (projectPath path content baseRevision : Value) (create : Bool) : Result Save := do
  let projectRoot ← resolveProjectRoot s t projectPath
  let relativePath ← normalizeWorkspacePath path false
  let some text := (textOf content).filter fun text => (encode text).length ≤ maxFileBytes
    | fail "too_large" "저장할 내용은 UTF-8 기준 2MiB 이하여야 합니다."
  let some revision := (textOf baseRevision).filter fun revision => utf16Length revision ≤ 80
    | fail "invalid_revision" "파일 버전 정보가 올바르지 않습니다."
  let destination := projectRoot ++ relativePath
  let parent ← resolveExisting s t projectRoot relativePath.dropLast .directory
  let _ ← demand (destination.dropLast = parent) "forbidden" "허용된 프로젝트 경로가 아닙니다."
  let existing ← current s t destination revision create
  if existing.isNone && !create then missingFile
  else .ok ⟨relativePath, parent, destination, encode text, (existing.map fun file => file.mode % 512).getD 0o600,
    existing.isNone⟩

def temporary (save : Save) : Path :=
  save.parent ++ ["." ++ save.destination.getLast?.getD "" ++ ".pie-" ++ s.uuid ++ ".tmp"]

def unlinkSync (p : Path) : Files :=
  if s.refuses .unlink then t
  else match locate s t p with
    | none => t
    | some q => match find t q with
      | none | some .dir => t
      | some _ => set t q none

def replaceFile (save : Save) : Files × Bool :=
  if s.refuses .rename then (t, false)
  else match locate s t (temporary s save), locate s t save.destination with
    | some source, some target => match rename t source target with
      | some renamed => (renamed, !s.refuses .syncParent)
      | none => (t, false)
    | _, _ => (t, false)

def persist (save : Save) : Files × Bool :=
  if s.refuses .create then (t, false)
  else match locate s t (temporary s save) with
    | none => (t, false)
    | some q => match make t q (.file ⟨save.mode &&& (0o777 ^^^ s.umask), []⟩) with
      | none => (t, false)
      | some opened =>
        if s.refuses .write then (opened, false)
        else
          let written := set opened q (some (.file ⟨save.mode &&& (0o777 ^^^ s.umask), save.bytes⟩))
          if s.refuses .sync then (written, false) else replaceFile s written save

def writeWorkspaceFile (projectPath path content baseRevision : Value) (create : Bool) : Files × Result Data :=
  match checkWrite s t projectPath path content baseRevision create with
  | .error thrown => (t, .error thrown)
  | .ok save =>
    match persist s t save with
    | (after, false) => (unlinkSync s after (temporary s save), fail "write_failed" "파일을 안전하게 저장하지 못했습니다.")
    | (after, true) =>
      match statSync s after save.destination with
      | .error thrown => (after, .error thrown)
      | .ok _ => (after, .ok (.saved (joined save.relativePath) (revisionFor s save.bytes) save.bytes.length save.created))

def perform (request : Request) : Files × Result Data :=
  let requestId := (textOf request.requestId).getD ""
  if requestId = "" || 160 < utf16Length requestId then (t, fail "invalid_request" "요청 식별자가 필요합니다.")
  else match (textOf request.operation).getD "" with
    | "list" => (t, listWorkspace s t request.projectPath request.path)
    | "read" => (t, readWorkspaceFile s t request.projectPath request.path)
    | "write" =>
      writeWorkspaceFile s t request.projectPath request.path request.content request.baseRevision request.create
    | _ => (t, fail "unsupported_operation" "지원하지 않는 파일 작업입니다.")

structure Response where
  requestId : String
  operation : String
  outcome : Except WorkspaceError Data

def outcomeOf : Result Data → Except WorkspaceError Data
  | .ok data => .ok data
  | .error (.workspace error) => .error error
  | .error .system => .error ⟨"workspace_failed", "파일 작업을 처리하지 못했습니다.", none⟩

def handleWorkspaceRequest (request : Request) : Files × Response :=
  let done := perform s t request
  (done.1, ⟨(textOf request.requestId).getD "", (textOf request.operation).getD "", outcomeOf done.2⟩)

end Requests

/-- Inside a direct child of the workspace root, with nothing protected on the way from that child. -/
def Allowed (root p : Path) : Prop :=
  ∃ project rest, p = root ++ project :: rest ∧ ∀ segment ∈ rest, protectedSegment segment = false

def Reachable (s : System) (t : Files) (p : Path) : Prop :=
  Canonical t p ∧ ∃ root, workspaceRoot s t = .ok root ∧ Allowed root p

/-- What a request writes to: a name in a canonical directory, and itself no link, as far as the system tells. -/
structure Writable (s : System) (t : Files) (p : Path) : Prop where
  parent : Canonical t p.dropLast
  allowed : ∃ root, workspaceRoot s t = .ok root ∧ Allowed root p
  real : s.refuses (.lstat p) = false → ∀ target, find t p ≠ some (.link target)

def failedSave (outcome : Except WorkspaceError Data) : Prop := ∃ error, outcome = .error error ∧ error.code = "write_failed"

structure Safe (s : System) (t after : Files) (outcome : Except WorkspaceError Data) : Prop where
  listed : ∀ found path entries, outcome = .ok (.listing found path entries) → Reachable s t found ∧
    ∃ children, get t found = some (.dir children) ∧ ∀ e ∈ entries, e.name ∈ children.map Prod.fst
  read : ∀ found path content revision size, outcome = .ok (.content found path content revision size) →
    Reachable s t found ∧ ∃ file, find t found = some (.file file) ∧ decode file.bytes = some content
  written : after = t ∨ ∃ destination, Writable s t destination ∧ ∀ p, find after p ≠ find t p → p = destination ∨
    (failedSave outcome ∧ p.dropLast = destination.dropLast ∧ (find t p = none ∨ find after p = none))
  refused : ∀ error, outcome = .error error → error.code ≠ "write_failed" → after = t

/-- The workspace root and the project are the root of all files, and the request lists that. -/
def listsRoot (s : System) (t : Files) (request : Request) : Prop :=
  ((textOf request.requestId).getD "" ≠ "" ∧ utf16Length ((textOf request.requestId).getD "") ≤ 160) ∧
  (textOf request.operation).getD "" = "list" ∧ resolveProjectRoot s t request.projectPath = .ok [] ∧
  ∃ relativePath, normalizeWorkspacePath request.path true = .ok relativePath ∧
    lookUp s t [] relativePath = .ok ([], .dir) ∧
    ∃ names, readdirSync s t [] = .ok ([], names) ∧ (names.filterMap (shown s t [] relativePath)).length ≤ maxEntries

section Resolved
variable {s : System} {t : Files} {p q : Path}

theorem bind_ok {β γ : Type} {x : Result β} {f : β → Result γ} {r : γ} (ok : (x >>= f) = .ok r) :
    ∃ a, x = .ok a ∧ f a = .ok r := by
  cases x with
  | error => cases ok
  | ok a => exact ⟨a, rfl, ok⟩

theorem demand_ok {holds : Bool} {code message : String} {u : Unit} (ok : demand holds code message = .ok u) : holds := by
  cases holds with
  | true => rfl
  | false => cases ok

theorem realpath_ok (ok : realpathSync s t p = .ok q) : realpath t s.linkLimit p = some q := by
  unfold realpathSync at ok
  split at ok
  · cases ok
  · split at ok
    · next found =>
      cases ok
      exact found
    · cases ok

theorem realpath_canonical (dir : isDir t []) (plain : Plain p) (ok : realpathSync s t p = .ok q) :
    Canonical t q ∧ s.linkLimit ≠ 0 := by
  have found := realpath_ok ok
  refine ⟨follow_canonical dir (fun base target plain => resolve_plain target plain) plain found, fun zero => ?_⟩
  rw [zero] at found
  cases found

theorem namei_self (canonical : Canonical t p) (limit : s.linkLimit ≠ 0) : namei t s.linkLimit p = some p := by
  obtain ⟨more, same⟩ := Nat.exists_eq_succ_of_ne_zero limit
  rw [namei, same]
  exact follow_self canonical more

theorem locate_self {name : String} (canonical : Canonical t p) (limit : s.linkLimit ≠ 0) :
    locate s t (p ++ [name]) = some (p ++ [name]) := by
  unfold locate
  rw [getLast?_concat, dropLast_concat, namei_self canonical limit]
  rfl

theorem locate_canonical (canonical : Canonical t p) (limit : s.linkLimit ≠ 0) : locate s t p = some p := by
  rcases eq_nil_or_concat p with rfl | ⟨above, name, rfl⟩
  · rfl
  · rw [concat_eq_append] at canonical ⊢
    exact locate_self (canonical_above canonical (prefix_append above [name])) limit

theorem resolved_plain (s : System) (text : String) : Plain (resolve (resolve [] s.cwd) text) :=
  resolve_plain text (resolve_plain s.cwd fun _ member => absurd member not_mem_nil)

theorem stat_canonical {n : Node File} (canonical : Canonical t p) (limit : s.linkLimit ≠ 0)
    (ok : statSync s t p = .ok n) : find t p = some n := by
  unfold statSync at ok
  rw [namei_self canonical limit] at ok
  split at ok
  · next found =>
    cases ok
    exact found
  · cases ok

theorem open_canonical {n : Node File} (canonical : Canonical t p) (limit : s.linkLimit ≠ 0)
    (ok : openSync s t p = .ok (q, n)) : q = p ∧ find t p = some n := by
  unfold openSync at ok
  rw [locate_canonical canonical limit] at ok
  split at ok
  · cases ok
  · simp only at ok
    split at ok
    · cases ok
    · cases ok
    · next found =>
      cases ok
      exact ⟨rfl, found⟩

end Resolved

section Parts
variable {s : System} {t : Files}
variable {parts p project relativePath resolved : Path} {projectPath path : Value}

theorem segments_named (text : String) : Plain (segments text) ∧ ∀ segment ∈ segments text, segment ≠ "" ∧ segment ≠ "." := by
  refine ⟨fun segment member => components_plain text segment (mem_filter.mp member).1, fun segment member => ?_⟩
  simpa using (mem_filter.mp member).2

/-- A text that is accepted names nothing protected. -/
theorem accepted {text : String} {allowEmpty : Bool}
    (ok : normalizeWorkspacePath (.text text) allowEmpty = .ok parts) : parts = segments text ∧
      (∀ segment ∈ parts, segment ≠ ".." ∧ protectedSegment segment = false) ∧ (allowEmpty = false → parts ≠ []) := by
  simp only [normalizeWorkspacePath] at ok
  split at ok
  · cases ok
  · split at ok
    · cases ok
    · split at ok
      · cases ok
      · next shape =>
        split at ok
        · cases ok
        · next empty =>
          split at ok
          · cases ok
          · next unprotected =>
            cases ok
            simp only [Bool.not_eq_true, List.any_eq_false, Bool.or_eq_true, decide_eq_true_eq, not_or] at shape
            simp only [Bool.not_eq_true, List.any_eq_false] at unprotected
            refine ⟨rfl, fun segment member => ⟨(shape segment member).1, by simpa using unprotected segment member⟩,
              fun refused none => ?_⟩
            simp [refused, none] at empty

theorem normalized {value : Value} {allowEmpty : Bool} (ok : normalizeWorkspacePath value allowEmpty = .ok parts) :
    Plain parts ∧ (∀ segment ∈ parts, protectedSegment segment = false) ∧ (allowEmpty = false → parts ≠ []) ∧
      ∀ segment ∈ parts, segment ≠ "" ∧ segment ≠ "." ∧ segment ≠ ".." := by
  cases value with
  | other => cases ok
  | absent =>
    cases allowEmpty with
    | false => cases ok
    | true =>
      cases ok
      exact ⟨fun segment member => absurd member not_mem_nil, fun segment member => absurd member not_mem_nil,
        nofun, fun segment member => absurd member not_mem_nil⟩
  | text text =>
    obtain ⟨rfl, shape, some⟩ := accepted ok
    obtain ⟨plain, named⟩ := segments_named text
    exact ⟨plain, fun segment member => (shape segment member).2, some, fun segment member =>
      ⟨(named segment member).1, (named segment member).2, (shape segment member).1⟩⟩

/-- A canonical path that is accepted has no protected segment. -/
theorem normalized_canonical (proper : ∀ name ∈ p, name ≠ "" ∧ name ≠ "." ∧ name ≠ "..") (plain : Plain p)
    (ok : normalizeWorkspacePath (.text (joined p)) true = .ok parts) : ∀ segment ∈ p, protectedSegment segment = false := by
  by_cases empty : p = []
  · subst empty
    exact fun segment member => absurd member not_mem_nil
  · have same : segments (joined p) = p := by
      rw [segments, components_joined plain empty]
      refine filter_eq_self.mpr fun segment member => ?_
      simp [(proper segment member).1, (proper segment member).2.1]
    obtain ⟨parted, shape, _⟩ := accepted ok
    rw [same] at parted
    subst parted
    exact fun segment member => (shape segment member).2

/-- The project is a direct child of the workspace root, or both are the root of all files. -/
theorem project_found (dir : isDir t [])
    (ok : resolveProjectRoot s t projectPath = .ok project) : workspaceRoot s t = .ok project.dropLast ∧
      Canonical t project ∧ s.linkLimit ≠ 0 := by
  unfold resolveProjectRoot at ok
  split at ok
  · next text =>
    split at ok
    · cases ok
    · split at ok
      · next rooted resolved =>
        split at ok
        · cases ok
        · next inside =>
          cases ok
          simp only [Bool.or_eq_true, decide_eq_true_eq, not_or, not_not] at inside
          rw [inside.1]
          exact ⟨rooted, realpath_canonical dir (resolved_plain s text) resolved⟩
      · cases ok
  · cases ok

theorem allowed_below {rest : Path} (some : project ≠ [])
    (unprotected : ∀ segment ∈ rest, protectedSegment segment = false) : Allowed project.dropLast (project ++ rest) := by
  refine ⟨project.getLast some, rest, ?_, unprotected⟩
  calc project ++ rest = (project.dropLast ++ [project.getLast some]) ++ rest := by
        rw [dropLast_append_getLast some]
    _ = project.dropLast ++ project.getLast some :: rest := by simp

theorem look_up_ok {info : Node File} (ok : lookUp s t project relativePath = .ok (resolved, info)) :
    realpathSync s t (project ++ relativePath) = .ok resolved ∧ statSync s t resolved = .ok info := by
  obtain ⟨_, _, ok⟩ := bind_ok ok
  split at ok
  · cases ok
  · next found =>
    split at ok
    · cases ok
    · split at ok
      · cases ok
      · next stat =>
        cases ok
        exact ⟨found, stat⟩

theorem existing_found {kind : Kind} (dir : isDir t [])
    (plain : Plain (project ++ relativePath)) (ok : resolveExisting s t project relativePath kind = .ok resolved) :
    ∃ n rest, lookUp s t project relativePath = .ok (resolved, n) ∧ Canonical t resolved ∧ find t resolved = some n ∧
      resolved = project ++ rest ∧ (project = [] → rest = []) ∧ (∀ segment ∈ rest, protectedSegment segment = false) ∧
      (match kind with | .file => isFile n | .directory => isDirectory n) = true := by
  obtain ⟨⟨resolved', n⟩, found, ok⟩ := bind_ok ok
  obtain ⟨_, inside, ok⟩ := bind_ok ok
  obtain ⟨parts, normal, ok⟩ := bind_ok ok
  obtain ⟨_, kinds, ok⟩ := bind_ok ok
  cases ok
  have within := demand_ok inside
  obtain ⟨real, stat⟩ := look_up_ok found
  obtain ⟨canonical, limit⟩ := realpath_canonical dir plain real
  simp only [isInside, Bool.or_eq_true, Bool.and_eq_true, decide_eq_true_eq, isPrefixOf_iff_prefix] at within
  obtain ⟨rest, whole, alone⟩ : ∃ rest, resolved = project ++ rest ∧ (project = [] → rest = []) := by
    rcases within with same | ⟨some, ⟨rest, whole⟩⟩
    · exact ⟨[], by simpa using same, fun _ => rfl⟩
    · exact ⟨rest, whole.symm, fun none => absurd none some⟩
  subst whole
  rw [drop_left] at normal
  refine ⟨n, rest, found, canonical, stat_canonical canonical limit stat, rfl, alone, ?_, ?_⟩
  · refine normalized_canonical (fun name member => canonical.proper name (mem_append_right project member))
      (fun name member => canonical.plain name (mem_append_right project member)) normal
  · cases kind <;> exact demand_ok kinds

theorem read_found {q : Path} {file : File} {content : String} (canonical : Canonical t p) (limit : s.linkLimit ≠ 0)
    (ok : readRegularFile s t p = .ok (q, file, content)) :
    q = p ∧ find t p = some (.file file) ∧ decode file.bytes = some content := by
  obtain ⟨⟨found, n⟩, opened, ok⟩ := bind_ok ok
  obtain ⟨rfl, there⟩ := open_canonical canonical limit opened
  cases n with
  | file =>
    simp only at ok
    split at ok
    · cases ok
    · split at ok
      · cases ok
      · split at ok
        · next decoded =>
          cases ok
          exact ⟨rfl, there, decoded⟩
        · cases ok
  | dir | link | special => cases ok

theorem shown_name {name : String} {e : Entry}
    (shows : shown s t resolved relativePath name = some e) : e.name = name := by
  unfold shown at shows
  split at shows
  · cases shows
  · split at shows
    · cases shows
      rfl
    · cases shows
      rfl
    · cases shows

theorem readdir_canonical {q : Path} {names : List String} (canonical : Canonical t p) (limit : s.linkLimit ≠ 0)
    (ok : readdirSync s t p = .ok (q, names)) : q = p ∧ ∃ children, get t p = some (.dir children) ∧
      names = children.map Prod.fst := by
  unfold readdirSync at ok
  rw [namei_self canonical limit] at ok
  split at ok
  · cases ok
  · simp only at ok
    split at ok
    · next children found =>
      cases ok
      exact ⟨rfl, children, found, rfl⟩
    · cases ok

theorem list_found {data : Data} (dir : isDir t [])
    (ok : listWorkspace s t projectPath path = .ok data) : ∃ project relativePath found children,
      resolveProjectRoot s t projectPath = .ok project ∧ normalizeWorkspacePath path true = .ok relativePath ∧
      lookUp s t project relativePath = .ok (found, .dir) ∧ Canonical t found ∧
      (project = [] → found = []) ∧ (project ≠ [] → Allowed project.dropLast found) ∧ get t found = some (.dir children) ∧
      readdirSync s t found = .ok (found, children.map Prod.fst) ∧
      ((children.map Prod.fst).filterMap (shown s t found relativePath)).length ≤ maxEntries ∧
      data = .listing found (joined relativePath) ((children.map Prod.fst).filterMap (shown s t found relativePath)) := by
  obtain ⟨project, projected, ok⟩ := bind_ok ok
  obtain ⟨relativePath, normal, ok⟩ := bind_ok ok
  obtain ⟨resolved, existing, ok⟩ := bind_ok ok
  obtain ⟨⟨found, names⟩, read, ok⟩ := bind_ok ok
  obtain ⟨_, canonical, limit⟩ := project_found dir projected
  have plain : Plain (project ++ relativePath) := fun name member =>
    (mem_append.mp member).elim (canonical.plain name) ((normalized normal).1 name)
  obtain ⟨n, rest, looked, here, there, rfl, alone, unprotected, kind⟩ := existing_found dir plain existing
  have folder : n = .dir := by
    cases n <;> first | rfl | cases kind
  subst folder
  obtain ⟨rfl, children, entries, rfl⟩ := readdir_canonical here limit read
  simp only at ok
  split at ok
  · cases ok
  · next few =>
    cases ok
    refine ⟨project, relativePath, _, children, projected, normal, looked, here, fun none => ?_,
      fun some => allowed_below some unprotected, entries, read, Nat.le_of_not_lt few, rfl⟩
    rw [none, alone none]
    rfl

theorem read_reachable {data : Data} (dir : isDir t [])
    (ok : readWorkspaceFile s t projectPath path = .ok data) : ∃ found path content revision size file,
      data = .content found path content revision size ∧ Reachable s t found ∧ find t found = some (.file file) ∧
      decode file.bytes = some content := by
  obtain ⟨project, projected, ok⟩ := bind_ok ok
  obtain ⟨relativePath, normal, ok⟩ := bind_ok ok
  obtain ⟨resolved, existing, ok⟩ := bind_ok ok
  obtain ⟨⟨found, file, content⟩, read, ok⟩ := bind_ok ok
  cases ok
  obtain ⟨rooted, canonical, limit⟩ := project_found dir projected
  have plain : Plain (project ++ relativePath) := fun name member =>
    (mem_append.mp member).elim (canonical.plain name) ((normalized normal).1 name)
  obtain ⟨n, rest, _, here, there, rfl, alone, unprotected, kind⟩ := existing_found dir plain existing
  obtain ⟨rfl, contained, decoded⟩ := read_found here limit read
  refine ⟨_, _, content, _, _, file, rfl, ⟨here, _, rooted, allowed_below (fun none => ?_) unprotected⟩, contained, decoded⟩
  -- The root of all files is no file.
  rw [none, alone none] at contained
  cases contained.symm.trans (is_dir_iff.mp dir)

theorem current_real {destination : Path} {baseRevision : String} {create : Bool} {existing : Option File}
    (located : locate s t destination = some destination) (answers : s.refuses (.lstat destination) = false)
    (ok : current s t destination baseRevision create = .ok existing) (target : String) :
    find t destination ≠ some (.link target) := by
  intro link
  have stat : lstatSync s t destination = .ok (.link target) := by
    simp only [lstatSync, answers, located, bind_some, link]
    rfl
  simp only [current, stat] at ok
  cases ok

theorem check_found {content baseRevision : Value} {create : Bool} {save : Save} (dir : isDir t [])
    (ok : checkWrite s t projectPath path content baseRevision create = .ok save) : s.linkLimit ≠ 0 ∧
      Canonical t save.parent ∧ Writable s t save.destination ∧ ∃ name, save.destination = save.parent ++ [name] ∧
      (name ≠ "" ∧ name ≠ "." ∧ name ≠ "..") ∧ '/' ∉ name.toList := by
  obtain ⟨project, projected, ok⟩ := bind_ok ok
  obtain ⟨relativePath, normal, ok⟩ := bind_ok ok
  split at ok
  · split at ok
    · obtain ⟨parent, existing, ok⟩ := bind_ok ok
      obtain ⟨_, same, ok⟩ := bind_ok ok
      obtain ⟨file, existed, ok⟩ := bind_ok ok
      split at ok
      · cases ok
      · cases ok
        obtain ⟨rooted, canonical, limit⟩ := project_found dir projected
        obtain ⟨plain, unprotected, some, proper⟩ := normalized normal
        have plains : Plain (project ++ relativePath.dropLast) := fun name member =>
          (mem_append.mp member).elim (canonical.plain name) fun later => plain name (dropLast_subset _ later)
        obtain ⟨n, rest, _, here, _⟩ := existing_found dir plains existing
        have above : (project ++ relativePath).dropLast = parent := by simpa using demand_ok same
        have whole : project ++ relativePath = parent ++ [relativePath.getLast (some rfl)] := by
          rw [← above, dropLast_append_of_ne_nil (some rfl), append_assoc, dropLast_append_getLast]
        have last := getLast_mem (some rfl)
        refine ⟨limit, here, ⟨above ▸ here, ⟨_, rooted, ?_⟩, fun answers target => ?_⟩, _, whole, proper _ last,
          plain _ last⟩
        · show Allowed project.dropLast (project ++ relativePath)
          by_cases none : project = []
          · subst none
            cases relativePath with
            | nil => exact absurd rfl (some rfl)
            | cons name rest => exact ⟨name, rest, rfl, fun segment member => unprotected segment (mem_cons_of_mem name member)⟩
          · exact allowed_below none unprotected
        · refine current_real ?_ answers existed target
          rw [whole]
          exact locate_self here limit
    · cases ok
  · cases ok

end Parts

section Saves
variable {s : System} {t : Files} {save : Save} {name : String}
variable {after : Files}

theorem temporary_parent (s : System) (save : Save) : ∃ hidden, temporary s save = save.parent ++ [hidden] := ⟨_, rfl⟩

def stored (s : System) (save : Save) : File := ⟨save.mode &&& (0o777 ^^^ s.umask), save.bytes⟩

structure Commits (s : System) (t : Files) (save : Save) : Prop where
  works : ∀ call ∈ [Call.create, .write, .sync, .rename], s.refuses call = false
  directory : isDir t save.parent
  free : find t (temporary s save) = none
  replaceable : isDir t save.destination = false

structure Changed (s : System) (t after : Files) (save : Save) : Prop where
  others : ∀ p, p ≠ save.destination → p ≠ temporary s save → find after p = find t p
  made : find after (temporary s save) = find t (temporary s save) ∨ find t (temporary s save) = none

theorem changed_none (s : System) (t : Files) (save : Save) : Changed s t t save := ⟨fun _ _ _ => rfl, Or.inl rfl⟩

theorem changed_canonical (changed : Changed s t after save) (canonical : Canonical t save.parent)
    (named : save.destination = save.parent ++ [name]) : Canonical after save.parent := by
  have beside : ∀ (q : Path) (other : String), q <+: save.parent → q ≠ save.parent ++ [other] := by
    rintro q other under rfl
    have short := under.length_le
    rw [length_append, length_singleton] at short
    omega
  refine canonical_same (fun q under => changed.others q ?_ ?_) canonical
  · rw [named]
    exact beside q name under
  · exact beside q _ under

theorem temporary_apart (named : save.destination = save.parent ++ [name]) : save.destination ≠ temporary s save := by
  intro same
  rw [temporary, named] at same
  have names := append_cancel_left same
  have longer := congrArg String.length (head_eq_of_cons_eq names)
  have tail : ".tmp".length = 4 := rfl
  simp only [String.length_append, getLast?_append_of_ne_nil _ (cons_ne_nil name []), getLast?_singleton, getD_some, tail] at longer
  omega

section
variable (canonical : Canonical t save.parent) (limit : s.linkLimit ≠ 0) (named : save.destination = save.parent ++ [name])
include canonical limit named

theorem persist_outcome {ok : Bool} (persisted : persist s t save = (after, ok)) : Changed s t after save ∧
    ((Commits s t save ∧ ok = !s.refuses .syncParent ∧ find after (temporary s save) = find t (temporary s save) ∧
        find after save.destination = some (.file (stored s save))) ∨
      (¬ Commits s t save ∧ ok = false ∧ find after save.destination = find t save.destination)) := by
  have nonroot : temporary s save ≠ [] := by simp [temporary]
  have apart : save.destination ≠ temporary s save := temporary_apart named
  have located : locate s t (temporary s save) = some (temporary s save) := locate_self canonical limit
  have above : (temporary s save).dropLast = save.parent := by simp [temporary]
  unfold persist at persisted
  split at persisted
  · next refused =>
    cases persisted
    exact ⟨changed_none s t save, .inr ⟨fun commits => by simp [commits.works] at refused, rfl, rfl⟩⟩
  · rw [located] at persisted
    simp only at persisted
    split at persisted
    · next none =>
      cases persisted
      refine ⟨changed_none s t save, .inr ⟨fun commits => ?_, rfl, rfl⟩⟩
      have free : (get t (temporary s save)).isNone := by simpa [find] using commits.free
      simp [make, above, commits.directory, free] at none
    · next opened makes =>
      have made := find_made_bare makes nonroot fun q below => bare_leaf rfl below
      have absent : find t (temporary s save) = none := by simp [find, (make_parts makes).2.1]
      have found : get opened (temporary s save) = some (.file ⟨save.mode &&& (0o777 ^^^ s.umask), []⟩) := by
        have here := get_made makes nonroot []
        rwa [append_nil] at here
      have written := @find_exchanged_leaf _ _ _ _ (.file (stored s save)) found nonroot rfl rfl
      have before : ∀ q, find (set opened (temporary s save) (some (.file (stored s save)))) q =
          if q = temporary s save then some (.file (stored s save)) else find t q := by
        intro q
        rw [written, made]
        split <;> rfl
      split at persisted
      · next refused =>
        cases persisted
        refine ⟨⟨fun p _ other => by rw [made, if_neg other], .inr absent⟩, .inr ⟨fun commits => ?_, rfl, ?_⟩⟩
        · simp [commits.works] at refused
        · rw [made, if_neg apart]
      · change (if _ then (set opened (temporary s save) (some (.file (stored s save))), false) else
          replaceFile s (set opened (temporary s save) (some (.file (stored s save)))) save) = _ at persisted
        generalize set opened (temporary s save) (some (.file (stored s save))) = tree at *
        have there : find tree save.destination = find t save.destination := (before _).trans (if_neg apart)
        have changed : Changed s t tree save := ⟨fun p _ other => (before p).trans (if_neg other), .inr absent⟩
        have here := changed_canonical changed canonical named
        have source : locate s tree (temporary s save) = some (temporary s save) := locate_self here limit
        have target : locate s tree save.destination = some save.destination := by
          rw [named]
          exact locate_self here limit
        split at persisted
        · next refused =>
          cases persisted
          exact ⟨changed, .inr ⟨fun commits => by simp [commits.works] at refused, rfl, there⟩⟩
        · unfold replaceFile at persisted
          split at persisted
          · next refused =>
            cases persisted
            exact ⟨changed, .inr ⟨fun commits => by simp [commits.works] at refused, rfl, there⟩⟩
          · rw [source, target] at persisted
            simp only at persisted
            obtain ⟨moved, found, file⟩ : ∃ moved, get tree (temporary s save) = some moved ∧ isDir moved [] = false := by
              have here := before (temporary s save)
              rw [if_pos rfl] at here
              obtain ⟨moved, found, same⟩ := map_eq_some_iff.mp here
              exact ⟨moved, found, by cases moved <;> first | rfl | cases same⟩
            split at persisted
            · next renamed =>
              have leaf : isDir tree (temporary s save) = false := by
                unfold isDir
                rw [found]
                cases moved <;> first | rfl | cases file
              have finds := find_renamed_leaf renamed (by simp [named]) nonroot leaf
              cases persisted
              refine ⟨⟨fun p destination other => ?_, .inr absent⟩, .inl ⟨⟨by simp_all, ?_, absent, ?_⟩, rfl, ?_, ?_⟩⟩
              · rw [finds, if_neg destination, if_neg other, before, if_neg other]
              · exact above ▸ (make_parts makes).1
              · rw [Bool.eq_false_iff, ne_eq, is_dir_iff, ← there, ← is_dir_iff]
                intro dir
                obtain ⟨entries, covers⟩ := get_dir dir
                obtain ⟨other, also, -, -, covered, -⟩ := rename_parts renamed
                cases found.symm.trans also
                simp [replaces, covers, file] at covered
              · rw [finds, if_neg apart.symm, if_pos rfl, absent]
              · rw [finds, if_pos rfl, before, if_pos rfl]
            · next failed =>
              obtain ⟨same, rfl⟩ := Prod.mk.inj persisted
              subst same
              refine ⟨changed, .inr ⟨fun commits => ?_, rfl, there⟩⟩
              have beside : ¬ temporary s save <+: save.destination := fun under =>
                apart (under.eq_of_length (by simp [temporary, named])).symm
              have directory : isDir tree save.destination.dropLast := by
                rw [is_dir_iff, named, dropLast_concat, before, if_neg (by simp [temporary]), ← is_dir_iff]
                exact commits.directory
              have covered : replaces moved (get tree save.destination) := by
                have plain := commits.replaceable
                rw [Bool.eq_false_iff, ne_eq, is_dir_iff, ← there, ← is_dir_iff] at plain
                unfold isDir at plain
                unfold replaces
                split <;> simp_all
              simp [rename, found, beside, directory, covered] at failed

end

theorem unlink_others {p : Path} (located : locate s t p = some p) (nonroot : p ≠ []) :
    (∀ q, q ≠ p → find (unlinkSync s t p) q = find t q) ∧
      (find (unlinkSync s t p) p = find t p ∨ find (unlinkSync s t p) p = none) := by
  unfold unlinkSync
  split
  · exact ⟨fun _ _ => rfl, Or.inl rfl⟩
  · rw [located]
    simp only
    split
    · exact ⟨fun _ _ => rfl, Or.inl rfl⟩
    · exact ⟨fun _ _ => rfl, Or.inl rfl⟩
    · next differs found =>
      refine ⟨fun q other => ?_, Or.inr ?_⟩
      · rw [find_removed nonroot]
        split
        · next under =>
          obtain ⟨rest, rfl⟩ := under
          have leaf : isDir t p = false := by
            rw [Bool.eq_false_iff, ne_eq, is_dir_iff]
            exact fun dir => differs (some.inj (found.symm.trans dir))
          exact (find_leaf leaf (by simpa using other)).symm
        · rfl
      · rw [find_removed nonroot, if_pos (prefix_refl p)]

theorem stat_saved {file : File} (canonical : Canonical after save.parent) (limit : s.linkLimit ≠ 0)
    (named : save.destination = save.parent ++ [name]) (proper : name ≠ "" ∧ name ≠ "." ∧ name ≠ "..")
    (plain : '/' ∉ name.toList) (found : find after save.destination = some (.file file)) :
    statSync s after save.destination = .ok (.file file) := by
  have here : Canonical after save.destination := by
    rw [named] at found ⊢
    exact canonical_last canonical proper plain found fun target absurd => by cases absurd
  unfold statSync
  rw [namei_self here limit, bind_some, found]

theorem write_safe {projectPath path content baseRevision : Value} {create : Bool} {result : Result Data}
    (dir : isDir t []) (done : writeWorkspaceFile s t projectPath path content baseRevision create = (after, result)) :
    (after = t ∧ ∃ thrown, result = .error thrown) ∨ ∃ destination, Writable s t destination ∧
      (((∃ path revision size created, result = .ok (.saved path revision size created)) ∧
          ∀ p, find after p ≠ find t p → p = destination) ∨
        ((∃ message, result = fail "write_failed" message) ∧ ∀ p, find after p ≠ find t p → p = destination ∨
          (p.dropLast = destination.dropLast ∧ (find t p = none ∨ find after p = none)))) := by
  unfold writeWorkspaceFile at done
  split at done
  · next thrown _ =>
    cases done
    exact Or.inl ⟨rfl, thrown, rfl⟩
  · next save checked =>
    obtain ⟨limit, canonical, writable, name, named, proper, plain⟩ := check_found dir checked
    refine Or.inr ⟨save.destination, writable, ?_⟩
    have beside : (temporary s save).dropLast = save.destination.dropLast := by
      obtain ⟨hidden, same⟩ := temporary_parent s save
      rw [same, named, dropLast_concat, dropLast_concat]
    split at done
    · next persisted =>
      cases done
      have changed := (persist_outcome canonical limit named persisted).1
      have located := @locate_self _ _ _ ("." ++ save.destination.getLast?.getD "" ++ ".pie-" ++ s.uuid ++ ".tmp")
        (changed_canonical changed canonical named) limit
      obtain ⟨others, gone⟩ := unlink_others located (by simp)
      refine Or.inr ⟨⟨_, rfl⟩, fun p differs => ?_⟩
      by_cases here : p = save.destination
      · exact Or.inl here
      · by_cases made : p = temporary s save
        · subst made
          refine Or.inr ⟨beside, ?_⟩
          rcases gone with same | removed
          · exact Or.inl (changed.made.resolve_left fun before => differs (same.trans before))
          · exact Or.inr removed
        · exact absurd ((others p made).trans (changed.others p here made)) differs
    · next persisted =>
      obtain ⟨changed, outcome⟩ := persist_outcome canonical limit named persisted
      obtain ⟨-, -, cleaned, found⟩ := outcome.resolve_right fun failed => absurd failed.2.1 Bool.noConfusion
      rw [stat_saved (changed_canonical changed canonical named) limit named proper plain found] at done
      cases done
      refine Or.inl ⟨⟨_, _, _, _, rfl⟩, fun p differs => ?_⟩
      by_contra other
      by_cases made : p = temporary s save
      · subst made
        exact differs cleaned
      · exact differs (changed.others p other made)

end Saves

section Requests
variable {s : System} {t : Files} {request : Request}

theorem safe_unchanged {outcome : Except WorkspaceError Data}
    (listed : ∀ found path entries, outcome = .ok (.listing found path entries) → Reachable s t found ∧
      ∃ children, get t found = some (.dir children) ∧ ∀ e ∈ entries, e.name ∈ children.map Prod.fst)
    (read : ∀ found path content revision size, outcome = .ok (.content found path content revision size) →
      Reachable s t found ∧ ∃ file, find t found = some (.file file) ∧ decode file.bytes = some content) :
    Safe s t t outcome := ⟨listed, read, Or.inl rfl, fun _ _ _ => rfl⟩

theorem safe_refused (error : WorkspaceError) : Safe s t t (.error error) :=
  safe_unchanged nofun nofun

theorem safe_thrown (thrown : Thrown) : Safe s t t (outcomeOf (.error thrown)) := by
  cases thrown with
  | workspace error => exact safe_refused error
  | system => exact safe_refused _

theorem safe_write {after : Files} {result : Result Data} (dir : isDir t [])
    (done : writeWorkspaceFile s t request.projectPath request.path request.content request.baseRevision request.create =
      (after, result)) : Safe s t after (outcomeOf result) := by
  rcases write_safe dir done with ⟨rfl, thrown, rfl⟩ | ⟨destination, writable, ⟨⟨path, revision, size, created, rfl⟩, only⟩ |
    ⟨⟨message, rfl⟩, only⟩⟩
  · exact safe_thrown thrown
  · refine ⟨nofun, nofun,
      Or.inr ⟨destination, writable, fun p differs => Or.inl (only p differs)⟩, fun error absurd => by cases absurd⟩
  · refine ⟨nofun, nofun, Or.inr ⟨destination, writable, fun p differs => ?_⟩, fun error same other => ?_⟩
    · rcases only p differs with here | beside
      · exact Or.inl here
      · exact Or.inr ⟨⟨_, rfl, rfl⟩, beside⟩
    · cases same
      exact absurd rfl other

theorem safe_list (dir : isDir t []) (identified : ((textOf request.requestId).getD "" ≠ "" ∧
    utf16Length ((textOf request.requestId).getD "") ≤ 160)) (lists : (textOf request.operation).getD "" = "list")
    (elsewhere : ¬ listsRoot s t request) : Safe s t t (outcomeOf (listWorkspace s t request.projectPath request.path)) := by
  cases result : listWorkspace s t request.projectPath request.path with
  | error thrown => exact safe_thrown thrown
  | ok =>
    obtain ⟨project, relativePath, found, children, projected, normal, looked, here, alone, below, entries, read, few, rfl⟩ :=
      list_found dir result
    obtain ⟨rooted, _⟩ := project_found dir projected
    refine safe_unchanged (fun other path shows same => ?_) nofun
    cases same
    have some : project ≠ [] := by
      intro none
      rw [alone none] at looked read few
      rw [none] at projected looked
      exact elsewhere ⟨identified, lists, projected, relativePath, normal, looked, _, read, few⟩
    refine ⟨⟨here, _, rooted, below some⟩, children, entries, fun e member => ?_⟩
    obtain ⟨name, inside, shows⟩ := mem_filterMap.mp member
    rw [shown_name shows]
    exact inside

theorem safe_read (dir : isDir t []) : Safe s t t (outcomeOf (readWorkspaceFile s t request.projectPath request.path)) := by
  cases result : readWorkspaceFile s t request.projectPath request.path with
  | error thrown => exact safe_thrown thrown
  | ok =>
    obtain ⟨found, path, content, revision, size, file, rfl, reachable, there, decoded⟩ := read_reachable dir result
    refine safe_unchanged nofun fun other path' content' revision' size' same => ?_
    cases same
    exact ⟨reachable, file, there, decoded⟩

/-- The root of all files is listed where it is the workspace root and the project. -/
theorem lists_root (lists : listsRoot s t request) : ∃ path entries,
    perform s t request = (t, .ok (.listing [] path entries)) := by
  obtain ⟨⟨identified, short⟩, operation, projected, relativePath, normal, looked, names, read, few⟩ := lists
  have listed : listWorkspace s t request.projectPath request.path =
      .ok (.listing [] (joined relativePath) (names.filterMap (shown s t [] relativePath))) := by
    have existing : resolveExisting s t [] relativePath .directory = .ok [] := by
      simp only [resolveExisting, looked]
      rfl
    unfold listWorkspace
    simp only [projected, normal, existing, read, bind, Except.bind, if_neg (Nat.not_lt.mpr few)]
  refine ⟨joined relativePath, names.filterMap (shown s t [] relativePath), ?_⟩
  unfold perform
  simp only [operation, listed]
  rw [if_neg (by simp [identified, short])]

/-- What a request returns, replaces or lists is inside a project and unprotected, a request that is refused changes
    nothing, and the one exception is the list of the root of all files. -/
theorem requests_contained (dir : isDir t []) :
    Safe s t (handleWorkspaceRequest s t request).1 (handleWorkspaceRequest s t request).2.outcome ↔
      ¬ listsRoot s t request := by
  show Safe s t (perform s t request).1 (outcomeOf (perform s t request).2) ↔ _
  constructor
  · intro safe lists
    obtain ⟨path, entries, performed⟩ := lists_root lists
    rw [performed] at safe
    obtain ⟨⟨_, root, _, project, rest, same, _⟩, _⟩ := safe.listed [] path entries rfl
    simp at same
  · intro elsewhere
    unfold perform
    simp only
    split
    · exact safe_refused _
    · next identified =>
      simp only [Bool.or_eq_true, decide_eq_true_eq, not_or, Nat.not_lt] at identified
      split
      · next lists => exact safe_list dir identified lists elsewhere
      · exact safe_read dir
      · exact safe_write dir rfl
      · exact safe_refused _

end Requests

/-! A project whose `.env` is not listed, and a workspace that is the root of all files. -/

def system (root : String) : System := ⟨root, "/", 40, fun _ => false, fun _ => "", "0", 0o022⟩

def listing (project : String) : Request :=
  ⟨.text "1", .text "list", .text project, .absent, .absent, .absent, false⟩

def projectFiles : Files :=
  .dir [("projects", .dir [("a", .dir [(".env", .file ⟨0o600, []⟩), ("main.ts", .file ⟨0o644, [97]⟩), ("up", .link "/")])])]

def answered : Data → Option (Path × List (String × Bool))
  | .listing found _ entries => some (found, entries.map fun e => (e.name, e.directory))
  | _ => none

theorem outcome_ok {outcome : Except WorkspaceError Data} {data : Data} (answers : outcome.toOption = some data) :
    outcome = .ok data := by
  cases outcome with
  | error => cases answers
  | ok => exact congrArg Except.ok (some.inj answers)

theorem lists_project : Safe (system "/projects") projectFiles projectFiles
    (handleWorkspaceRequest (system "/projects") projectFiles (listing "/projects/a")).2.outcome ∧
    (handleWorkspaceRequest (system "/projects") projectFiles (listing "/projects/a")).2.outcome.toOption.bind answered =
      some (["projects", "a"], [("main.ts", false)]) := by
  refine ⟨(@requests_contained (system "/projects") projectFiles (listing "/projects/a") rfl).mpr ?_, by decide +kernel⟩
  rintro ⟨_, _, projected, _⟩
  have found : (resolveProjectRoot (system "/projects") projectFiles (listing "/projects/a").projectPath).toOption =
      some ["projects", "a"] := by decide +kernel
  rw [projected] at found
  cases found

/-- Where the workspace root is the root of all files, the root passes for a project of its own. -/
theorem lists_everything : ¬ ∀ (s : System) (t : Files) (request : Request), isDir t [] →
    Safe s t (handleWorkspaceRequest s t request).1 (handleWorkspaceRequest s t request).2.outcome := by
  intro claimed
  have shows : (handleWorkspaceRequest (system "/") projectFiles (listing "/")).2.outcome.toOption.bind answered =
      some ([], [("projects", true)]) := by decide +kernel
  obtain ⟨data, answer, seen⟩ := bind_eq_some_iff.mp shows
  cases data with
  | listing found path entries =>
    simp only [answered, some.injEq, Prod.mk.injEq] at seen
    have safe := claimed (system "/") projectFiles (listing "/") rfl
    obtain ⟨⟨_, root, _, project, rest, same, _⟩, _⟩ := safe.listed found path entries (outcome_ok answer)
    rw [seen.1] at same
    simp at same
  | content | saved => cases seen

end PieRelay.Workspace
