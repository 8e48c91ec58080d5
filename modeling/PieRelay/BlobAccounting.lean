import PieRelay.BlobStore

/-!
What a user's uploads take up. The lock of a user lets one call at its files; the usage in memory follows the files from
the moment that it is known.
-/
namespace PieRelay.BlobAccounting
open List Option
open Admission (load total load_erase load_insert)
open BlobStore
open ControlPlane (Table)
open Executions
open JsonScanner (Bytes)

def size (dir : Directory) : Nat := load length dir

structure Settled (o : Options) (dir : Directory) (used : Option Nat) : Prop where
  known : ∀ n, used = some n → n = size dir
  user : size dir ≤ o.maxUser
  file : ∀ name content, dir.lookup name = some content → content.length ≤ o.maxFile

def Same (dir other : Directory) : Prop := ∀ name, dir.lookup name = other.lookup name

def Found (kind : Kind) (dir : Directory) (size : Nat) : Prop :=
  ∀ name, kind = .delete name → ∃ content, dir.lookup name = some content ∧ content.length = size

def sizes (dir : Directory) (names : List String) : Nat :=
  total (fun name => (dir.lookup name).elim 0 length) names

def Fine (o : Options) (call : Call) (dir : Directory) (used : Option Nat) : Prop :=
  match call.stage with
  | .waiting => True
  | .locked => Settled o dir used ∧ Same dir call.before
  | .counting n => Settled o dir used ∧ Same dir call.before ∧ Found call.kind dir n
  | .scanning n rest sum =>
    Settled o dir used ∧ Same dir call.before ∧ Found call.kind dir n ∧ sum + sizes dir rest = size dir
  | .counted n x => Settled o dir used ∧ Same dir call.before ∧ Found call.kind dir n ∧ x = size dir
  | .copying x limit file => (∀ n, used = some n → n = x) ∧ limit ≤ o.maxFile ∧ x + limit ≤ o.maxUser ∧
      (∃ content, dir.lookup file = some content ∧ size dir = x + content.length) ∧ call.before.lookup file = none ∧
      (∀ name, name ≠ file → dir.lookup name = call.before.lookup name) ∧
      ∀ name content, call.before.lookup name = some content → content.length ≤ o.maxFile
  | .copied x count => size dir = x + count ∧ Settled o dir none
  | .removed n x => size dir + n = x ∧ Settled o dir none

structure Sound (o : Options) (w : World) : Prop where
  owner : ∀ id call, w.calls.lookup id = some call → call.stage ≠ .waiting → w.locks (userLock call.user) = some id
  quiet : ∀ user, (∀ id call, w.calls.lookup id = some call → call.user = user → call.stage = .waiting) →
    Settled o (files w user) (w.usage.lookup user)
  busy : ∀ id call, w.calls.lookup id = some call → Fine o call (files w call.user) (w.usage.lookup call.user)

section Files
variable {dir : Directory}

theorem size_erase {name : String} {content : Bytes} (there : dir.lookup name = some content) :
    size (dir.erase name) + content.length = size dir := by
  have less := load_erase length dir name
  rw [there] at less
  exact less

theorem size_insert {name : String} (absent : dir.lookup name = none) (content : Bytes) :
    size (dir.insert name content) = size dir + content.length := by
  have more := load_insert length dir name content
  rw [absent] at more
  exact more

theorem size_replace {name : String} {content : Bytes} (there : dir.lookup name = some content) (other : Bytes) :
    size (dir.insert name other) + content.length = size dir + other.length := by
  have more := load_insert length dir name other
  rw [there] at more
  exact more

theorem sizes_keys (dir : Directory) : sizes dir dir.keys = size dir := by
  have each : ∀ entry ∈ dir.entries, (dir.lookup entry.1).elim 0 length = entry.2.length := by
    intro entry member
    have there : dir.lookup entry.1 = some entry.2 := AList.mem_lookup_iff.mpr member
    rw [there]
    rfl
  have split : ∀ entries : List (Sigma fun _ : String => Bytes),
      (∀ entry ∈ entries, (dir.lookup entry.1).elim 0 length = entry.2.length) →
      total (fun name => (dir.lookup name).elim 0 length) (entries.map Sigma.fst) =
        total length (entries.map Sigma.snd) := by
    intro entries
    induction entries with
    | nil => intro _; rfl
    | cons entry entries ih =>
      intro known
      have later := ih fun other member => known other (mem_cons_of_mem entry member)
      rw [map_cons, map_cons, total, total, later, known entry mem_cons_self]
  exact split dir.entries each

theorem settled_known {o : Options} {used : Option Nat} (settled : Settled o dir used) {n : Nat} (right : n = size dir) :
    Settled o dir (some n) :=
  ⟨fun _ here => (some.inj here).symm.trans right, settled.user, settled.file⟩

theorem settled_erase {o : Options} {used : Option Nat} (settled : Settled o dir used) (name : String) :
    Settled o (dir.erase name) none := by
  refine ⟨fun n absent => (by cases absent), ?_, fun other content there => ?_⟩
  · have less : size (dir.erase name) + _ = size dir := load_erase length dir name
    exact Nat.le_trans (Nat.le_of_add_right_le (Nat.le_of_eq less)) settled.user
  · exact settled.file other content (ControlPlane.lookup_of_erase there)

end Files

section Calls
variable {o : Options} {w : World}

structure Only (w next : World) (user : String) : Prop where
  dirs : ∀ other, other ≠ user → next.dirs other = w.dirs other
  usage : ∀ other, other ≠ user → next.usage.lookup other = w.usage.lookup other

theorem only_refl (w : World) (user : String) : Only w w user := ⟨fun _ _ => rfl, fun _ _ => rfl⟩

theorem only_files {next : World} {user other : String} (only : Only w next user) (apart : other ≠ user) :
    files next other = files w other := by
  rw [files, files, only.dirs other apart]

theorem alone (sound : Sound o w) {id other : Nat} {call theirs : Call} (here : w.calls.lookup id = some call)
    (busy : call.stage ≠ .waiting) (there : w.calls.lookup other = some theirs) (same : theirs.user = call.user)
    (apart : other ≠ id) : theirs.stage = .waiting := by
  by_contra active
  have mine := sound.owner id call here busy
  have locked := sound.owner other theirs there active
  rw [same] at locked
  exact apart (some.inj (locked.symm.trans mine))

theorem sound_on (sound : Sound o w) {next : World} {id : Nat} {call after : Call} (here : w.calls.lookup id = some call)
    (busy : call.stage ≠ .waiting) (still : after.stage ≠ .waiting) (user : after.user = call.user)
    (calls : next.calls = w.calls.insert id after) (locks : next.locks = w.locks) (only : Only w next call.user)
    (fine : Fine o after (files next call.user) (next.usage.lookup call.user)) : Sound o next := by
  have others {other : Nat} {theirs : Call} (there : next.calls.lookup other = some theirs) (apart : other ≠ id) :
      w.calls.lookup other = some theirs := by
    rw [calls, AList.lookup_insert_ne apart] at there
    exact there
  have mine : next.calls.lookup id = some after := by rw [calls, AList.lookup_insert]
  constructor
  · intro other theirs there active
    rw [locks]
    by_cases same : other = id
    · subst same
      cases mine.symm.trans there
      rw [user]
      exact sound.owner other call here busy
    · exact sound.owner other theirs (others there same) active
  · intro owner idle
    have apart : owner ≠ call.user := by
      rintro rfl
      exact still (idle id after mine user)
    rw [only_files only apart, only.usage owner apart]
    refine sound.quiet owner fun other theirs there same => ?_
    by_cases equal : other = id
    · subst equal
      cases here.symm.trans there
      exact absurd same.symm apart
    · exact idle other theirs (by rw [calls, AList.lookup_insert_ne equal, there]) same
  · intro other theirs there
    by_cases same : other = id
    · subst same
      cases mine.symm.trans there
      rw [user]
      exact fine
    · have before := others there same
      by_cases shared : theirs.user = call.user
      · rw [Fine, alone sound here busy before shared same]
        trivial
      · rw [only_files only shared, only.usage _ shared]
        exact sound.busy other theirs before

theorem sound_return (sound : Sound o w) {next : World} {id : Nat} {call : Call} (here : w.calls.lookup id = some call)
    (busy : call.stage ≠ .waiting) (calls : next.calls = w.calls.erase id)
    (locks : next.locks = Function.update w.locks (userLock call.user) none) (only : Only w next call.user)
    (settled : Settled o (files next call.user) (next.usage.lookup call.user)) : Sound o next := by
  have others {other : Nat} {theirs : Call} (there : next.calls.lookup other = some theirs) :
      other ≠ id ∧ w.calls.lookup other = some theirs := by
    rw [calls] at there
    have apart : other ≠ id := by
      rintro rfl
      cases (AList.lookup_erase other w.calls).symm.trans there
    exact ⟨apart, (AList.lookup_erase_ne apart).symm.trans there⟩
  constructor
  · intro other theirs there active
    obtain ⟨apart, before⟩ := others there
    have locked := sound.owner other theirs before active
    rw [locks, Function.update_of_ne, locked]
    intro same
    rw [same, sound.owner id call here busy] at locked
    exact apart (some.inj locked).symm
  · intro owner idle
    by_cases mine : owner = call.user
    · subst mine
      exact settled
    · rw [only_files only mine, only.usage owner mine]
      refine sound.quiet owner fun other theirs there same => ?_
      by_cases equal : other = id
      · subst equal
        cases here.symm.trans there
        exact absurd same.symm mine
      · exact idle other theirs (by rw [calls, AList.lookup_erase_ne equal, there]) same
  · intro other theirs there
    obtain ⟨apart, before⟩ := others there
    by_cases shared : theirs.user = call.user
    · rw [Fine, alone sound here busy before shared apart]
      trivial
    · rw [only_files only shared, only.usage _ shared]
      exact sound.busy other theirs before

structure Moves (o : Options) (w next : World) (id : Nat) (call : Call) : Prop where
  sound : Sound o next
  only : Only w next call.user
  failed : ∀ name, call.kind = .save name → next.results = (id, false) :: w.results → Same (files next call.user) call.before

theorem set_files (w : World) (user : String) (dir : Directory) : files (setDirectory w user dir) user = dir := by
  show (Function.update w.dirs user (some dir) user).getD ∅ = dir
  rw [Function.update_self, getD_some]

theorem set_only (w : World) (user : String) (dir : Directory) : Only w (setDirectory w user dir) user :=
  ⟨fun _ apart => Function.update_of_ne apart _ _, fun _ _ => rfl⟩

theorem usage_only (w : World) (user : String) (used : Nat) : Only w { w with usage := w.usage.insert user used } user :=
  ⟨fun _ _ => rfl, fun _ apart => AList.lookup_insert_ne apart⟩

theorem grown (results : List (Nat × Bool)) (result : Nat × Bool) : results ≠ result :: results := by
  intro same
  have more := congrArg length same
  rw [length_cons] at more
  omega

theorem moves_on (sound : Sound o w) {id : Nat} {call : Call} (here : w.calls.lookup id = some call)
    (busy : call.stage ≠ .waiting) {v : World} {stage : Stage} (still : stage ≠ .waiting) (calls : v.calls = w.calls)
    (locks : v.locks = w.locks) (results : v.results = w.results) (only : Only w v call.user)
    (fine : Fine o { call with stage } (files v call.user) (v.usage.lookup call.user)) :
    Moves o w (goOn v id call stage) id call := by
  refine ⟨?_, ⟨only.dirs, only.usage⟩, fun name save same => ?_⟩
  · exact @sound_on o w sound (goOn v id call stage) id call { call with stage } here busy still rfl
      (by rw [goOn, calls]) locks ⟨only.dirs, only.usage⟩ fine
  · exact absurd (results.symm.trans same) (grown w.results (id, false))

theorem moves_return (sound : Sound o w) {id : Nat} {call : Call} (here : w.calls.lookup id = some call)
    (busy : call.stage ≠ .waiting) {v : World} {ok : Bool} (calls : v.calls = w.calls) (locks : v.locks = w.locks)
    (only : Only w v call.user)
    (settled : Settled o (files v call.user) (v.usage.lookup call.user))
    (failed : ok = false → Same (files v call.user) call.before ∨ ∀ name, call.kind ≠ .save name) :
    Moves o w (return_ v id call ok) id call := by
  refine ⟨?_, ⟨only.dirs, only.usage⟩, fun name save same => ?_⟩
  · exact @sound_return o w sound (return_ v id call ok) id call here busy (by rw [return_, calls])
      (by rw [return_, locks]) ⟨only.dirs, only.usage⟩ settled
  · have no : ok = false := by
      have first := (cons.inj same).1
      exact (Prod.mk.inj first).2
    rcases failed no with same | other
    · exact same
    · exact absurd save (other name)

theorem moves_fail (sound : Sound o w) {id : Nat} {call : Call} (here : w.calls.lookup id = some call)
    (busy : call.stage ≠ .waiting) (settled : Settled o (files w call.user) (w.usage.lookup call.user))
    (same : Same (files w call.user) call.before) : Moves o w (return_ w id call false) id call :=
  moves_return sound here busy rfl rfl (only_refl w call.user) settled fun _ => .inl same

theorem moves_lock (sound : Sound o w) {id : Nat} {call : Call} (here : w.calls.lookup id = some call)
    (idle : call.stage = .waiting) (free : w.locks (userLock call.user) = none) {stage : Stage}
    (fine : Settled o (files w call.user) (w.usage.lookup call.user) →
      Fine o { call with stage, before := files w call.user } (files w call.user) (w.usage.lookup call.user)) :
    Moves o w { w with
      locks := Function.update w.locks (userLock call.user) (some id)
      calls := w.calls.insert id { call with stage, before := files w call.user } } id call := by
  have settled : Settled o (files w call.user) (w.usage.lookup call.user) := by
    refine sound.quiet call.user fun other theirs there same => ?_
    by_contra active
    have locked := sound.owner other theirs there active
    rw [same, free] at locked
    cases locked
  refine ⟨?_, ⟨fun _ _ => rfl, fun _ _ => rfl⟩, fun name save same => absurd same (grown w.results (id, false))⟩
  constructor
  · intro other theirs there active
    change (w.calls.insert id _).lookup other = some theirs at there
    show Function.update w.locks (userLock call.user) (some id) (userLock theirs.user) = some other
    by_cases same : other = id
    · subst same
      rw [AList.lookup_insert] at there
      cases there
      exact Function.update_self _ _ _
    · rw [AList.lookup_insert_ne same] at there
      have locked := sound.owner other theirs there active
      rw [Function.update_of_ne, locked]
      intro shared
      rw [shared, free] at locked
      cases locked
  · intro owner unused
    refine sound.quiet owner fun other theirs there same => ?_
    by_cases equal : other = id
    · subst equal
      cases here.symm.trans there
      exact idle
    · exact unused other theirs ((AList.lookup_insert_ne equal).trans there) same
  · intro other theirs there
    change (w.calls.insert id _).lookup other = some theirs at there
    by_cases same : other = id
    · subst same
      rw [AList.lookup_insert] at there
      cases there
      exact fine settled
    · rw [AList.lookup_insert_ne same] at there
      exact sound.busy other theirs there

theorem found_save {kind : Kind} {name : String} (save : kind = .save name) (dir : Directory) (n : Nat) : Found kind dir n := by
  rintro other deletes
  cases save.symm.trans deletes

theorem file_stays (dir : Directory) {file name : String} (apart : name ≠ file) (content : Bytes) :
    (dir.insert file content).lookup name = dir.lookup name := AList.lookup_insert_ne apart

theorem moves_create (sound : Sound o w) {id n used : Nat} {call : Call} (here : w.calls.lookup id = some call)
    (stage : call.stage = .counted n used) (name random : String) (made ok : Bool) :
    Moves o w (create o w id call name used random made ok) id call := by
  have busy : call.stage ≠ .waiting := by
    rw [stage]
    rintro ⟨⟩
  have fine := sound.busy id call here
  rw [Fine, stage] at fine
  obtain ⟨settled, same, _, right⟩ := fine
  unfold create
  split
  · exact moves_fail sound here busy settled same
  · next room =>
    dsimp only
    rw [set_files]
    have opens := set_only w call.user (files w call.user)
    split
    · refine moves_return sound here busy rfl rfl opens ?_ fun _ => .inl ?_
      · rw [set_files]
        exact settled
      · rw [set_files]
        exact same
    · next new =>
      have absent : (files w call.user).lookup (fileName random name) = none := by
        by_contra present
        exact new (.inr (isSome_iff_ne_none.mpr present))
      have space : used < o.maxUser := Nat.lt_of_not_le fun full => room (.inl full)
      refine moves_on (v := setDirectory (setDirectory w call.user (files w call.user)) call.user _) sound here busy
        nofun rfl rfl rfl ⟨fun other apart => ?_, fun _ _ => rfl⟩ ?_
      · rw [(set_only _ call.user _).dirs other apart, opens.dirs other apart]
      · rw [set_files]
        refine ⟨fun m known => (settled.known m known).trans right.symm, Nat.min_le_left _ _, ?_, ⟨[], ?_, ?_⟩, ?_, ?_, ?_⟩
        · omega
        · exact AList.lookup_insert _
        · rw [size_insert absent, right, length_nil]
        · exact (same _).symm.trans absent
        · exact fun other apart => (file_stays _ apart []).trans (same other)
        · exact fun other content there => settled.file other content ((same other).trans there)

theorem moves_usage (sound : Sound o w) {id n : Nat} {call : Call} (here : w.calls.lookup id = some call)
    (stage : call.stage = .counting n) {ok : Bool} {next : World}
    (stepped : stepCall o w id call (.usage id ok) = some next) : Moves o w next id call := by
  have busy : call.stage ≠ .waiting := by
    rw [stage]
    rintro ⟨⟩
  have fine := sound.busy id call here
  rw [Fine, stage] at fine
  obtain ⟨settled, same, found⟩ := fine
  dsimp only [stepCall] at stepped
  rw [stage] at stepped
  dsimp only at stepped
  split at stepped
  · next used known =>
    cases stepped
    exact moves_on sound here busy nofun rfl rfl rfl (only_refl w _) ⟨settled, same, found, settled.known used known⟩
  · next missing =>
    cases stepped
    split
    · have empty : files w call.user = ∅ := by rw [files, missing, getD_none]
      have nothing : 0 = size (files w call.user) := by
        rw [empty]
        rfl
      exact moves_on sound here busy nofun rfl rfl rfl (only_refl w _) ⟨settled, same, found, nothing⟩
    · exact moves_fail sound here busy settled same
  · next dir unknown present =>
    cases stepped
    split
    · have mine : files w call.user = dir := by rw [files, present, getD_some]
      have all : 0 + sizes (files w call.user) dir.keys = size (files w call.user) := by
        rw [mine, Nat.zero_add, sizes_keys]
      exact moves_on sound here busy nofun rfl rfl rfl (only_refl w _) ⟨settled, same, found, all⟩
    · exact moves_fail sound here busy settled same

theorem moves_info (sound : Sound o w) {id n sum : Nat} {rest : List String} {call : Call}
    (here : w.calls.lookup id = some call) (stage : call.stage = .scanning n rest sum) {ok : Bool} {next : World}
    (stepped : stepCall o w id call (.info id ok) = some next) : Moves o w next id call := by
  have busy : call.stage ≠ .waiting := by
    rw [stage]
    rintro ⟨⟩
  have fine := sound.busy id call here
  rw [Fine, stage] at fine
  obtain ⟨settled, same, found, parts⟩ := fine
  dsimp only [stepCall] at stepped
  rw [stage] at stepped
  cases rest with
  | nil => cases stepped
  | cons name rest =>
    dsimp only at stepped
    split at stepped
    · next content there =>
      cases stepped
      have stored := (filter_eq_some_iff.mp there).1
      have split : sizes (files w call.user) (name :: rest) = content.length + sizes (files w call.user) rest := by
        rw [sizes, total, stored]
        rfl
      refine moves_on sound here busy (fun absurd => by cases absurd) rfl rfl rfl (only_refl w _) ⟨settled, same, found, ?_⟩
      rw [Nat.add_assoc, ← split]
      exact parts
    · cases stepped
      exact moves_fail sound here busy settled same

theorem moves_record (sound : Sound o w) {id n sum : Nat} {call : Call} (here : w.calls.lookup id = some call)
    (stage : call.stage = .scanning n [] sum) :
    Moves o w (goOn { w with usage := w.usage.insert call.user sum } id call (.counted n sum)) id call := by
  have busy : call.stage ≠ .waiting := by
    rw [stage]
    rintro ⟨⟩
  have fine := sound.busy id call here
  rw [Fine, stage] at fine
  obtain ⟨settled, same, found, parts⟩ := fine
  have right : sum = size (files w call.user) := parts
  refine moves_on (v := { w with usage := w.usage.insert call.user sum }) sound here busy nofun rfl rfl rfl
    (usage_only w call.user sum) ?_
  show Fine o _ (files w call.user) ((w.usage.insert call.user sum).lookup call.user)
  rw [AList.lookup_insert]
  exact ⟨settled_known settled right, same, found, right⟩

theorem moves_read (sound : Sound o w) {id used limit : Nat} {file : String} {call : Call}
    (here : w.calls.lookup id = some call) (stage : call.stage = .copying used limit file) (content : Bytes) :
    Moves o w (goOn (setDirectory w call.user ((files w call.user).insert file content)) id call
      (.copying used limit file)) id call := by
  have busy : call.stage ≠ .waiting := by
    rw [stage]
    rintro ⟨⟩
  have fine := sound.busy id call here
  rw [Fine, stage] at fine
  obtain ⟨known, little, room, ⟨before, there, sum⟩, absent, others, bounds⟩ := fine
  refine moves_on sound here busy nofun rfl rfl rfl (set_only w _ _) ?_
  rw [set_files]
  refine ⟨known, little, room, ⟨content, AList.lookup_insert _, ?_⟩, absent, fun name apart => ?_, bounds⟩
  · have more := size_replace there content
    omega
  · exact (file_stays _ apart content).trans (others name apart)

theorem moves_stop (sound : Sound o w) {id used limit : Nat} {file : String} {call : Call}
    (here : w.calls.lookup id = some call) (stage : call.stage = .copying used limit file) {ok : Bool} {next : World}
    (stepped : stepCall o w id call (.stop id ok) = some next) : Moves o w next id call := by
  have busy : call.stage ≠ .waiting := by
    rw [stage]
    rintro ⟨⟩
  have fine := sound.busy id call here
  rw [Fine, stage] at fine
  obtain ⟨known, little, room, ⟨content, there, sum⟩, absent, others, bounds⟩ := fine
  dsimp only [stepCall] at stepped
  rw [stage] at stepped
  dsimp only at stepped
  rw [there, getD_some] at stepped
  split at stepped
  · next fits =>
    cases stepped
    refine moves_on sound here busy nofun rfl rfl rfl (only_refl w _) ⟨sum, fun m unknown => ?_, ?_, ?_⟩
    · cases unknown
    · omega
    · intro name other stored
      by_cases mine : name = file
      · subst mine
        cases there.symm.trans stored
        exact Nat.le_trans fits.2 little
      · exact bounds name other ((others name mine).symm.trans stored)
  · cases stepped
    have gone := size_erase there
    have rest : size ((files w call.user).erase file) = used := by omega
    refine moves_return (v := setDirectory w call.user _) sound here busy rfl rfl (set_only w _ _) ?_ fun _ => .inl ?_
    · rw [set_files]
      refine ⟨fun m now => (known m now).trans rest.symm, by omega, fun name other stored => ?_⟩
      have mine : name ≠ file := by
        rintro rfl
        cases (AList.lookup_erase name (files w call.user)).symm.trans stored
      rw [AList.lookup_erase_ne mine] at stored
      exact bounds name other ((others name mine).symm.trans stored)
    · rw [set_files]
      intro name
      by_cases mine : name = file
      · subst mine
        exact (AList.lookup_erase name _).trans absent.symm
      · exact (AList.lookup_erase_ne mine).trans (others name mine)

theorem moves_remove (sound : Sound o w) {id n used : Nat} {name : String} {call : Call}
    (here : w.calls.lookup id = some call) (stage : call.stage = .counted n used) (kind : call.kind = .delete name)
    (ok : Bool) : Moves o w (if ok then goOn (setDirectory w call.user ((files w call.user).erase name)) id call
      (.removed n used) else return_ w id call false) id call := by
  have busy : call.stage ≠ .waiting := by
    rw [stage]
    rintro ⟨⟩
  have fine := sound.busy id call here
  rw [Fine, stage] at fine
  obtain ⟨settled, same, found, right⟩ := fine
  split
  · obtain ⟨content, there, length⟩ := found name kind
    refine moves_on sound here busy nofun rfl rfl rfl (set_only w _ _) ?_
    rw [set_files]
    refine ⟨?_, settled_erase settled name⟩
    rw [right, ← length]
    exact size_erase there
  · exact moves_fail sound here busy settled same

theorem moves_finish (sound : Sound o w) {id : Nat} {call : Call} (here : w.calls.lookup id = some call) {next : World}
    (stepped : stepCall o w id call (.finish id) = some next) : Moves o w next id call := by
  have fine := sound.busy id call here
  dsimp only [stepCall] at stepped
  split at stepped
  · next used count stage =>
    cases stepped
    rw [Fine, stage] at fine
    obtain ⟨sum, settled⟩ := fine
    refine moves_return (v := { w with usage := w.usage.insert call.user (used + count) }) sound here ?_ rfl rfl
      (usage_only w _ _) ?_ nofun
    · rw [stage]
      rintro ⟨⟩
    · show Settled o (files w call.user) ((w.usage.insert call.user (used + count)).lookup call.user)
      rw [AList.lookup_insert]
      exact settled_known settled sum.symm
  · next n used stage =>
    cases stepped
    rw [Fine, stage] at fine
    obtain ⟨sum, settled⟩ := fine
    refine moves_return (v := { w with usage := w.usage.insert call.user (used - n) }) sound here ?_ rfl rfl
      (usage_only w _ _) ?_ nofun
    · rw [stage]
      rintro ⟨⟩
    · show Settled o (files w call.user) ((w.usage.insert call.user (used - n)).lookup call.user)
      rw [AList.lookup_insert]
      exact settled_known settled (by omega)
  · cases stepped

theorem step_call (sound : Sound o w) {id : Nat} {call : Call} (here : w.calls.lookup id = some call) {action : Action}
    {next : World} (stepped : stepCall o w id call action = some next) : Moves o w next id call := by
  have fine := sound.busy id call here
  cases action with
  | save => cases stepped
  | delete => cases stepped
  | lock =>
    dsimp only [stepCall] at stepped
    split at stepped
    · next free =>
      cases stepped
      refine moves_lock sound here free.1 free.2 fun settled => ?_
      cases kind : call.kind with
      | save => exact ⟨settled, fun _ => rfl, found_save rfl _ _⟩
      | delete => exact ⟨settled, fun _ => rfl⟩
    · cases stepped
  | stat =>
    dsimp only [stepCall] at stepped
    split at stepped
    · next stage kind =>
      rw [Fine, stage] at fine
      obtain ⟨settled, same⟩ := fine
      have busy : call.stage ≠ .waiting := by
        rw [stage]
        rintro ⟨⟩
      split at stepped
      · next content there =>
        cases stepped
        refine moves_on sound here busy nofun rfl rfl rfl (only_refl w _) ⟨settled, same, fun other deletes => ?_⟩
        cases kind.symm.trans deletes
        exact ⟨content, there, rfl⟩
      · cases stepped
        exact moves_fail sound here busy settled same
    · cases stepped
  | usage =>
    cases stage : call.stage with
    | counting => exact moves_usage sound here stage stepped
    | _ =>
      dsimp only [stepCall] at stepped
      rw [stage] at stepped
      cases stepped
  | info =>
    cases stage : call.stage with
    | scanning => exact moves_info sound here stage stepped
    | _ =>
      dsimp only [stepCall] at stepped
      rw [stage] at stepped
      cases stepped
  | record =>
    dsimp only [stepCall] at stepped
    split at stepped
    · next stage =>
      cases stepped
      exact moves_record sound here stage
    · cases stepped
  | create other random made ok =>
    dsimp only [stepCall] at stepped
    split at stepped
    · next name stage kind =>
      cases stepped
      exact moves_create sound here stage name random made ok
    · cases stepped
  | read =>
    dsimp only [stepCall] at stepped
    split at stepped
    · next stage =>
      split at stepped
      · cases stepped
        exact moves_read sound here stage _
      · cases stepped
    · cases stepped
  | stop =>
    cases stage : call.stage with
    | copying => exact moves_stop sound here stage stepped
    | _ =>
      dsimp only [stepCall] at stepped
      rw [stage] at stepped
      cases stepped
  | remove other ok =>
    dsimp only [stepCall] at stepped
    split at stepped
    · next stage kind =>
      have moved := moves_remove sound here stage kind ok
      split at stepped
      · next works =>
        cases stepped
        rw [if_pos works] at moved
        exact moved
      · next broken =>
        cases stepped
        rw [if_neg broken] at moved
        exact moved
    · cases stepped
  | finish => exact moves_finish sound here stepped

end Calls

def userOf (w : World) : Action → Option String
  | .save _ user _ => some user
  | .delete _ user _ => some user
  | action => (w.calls.lookup action.call).map Call.user

/-- A step keeps to its user, and a save that fails leaves the files as it has found them. -/
structure Careful (w : World) (action : Action) (next : World) : Prop where
  others : ∀ user, userOf w action = some user → ∀ other, other ≠ user →
    files next other = files w other ∧ next.usage.lookup other = w.usage.lookup other
  refused : w.calls.lookup action.call = none → next.dirs = w.dirs ∧ next.usage = w.usage
  failed : ∀ call name, w.calls.lookup action.call = some call → call.kind = .save name →
    next.results = (action.call, false) :: w.results → Same (files next call.user) call.before

def Within (o : Options) (dirs : String → Option Directory) : Prop :=
  ∀ user, Settled o ((dirs user).getD ∅) none

section Runs
variable {o : Options} {w : World}

theorem sound_results (sound : Sound o w) (id : Nat) : Sound o (refuse w id) := ⟨sound.owner, sound.quiet, sound.busy⟩

theorem sound_start (sound : Sound o w) {id : Nat} (absent : w.calls.lookup id = none) (user : String) (kind : Kind) :
    Sound o (start w id user kind) := by
  have others {other : Nat} {theirs : Call} (there : (start w id user kind).calls.lookup other = some theirs)
      (active : theirs.stage ≠ .waiting) : w.calls.lookup other = some theirs := by
    change (w.calls.insert id _).lookup other = some theirs at there
    by_cases same : other = id
    · subst same
      rw [AList.lookup_insert] at there
      cases there
      exact absurd rfl active
    · rw [AList.lookup_insert_ne same] at there
      exact there
  constructor
  · exact fun other theirs there active => sound.owner other theirs (others there active) active
  · intro owner idle
    refine sound.quiet owner fun other theirs there same => ?_
    have apart : other ≠ id := by
      rintro rfl
      cases absent.symm.trans there
    exact idle other theirs ((AList.lookup_insert_ne apart).trans there) same
  · intro other theirs there
    by_cases idle : theirs.stage = .waiting
    · rw [Fine, idle]
      trivial
    · exact sound.busy other theirs (others there idle)

theorem own_step {id : Nat} {call : Call} {action : Action} {next : World} {user : String}
    (stepped : stepCall o w id call action = some next) (here : w.calls.lookup action.call = some call)
    (mine : userOf w action = some user) : user = call.user := by
  cases action with
  | save => cases stepped
  | delete => cases stepped
  | _ =>
    have own : (w.calls.lookup _).map Call.user = some user := mine
    rw [here] at own
    exact (some.inj own).symm

theorem step_sound (sound : Sound o w) {action : Action} {next : World} (stepped : step o w action = some next) :
    Sound o next ∧ Careful w action next := by
  unfold step at stepped
  split at stepped
  · next id user name absent =>
    split at stepped
    · cases stepped
    · cases stepped
      refine ⟨?_, ⟨fun _ _ _ _ => ?_, fun _ => ?_, fun call _ there => by cases absent.symm.trans there⟩⟩
      · split
        · exact sound_results sound id
        · exact sound_start sound absent user _
      · split <;> exact ⟨rfl, rfl⟩
      · split <;> exact ⟨rfl, rfl⟩
  · next id user ref absent =>
    split at stepped
    · cases stepped
    · split at stepped
      · cases stepped
        exact ⟨sound_start sound absent user _, fun _ _ _ _ => ⟨rfl, rfl⟩, fun _ => ⟨rfl, rfl⟩,
          fun call _ there => by cases absent.symm.trans there⟩
      · cases stepped
        exact ⟨sound_results sound id, fun _ _ _ _ => ⟨rfl, rfl⟩, fun _ => ⟨rfl, rfl⟩,
          fun call _ there => by cases absent.symm.trans there⟩
  · next here =>
    have moved := step_call sound here stepped
    refine ⟨moved.sound, ⟨fun user mine other apart => ?_, fun absent => ?_, fun theirs name there save failed => ?_⟩⟩
    · have same := own_step stepped here mine
      subst same
      exact ⟨only_files moved.only apart, moved.only.usage other apart⟩
    · cases here.symm.trans absent
    · cases here.symm.trans there
      exact moved.failed name save failed
  · cases stepped

/-- While no call is under way, what is known of a user's usage is the size of the user's files, which are within the
    limits; and each step keeps to its user, and leaves the files alone where a save fails. -/
theorem blob_accounting (o : Options) {dirs : String → Option Directory} (within : Within o dirs) {actions : List Action}
    {w : World} (ran : run (step o) (opened dirs) actions = some w) :
    ((∀ id, w.calls.lookup id = none) → ∀ user, Settled o (files w user) (w.usage.lookup user)) ∧
      Guarded (step o) (fun w action => ∀ next, step o w action = some next → Careful w action next) (opened dirs)
        actions := by
  have start : Sound o (opened dirs) :=
    ⟨fun id call there => (by cases there), fun user _ => within user, fun id call there => (by cases there)⟩
  have sound := run_invariant (Sound o) (fun _ _ _ sound stepped => (step_sound sound stepped).1) ran start
  refine ⟨fun none_ user => sound.quiet user fun id call there => ?_, ?_⟩
  · cases (none_ id).symm.trans there
  · refine (guarded_iff (Sound o) (fun _ _ _ sound stepped => (step_sound sound stepped).1) ?_ ran start).mp
      (unguarded (opened dirs) actions)
    intro state action next sound stepped
    refine iff_of_true trivial fun other taken => ?_
    exact (step_sound sound taken).2

end Runs

def modest : Options := ⟨4, 6⟩

def uploads : List Action :=
  [.save 1 "ada" "a.txt", .lock 1, .usage 1 true, .create 1 "0f" true true, .save 2 "ada" "b.txt", .save 3 "grace" "c.txt",
    .read 1 [1, 2, 3], .lock 3, .usage 3 true, .create 3 "1f" true true, .read 3 [1], .stop 1 true, .finish 1, .lock 2,
    .usage 2 true, .create 2 "2f" true true, .read 2 [1, 2], .read 2 [3, 4], .stop 2 true, .stop 3 false,
    .delete 4 "ada" "ada/0f-a.txt", .lock 4, .stat 4, .usage 4 true, .remove 4 true, .finish 4]

theorem uploads_accounted : ∃ w, run (step modest) (opened fun _ => none) uploads = some w ∧
    w.results = [(4, true), (3, false), (2, false), (1, true)] ∧
    ((∀ id, w.calls.lookup id = none) → ∀ user, Settled modest (files w user) (w.usage.lookup user)) ∧
      Guarded (step modest) (fun w action => ∀ next, step modest w action = some next → Careful w action next)
        (opened fun _ => none) uploads := by
  obtain ⟨w, ran, results⟩ := map_eq_some_iff.mp
    (show (run (step modest) (opened fun _ => none) uploads).map World.results =
      some [(4, true), (3, false), (2, false), (1, true)] by decide +kernel)
  have empty : Within modest fun _ => none :=
    fun _ => ⟨fun n absent => (by cases absent), Nat.zero_le _, fun name content there => (by cases there)⟩
  exact ⟨w, ran, results, blob_accounting modest empty ran⟩

end PieRelay.BlobAccounting
