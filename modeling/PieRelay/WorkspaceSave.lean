import PieRelay.Workspace

/-!
The save of client/node-executor/workspace.mjs as a compare-and-swap. Any call may be refused here, also the stat of the
file that was just saved.
-/
namespace PieRelay.WorkspaceSave
open FileTrees RealPaths Workspace List Option

section Requests
variable (s : System) (t : Files) (projectPath path content baseRevision : Value) (create statFails : Bool)

def writeWorkspaceFile : Files × Result Data :=
  match Workspace.writeWorkspaceFile s t projectPath path content baseRevision create with
  | (after, .ok data) => (after, if statFails then .error .system else .ok data)
  | (after, .error thrown) => (after, .error thrown)

def destinationOf : Result Path := do
  let projectRoot ← resolveProjectRoot s t projectPath
  let relativePath ← normalizeWorkspacePath path false
  .ok (projectRoot ++ relativePath)

structure Swaps (destination : Path) (after : Files) (result : Result Data) : Prop where
  replaced : find after destination ≠ find t destination →
    (∃ file, find t destination = some (.file file) ∧ textOf baseRevision = some (revisionFor s file.bytes)) ∨
      (create = true ∧ find t destination = none)
  returned : ∀ path revision size created, result = .ok (.saved path revision size created) →
    ∃ file, find after destination = some (.file file) ∧ revision = revisionFor s file.bytes
  refused : ∀ thrown, result = .error thrown → find after destination = find t destination

def Swapped : Prop := ∀ destination, destinationOf s t projectPath path = .ok destination →
  Swaps s t baseRevision create destination
    (writeWorkspaceFile s t projectPath path content baseRevision create statFails).1
    (writeWorkspaceFile s t projectPath path content baseRevision create statFails).2

/-- A save that commits is told of a file that is there, and nothing fails from then on; or it changes nothing. -/
def Smooth : Prop := ∀ save, checkWrite s t projectPath path content baseRevision create = .ok save → Commits s t save →
  find t save.destination = some (.file (stored s save)) ∨
    ((find t save.destination ≠ none →
        s.refuses (.lstat save.destination) = false ∧ s.refuses (.open save.destination) = false) ∧
      s.refuses .syncParent = false ∧ statFails = false)

end Requests

section Saves
variable {s : System} {t : Files} {save : Save} {name : String}
  {projectPath path content baseRevision : Value} {create : Bool}

/-- What the save has made of the file that is there. -/
theorem current_found {destination : Path} {revision : String} {existing : Option File}
    (located : locate s t destination = some destination)
    (ok : current s t destination revision create = .ok existing) :
    (∃ file, existing = some file ∧ find t destination = some (.file file) ∧ revisionFor s file.bytes = revision ∧
      s.refuses (.lstat destination) = false ∧ s.refuses (.open destination) = false) ∨
    (existing = none ∧ create = true ∧ revision = "" ∧ (find t destination ≠ none →
      s.refuses (.lstat destination) = true ∨ s.refuses (.open destination) = true)) := by
  have missing : (if !create || revision ≠ "" then missingFile else .ok none : Result (Option File)) = .ok existing →
      existing = none ∧ create = true ∧ revision = "" := by
    intro ok
    split at ok
    · cases ok
    · next wanted =>
      cases ok
      simpa using wanted
  unfold current at ok
  dsimp only at ok
  split at ok
  · next stat =>
    obtain ⟨none, wanted, blank⟩ := missing ok
    refine .inr ⟨none, wanted, blank, fun there => .inl ?_⟩
    unfold lstatSync at stat
    split at stat
    · assumption
    · obtain ⟨n, found⟩ := ne_none_iff_exists'.mp there
      rw [located, bind_some, found] at stat
      cases stat
  · next n stat =>
    have answers : s.refuses (.lstat destination) = false ∧ find t destination = some n := by
      unfold lstatSync at stat
      split at stat
      · cases stat
      · next works =>
        rw [located, bind_some] at stat
        split at stat
        · next there =>
          cases stat
          exact ⟨Bool.eq_false_iff.mpr works, there⟩
        · cases stat
    split at ok
    · cases ok
    · next real =>
      have opens : s.refuses (.open destination) = false → openSync s t destination = .ok (destination, n) := by
        intro works
        simp only [openSync, works, located, answers.2]
        cases n <;> first | rfl | exact absurd rfl real
      split at ok
      · next failed =>
        obtain ⟨none, wanted, blank⟩ := missing ok
        refine .inr ⟨none, wanted, blank, fun _ => .inr ?_⟩
        by_contra works
        rw [readRegularFile, opens (Bool.eq_false_iff.mpr works)] at failed
        cases n with
        | file file =>
          change (if _ then _ else if _ then _ else _) = _ at failed
          split at failed
          · cases failed
          · split at failed
            · cases failed
            · split at failed <;> cases failed
        | dir | link | special => cases failed
      · cases ok
      · next q file content read =>
        obtain ⟨⟨found, m⟩, opened, read⟩ := bind_ok read
        have works : s.refuses (.open destination) = false := by
          by_contra refused
          rw [Bool.not_eq_false] at refused
          simp [openSync, refused] at opened
        cases (opens works).symm.trans opened
        refine .inl ?_
        split at ok
        · cases ok
        · next same =>
          cases ok
          simp only [Bool.or_eq_true, decide_eq_true_eq, not_or, ne_eq, not_not] at same
          cases n with
          | file known =>
            have there : known = file := by
              dsimp only at read
              split at read
              · cases read
              · split at read
                · cases read
                · split at read <;> cases read
                  rfl
            subst there
            exact ⟨_, rfl, answers.2, same.2, answers.1, works⟩
          | dir | link | special => cases read

theorem check_current {content baseRevision : Value}
    (ok : checkWrite s t projectPath path content baseRevision create = .ok save) :
    destinationOf s t projectPath path = .ok save.destination ∧ ∃ revision existing,
      textOf baseRevision = some revision ∧ current s t save.destination revision create = .ok existing := by
  obtain ⟨project, projected, ok⟩ := bind_ok ok
  obtain ⟨relativePath, normal, ok⟩ := bind_ok ok
  split at ok
  · split at ok
    · next revision given =>
      obtain ⟨parent, existing, ok⟩ := bind_ok ok
      obtain ⟨_, same, ok⟩ := bind_ok ok
      obtain ⟨file, existed, ok⟩ := bind_ok ok
      split at ok
      · cases ok
      · cases ok
        refine ⟨?_, revision, file, (filter_eq_some_iff.mp given).1, existed⟩
        simp only [destinationOf, projected, normal]
        rfl
    · cases ok
  · cases ok

theorem failed_swaps_iff {destination : Path} {after : Files} {thrown : Thrown} :
    Swaps s t baseRevision create destination after (.error thrown) ↔ find after destination = find t destination :=
  ⟨fun swaps => swaps.refused thrown rfl, fun same => ⟨fun other => absurd same other, nofun, fun _ _ => same⟩⟩

theorem unlinked_same {ok : Bool} {after : Files} (canonical : Canonical t save.parent) (limit : s.linkLimit ≠ 0)
    (named : save.destination = save.parent ++ [name]) (persisted : persist s t save = (after, ok)) :
    find (unlinkSync s after (temporary s save)) save.destination = find after save.destination := by
  have changed := (persist_outcome canonical limit named persisted).1
  have located := @locate_self s after save.parent ("." ++ save.destination.getLast?.getD "" ++ ".pie-" ++ s.uuid ++ ".tmp")
    (changed_canonical changed canonical named) limit
  exact (unlink_others located (by simp)).1 _ (temporary_apart named)

theorem saved_swaps_iff {after : Files} {revision path : String} {size : Nat} {created : Bool} {existing : Option File}
    (located : locate s t save.destination = some save.destination) (given : textOf baseRevision = some revision)
    (looked : current s t save.destination revision create = .ok existing)
    (found : find after save.destination = some (.file (stored s save))) :
    Swaps s t baseRevision create save.destination after (.ok (.saved path (revisionFor s save.bytes) size created)) ↔
      find t save.destination = some (.file (stored s save)) ∨ (find t save.destination ≠ none →
        s.refuses (.lstat save.destination) = false ∧ s.refuses (.open save.destination) = false) := by
  have returned : ∀ path' revision' size' created',
      (.ok (.saved path (revisionFor s save.bytes) size created) : Result Data) = .ok (.saved path' revision' size' created') →
        ∃ file, find after save.destination = some (.file file) ∧ revision' = revisionFor s file.bytes := by
    rintro _ _ _ _ ⟨⟩
    exact ⟨_, found, rfl⟩
  rcases current_found located looked with ⟨file, -, here, same, stat, opens⟩ | ⟨-, wanted, blank, misread⟩
  · exact iff_of_true ⟨fun _ => .inl ⟨file, here, given.trans (congrArg some same.symm)⟩, returned, nofun⟩
      (.inr fun _ => ⟨stat, opens⟩)
  · constructor
    · intro swaps
      refine or_iff_not_imp_left.mpr fun other there => ?_
      rcases swaps.replaced (found.trans_ne (Ne.symm other)) with ⟨file, -, same⟩ | ⟨-, none⟩
      · have revisions := some.inj (given.symm.trans same)
        rw [blank] at revisions
        have lengths := congrArg String.length revisions
        have prefix_ : "sha256:".length = 7 := rfl
        simp only [revisionFor, String.length_append, prefix_, String.length_empty] at lengths
        omega
      · exact absurd none there
    · intro right
      refine ⟨fun changed => ?_, returned, nofun⟩
      rcases right with same | seen
      · exact absurd (found.trans same.symm) changed
      · refine .inr ⟨wanted, ?_⟩
        by_contra there
        rcases misread there with refused | refused
        · exact absurd (seen there).1 (by simp [refused])
        · exact absurd (seen there).2 (by simp [refused])

end Saves

/-- A save is a compare-and-swap exactly if it is smooth. -/
theorem save_swaps_iff (s : System) (t : Files) (projectPath path content baseRevision : Value) (create statFails : Bool)
    (dir : isDir t []) : Swapped s t projectPath path content baseRevision create statFails ↔
      Smooth s t projectPath path content baseRevision create statFails := by
  unfold Swapped Smooth
  cases checked : checkWrite s t projectPath path content baseRevision create with
  | error thrown =>
    have done : writeWorkspaceFile s t projectPath path content baseRevision create statFails = (t, .error thrown) := by
      simp only [writeWorkspaceFile, Workspace.writeWorkspaceFile, checked]
    rw [done]
    exact iff_of_true (fun _ _ => failed_swaps_iff.mpr rfl) (fun _ absurd => by cases absurd)
  | ok save =>
    obtain ⟨limit, canonical, -, name, named, proper, plain⟩ := check_found dir checked
    obtain ⟨destined, revision, existing, given, looked⟩ := check_current checked
    have located : locate s t save.destination = some save.destination := by
      rw [named]
      exact locate_self canonical limit
    have one : ∀ {after : Files} {result : Result Data} {smooth : Save → Prop},
        writeWorkspaceFile s t projectPath path content baseRevision create statFails = (after, result) →
        (Swaps s t baseRevision create save.destination after result ↔ smooth save) →
        ((∀ destination, destinationOf s t projectPath path = .ok destination →
          Swaps s t baseRevision create destination
            (writeWorkspaceFile s t projectPath path content baseRevision create statFails).1
            (writeWorkspaceFile s t projectPath path content baseRevision create statFails).2) ↔
          ∀ other, (.ok save : Result Save) = .ok other → smooth other) := by
      intro after result smooth done swaps
      rw [done]
      refine ⟨fun all other same => ?_, fun right destination same => ?_⟩
      · cases same
        exact swaps.mp (all _ destined)
      · cases destined.symm.trans same
        exact swaps.mpr (right save rfl)
    obtain ⟨⟨after, ok⟩, persisted⟩ : ∃ outcome, persist s t save = outcome := ⟨_, rfl⟩
    obtain ⟨changed, outcome⟩ := persist_outcome canonical limit named persisted
    rcases outcome with ⟨commits, rfl, -, found⟩ | ⟨blocked, rfl, found⟩
    · have failed : ∀ {after' : Files} {thrown : Thrown},
          find after' save.destination = find after save.destination → (s.refuses .syncParent = true ∨ statFails = true) →
          (Swaps s t baseRevision create save.destination after' (.error thrown) ↔ (Commits s t save →
            find t save.destination = some (.file (stored s save)) ∨
              ((find t save.destination ≠ none →
                s.refuses (.lstat save.destination) = false ∧ s.refuses (.open save.destination) = false) ∧
              s.refuses .syncParent = false ∧ statFails = false))) := by
        intro after' thrown same fails
        rw [failed_swaps_iff, same, found]
        refine ⟨fun kept _ => .inl kept.symm, fun right => ((right commits).resolve_right fun smooth => ?_).symm⟩
        rcases fails with fails | fails
        · exact absurd smooth.2.1 (by simp [fails])
        · exact absurd smooth.2.2 (by simp [fails])
      by_cases synced : s.refuses .syncParent = true
      · rw [synced] at persisted
        have done : writeWorkspaceFile s t projectPath path content baseRevision create statFails =
            (unlinkSync s after (temporary s save), fail "write_failed" "파일을 안전하게 저장하지 못했습니다.") := by
          simp only [writeWorkspaceFile, Workspace.writeWorkspaceFile, checked, persisted, fail, Bool.not_true]
        exact one done (failed (unlinked_same canonical limit named persisted) (.inl synced))
      · rw [Bool.not_eq_true] at synced
        rw [synced] at persisted
        have stat := stat_saved (changed_canonical changed canonical named) limit named proper plain found
        cases statFails with
        | true =>
          have done : writeWorkspaceFile s t projectPath path content baseRevision create true = (after, .error .system) := by
            simp only [writeWorkspaceFile, Workspace.writeWorkspaceFile, checked, persisted, Bool.not_false, stat]
            rfl
          exact one done (failed rfl (.inr rfl))
        | false =>
          have done : writeWorkspaceFile s t projectPath path content baseRevision create false =
              (after, .ok (.saved (joined save.relativePath) (revisionFor s save.bytes) save.bytes.length save.created)) := by
            simp only [writeWorkspaceFile, Workspace.writeWorkspaceFile, checked, persisted, Bool.not_false, stat]
            rfl
          refine one done ((saved_swaps_iff located given looked found).trans ⟨fun right _ => ?_, fun right => ?_⟩)
          · exact right.imp_right fun seen => ⟨seen, synced, rfl⟩
          · exact (right commits).imp_right And.left
    · have done : writeWorkspaceFile s t projectPath path content baseRevision create statFails =
          (unlinkSync s after (temporary s save), fail "write_failed" "파일을 안전하게 저장하지 못했습니다.") := by
        simp only [writeWorkspaceFile, Workspace.writeWorkspaceFile, checked, persisted, fail]
      refine one done (iff_of_true (failed_swaps_iff.mpr ?_) fun commits => absurd commits blocked)
      rw [unlinked_same canonical limit named persisted, found]

def unsynced : System := { system "/projects" with refuses := fun call => match call with | .syncParent => true | _ => false }

theorem saved_smoothly : Swapped (system "/projects") projectFiles (.text "/projects/a") (.text "main.ts") (.text "b")
    (.text "sha256:") false false ↔
      Smooth (system "/projects") projectFiles (.text "/projects/a") (.text "main.ts") (.text "b") (.text "sha256:") false false :=
  save_swaps_iff _ _ _ _ _ _ _ _ rfl

theorem unsynced_changed : ¬ Swapped unsynced projectFiles (.text "/projects/a") (.text "main.ts") (.text "b")
    (.text "sha256:") false false := by
  intro swapped
  have destined : (destinationOf unsynced projectFiles (.text "/projects/a") (.text "main.ts")).toOption =
      some ["projects", "a", "main.ts"] := by decide +kernel
  cases here : destinationOf unsynced projectFiles (.text "/projects/a") (.text "main.ts") with
  | error thrown =>
    rw [here] at destined
    cases destined
  | ok destination =>
    rw [here] at destined
    cases destined
    have swaps := swapped _ here
    have failed : (writeWorkspaceFile unsynced projectFiles (.text "/projects/a") (.text "main.ts") (.text "b")
      (.text "sha256:") false false).2.toOption.isNone := by decide +kernel
    cases answer : (writeWorkspaceFile unsynced projectFiles (.text "/projects/a") (.text "main.ts") (.text "b")
      (.text "sha256:") false false).2 with
    | ok data =>
      rw [answer] at failed
      cases failed
    | error thrown => exact absurd (swaps.refused thrown answer) (by decide +kernel)

end PieRelay.WorkspaceSave
