import PieRelay.ChatRequests

/-!
The frame that completes a chat request. The event of a terminal frame bears the request that the frame names
itself, if that one has been accepted some time, while the completion goes to the active chat. The two are the
same where a terminal frame names no other request, where it is recorded, and where no request is accepted on
the peer between the two.
-/
namespace PieRelay.ChatOutcomes
open ChatConversation Option
open ChatJournal
open ChatMoves
open ChatRequests
open Executions
open Function
open IntegrationRecords (Conversation)
open JsonScanner (Bytes)

def late : Loop → Bool
  | .named frame requestID => terminal frame ∧ requestID ≠ ""
  | .correlated frame requestID => terminal frame ∧ requestID ≠ ""
  | .attributed frame _ => terminal frame
  | .recorded frame _ _ => terminal frame
  | _ => false

def faithful (w : World) : Action → Bool
  | .name p =>
    match w.heap.lookup p with
    | some peer =>
      match peer.loop with
      | .received frame => terminal frame = false ∨ namedRequest w.journal frame = "" ∨
          namedRequest w.journal frame = peer.activeChat
      | _ => true
    | none => true
  | .record p disk =>
    match w.heap.lookup p with
    | some peer =>
      match peer.loop with
      | .attributed frame requestID => terminal frame = false ∨ peer.activeChat = "" ∨
          (append disk w.journal (frameEvent frame requestID)).isOk
      | _ => true
    | none => true
  | .accept call _ =>
    match w.calls.lookup call with
    | some (.checked p message) => message.type ≠ "chat" ∨ (w.heap.lookup p).all fun peer => !late peer.loop
    | _ => true
  | _ => true

/-- What the loop of a peer knows of a terminal frame agrees with the active chat, unless there is none any more. -/
def Owned (journal : Journal) (peer : Peer) : Loop → Prop
  | .named frame requestID => terminal frame → requestID = "" ∨ peer.activeChat = "" ∨ requestID = peer.activeChat
  | .correlated frame requestID =>
    terminal frame → requestID = "" ∨ peer.activeChat = "" ∨ requestID = peer.activeChat
  | .attributed frame requestID => terminal frame → peer.activeChat = "" ∨ requestID = peer.activeChat
  | .recorded frame requestID persisted => terminal frame → peer.activeChat = "" ∨
      (requestID = peer.activeChat ∧ persisted ∧ frameEvent frame requestID ∈ journal)
  | _ => True

variable {before after journal : Journal} {peer next : Peer} {p : String} {action : Action}
  {heap : String → Option Peer}

theorem owned_change {loop : Loop} (owned : Owned before peer loop) (grows : ∀ event ∈ before, event ∈ after)
    (chat : next.activeChat = peer.activeChat ∨ next.activeChat = "") : Owned after next loop := by
  cases loop with
  | named | correlated =>
    intro final
    rcases chat with same | empty
    · rw [same]
      exact owned final
    · exact .inr (.inl empty)
  | attributed =>
    intro final
    rcases chat with same | empty
    · rw [same]
      exact owned final
    · exact .inl empty
  | recorded =>
    intro final
    rcases chat with same | empty
    · rw [same]
      rcases owned final with gone | ⟨own, kept, member⟩
      · exact .inl gone
      · exact .inr ⟨own, kept, grows _ member⟩
    · exact .inl empty
  | _ => trivial

theorem owned_early {loop : Loop} (early : late loop = false) : Owned journal peer loop := by
  cases loop with
  | named | correlated =>
    intro final
    simp only [late, final, true_and, decide_eq_false_iff_not, not_not] at early
    exact .inl early
  | attributed | recorded =>
    intro final
    cases final.symm.trans early
  | _ => trivial

theorem terminal_untracked {frame : Frame} (final : terminal frame) : tracked frame = false := by
  have kinds : frame.type = "done" ∨ frame.type = "error" ∨ frame.type = "aborted" := of_decide_eq_true final
  have task : (hasPrefix frame.type "task_" || hasPrefix frame.type "subagent_") = false := by
    rcases kinds with kind | kind | kind
    all_goals
      rw [kind]
      decide
  simp only [Bool.or_eq_false_iff] at task
  simp [tracked, task.1, task.2]

theorem terminal_correlated {frame : Frame} (final : terminal frame)
    (known : ControlPlane.Table String) (candidate : String) :
    (correlateTaskRequest known frame candidate).1 = candidate := by
  rw [correlateTaskRequest, terminal_untracked final]
  rfl

theorem turn_owned {shut : Bool}
    (turned : Turns shut journal p peer action next after) (owned : Owned journal peer peer.loop)
    (names : ∀ frame, action = .name p → peer.loop = .received frame → terminal frame →
      namedRequest journal frame = "" ∨ namedRequest journal frame = peer.activeChat)
    (records : ∀ disk frame requestID, action = .record p disk → peer.loop = .attributed frame requestID →
      terminal frame → peer.activeChat = "" ∨ (append disk journal (frameEvent frame requestID)).isOk) :
    Owned after next next.loop := by
  cases turned with
  | retry place =>
    rw [place]
    trivial
  | @name frame place =>
    intro final
    rcases names frame rfl place final with empty | same
    · exact .inl empty
    · exact .inr (.inr same)
  | @correlate frame requestID place =>
    intro final
    rw [place] at owned
    rw [terminal_correlated final]
    exact owned final
  | @settle frame requestID place found =>
    intro final
    rw [place] at owned
    exact (owned final).resolve_left found
  | @ascribe frame place =>
    intro final
    rw [terminal_correlated final]
    exact .inr rfl
  | @record frame requestID disk after place appended =>
    intro final
    rw [place] at owned
    cases append_ok appended
    rcases owned final with empty | own
    · exact .inl empty
    · exact .inr ⟨own, rfl, List.mem_append_right _ List.mem_cons_self⟩
  | @miss frame requestID disk error place lost =>
    intro final
    refine (records disk frame requestID rfl place final).elim .inl fun kept => ?_
    rw [lost] at kept
    cases kept
  | _ => trivial

def AllOwned (journal : Journal) (heap : String → Option Peer) : Prop :=
  ∀ p peer, heap p = some peer → Owned journal peer peer.loop

theorem all_owned_set
    (owned : AllOwned before heap) (grows : ∀ event ∈ before, event ∈ after) (here : Owned after next next.loop) :
    AllOwned after (update heap p (some next)) := by
  intro q peer stored
  rw [update_apply] at stored
  split at stored
  · cases stored
    exact here
  · exact owned_change (owned q peer stored) grows (.inl rfl)

theorem all_owned_alike (owned : AllOwned journal heap) (known : heap p = some peer) (loop : next.loop = peer.loop)
    (chat : next.activeChat = peer.activeChat ∨ next.activeChat = "") :
    AllOwned journal (update heap p (some next)) := by
  refine all_owned_set owned (fun _ member => member) ?_
  rw [loop]
  exact owned_change (owned p peer known) (fun _ member => member) chat

theorem all_owned_unlock {v : View} {p : Option String} (owned : AllOwned v.journal v.heap) :
    AllOwned v.journal (v.unlock p).heap := by
  intro q peer stored
  unfold View.unlock at stored
  dsimp only at stored
  split at stored
  · obtain ⟨before, known, rfl⟩ := map_eq_some_iff.mp stored
    exact owned_change (owned q before known) (fun _ member => member) (.inl rfl)
  · exact owned q peer stored

theorem turn_grows {shut : Bool}
    (turned : Turns shut journal p peer action next after) : ∀ event ∈ journal, event ∈ after := by
  intro event member
  cases turn_written turned with
  | nothing => exact member
  | state | frame | completion => exact List.mem_append_left _ member

theorem accept_owned {message : Message}
    (owned : AllOwned before heap) (known : heap p = some peer) (early : message.type = "chat" → late peer.loop = false) :
    AllOwned (before ++ [acceptedEvent message]) (update heap p (some (taken peer message))) := by
  have grows : ∀ event ∈ before, event ∈ before ++ [acceptedEvent message] :=
    fun _ member => List.mem_append_left _ member
  refine all_owned_set owned grows ?_
  unfold taken
  split
  · next chat => exact owned_early (early chat)
  · exact owned_change (owned p peer known) grows (.inl rfl)

theorem step_owned {w next : World} (permitted : faithful w action)
    (owned : AllOwned w.journal w.heap.lookup) (stepped : step w action = some next) :
    AllOwned next.journal next.heap.lookup := by
  have moved := step_moves stepped
  suffices AllOwned (view next).journal (view next).heap by exact this
  generalize view next = later at moved ⊢
  cases moved with
  | rest | pass => exact owned
  | publish => exact all_owned_set owned (fun _ member => member) trivial
  | enter _ known | unpublish _ _ known | seize _ known => exact all_owned_alike owned known rfl (.inl rfl)
  | accept here known appended =>
    cases append_ok appended
    refine accept_owned owned known fun chat => ?_
    have found : w.calls.lookup _ = some _ := here
    have stored : w.heap.lookup _ = some _ := known
    simp only [faithful, found, stored, all_some, Bool.not_eq_true', decide_eq_true_eq] at permitted
    exact permitted.resolve_left (not_not.mpr chat)
  | release | close => exact all_owned_unlock (v := view w) owned
  | abandon here known => exact all_owned_alike owned known rfl (.inr rfl)
  | keep | update => exact owned
  | turn known turned =>
    refine all_owned_set owned (turn_grows turned) (turn_owned turned (owned _ _ known) ?_ ?_)
    · rintro frame rfl place final
      have stored : w.heap.lookup _ = some _ := known
      simp only [faithful, stored, place, final, Bool.true_eq_false, false_or, decide_eq_true_eq] at permitted
      exact permitted
    · rintro disk frame requestID rfl place final
      have stored : w.heap.lookup _ = some _ := known
      simp only [faithful, stored, place, final, Bool.true_eq_false, false_or, decide_eq_true_eq] at permitted
      exact permitted
  | restart =>
    rintro p peer ⟨⟩

theorem complete_recorded {w next : World} {requestID : String} {disk : Disk} {data payload : Bytes}
    (stepped : step w (.complete p disk data) = some next)
    (written : next.journal = w.journal ++ [⟨completed, requestID, payload, .completion⟩]) :
    ∃ peer frame ascribed persisted, w.heap.lookup p = some peer ∧ peer.loop = .recorded frame ascribed persisted ∧
      terminal frame ∧ peer.activeChat = requestID ∧ peer.activeChat ≠ "" := by
  have moved := step_moves stepped
  have journal : (view next).journal = w.journal ++ [⟨completed, requestID, payload, .completion⟩] := written
  have longer : w.journal ≠ w.journal ++ [⟨completed, requestID, payload, .completion⟩] := by simp
  generalize view next = later at moved journal
  cases moved with
  | rest own | pass own | release own => cases own
  | turn known turned =>
    cases turned with
    | skip => exact absurd journal longer
    | complete place final busy free appended =>
      have grown := (append_ok appended).symm.trans journal
      have last := List.append_cancel_left grown
      cases last
      exact ⟨_, _, _, _, known, place, final, rfl, busy⟩

/-- Where the condition is met, what completes a request is a terminal frame that has been recorded for it. -/
theorem own_frame_completes (conversation : Option Conversation) (actions : List Action) (w next : World)
    (permitted : Guarded step (fun w action => faithful w action) (opened conversation) actions)
    (ran : run step (opened conversation) actions = some w) (p requestID : String) (disk : Disk) (data payload : Bytes)
    (stepped : step w (.complete p disk data) = some next)
    (written : next.journal = w.journal ++ [⟨completed, requestID, payload, .completion⟩]) :
    ∃ peer frame, w.heap.lookup p = some peer ∧ peer.loop = .recorded frame requestID true ∧ terminal frame ∧
      frameEvent frame requestID ∈ w.journal := by
  have owned : AllOwned w.journal w.heap.lookup := by
    refine guarded_run_invariant (fun w => AllOwned w.journal w.heap.lookup) ?_ permitted ran ?_
    · exact fun _ _ _ permitted owned stepped => step_owned permitted owned stepped
    · rintro q peer ⟨⟩
  obtain ⟨peer, frame, ascribed, persisted, known, place, final, rfl, busy⟩ := complete_recorded stepped written
  have here := owned p peer known
  rw [place] at here
  obtain ⟨own, kept, member⟩ := (here final).resolve_left busy
  subst own kept
  exact ⟨peer, frame, known, place, final, member⟩

def second (frame : Frame) : List Action := answered ++ (framed frame).dropLast

theorem second_completed : ∃ w next, run step (opened (some sample)) (second ⟨"done", "r2", "", "", []⟩) = some w ∧
    step w (.complete "p" roomy []) = some next ∧ ∃ peer frame, w.heap.lookup "p" = some peer ∧
      peer.loop = .recorded frame "r2" true ∧ terminal frame ∧ frameEvent frame "r2" ∈ w.journal := by
  obtain ⟨w, ran, outcome⟩ := bind_eq_some_iff.mp (show
    ((run step (opened (some sample)) (second ⟨"done", "r2", "", "", []⟩)).bind fun w =>
      (step w (.complete "p" roomy [])).map fun next =>
        decide (next.journal = w.journal ++ [⟨completed, "r2", [], .completion⟩])) = some true by decide +kernel)
  obtain ⟨next, stepped, written⟩ := map_eq_some_iff.mp outcome
  refine ⟨w, next, ran, stepped, own_frame_completes (some sample) _ w next ?_ ran "p" "r2" roomy [] [] stepped
    (of_decide_eq_true written)⟩
  exact checked_guarded faithful (fun _ _ passed => passed) _ _ (by decide +kernel)

/-- The frame that has ended the first request is replayed while the second one is active. -/
theorem replayed_frame_completes : ¬ ∀ (conversation : Option Conversation) (actions : List Action) (w next : World),
    run step (opened conversation) actions = some w → ∀ (p requestID : String) (disk : Disk) (data payload : Bytes),
    step w (.complete p disk data) = some next →
    next.journal = w.journal ++ [⟨completed, requestID, payload, .completion⟩] →
    ∃ peer frame, w.heap.lookup p = some peer ∧ peer.loop = .recorded frame requestID true ∧ terminal frame ∧
      frameEvent frame requestID ∈ w.journal := by
  intro claimed
  obtain ⟨w, ran, outcome⟩ := bind_eq_some_iff.mp (show
    ((run step (opened (some sample)) (second ⟨"done", "r1", "", "", []⟩)).bind fun w =>
      (step w (.complete "p" roomy [])).map fun next => ((w.heap.lookup "p").map Peer.loop,
        decide (next.journal = w.journal ++ [⟨completed, "r2", [], .completion⟩]))) =
      some (some (.recorded ⟨"done", "r1", "", "", []⟩ "r1" true), true) by decide +kernel)
  obtain ⟨next, stepped, same⟩ := map_eq_some_iff.mp outcome
  simp only [Prod.mk.injEq, decide_eq_true_eq] at same
  obtain ⟨place, written⟩ := same
  obtain ⟨peer, frame, known, named, -⟩ := claimed (some sample) _ w next ran "p" "r2" roomy [] [] stepped written
  rw [known, map_some, named] at place
  exact absurd (Loop.recorded.inj (some.inj place)).2.1 (by decide)

end PieRelay.ChatOutcomes
