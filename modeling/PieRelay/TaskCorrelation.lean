import Mathlib.Data.List.Dedup
import Mathlib.Data.List.Nodup
import Mathlib.Data.List.Perm.Subperm
import Mathlib.Logic.Relation
import PieRelay.Executions

/-!
The request that a peer of executor-manager/internal/chatgateway/gateway.go gives a frame: `correlateTaskRequest` and what
`connected` makes of it. A frame counts with the request id that it is recorded with, whether or not the journal takes it.
-/
namespace PieRelay.TaskCorrelation
open Executions List Option

structure Frame where
  type : String
  taskID : String
  parentToolUseID : String
  requestID : String
  deriving DecidableEq

structure Peer where
  activeChat : String
  taskRequests : List (String × String)

def maxRememberedTaskRequestKeys : Nat := 2048

def hasPrefix (text start : String) : Bool := start.toList.isPrefixOf text.toList

def keysOf (taskID parentToolUseID : String) : List String :=
  (if taskID ≠ "" ∧ taskID.utf8ByteSize ≤ 256 then ["task:" ++ taskID] else []) ++
    if parentToolUseID ≠ "" ∧ parentToolUseID.utf8ByteSize ≤ 256 then ["parent:" ++ parentToolUseID] else []

def known (requests : List (String × String)) (keys : List String) : Option String :=
  keys.findSome? fun key => (requests.lookup key).filter (· ≠ "")

def remember (candidate : String) : List String → List (String × String) → List (String × String)
  | [], requests => requests
  | key :: rest, requests =>
    if maxRememberedTaskRequestKeys ≤ requests.length then requests
    else remember candidate rest ((key, candidate) :: requests.filter fun entry => entry.1 ≠ key)

def correlateTaskRequest (p : Peer) (eventType taskID parentToolUseID candidate : String) : Peer × String :=
  if !hasPrefix eventType "task_" && !hasPrefix eventType "subagent_" then (p, candidate)
  else
    let keys := keysOf taskID parentToolUseID
    if keys = [] then (p, candidate)
    else match known p.taskRequests keys with
      | some requestID => (p, requestID)
      | none =>
        if candidate = "" then (p, "")
        else ({ p with taskRequests := remember candidate keys p.taskRequests }, candidate)

def named (accepted : Bool) (f : Frame) : String :=
  if f.requestID ≠ "" ∧ f.requestID.utf8ByteSize ≤ 160 ∧ accepted then f.requestID else ""

def requestOf (p : Peer) (accepted : Bool) (f : Frame) : Peer × String :=
  let found := correlateTaskRequest p f.type f.taskID f.parentToolUseID (named accepted f)
  if found.2 = "" then correlateTaskRequest found.1 f.type f.taskID f.parentToolUseID found.1.activeChat else found

structure Entry where
  frame : Frame
  requestID : String
  deriving DecidableEq

structure World where
  peer : Peer
  accepted : List String
  log : List Entry

inductive Action where
  | accept (requestID : String)
  | activate (requestID : String)
  | complete
  | frame (f : Frame) (readable : Bool)

def acceptedNow (w : World) (f : Frame) (readable : Bool) : Bool := readable && f.requestID ∈ w.accepted

def step (w : World) : Action → Option World
  | .accept requestID => some { w with accepted := requestID :: w.accepted }
  | .activate requestID => some { w with peer := { w.peer with activeChat := requestID } }
  | .complete => some { w with peer := { w.peer with activeChat := "" } }
  | .frame f readable =>
    let (peer, requestID) := requestOf w.peer (acceptedNow w f readable) f
    some { w with peer, log := ⟨f, requestID⟩ :: w.log }

def start : World := ⟨⟨"", []⟩, [], []⟩

def links (f : Frame) : List String :=
  if hasPrefix f.type "task_" || hasPrefix f.type "subagent_" then
    (if f.taskID ≠ "" then ["task:" ++ f.taskID] else []) ++
      if f.parentToolUseID ≠ "" then ["parent:" ++ f.parentToolUseID] else []
  else []

def Shares (log : List Entry) (e f : Entry) : Prop := e ∈ log ∧ f ∈ log ∧ ∃ key ∈ links e.frame, key ∈ links f.frame

/-- Frames that share an id, directly or through a chain of frames. -/
def Connected (log : List Entry) : Entry → Entry → Prop := Relation.ReflTransGen (Shares log)

inductive Consistent : List Entry → Prop where
  | none : Consistent []
  | frame (f : Entry) (earlier : List Entry) (same : ∀ e ∈ earlier, e.requestID ≠ "" → Connected (f :: earlier) e f →
      f.requestID = e.requestID) (before : Consistent earlier) : Consistent (f :: earlier)

def seen (actions : List Action) : List String :=
  actions.flatMap fun action => match action with
    | .frame f _ => links f
    | _ => []

def Short : Action → Prop
  | .frame f _ => f.taskID.utf8ByteSize ≤ 256 ∧ f.parentToolUseID.utf8ByteSize ≤ 256
  | _ => True

def Joined (w : World) : Action → Prop
  | .frame f readable => ∀ first second, links f = [first, second] →
      w.peer.taskRequests.lookup first = w.peer.taskRequests.lookup second ∧
      (w.peer.taskRequests.lookup first = none → named (acceptedNow w f readable) f ≠ "" ∨ w.peer.activeChat ≠ "")
  | _ => True

section Frames
variable {p : Peer} {f : Frame} {accepted : Bool} {keys : List String} {candidate : String} {requests : List (String × String)}

theorem keys_links (short : f.taskID.utf8ByteSize ≤ 256 ∧ f.parentToolUseID.utf8ByteSize ≤ 256)
    (task : (hasPrefix f.type "task_" || hasPrefix f.type "subagent_")) : keysOf f.taskID f.parentToolUseID = links f := by
  simp only [keysOf, links, task, short.1, short.2, and_true, if_true]

theorem links_distinct (f : Frame) : (links f).Nodup := by
  unfold links
  split
  · split
    · split
      · simp only [cons_append, nil_append, nodup_cons, mem_singleton, not_mem_nil, not_false_eq_true,
          nodup_nil, and_true]
        intro same
        have chars := congrArg String.toList same
        simp at chars
      · simp
    · split <;> simp
  · exact nodup_nil

section
variable (short : f.taskID.utf8ByteSize ≤ 256 ∧ f.parentToolUseID.utf8ByteSize ≤ 256)
include short

/-- A task frame has the request that an id of it is known to have, or what it brings itself, which is remembered. -/
theorem correlate_cases (some : links f ≠ []) : correlateTaskRequest p f.type f.taskID f.parentToolUseID candidate =
      match known p.taskRequests (links f) with
      | Option.some requestID => (p, requestID)
      | none => if candidate = "" then (p, "")
          else ({ p with taskRequests := remember candidate (links f) p.taskRequests }, candidate) := by
  have task : (hasPrefix f.type "task_" || hasPrefix f.type "subagent_") := by
    cases type : hasPrefix f.type "task_" || hasPrefix f.type "subagent_" with
    | true => rfl
    | false =>
      rw [links, type] at some
      exact absurd rfl some
  have entered : (!hasPrefix f.type "task_" && !hasPrefix f.type "subagent_") = false := by
    rw [← Bool.not_or, task]
    rfl
  simp only [correlateTaskRequest, entered, keys_links short task, some, Bool.false_eq_true, if_false]

theorem correlate_plain (none : links f = []) :
    correlateTaskRequest p f.type f.taskID f.parentToolUseID candidate = (p, candidate) := by
  unfold correlateTaskRequest
  split
  · rfl
  · next entered =>
    have task : (hasPrefix f.type "task_" || hasPrefix f.type "subagent_") := by
      simpa [Bool.or_eq_true, Decidable.or_iff_not_not_and_not] using entered
    simp only [keys_links short task, none, if_true]

end

def origin (p : Peer) (accepted : Bool) (f : Frame) : String := if named accepted f = "" then p.activeChat else named accepted f

theorem known_some {requestID : String} (found : known requests keys = some requestID) :
    requestID ≠ "" ∧ ∃ key ∈ keys, requests.lookup key = some requestID := by
  obtain ⟨key, member, kept⟩ := exists_of_findSome?_eq_some found
  obtain ⟨there, real⟩ := filter_eq_some_iff.mp kept
  exact ⟨by simpa using real, key, member, there⟩

section
variable (short : f.taskID.utf8ByteSize ≤ 256 ∧ f.parentToolUseID.utf8ByteSize ≤ 256)
include short

theorem request_cases (some : links f ≠ []) : requestOf p accepted f =
      match known p.taskRequests (links f) with
      | Option.some requestID => (p, requestID)
      | none => if origin p accepted f = "" then (p, "")
          else ({ p with taskRequests := remember (origin p accepted f) (links f) p.taskRequests }, origin p accepted f) := by
  simp only [requestOf, correlate_cases short some, origin]
  cases found : known p.taskRequests (links f) with
  | some => simp [(known_some found).1]
  | none =>
    by_cases silent : named accepted f = ""
    · simp [silent, found]
    · simp [silent]

theorem request_plain (none : links f = []) : (requestOf p accepted f).1 = p := by
  simp only [requestOf, correlate_plain short none]
  split <;> rfl

end

end Frames

section Requests
variable {all keys : List String} {requests : List (String × String)} {candidate key : String}

structure Filed (all : List String) (requests : List (String × String)) : Prop where
  distinct : (requests.map Prod.fst).Nodup
  listed : ∀ key ∈ requests.map Prod.fst, key ∈ all

theorem filed_room (filed : Filed all requests) (fresh : key ∉ requests.map Prod.fst) (member : key ∈ all)
    (few : all.dedup.length < maxRememberedTaskRequestKeys) : requests.length < maxRememberedTaskRequestKeys := by
  have distinct : (key :: requests.map Prod.fst).Nodup := nodup_cons.mpr ⟨fresh, filed.distinct⟩
  have within : key :: requests.map Prod.fst ⊆ all.dedup := by
    intro other known
    rw [mem_dedup]
    rcases mem_cons.mp known with rfl | old
    · exact member
    · exact filed.listed other old
  have short := (subperm_of_subset distinct within).length_le
  rw [length_cons, length_map] at short
  omega

theorem filter_fresh (fresh : key ∉ requests.map Prod.fst) : (requests.filter fun entry => entry.1 ≠ key) = requests := by
  rw [filter_eq_self]
  intro entry member
  rw [decide_eq_true_eq]
  rintro rfl
  exact fresh (mem_map_of_mem member)

theorem filed_insert (filed : Filed all requests) (fresh : key ∉ requests.map Prod.fst) (member : key ∈ all) :
    Filed all ((key, candidate) :: requests) := by
  refine ⟨nodup_cons.mpr ⟨fresh, filed.distinct⟩, fun other known => ?_⟩
  rcases mem_cons.mp known with rfl | old
  · exact member
  · exact filed.listed other old

theorem remember_filed (filed : Filed all requests) (distinct : keys.Nodup) (fresh : ∀ key ∈ keys, key ∉ requests.map Prod.fst)
    (within : ∀ key ∈ keys, key ∈ all) (few : all.dedup.length < maxRememberedTaskRequestKeys) :
    Filed all (remember candidate keys requests) ∧ ∀ other, (remember candidate keys requests).lookup other =
      if other ∈ keys then some candidate else requests.lookup other := by
  induction keys generalizing requests with
  | nil => exact ⟨filed, fun other => by rw [if_neg not_mem_nil]; rfl⟩
  | cons key rest ih =>
    obtain ⟨alone, later⟩ := nodup_cons.mp distinct
    have mine := fresh key mem_cons_self
    have known := within key mem_cons_self
    have room := filed_room filed mine known few
    rw [remember, if_neg (by omega), filter_fresh mine]
    have apart : ∀ other ∈ rest, other ∉ ((key, candidate) :: requests).map Prod.fst := by
      intro other member listed
      rcases mem_cons.mp listed with same | old
      · have whole : other = key := same
        exact alone (whole ▸ member)
      · exact fresh other (mem_cons_of_mem key member) old
    obtain ⟨next, found⟩ := ih (filed_insert filed mine known) later apart
      fun other member => within other (mem_cons_of_mem key member)
    refine ⟨next, fun other => ?_⟩
    rw [found, lookup_cons]
    by_cases here : other = key
    · subst here
      rw [if_neg alone, if_pos mem_cons_self, beq_self_eq_true]
    · have differs : (other == key) = false := beq_eq_false_iff_ne.mpr here
      rw [differs]
      by_cases inside : other ∈ rest
      · rw [if_pos inside, if_pos (mem_cons_of_mem key inside)]
      · rw [if_neg inside, if_neg]
        exact fun member => (mem_cons.mp member).elim here inside

end Requests

section Runs
variable {all : List String} {w : World} {f : Frame} {readable : Bool}

structure Inv (all : List String) (w : World) : Prop where
  filed : Filed all w.peer.taskRequests
  real : ∀ key requestID, w.peer.taskRequests.lookup key = some requestID → requestID ≠ ""
  mapped : ∀ e ∈ w.log, e.requestID ≠ "" → ∀ key ∈ links e.frame, w.peer.taskRequests.lookup key = some e.requestID
  single : ∀ e ∈ w.log, e.requestID = "" → (links e.frame).length ≤ 1
  consistent : Consistent w.log

variable {requests : List (String × String)}

/-- What is connected with an attributed frame has its ids mapped to the same request. -/
theorem connected_mapped {log : List Entry}
    (mapped : ∀ e ∈ log, e.requestID ≠ "" → ∀ key ∈ links e.frame, requests.lookup key = some e.requestID)
    (single : ∀ e ∈ log, e.requestID = "" → (links e.frame).length ≤ 1) {e f : Entry} (member : e ∈ log)
    (attributed : e.requestID ≠ "") (connected : Connected log e f) :
    ∀ key ∈ links f.frame, requests.lookup key = some e.requestID := by
  induction connected with
  | refl => exact mapped e member attributed
  | @tail last next _ shares ih =>
    obtain ⟨_, there, key, left, right⟩ := shares
    have here := ih key left
    intro other own
    by_cases silent : next.requestID = ""
    · have few := single next there silent
      obtain ⟨only, shape⟩ := length_eq_one_iff.mp (Nat.le_antisymm few (length_pos_of_mem right))
      rw [shape, mem_singleton] at own right
      rw [own, ← right]
      exact here
    · have owned := mapped next there silent
      rw [owned other own, ← owned key right]
      exact here

theorem inv_logged {log : List Entry} {entry : Entry}
    (filed : Filed all requests) (real : ∀ key requestID, requests.lookup key = some requestID → requestID ≠ "")
    (mapped : ∀ e ∈ entry :: log, e.requestID ≠ "" → ∀ key ∈ links e.frame, requests.lookup key = some e.requestID)
    (single : ∀ e ∈ entry :: log, e.requestID = "" → (links e.frame).length ≤ 1)
    (unknown : entry.requestID = "" → ∀ key ∈ links entry.frame, requests.lookup key = none)
    (consistent : Consistent log) (activeChat : String) (accepted : List String) :
    Inv all ⟨⟨activeChat, requests⟩, accepted, entry :: log⟩ := by
  refine ⟨filed, real, mapped, single, .frame entry log (fun e member attributed connected => ?_) consistent⟩
  have known := connected_mapped mapped single (mem_cons_of_mem entry member) attributed connected
  rcases Relation.ReflTransGen.cases_tail connected with same | ⟨last, _, _, _, key, _, own⟩
  · rw [same]
  · by_cases silent : entry.requestID = ""
    · cases (unknown silent key own).symm.trans (known key own)
    · exact some.inj ((mapped entry mem_cons_self silent key own).symm.trans (known key own))

theorem links_shape (f : Frame) : links f = [] ∨ (∃ key, links f = [key]) ∨ ∃ first second, links f = [first, second] := by
  unfold links
  split
  · split
    · split
      · exact Or.inr (Or.inr ⟨_, _, rfl⟩)
      · exact Or.inr (Or.inl ⟨_, rfl⟩)
    · split
      · exact Or.inr (Or.inl ⟨_, rfl⟩)
      · exact Or.inl rfl
  · exact Or.inl rfl

theorem known_none {keys : List String} (absent : known requests keys = none)
    (real : ∀ key requestID, requests.lookup key = some requestID → requestID ≠ "") :
    ∀ key ∈ keys, requests.lookup key = none := by
  intro key member
  have kept := findSome?_eq_none_iff.mp absent key member
  cases found : requests.lookup key with
  | none => rfl
  | some requestID =>
    rw [found, filter_eq_none_iff] at kept
    exact absurd (decide_eq_true (real key requestID found)) (kept requestID rfl)

theorem inv_frame (inv : Inv all w) (short : Short (.frame f readable)) (within : ∀ key ∈ links f, key ∈ all)
    (few : all.dedup.length < maxRememberedTaskRequestKeys) (joined : Joined w (.frame f readable)) :
    Inv all { w with peer := (requestOf w.peer (acceptedNow w f readable) f).1, log := ⟨f, (requestOf w.peer (acceptedNow w f readable) f).2⟩ :: w.log } := by
  by_cases bare : links f = []
  · rw [request_plain short bare]
    refine inv_logged inv.filed inv.real ?_ ?_ ?_ inv.consistent w.peer.activeChat w.accepted
    · intro e member attributed key own
      rcases List.mem_cons.mp member with rfl | earlier
      · rw [bare] at own
        exact absurd own List.not_mem_nil
      · exact inv.mapped e earlier attributed key own
    · intro e member silent
      rcases List.mem_cons.mp member with rfl | earlier
      · rw [bare]
        exact Nat.zero_le 1
      · exact inv.single e earlier silent
    · intro _ key own
      rw [bare] at own
      exact absurd own List.not_mem_nil
  · have cases := @request_cases w.peer f (acceptedNow w f readable) short bare
    cases found : known w.peer.taskRequests (links f) with
    | some =>
      simp only [found] at cases
      rw [cases]
      obtain ⟨real, key, own, there⟩ := known_some found
      refine inv_logged inv.filed inv.real ?_ ?_ (fun silent => absurd silent real) inv.consistent w.peer.activeChat w.accepted
      · intro e member attributed other mine
        rcases List.mem_cons.mp member with rfl | earlier
        · rcases links_shape f with none | ⟨only, shape⟩ | ⟨first, second, shape⟩
          · exact absurd none bare
          · rw [shape, List.mem_singleton] at own
            simp only [shape, List.mem_singleton] at mine
            rw [mine, ← own]
            exact there
          · have same := (joined first second shape).1
            rw [shape] at own
            simp only [shape] at mine
            simp only [List.mem_cons, List.not_mem_nil, or_false] at own mine
            rcases own with rfl | rfl <;> rcases mine with rfl | rfl
            · exact there
            · exact same.symm.trans there
            · exact same.trans there
            · exact there
        · exact inv.mapped e earlier attributed other mine
      · intro e member silent
        rcases List.mem_cons.mp member with rfl | earlier
        · exact absurd silent real
        · exact inv.single e earlier silent
    | none =>
      have absent := known_none found inv.real
      simp only [found] at cases
      by_cases silent : origin w.peer (acceptedNow w f readable) f = ""
      · rw [if_pos silent] at cases
        rw [cases]
        refine inv_logged inv.filed inv.real ?_ ?_ (fun _ => absent) inv.consistent w.peer.activeChat w.accepted
        · intro e member attributed key own
          rcases List.mem_cons.mp member with rfl | earlier
          · exact absurd rfl attributed
          · exact inv.mapped e earlier attributed key own
        · intro e member quiet
          rcases List.mem_cons.mp member with rfl | earlier
          · rcases links_shape f with none | ⟨only, shape⟩ | ⟨first, second, shape⟩
            · exact absurd none bare
            · rw [shape]
              exact Nat.le_refl 1
            · exfalso
              have brings := (joined first second shape).2 (absent first (shape ▸ List.mem_cons_self))
              rw [origin] at silent
              split at silent
              · next unnamed => exact brings.elim (fun some => some unnamed) fun active => active silent
              · next named => exact named silent
          · exact inv.single e earlier quiet
      · rw [if_neg silent] at cases
        rw [cases]
        have fresh : ∀ key ∈ links f, key ∉ w.peer.taskRequests.map Prod.fst := by
          intro key own listed
          obtain ⟨entry, member, same⟩ := List.mem_map.mp listed
          have differs := List.lookup_eq_none_iff.mp (absent key own) entry member
          rw [same] at differs
          simp at differs
        obtain ⟨filed, lookup⟩ := @remember_filed _ _ _ (origin w.peer (acceptedNow w f readable) f) inv.filed
          (links_distinct f) fresh within few
        refine inv_logged filed ?_ ?_ ?_ (fun quiet => absurd quiet silent) inv.consistent w.peer.activeChat w.accepted
        · intro key requestID there
          rw [lookup] at there
          split at there
          · rw [← Option.some.inj there]
            exact silent
          · exact inv.real key requestID there
        · intro e member attributed key own
          rcases List.mem_cons.mp member with rfl | earlier
          · rw [lookup, if_pos own]
          · have before := inv.mapped e earlier attributed key own
            rw [lookup, if_neg]
            · exact before
            · exact fun mine => by cases (absent key mine).symm.trans before
        · intro e member quiet
          rcases List.mem_cons.mp member with rfl | earlier
          · exact absurd quiet silent
          · exact inv.single e earlier quiet

/-- In every run whose frames join no two origins, frames that are connected have one request. -/
theorem tasks_consistent {actions : List Action} (ran : run step start actions = some w) (short : ∀ action ∈ actions, Short action)
    (few : (seen actions).dedup.length < maxRememberedTaskRequestKeys) (guarded : Guarded step Joined start actions) :
    Consistent w.log := by
  have listed := guarded_all (fun action => action ∈ actions) guarded fun action member => member
  have begun : Inv (seen actions) start :=
    ⟨⟨nodup_nil, fun key member => absurd member not_mem_nil⟩, fun _ _ absurd => (by cases absurd),
      fun e member => absurd member not_mem_nil, fun e member => absurd member not_mem_nil, .none⟩
  refine (guarded_run_invariant (Inv (seen actions)) ?_ listed ran begun).consistent
  rintro state action next ⟨joined, member⟩ inv stepped
  cases action with
  | accept | activate | complete =>
    cases stepped
    exact ⟨inv.filed, inv.real, inv.mapped, inv.single, inv.consistent⟩
  | frame f =>
    cases stepped
    have within : ∀ key ∈ links f, key ∈ seen actions := fun key own => mem_flatMap.mpr ⟨_, member, own⟩
    exact inv_frame inv (short _ member) within few joined

def joins (w : World) : Action → Bool
  | .frame f readable => match links f with
    | [first, second] => w.peer.taskRequests.lookup first = w.peer.taskRequests.lookup second &&
        ((w.peer.taskRequests.lookup first).isSome || named (acceptedNow w f readable) f ≠ "" || w.peer.activeChat ≠ "")
    | _ => true
  | _ => true

theorem joins_joined (w : World) (action : Action) (passed : joins w action) : Joined w action := by
  cases action with
  | frame =>
    intro first second shape
    simp only [joins, shape, Bool.and_eq_true, Bool.or_eq_true, decide_eq_true_eq] at passed
    refine ⟨passed.1, fun absent => ?_⟩
    rcases passed.2 with (some | brings) | active
    · rw [absent] at some
      cases some
    · exact Or.inl brings
    · exact Or.inr active
  | _ => trivial

def taskFrame (taskID parentToolUseID : String) : Action := .frame ⟨"task_progress", taskID, parentToolUseID, ""⟩ true

def background : List Action :=
  [.accept "r1", .activate "r1", taskFrame "t" "u", .complete, .accept "r2", .activate "r2", taskFrame "t" "", taskFrame "" "u"]

theorem background_consistent : ∃ w, run step start background = some w ∧ w.log.map Entry.requestID = ["r1", "r1", "r1"] ∧
    Consistent w.log := by
  have short : ∀ action ∈ background, Short action := by
    have empty : ∀ action ∈ ([] : List Action), Short action := fun action member => absurd member not_mem_nil
    simp only [background, taskFrame, forall_mem_cons, Short]
    exact ⟨trivial, trivial, by decide, trivial, trivial, trivial, by decide, by decide, empty⟩
  exact ⟨_, rfl, by decide, tasks_consistent rfl short (by decide) (checked_guarded joins joins_joined _ _ (by decide +kernel))⟩

def linkedLate : List Action :=
  [.accept "r1", .activate "r1", taskFrame "t" "", taskFrame "t" "u", .complete, .accept "r2", .activate "r2", taskFrame "" "u"]

/-- The link between the two ids is lost, and the second one gets another request. -/
theorem link_lost : ∃ w, run step start linkedLate = some w ∧ w.log.map Entry.requestID = ["r2", "r1", "r1"] ∧
    ¬ Consistent w.log := by
  refine ⟨_, rfl, by decide, fun consistent => ?_⟩
  cases consistent with
  | frame f earlier same =>
    have linked := same ⟨⟨"task_progress", "t", "u", ""⟩, "r1"⟩ (by decide) (by decide)
      (.single ⟨by decide, by decide, "parent:u", by decide, by decide⟩)
    exact absurd linked (by decide)

end Runs

end PieRelay.TaskCorrelation
