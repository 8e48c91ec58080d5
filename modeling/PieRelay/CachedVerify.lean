import PieRelay.ControlPlane
import PieRelay.Executions

/-!
`Cached.Verify` of executor-manager/internal/auth/auth.go, called by any number of handlers. A step is one critical
section, or what comes between two: `Next.Verify` returns, or the context of a call ends. The token of an entry and when
its call looked at the clock, which is before its verification begins, are history.
-/
namespace PieRelay.CachedVerify
open List Executions Function
open ControlPlane (Table insert_lookup erase_lookup)

structure Principal where
  userID : String
  organizationID : String
  admin : Bool
  roles : List String
  deviceID : String
  deriving Inhabited

inductive ContextError where
  | canceled
  | deadlineExceeded

/-- `ended` is the error of the context of a call; of another error there is whether `errors.Is` finds one in it. -/
inductive Failure where
  | other (text : String) (context : Bool)
  | ended (call : Nat) (err : ContextError)

structure Answer where
  principal : Principal
  err : Option Failure

def unauthorized : Answer := ⟨default, some (.other "unauthorized" false)⟩

def Answer.isContext (answer : Answer) : Bool := answer.err.any fun
  | .other _ context => context
  | .ended _ _ => true

def Answer.isEnded (answer : Answer) : Bool := answer.err.any fun
  | .other _ _ => false
  | .ended _ _ => true

structure Entry where
  answer : Answer
  expires : Int
  token : String
  current : Int

/-- Where a call is. An answer that was cached has its entry. -/
inductive Phase where
  | entered
  | awaiting (leader : Nat)
  | verifying
  | verified (answer : Answer)
  | returned (answer : Answer) (entry : Option Entry)

structure Call where
  token : String
  current : Int
  ended : Option ContextError
  phase : Phase

/-- `next` is `Next.Verify` while its context is live: a principal, or an error and whether that is one of a context. -/
structure Cached where
  next : Option (String → Int → Principal × Option (String × Bool))
  ttl : Int
  negativeTTL : Int
  sha256 : String → String

structure World where
  calls : List Call
  entries : Table Entry
  inflight : String → Option Nat

inductive Action where
  | enter (token : String) (current : Int)
  | cancel (call : Nat) (err : ContextError)
  | look (call : Nat)
  | verify (call : Nat) (time : Int)
  | interrupt (call : Nat) (answer : Answer)
  | publish (call : Nat) (order : List String)
  | receive (call : Nat)
  | giveUp (call : Nat)

section Steps
variable (c : Cached)

def ttlOf (answer : Answer) : Int := if answer.err.isSome then c.negativeTTL else c.ttl

def dropExpired (current : Int) (entries : Table Entry) : Table Entry :=
  entries.keys.foldl (fun left key =>
    if (left.lookup key).any fun e => !decide (current < e.expires) then left.erase key else left) entries

def dropExcess (order : List String) (entries : Table Entry) : Table Entry :=
  order.foldl (fun left key => if left.keys.length ≤ 4096 then left else left.erase key) entries

def store (entries : Table Entry) (call : Call) (answer : Answer) (order : List String) : Option (Table Entry) :=
  if 0 < ttlOf c answer ∧ answer.isContext = false then
    let stored := entries.insert (c.sha256 call.token)
      ⟨answer, call.current + ttlOf c answer, call.token, call.current⟩
    if stored.keys.length ≤ 4096 then some stored
    else
      let left := dropExpired call.current stored
      if order.Perm left.keys then some (dropExcess order left) else none
  else some entries

def World.move (w : World) (i : Nat) (call : Call) (phase : Phase) : World :=
  { w with calls := w.calls.set i { call with phase := phase } }

/-- Besides an error of its own context, a verification that is broken off may answer anything but that of another. -/
def breaksOff (i : Nat) (call : Call) (answer : Answer) : Bool := call.ended.isSome && answer.err.all fun
  | .other _ _ => true
  | .ended j _ => j = i

def look (w : World) (i : Nat) (call : Call) : World :=
  match (w.entries.lookup (c.sha256 call.token)).filter fun e => call.current < e.expires with
  | some e => w.move i call (.returned e.answer (some e))
  | none => match w.inflight (c.sha256 call.token) with
    | some leader => w.move i call (.awaiting leader)
    | none => { w.move i call .verifying with inflight := update w.inflight (c.sha256 call.token) (some i) }

def publish (w : World) (i : Nat) (call : Call) (answer : Answer) (order : List String) : Option World :=
  (store c w.entries call answer order).map fun entries =>
    ⟨(w.move i call (.returned answer none)).calls, entries, update w.inflight (c.sha256 call.token) none⟩

def act (w : World) (i : Nat) (call : Call) : Action → Phase → Option World
  | .cancel _ err, _ => if call.ended.isSome then none
    else some { w with calls := w.calls.set i { call with ended := some err } }
  | .look _, .entered => some (look c w i call)
  | .verify _ time, .verifying => c.next.map fun next =>
    let answer := next call.token time
    w.move i call (.verified ⟨answer.1, answer.2.map fun err => .other err.1 err.2⟩)
  | .interrupt _ answer, .verifying => if breaksOff i call answer then some (w.move i call (.verified answer)) else none
  | .publish _ order, .verified answer => publish c w i call answer order
  | .receive _, .awaiting leader => match (w.calls[leader]?).map Call.phase with
    | some (.returned answer _) => some (w.move i call (.returned answer none))
    | _ => none
  | .giveUp _, .awaiting _ => call.ended.map fun err => w.move i call (.returned ⟨default, some (.ended i err)⟩ none)
  | _, _ => none

def Action.call? : Action → Option Nat
  | .enter _ _ => none
  | .cancel i _ | .look i | .verify i _ | .interrupt i _ | .publish i _ | .receive i | .giveUp i => some i

def step (w : World) : Action → Option World
  | .enter token current => some { w with
      calls := w.calls ++ [⟨token, current, none, if c.next.isSome then .entered else .returned unauthorized none⟩] }
  | action => action.call?.bind fun i => (w.calls[i]?).bind fun call => act c w i call action call.phase

end Steps

def start : World := ⟨[], ∅, fun _ => none⟩

structure Safe (c : Cached) (w : World) : Prop where
  own : ∀ (i : Nat) (call : Call) answer entry j err, w.calls[i]? = some call → call.phase = .returned answer entry →
    answer.err = some (.ended j err) → j ≠ i → call.ended.isSome
  single : ∀ (i j : Nat) (a b : Call), w.calls[i]? = some a → w.calls[j]? = some b →
    a.phase = .verifying → b.phase = .verifying → a.token = b.token → i = j
  cached : ∀ call ∈ w.calls, ∀ answer e, call.phase = .returned answer (some e) →
    answer = e.answer ∧ e.token = call.token ∧ call.current < e.current + ttlOf c e.answer
  uncached : ∀ key e, w.entries.lookup key = some e → e.answer.isContext = false
  bounded : w.entries.keys.length ≤ 4096

/-- The condition. The tokens are among those given, and where a verification has ended with the error of its own
    context, no call whose context is live awaits it. -/
def careful (tokens : List String) (w : World) : Action → Bool
  | .enter token _ => tokens.contains token
  | .publish i _ => match (w.calls[i]?).map Call.phase with
    | some (.verified answer) => !answer.isEnded || w.calls.all fun waiter => match waiter.phase with
      | .awaiting leader => leader ≠ i || waiter.ended.isSome
      | _ => true
    | _ => true
  | _ => true

def Phase.leads : Phase → Bool
  | .verifying | .verified _ => true
  | _ => false

def Heard (phase : Phase) (ended : Option ContextError) : Prop :=
  phase.leads = true ∨ ∃ answer entry, phase = .returned answer entry ∧ (answer.isEnded → ended.isSome)

def Fair (c : Cached) (i : Nat) (call : Call) : Prop := match call.phase with
  | .verified answer => ∀ j err, answer.err = some (.ended j err) → j = i
  | .returned answer entry => (∀ j err, answer.err = some (.ended j err) → j ≠ i → call.ended.isSome) ∧
    ∀ e, entry = some e → answer = e.answer ∧ e.token = call.token ∧ call.current < e.current + ttlOf c e.answer
  | _ => True

structure Kept (c : Cached) (tokens : List String) (entries : Table Entry) : Prop where
  entry : ∀ key e, entries.lookup key = some e → c.sha256 e.token = key ∧ e.token ∈ tokens ∧
    e.expires = e.current + ttlOf c e.answer ∧ e.answer.isContext = false
  bounded : entries.keys.length ≤ 4096

structure Inv (c : Cached) (tokens : List String) (w : World) : Prop where
  token : ∀ call ∈ w.calls, call.token ∈ tokens
  leads : ∀ key (i : Nat), w.inflight key = some i ↔
    ∃ call : Call, w.calls[i]? = some call ∧ call.phase.leads = true ∧ c.sha256 call.token = key
  awaits : ∀ call ∈ w.calls, ∀ leader, call.phase = .awaiting leader →
    ∃ lead : Call, w.calls[leader]? = some lead ∧ Heard lead.phase call.ended
  fair : ∀ (i : Nat) (call : Call), w.calls[i]? = some call → Fair c i call
  kept : Kept c tokens w.entries

section Invariants
variable {c : Cached} {tokens : List String} {w w' : World} {i : Nat} {call call' : Call}
  {entries : Table Entry} {inflight : String → Option Nat}

theorem dropped (drop : Table Entry → String → Table Entry)
    (drops : ∀ left key, drop left key = left ∨ drop left key = left.erase key) (order : List String)
    (entries : Table Entry) {key : String} {e : Entry}
    (there : (order.foldl drop entries).lookup key = some e) : entries.lookup key = some e := by
  induction order generalizing entries with
  | nil => exact there
  | cons first rest ih =>
    have found := ih _ there
    rcases drops entries first with same | erased
    · rwa [same] at found
    · rw [erased, erase_lookup] at found
      split at found
      · cases found
      · exact found

theorem few_stay (order : List String) (few : entries.keys.length ≤ 4096) : dropExcess order entries = entries := by
  induction order with
  | nil => rfl
  | cons key rest ih =>
    rw [dropExcess, foldl_cons, if_pos few]
    exact ih

theorem excess_dropped {order : List String} (perm : order.Perm entries.keys) (most : entries.keys.length ≤ 4097) :
    (dropExcess order entries).keys.length ≤ 4096 := by
  by_cases few : entries.keys.length ≤ 4096
  · rwa [few_stay order few]
  · cases order with
    | nil => simp [← perm.length_eq] at few
    | cons key rest =>
      have erased : (entries.erase key).keys.length ≤ 4096 := by
        rw [AList.keys_erase, length_erase_of_mem (perm.subset mem_cons_self)]
        omega
      rw [dropExcess, foldl_cons, if_neg few]
      change (dropExcess rest _).keys.length ≤ 4096
      rwa [few_stay rest erased]

theorem expired_fewer (current : Int) : (dropExpired current entries).keys.length ≤ entries.keys.length := by
  unfold dropExpired
  refine foldlRecOn (motive := fun left : Table Entry => left.keys.length ≤ entries.keys.length) _ _ le_rfl
    fun left fewer key _ => ?_
  split
  · rw [AList.keys_erase]
    exact length_erase_le.trans fewer
  · exact fewer

theorem store_kept {answer : Answer} {order : List String} (kept : Kept c tokens w.entries)
    (known : call.token ∈ tokens) (stored : store c w.entries call answer order = some entries) : Kept c tokens entries := by
  unfold store at stored
  split at stored
  · next good =>
    have inserted : ∀ key e, (w.entries.insert (c.sha256 call.token)
        ⟨answer, call.current + ttlOf c answer, call.token, call.current⟩).lookup key = some e →
        c.sha256 e.token = key ∧ e.token ∈ tokens ∧ e.expires = e.current + ttlOf c e.answer ∧
          e.answer.isContext = false := by
      intro key e there
      rw [insert_lookup] at there
      split at there
      · next same =>
        cases there
        exact ⟨same.symm, known, rfl, good.2⟩
      · exact kept.entry key e there
    dsimp only at stored
    split at stored
    · next few =>
      cases stored
      exact ⟨inserted, few⟩
    · split at stored
      · next perm =>
        cases stored
        refine ⟨fun key e there => inserted key e (dropped _ ?_ _ _ (dropped _ ?_ _ _ there)), excess_dropped perm ?_⟩
        · intro left key
          split
          · exact .inr rfl
          · exact .inl rfl
        · intro left key
          split
          · exact .inl rfl
          · exact .inr rfl
        · refine (expired_fewer _).trans ?_
          rw [AList.keys_insert, length_cons]
          have most := kept.bounded
          have erased := length_erase_le (a := c.sha256 call.token) (l := w.entries.keys)
          omega
      · cases stored
  · cases stored
    exact kept

theorem set_inv (inv : Inv c tokens w) (here : w.calls[i]? = some call) (token : call'.token = call.token)
    (leads : ∀ key j, inflight key = some j ↔
      if j = i then call'.phase.leads = true ∧ c.sha256 call.token = key else w.inflight key = some j)
    (heard : ∀ waiter ∈ w.calls, waiter.phase = .awaiting i → Heard call'.phase waiter.ended)
    (follows : ∀ leader, call'.phase = .awaiting leader →
      leader ≠ i ∧ ∃ lead : Call, w.calls[leader]? = some lead ∧ Heard lead.phase call'.ended)
    (fair : Fair c i call') (kept : Kept c tokens entries) : Inv c tokens ⟨w.calls.set i call', entries, inflight⟩ := by
  have inside := (List.getElem?_eq_some_iff.mp here).1
  have here' : (w.calls.set i call')[i]? = some call' := by rw [List.getElem?_set_self inside]
  have others : ∀ {j}, j ≠ i → (w.calls.set i call')[j]? = w.calls[j]? := fun other =>
    List.getElem?_set_ne (Ne.symm other)
  refine ⟨fun one member => ?_, fun key j => ?_, fun one member leader awaiting => ?_, fun j one there => ?_, kept⟩
  · rcases List.mem_or_eq_of_mem_set member with old | rfl
    · exact inv.token one old
    · exact token ▸ inv.token call (List.mem_of_getElem? here)
  · rw [leads key j]
    split
    · next same =>
      subst same
      simp [here', token]
    · next other =>
      rw [others other]
      exact inv.leads key j
  · rcases List.mem_or_eq_of_mem_set member with old | rfl
    · by_cases same : leader = i
      · subst same
        exact ⟨call', here', heard one old awaiting⟩
      · rw [others same]
        exact inv.awaits one old leader awaiting
    · obtain ⟨other, found⟩ := follows leader awaiting
      rwa [others other]
  · by_cases same : j = i
    · subst same
      cases here'.symm.trans there
      exact fair
    · rw [others same] at there
      exact inv.fair j one there

theorem move_inv (inv : Inv c tokens w) (here : w.calls[i]? = some call) (token : call'.token = call.token)
    (leads : call'.phase.leads = call.phase.leads)
    (stays : ∀ answer entry, call.phase = .returned answer entry → call'.phase = .returned answer entry)
    (follows : ∀ leader, call'.phase = .awaiting leader →
      leader ≠ i ∧ ∃ lead : Call, w.calls[leader]? = some lead ∧ Heard lead.phase call'.ended)
    (fair : Fair c i call') : Inv c tokens { w with calls := w.calls.set i call' } := by
  refine set_inv inv here token (fun key j => ?_) (fun waiter member awaiting => ?_) follows fair inv.kept
  · split
    · next same =>
      subst same
      rw [inv.leads, leads]
      simp [here]
    · exact Iff.rfl
  · obtain ⟨lead, there, heard⟩ := inv.awaits waiter member i awaiting
    cases here.symm.trans there
    rcases heard with lead | ⟨answer, entry, returned, fine⟩
    · exact .inl (leads.trans lead)
    · exact .inr ⟨answer, entry, stays answer entry returned, fine⟩

theorem look_inv (apart : ∀ a ∈ tokens, ∀ b ∈ tokens, c.sha256 a = c.sha256 b → a = b) (inv : Inv c tokens w)
    (here : w.calls[i]? = some call) (entered : call.phase = .entered) : Inv c tokens (look c w i call) := by
  have idle : call.phase.leads = false := by rw [entered]; rfl
  have fresh : ∀ {phase : Phase} answer entry, call.phase = .returned answer entry → phase = .returned answer entry := by
    intro phase answer entry returned
    cases entered.symm.trans returned
  have known := inv.token call (List.mem_of_getElem? here)
  unfold look
  split
  · next e found =>
    obtain ⟨there, unexpired⟩ := Option.filter_eq_some_iff.mp found
    obtain ⟨same, old, expires, clean⟩ := inv.kept.entry _ e there
    refine move_inv inv here rfl idle.symm fresh nofun ⟨fun j err failed => ?_, fun other this => ?_⟩
    · simp [Answer.isContext, failed] at clean
    · cases this
      refine ⟨rfl, apart _ old _ known same, ?_⟩
      rw [← expires]
      exact of_decide_eq_true unexpired
  · split
    · next leader found =>
      obtain ⟨lead, there, leads, -⟩ := (inv.leads _ leader).mp found
      refine move_inv inv here rfl idle.symm fresh ?_ trivial
      rintro other ⟨⟩
      refine ⟨?_, lead, there, .inl leads⟩
      rintro rfl
      cases here.symm.trans there
      exact absurd leads (by simp [idle])
    · next free =>
      refine set_inv inv here rfl (fun key j => ?_) (fun waiter member awaiting => .inl rfl) nofun trivial inv.kept
      by_cases same : key = c.sha256 call.token
      · subst same
        rw [update_self]
        split
        · next mine => simp [mine, Phase.leads]
        · next other => simp [free, Ne.symm other]
      · rw [update_of_ne same]
        split
        · next mine =>
          subst mine
          refine iff_of_false (fun led => ?_) fun led => same led.2.symm
          obtain ⟨lead, there, leads, -⟩ := (inv.leads key j).mp led
          cases here.symm.trans there
          exact absurd leads (by simp [idle])
        · exact Iff.rfl

theorem publish_inv {answer : Answer} {order : List String} (inv : Inv c tokens w) (here : w.calls[i]? = some call)
    (verified : call.phase = .verified answer) (allowed : careful tokens w (.publish i order))
    (published : publish c w i call answer order = some w') : Inv c tokens w' := by
  obtain ⟨entries, stored, rfl⟩ := Option.map_eq_some_iff.mp published
  have fair := inv.fair i call here
  rw [Fair, verified] at fair
  have led : call.phase.leads = true := by rw [verified]; rfl
  refine set_inv inv here rfl (fun key j => ?_) (fun waiter member awaiting => .inr ⟨answer, none, rfl, fun ended => ?_⟩)
    nofun ⟨fun j err failed other => absurd (fair j err failed) other, nofun⟩
    (store_kept inv.kept (inv.token call (List.mem_of_getElem? here)) stored)
  · have mine := (inv.leads _ i).mpr ⟨call, here, led, rfl⟩
    by_cases same : key = c.sha256 call.token
    · subst same
      rw [update_self]
      split
      · simp [Phase.leads]
      · next other => simp [mine, Ne.symm other]
    · rw [update_of_ne same]
      split
      · next this =>
        subst this
        refine iff_of_false (fun led => ?_) (by simp [Phase.leads])
        obtain ⟨lead, there, -, key⟩ := (inv.leads key j).mp led
        cases here.symm.trans there
        exact same key.symm
      · exact Iff.rfl
  · simp only [careful, here, Option.map_some, verified, ended, Bool.not_true, Bool.false_or, all_eq_true] at allowed
    simpa [awaiting] using allowed waiter member

theorem enter_inv {token : String} (inv : Inv c tokens w) (known : token ∈ tokens) (current : Int) (phase : Phase)
    (fresh : phase = .entered ∨ phase = .returned unauthorized none) :
    Inv c tokens { w with calls := w.calls ++ [⟨token, current, none, phase⟩] } := by
  have old : ∀ {j : Nat} {one : Call}, w.calls[j]? = some one →
      (w.calls ++ [⟨token, current, none, phase⟩])[j]? = some one := by
    intro j one there
    rw [List.getElem?_append_left (List.getElem?_eq_some_iff.mp there).1, there]
  have back : ∀ {j : Nat} {one : Call}, (w.calls ++ [⟨token, current, none, phase⟩])[j]? = some one →
      w.calls[j]? = some one ∨ one = ⟨token, current, none, phase⟩ := by
    intro j one there
    rw [List.getElem?_append] at there
    split at there
    · exact .inl there
    · exact .inr (mem_singleton.mp (List.mem_of_getElem? there))
  refine ⟨fun one member => ?_, fun key j => ?_, fun one member leader awaiting => ?_, fun j one there => ?_, inv.kept⟩
  · rcases mem_append.mp member with there | there
    · exact inv.token one there
    · cases mem_singleton.mp there
      exact known
  · rw [inv.leads]
    refine exists_congr fun one => ⟨fun led => ⟨old led.1, led.2⟩, fun led => ⟨(back led.1).resolve_right ?_, led.2⟩⟩
    rintro rfl
    rcases fresh with rfl | rfl <;> cases led.2.1
  · rcases mem_append.mp member with there | there
    · obtain ⟨lead, found, heard⟩ := inv.awaits one there leader awaiting
      exact ⟨lead, old found, heard⟩
    · cases mem_singleton.mp there
      rcases fresh with rfl | rfl <;> cases awaiting
  · rcases back there with there | rfl
    · exact inv.fair j one there
    · rcases fresh with rfl | rfl
      · trivial
      · exact ⟨nofun, nofun⟩

theorem act_inv {action : Action} (apart : ∀ a ∈ tokens, ∀ b ∈ tokens, c.sha256 a = c.sha256 b → a = b)
    (inv : Inv c tokens w) (about : action.call? = some i) (here : w.calls[i]? = some call)
    (allowed : careful tokens w action) (acted : act c w i call action call.phase = some w') : Inv c tokens w' := by
  have fair := inv.fair i call here
  have awaited := inv.awaits call (List.mem_of_getElem? here)
  cases action with
  | enter => cases about
  | cancel _ err =>
    rw [act] at acted
    split at acted
    · cases acted
    · cases acted
      refine move_inv inv here rfl rfl (fun _ _ same => same) (fun leader awaiting => ?_) ?_
      · obtain ⟨lead, there, heard⟩ := awaited leader awaiting
        refine ⟨?_, lead, there, heard.imp_right ?_⟩
        · rintro rfl
          cases here.symm.trans there
          rw [Heard, show call.phase = .awaiting leader from awaiting] at heard
          rcases heard with leads | ⟨answer, entry, returned, -⟩
          · cases leads
          · cases returned
        · rintro ⟨answer, entry, returned, -⟩
          exact ⟨answer, entry, returned, fun _ => rfl⟩
      · revert fair
        unfold Fair
        dsimp only
        cases call.phase with
        | returned answer entry => exact fun fair => ⟨fun _ _ _ _ => rfl, fair.2⟩
        | _ => exact id
  | look =>
    cases about
    cases phase : call.phase with
    | entered =>
      rw [phase] at acted
      cases acted
      exact look_inv apart inv here phase
    | awaiting | verifying | verified | returned =>
      rw [phase] at acted
      cases acted
  | verify _ time =>
    cases phase : call.phase with
    | verifying =>
      rw [phase] at acted
      obtain ⟨next, -, rfl⟩ := Option.map_eq_some_iff.mp acted
      refine move_inv inv here rfl (by rw [phase]; rfl) (by simp [phase]) nofun fun j err failed => ?_
      obtain ⟨own, -, other⟩ := Option.map_eq_some_iff.mp failed
      cases other
    | entered | awaiting | verified | returned =>
      rw [phase] at acted
      cases acted
  | interrupt _ answer =>
    cases phase : call.phase with
    | verifying =>
      rw [phase, act] at acted
      split at acted
      · next broken =>
        cases acted
        refine move_inv inv here rfl (by rw [phase]; rfl) (by simp [phase]) nofun fun j err failed => ?_
        simp only [breaksOff, failed, Bool.and_eq_true, Option.all_some, decide_eq_true_eq] at broken
        exact broken.2
      · cases acted
    | entered | awaiting | verified | returned =>
      rw [phase] at acted
      cases acted
  | publish _ order =>
    cases about
    cases phase : call.phase with
    | verified answer =>
      rw [phase] at acted
      exact publish_inv inv here phase allowed acted
    | entered | awaiting | verifying | returned =>
      rw [phase] at acted
      cases acted
  | receive =>
    cases phase : call.phase with
    | awaiting leader =>
      obtain ⟨lead, there, heard⟩ := awaited leader phase
      rw [phase, act, there, Option.map_some] at acted
      split at acted
      · next answer entry returned =>
        cases acted
        refine move_inv inv here rfl (by rw [phase]; rfl) (by simp [phase]) nofun ⟨fun j err failed other => ?_, nofun⟩
        injection returned with returned
        rw [Heard, returned] at heard
        rcases heard with leads | ⟨same, entry, returned, fine⟩
        · cases leads
        · cases returned
          exact fine (by simp [Answer.isEnded, failed])
      · cases acted
    | entered | verifying | verified | returned =>
      rw [phase] at acted
      cases acted
  | giveUp =>
    cases phase : call.phase with
    | awaiting leader =>
      rw [phase] at acted
      obtain ⟨err, -, rfl⟩ := Option.map_eq_some_iff.mp acted
      refine move_inv inv here rfl (by rw [phase]; rfl) (by simp [phase]) nofun ⟨fun j err failed other => ?_, nofun⟩
      cases failed
      exact absurd rfl other
    | entered | verifying | verified | returned =>
      rw [phase] at acted
      cases acted

theorem step_inv {action : Action} (apart : ∀ a ∈ tokens, ∀ b ∈ tokens, c.sha256 a = c.sha256 b → a = b)
    (inv : Inv c tokens w) (allowed : careful tokens w action) (stepped : step c w action = some w') :
    Inv c tokens w' := by
  cases action with
  | enter token current =>
    cases stepped
    refine enter_inv inv (by simpa [careful] using allowed) current _ ?_
    split
    · exact .inl rfl
    · exact .inr rfl
  | _ =>
    obtain ⟨call, here, acted⟩ := Option.bind_eq_some_iff.mp stepped
    exact act_inv apart inv rfl here allowed acted

theorem inv_safe (inv : Inv c tokens w) : Safe c w := by
  refine ⟨fun i call answer entry j err there returned => ?_, fun i j a b one two first second same => ?_,
    fun call member answer e returned => ?_, fun key e there => (inv.kept.entry key e there).2.2.2, inv.kept.bounded⟩
  · have fair := inv.fair i call there
    rw [Fair, returned] at fair
    exact fair.1 j err
  · have here := (inv.leads _ i).mpr ⟨a, one, by rw [first]; rfl, rfl⟩
    have there := (inv.leads _ j).mpr ⟨b, two, by rw [second]; rfl, rfl⟩
    rw [same, there] at here
    exact (Option.some_inj.mp here).symm
  · obtain ⟨i, there⟩ := List.getElem?_of_mem member
    have fair := inv.fair i call there
    rw [Fair, returned] at fair
    exact fair.2 e rfl

end Invariants

/-- Every run in which no live call awaits a verification that its own context has ended, of tokens with digests of
    their own. -/
theorem careful_runs_safe (c : Cached) (tokens : List String)
    (apart : ∀ a ∈ tokens, ∀ b ∈ tokens, c.sha256 a = c.sha256 b → a = b) (actions : List Action) (w : World)
    (guarded : Guarded (step c) (fun w action => careful tokens w action) start actions)
    (ran : run (step c) start actions = some w) : Safe c w := by
  refine @inv_safe c tokens w (guarded_run_invariant (Inv c tokens)
    (fun _ _ _ allowed inv stepped => step_inv apart inv allowed stepped) guarded ran ?_)
  refine ⟨?_, ?_, ?_, ?_, ?_, ?_⟩ <;> simp [start]

def service : Cached := ⟨some fun _ _ => (default, none), 30, 5, id⟩

def apart : List Action := [.enter "t" 0, .look 0, .enter "u" 1, .look 1, .verify 0 2, .publish 0 []]

theorem apart_safe : ∃ w, run (step service) start apart = some w ∧ Safe service w :=
  ⟨_, rfl, careful_runs_safe service ["t", "u"] (fun _ _ _ _ same => same) apart _
    (checked_guarded (careful ["t", "u"]) (fun _ _ passed => passed) _ _ (by decide +kernel)) rfl⟩

/-- A call joins the verification of another one, whose context then ends. -/
theorem joined_canceled : ∃ w, run (step service) start
    [.enter "t" 0, .look 0, .enter "t" 1, .look 1, .cancel 0 .canceled,
      .interrupt 0 ⟨default, some (.ended 0 .canceled)⟩, .publish 0 [], .receive 1] = some w ∧ ¬ Safe service w := by
  refine ⟨_, rfl, fun safe => ?_⟩
  have ended := safe.own 1 _ _ _ 0 .canceled rfl rfl rfl (by decide)
  cases ended

end PieRelay.CachedVerify
