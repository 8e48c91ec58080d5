import PieRelay.Executions
import PieRelay.PreviewService
import PieRelay.PreviewToken

/-!
The preview gateway, cmd/preview-gateway/main.go of executor-manager, and one manager that it asks
for its routes. A route that has been found, or not, is kept for a while. Many requests are under
way at once: one looks at the cache, or asks the manager, which answers by its maps, and then keeps
the answer from the time on at which it asked. Previews are put and deleted in between, and the
records that they refer to change at will. Left out: what is proxied, and the limits on it.
-/
namespace PieRelay.PreviewGateway
open Executions Option
open Function
open IntegrationRecords
open JsonScanner (Bytes)
open PreviewRecords
open PreviewService
open PreviewToken
open RelayToken (Secret bind_ok)
open RoomRegistry (Time)
open ControlPlane (Table)

structure Route where
  id : String
  hostname : String
  backend : String
  port : Int
  visibility : String
  accessVersion : Int
  deriving DecidableEq

def routeOf (s : Service) (now : Time) (hostname : String) : Option Route := do
  let id ← s.previewIndex.hosts (toLower (trimSpace (toLower (trimSpace hostname))))
  guard (id ≠ "")
  let value ← s.previews.lookup id
  guard (value.status = .ready ∧ value.backendHost ≠ "" ∧ ¬ expired now value ∧ active s value)
  return ⟨value.id, value.hostname, value.backendHost, value.port, value.visibility, value.accessVersion⟩

structure Gateway where
  mac : Mac
  accessSecret : Secret
  domain : String
  cacheTTL : Time
  sessionTTL : Time
  positive : 0 < cacheTTL

def hostnameOf (host : String) : String :=
  let letters := (toLower host).toList
  let port := letters.reverse.takeWhile (· ≠ ':')
  if ':' ∈ letters ∧ ']' ∉ port then String.ofList (letters.take (letters.length - port.length - 1))
  else toLower host

def label (c : Char) : Bool := ('a' ≤ c ∧ c ≤ 'z') ∨ ('2' ≤ c ∧ c ≤ '7')

def hostPattern (domain hostname : String) : Bool :=
  let letters := hostname.toList
  letters.take 2 = ['p', '-'] ∧ ((letters.drop 2).take 26).length = 26 ∧ ((letters.drop 2).take 26).all label ∧
    letters.drop 28 = '.' :: domain.toList

def validBackend (value : String) : Bool :=
  value ≠ "" ∧ value.utf8ByteSize ≤ 63 ∧ value.toList.all hostCharacter

def validRoute (hostname : String) (value : Route) : Bool :=
  value.id ≠ "" ∧ value.hostname = hostname ∧ validBackend value.backend ∧ 1024 ≤ value.port ∧ value.port ≤ 65535 ∧
    (value.visibility = "private" ∨ value.visibility = "public") ∧ 0 ≤ value.accessVersion

structure Request where
  host : String
  token : Bytes
  cookie : Option Bytes

inductive Answer where
  | unauthorized
  | unavailable
  | redirect (session : Bytes)
  | proxied
  deriving DecidableEq

def admits (g : Gateway) (route : Route) (token : Bytes) (expectedType : String) (now : Time) : Bool :=
  (verify g.mac g.accessSecret token expectedType now).any fun claims =>
    claims.previewID = route.id ∧ equalFold claims.hostname route.hostname ∧
      claims.accessVersion = route.accessVersion

def sessionClaims (route : Route) : Claims :=
  ⟨"", "session", route.id, route.hostname, route.accessVersion, "", 0⟩

def serveRoute (g : Gateway) (route : Route) (request : Request) (now : Time) (nonce : String) : Answer :=
  if request.token ≠ [] then
    if admits g route request.token "launch" now then
      match issue g.mac g.accessSecret (sessionClaims route) g.sessionTTL now nonce with
      | some session => .redirect session
      | none => .unavailable
    else .unauthorized
  else if route.visibility ≠ "public" then
    match request.cookie with
    | none => .unauthorized
    | some cookie => if admits g route cookie "session" now then .proxied else .unauthorized
  else .proxied

structure CachedRoute where
  route : Option Route
  expires : Time

inductive Phase where
  | idle
  | asked (request : Request) (began : Time)
  | answered (request : Request) (began : Time) (route : Option Route)
  | serving (request : Request) (began : Time) (route : Route)

structure World where
  maps : Service
  now : Time
  cache : String → Option CachedRoute
  requests : String → Phase

inductive Action where
  | put (value : Preview) (expected : Nat)
  | delete (id : String) (expected : Nat)
  | refer (integrations : Table Integration) (integrationUsers : Table IntegrationUser)
      (projects : Table IntegrationRecords.Project)
  | tick (elapsed : Nat)
  | arrive (call : String) (request : Request)
  | answer (call : String)
  | keep (call : String)
  | leave (call : String)
  | evict (hostname : String)

def moveTo (w : World) (call : String) (phase : Phase) : World := { w with requests := update w.requests call phase }

/-- What `lookup` makes of an answer of the manager: the entry it keeps, and where the request is then.
    An answer that is not valid is an error. -/
def kept (g : Gateway) (request : Request) (began : Time) (route : Option Route) : Option CachedRoute × Phase :=
  match route with
  | none => (some ⟨none, began + g.cacheTTL⟩, .idle)
  | some route =>
    if validRoute (hostnameOf request.host) route then
      (some ⟨some route, began + g.cacheTTL⟩, .serving request began route)
    else (none, .idle)

def step (g : Gateway) (w : World) : Action → Option World
  | .put value expected =>
    match putPreviewRecord w.maps w.now value expected with
    | .ok (maps, _) => some { w with maps }
    | .error _ => none
  | .delete id expected =>
    match deletePreview w.maps id expected with
    | .ok maps => some { w with maps }
    | .error _ => none
  | .refer integrations integrationUsers projects =>
    some { w with maps := { w.maps with integrations, integrationUsers, projects } }
  | .tick elapsed => some { w with now := w.now + elapsed }
  | .arrive call request =>
    match w.requests call with
    | .idle =>
      if hostPattern g.domain (hostnameOf request.host) then
        match w.cache (hostnameOf request.host) with
        | none => some (moveTo w call (.asked request w.now))
        | some entry =>
          if w.now < entry.expires then
            match entry.route with
            | some route => some (moveTo w call (.serving request w.now route))
            | none => some w
          else some (moveTo w call (.asked request w.now))
      else some w
    | _ => none
  | .answer call =>
    match w.requests call with
    | .asked request began =>
      some (moveTo w call (.answered request began (routeOf w.maps w.now (hostnameOf request.host))))
    | _ => none
  | .keep call =>
    match w.requests call with
    | .answered request began route =>
      match kept g request began route with
      | (some entry, phase) =>
        some (moveTo { w with cache := update w.cache (hostnameOf request.host) (some entry) } call phase)
      | (none, phase) => some (moveTo w call phase)
    | _ => none
  | .leave call => some (moveTo w call .idle)
  | .evict hostname => some { w with cache := update w.cache hostname none }

def Filed (s : Service) : Prop := ∀ id record, s.previews.lookup id = some record → record.id = id

def Generations (w next : World) : Prop :=
  ∀ id before after, w.maps.previews.lookup id = some before → next.maps.previews.lookup id = some after →
    after.accessVersion =
      if before.visibility ≠ after.visibility then before.accessVersion + 1 else before.accessVersion

def spares (id : String) : Action → Bool
  | .delete gone _ => gone ≠ id
  | _ => true

variable {w next : World} {g : Gateway} {action : Action} {id : String} {version : Int} {now : Time}
  {route : Route} {C : CachedRoute → Prop} {P : Phase → Prop} {phase : Phase} {token : Bytes}

theorem generations_refl (same : next.maps.previews = w.maps.previews) : Generations w next := by
  intro id before after stored found
  rw [same, stored] at found
  cases found
  rw [if_neg (not_not.mpr rfl)]

theorem same_generation {before record : Preview} (same : samePreview before record) : record.accessVersion =
      if before.visibility ≠ record.visibility then before.accessVersion + 1 else before.accessVersion := by
  simp only [samePreview, decide_eq_true_eq] at same
  exact same.2.2.2.2.2.2.2.2

section
variable (stepped : step g w action = some next)
include stepped

/-- The records after a step: the same ones, or one has been put, or one has been deleted. -/
theorem step_records : next.maps.previews = w.maps.previews ∨ (∃ record, next.maps = filed w.maps record ∧
        ∀ before, w.maps.previews.lookup record.id = some before → samePreview before record) ∨
      ∃ id, spares id action = false ∧ next.maps.previews = w.maps.previews.erase id := by
  cases action with
  | put =>
    dsimp only [step] at stepped
    split at stepped
    · next record put =>
      cases stepped
      obtain ⟨rfl, -, same, -⟩ := put_taken put
      exact .inr (.inl ⟨record, rfl, same⟩)
    · cases stepped
  | delete id =>
    dsimp only [step] at stepped
    split at stepped
    · next deleted =>
      cases stepped
      simp only [deletePreview, bind_ok, pure, Except.pure, Except.ok.injEq] at deleted
      obtain ⟨-, -, before, -, -, -, rfl⟩ := deleted
      exact .inr (.inr ⟨id, decide_eq_false (not_not.mpr rfl), rfl⟩)
    · cases stepped
  | refer _ _ _ | tick _ | leave _ | evict _ =>
    cases stepped
    exact .inl rfl
  | arrive =>
    dsimp only [step] at stepped
    repeat' split at stepped
    all_goals first
      | cases stepped
        exact .inl rfl
      | cases stepped
  | answer call | keep call =>
    dsimp only [step] at stepped
    repeat' split at stepped
    all_goals first
      | cases stepped
        exact .inl rfl
      | cases stepped

theorem step_filed (kept : Filed w.maps) : Filed next.maps := by
  rcases step_records stepped with same | ⟨record, put, -⟩ | ⟨gone, -, deleted⟩
  · unfold Filed
    rw [same]
    exact kept
  · rw [put]
    exact filed_filed kept
  · intro id record stored
    rw [deleted] at stored
    by_cases here : id = gone
    · subst here
      rw [AList.lookup_erase] at stored
      cases stored
    · exact kept id record ((AList.lookup_erase_ne here).symm.trans stored)

theorem step_generations : Generations w next := by
  rcases step_records stepped with same | ⟨record, put, unchanged⟩ | ⟨gone, -, deleted⟩
  · exact generations_refl same
  · intro id before after stored found
    rw [put, filed] at found
    by_cases here : id = record.id
    · subst here
      rw [AList.lookup_insert] at found
      cases found
      exact same_generation (unchanged before stored)
    · rw [AList.lookup_insert_ne here, stored] at found
      cases found
      rw [if_neg (not_not.mpr rfl)]
  · intro id before after stored found
    rw [deleted] at found
    by_cases here : id = gone
    · subst here
      rw [AList.lookup_erase] at found
      cases found
    · rw [AList.lookup_erase_ne here, stored] at found
      cases found
      rw [if_neg (not_not.mpr rfl)]

theorem step_stored (spared : spares id action) {before : Preview}
    (stored : w.maps.previews.lookup id = some before) : ∃ after, next.maps.previews.lookup id = some after := by
  rcases step_records stepped with same | ⟨record, put, -⟩ | ⟨gone, aimed, deleted⟩
  · exact ⟨before, by rw [same, stored]⟩
  · rw [put, filed]
    by_cases here : id = record.id
    · subst here
      exact ⟨record, AList.lookup_insert _⟩
    · exact ⟨before, (AList.lookup_insert_ne here).trans stored⟩
  · have apart : id ≠ gone := by
      rintro rfl
      rw [spared] at aimed
      cases aimed
    exact ⟨before, by rw [deleted, AList.lookup_erase_ne apart, stored]⟩

/-- The generation of a preview that is not deleted never falls. -/
theorem step_version (spared : spares id action)
    (held : ∃ before, w.maps.previews.lookup id = some before ∧ version ≤ before.accessVersion) :
    ∃ after, next.maps.previews.lookup id = some after ∧ version ≤ after.accessVersion := by
  obtain ⟨before, stored, least⟩ := held
  obtain ⟨after, found⟩ := step_stored stepped spared stored
  refine ⟨after, found, ?_⟩
  rw [step_generations stepped id before after stored found]
  split
  · omega
  · exact least

end

theorem route_stored {s : Service} {hostname : String} (kept : Filed s) (routed : routeOf s now hostname = some route) :
    ∃ record, s.previews.lookup route.id = some record ∧ record.accessVersion = route.accessVersion := by
  simp only [routeOf, bind, pure, bind_eq_some_iff, some.injEq] at routed
  obtain ⟨id, -, -, -, value, stored, -, -, rfl⟩ := routed
  refine ⟨value, ?_, rfl⟩
  show s.previews.lookup value.id = some value
  rw [kept id value stored]
  exact stored

theorem step_now (stepped : step g w action = some next) : w.now ≤ next.now := by
  cases action with
  | tick elapsed =>
    cases stepped
    exact Int.le_add_of_nonneg_right (Int.natCast_nonneg elapsed)
  | refer _ _ _ | leave _ | evict _ =>
    cases stepped
    exact Int.le_refl w.now
  | put _ _ | delete _ _ | arrive _ _ | answer _ =>
    dsimp only [step] at stepped
    repeat' split at stepped
    all_goals first
      | cases stepped
        exact Int.le_refl w.now
      | cases stepped
  | keep =>
    dsimp only [step] at stepped
    split at stepped
    · split at stepped
      · cases stepped
        dsimp only [moveTo]
        exact Int.le_refl w.now
      · cases stepped
        exact Int.le_refl w.now
    · cases stepped

/-- Facts about the entries of the cache and about the requests that every way of coming by one of them keeps. -/
structure Lasting (g : Gateway) (w : World) (C : CachedRoute → Prop) (P : Phase → Prop) : Prop where
  idle : P .idle
  asked : ∀ request, P (.asked request w.now)
  hit : ∀ request entry route, C entry → entry.route = some route → w.now < entry.expires →
    P (.serving request w.now route)
  answered : ∀ request began, P (.asked request began) →
    P (.answered request began (routeOf w.maps w.now (hostnameOf request.host)))
  missed : ∀ request began, P (.answered request began none) → C ⟨none, began + g.cacheTTL⟩
  found : ∀ request began route, P (.answered request began (some route)) →
    C ⟨some route, began + g.cacheTTL⟩ ∧ P (.serving request began route)

def Everywhere (C : CachedRoute → Prop) (P : Phase → Prop) (w : World) : Prop :=
  (∀ hostname entry, w.cache hostname = some entry → C entry) ∧ ∀ call, P (w.requests call)

theorem move_everywhere (held : Everywhere C P w)
    (call : String) (good : P phase) : Everywhere C P (moveTo w call phase) := by
  refine ⟨held.1, fun other => ?_⟩
  show P (update w.requests call phase other)
  by_cases here : other = call
  · subst here
    rw [update_self]
    exact good
  · rw [update_of_ne here]
    exact held.2 other

theorem cache_everywhere (held : Everywhere C P w)
    (hostname : String) {kept : Option CachedRoute} (good : ∀ entry, kept = some entry → C entry) :
    Everywhere C P { w with cache := update w.cache hostname kept } := by
  refine ⟨fun other entry cached => ?_, held.2⟩
  change update w.cache hostname kept other = some entry at cached
  by_cases here : other = hostname
  · subst here
    rw [update_self] at cached
    exact good entry cached
  · rw [update_of_ne here] at cached
    exact held.1 other entry cached

theorem step_everywhere (stepped : step g w action = some next) (lasting : Lasting g w C P)
    (held : Everywhere C P w) : Everywhere C P next := by
  cases action with
  | put _ _ | delete _ _ =>
    dsimp only [step] at stepped
    split at stepped
    · cases stepped
      exact held
    · cases stepped
  | refer _ _ _ | tick _ =>
    cases stepped
    exact held
  | arrive call request =>
    dsimp only [step] at stepped
    split at stepped
    · split at stepped
      · split at stepped
        · cases stepped
          exact move_everywhere held call (lasting.asked request)
        · next entry cached =>
          split at stepped
          · next fresh =>
            split at stepped
            · next route routed =>
              cases stepped
              exact move_everywhere held call (lasting.hit request entry route (held.1 _ entry cached) routed fresh)
            · cases stepped
              exact held
          · cases stepped
            exact move_everywhere held call (lasting.asked request)
      · cases stepped
        exact held
    · cases stepped
  | answer call =>
    dsimp only [step] at stepped
    split at stepped
    · next request began asked =>
      cases stepped
      exact move_everywhere held call (lasting.answered request began (asked ▸ held.2 call))
    · cases stepped
  | keep call =>
    dsimp only [step] at stepped
    split at stepped
    · next request began route answered =>
      have good := held.2 call
      rw [answered] at good
      cases route with
      | none =>
        cases stepped
        refine move_everywhere (cache_everywhere held _ ?_) call lasting.idle
        rintro entry ⟨⟩
        exact lasting.missed request began good
      | some route =>
        obtain ⟨entered, served⟩ := lasting.found request began route good
        by_cases valid : validRoute (hostnameOf request.host) route
        · simp only [kept, if_pos valid, some.injEq] at stepped
          subst stepped
          refine move_everywhere (cache_everywhere held _ ?_) call served
          rintro entry ⟨⟩
          exact entered
        · simp only [kept, if_neg valid, some.injEq] at stepped
          subst stepped
          exact move_everywhere held call lasting.idle
    · cases stepped
  | leave call =>
    cases stepped
    exact move_everywhere held call lasting.idle
  | evict hostname =>
    cases stepped
    refine cache_everywhere held hostname ?_
    rintro entry ⟨⟩

def Started (w : World) : Prop :=
  Filed w.maps ∧ (∀ hostname, w.cache hostname = none) ∧ ∀ call, w.requests call = .idle

def Phase.Begun (now : Time) : Phase → Prop
  | .idle => True
  | .asked _ began => began ≤ now
  | .answered _ began _ => began ≤ now
  | .serving _ began _ => began ≤ now

def Timely (g : Gateway) (w : World) : Prop :=
  Filed w.maps ∧ Everywhere (fun entry => entry.expires ≤ w.now + g.cacheTTL) (Phase.Begun w.now) w

theorem Phase.Begun.mono {later : Time} (begun : phase.Begun now) (le : now ≤ later) : phase.Begun later := by
  cases phase with
  | idle => trivial
  | asked _ _ | answered _ _ _ | serving _ _ _ => exact Int.le_trans begun le

theorem started_timely (started : Started w) : Timely g w := by
  obtain ⟨kept, empty, idle⟩ := started
  refine ⟨kept, fun hostname entry cached => ?_, fun call => ?_⟩
  · rw [empty hostname] at cached
    cases cached
  · rw [idle call]
    trivial

theorem begun_lasting (g : Gateway) (w : World) :
    Lasting g w (fun entry => entry.expires ≤ w.now + g.cacheTTL) (Phase.Begun w.now) where
  idle := trivial
  asked _ := le_refl w.now
  hit _ _ _ _ _ _ := le_refl w.now
  answered _ _ begun := begun
  missed _ _ begun := Int.add_le_add_right begun g.cacheTTL
  found _ _ _ begun := ⟨Int.add_le_add_right begun g.cacheTTL, begun⟩

theorem step_timely (stepped : step g w action = some next) (timely : Timely g w) : Timely g next := by
  obtain ⟨kept, held⟩ := timely
  have onward := step_now stepped
  obtain ⟨cached, requests⟩ := step_everywhere stepped (begun_lasting g w) held
  refine ⟨step_filed stepped kept, fun hostname entry found => ?_, fun call => (requests call).mono onward⟩
  exact Int.le_trans (cached hostname entry found) (Int.add_le_add_right onward g.cacheTTL)

def Later (id : String) (version : Int) (route : Route) : Prop := route.id = id → version < route.accessVersion

def Phase.Past (g : Gateway) (id : String) (version : Int) (ended : Time) : Phase → Prop
  | .answered _ began (some route) => Later id version route ∨ began ≤ ended
  | .serving _ began route => Later id version route ∨ began < ended + g.cacheTTL
  | _ => True

def PastEntry (g : Gateway) (id : String) (version : Int) (ended : Time) (entry : CachedRoute) : Prop :=
  ∀ route, entry.route = some route → Later id version route ∨ entry.expires ≤ ended + g.cacheTTL

structure Ended (g : Gateway) (id : String) (version : Int) (ended : Time) (w : World) : Prop where
  filed : Filed w.maps
  stored : ∃ record, w.maps.previews.lookup id = some record ∧ version + 1 ≤ record.accessVersion
  held : Everywhere (PastEntry g id version ended) (Phase.Past g id version ended) w

-- An entry that is still served was kept for a request that began when the generation was there.
theorem past_lasting {ended : Time} (kept : Filed w.maps)
    (stored : ∃ record, w.maps.previews.lookup id = some record ∧ version + 1 ≤ record.accessVersion) :
    Lasting g w (PastEntry g id version ended) (Phase.Past g id version ended) where
  idle := trivial
  asked _ := trivial
  hit request entry route past routed fresh := by
    rcases past route routed with later | expired
    · exact .inl later
    · exact .inr (Int.lt_of_lt_of_le fresh expired)
  answered request began _ := by
    cases routed : routeOf w.maps w.now (hostnameOf request.host) with
    | none => trivial
    | some =>
      left
      intro same
      obtain ⟨record, found, version⟩ := route_stored kept routed
      obtain ⟨current, there, least⟩ := stored
      rw [same, there] at found
      cases found
      omega
  missed _ _ _ := by
    rintro route ⟨⟩
  found request began route past := by
    constructor
    · rintro _ ⟨⟩
      rcases past with later | before
      · exact .inl later
      · exact .inr (Int.add_le_add_right before g.cacheTTL)
    · rcases past with later | before
      · exact .inl later
      · exact .inr (Int.lt_of_le_of_lt before (Int.lt_add_of_pos_right ended g.positive))

theorem step_ended {ended : Time} (stepped : step g w action = some next) (spared : spares id action)
    (past : Ended g id version ended w) : Ended g id version ended next where
  filed := step_filed stepped past.filed
  stored := step_version stepped spared past.stored
  held := step_everywhere stepped (past_lasting past.filed past.stored) past.held

theorem timely_ended (timely : Timely g w)
    (stored : ∃ record, w.maps.previews.lookup id = some record ∧ version + 1 ≤ record.accessVersion) :
    Ended g id version w.now w := by
  obtain ⟨kept, cached, requests⟩ := timely
  refine ⟨kept, stored, fun hostname entry found route _ => .inr (cached hostname entry found), fun call => ?_⟩
  have begun := requests call
  cases phase : w.requests call with
  | idle | asked => trivial
  | answered request began route =>
    rw [phase] at begun
    cases route with
    | none => trivial
    | some => exact .inr begun
  | serving =>
    rw [phase] at begun
    exact .inr (Int.lt_of_le_of_lt begun (Int.lt_add_of_pos_right w.now g.positive))

theorem admits_issued {claims : Claims} {ttl issuedAt : Time} {nonce expectedType : String} (issued : issue g.mac g.accessSecret claims ttl issuedAt nonce = some token)
    (admitted : admits g route token expectedType now) :
    route.id = claims.previewID ∧ equalFold (toLower (trimSpace claims.hostname)) route.hostname ∧
      route.accessVersion = claims.accessVersion := by
  obtain ⟨read, verified, passed⟩ := (any_eq_true _ _).mp admitted
  obtain ⟨rfl, -⟩ := verify_issued issued verified
  obtain ⟨id, hostname, version⟩ := of_decide_eq_true passed
  exact ⟨id.symm, hostname, version.symm⟩

theorem issued_nonempty {mac : Mac} {secret : Secret} {claims : Claims} {ttl : Time} {nonce : String} (issued : issue mac secret claims ttl now nonce = some token) : token ≠ [] := by
  unfold issue at issued
  split at issued
  · cases issued
    exact List.append_ne_nil_of_right_ne_nil _ (List.cons_ne_nil _ _)
  · cases issued

theorem serve_refused {request : Request}
    (present : token ≠ []) (refused : ∀ expectedType now, admits g route token expectedType now = false)
    (now : Time) (nonce : String) : (request.token = token → serveRoute g route request now nonce = .unauthorized) ∧
      (request.token = [] ∧ request.cookie = some token ∧ route.visibility ≠ "public" →
        serveRoute g route request now nonce = .unauthorized) := by
  constructor
  · rintro rfl
    rw [serveRoute, if_pos present, refused]
    rfl
  · rintro ⟨none, some, closed⟩
    simp only [serveRoute, none, some, refused, if_pos closed]
    rfl

/-- The generation of a preview goes up by one with each change of its visibility and never else. A token of a
    generation that has passed opens nothing any more once the routes that were kept before have run out, and
    no other preview or host name at any time. -/
theorem old_generation_refused (g : Gateway) (claims : Claims) (ttl issuedAt : Time) (nonce : String)
    (token : Bytes) (start early middle w : World) (before history after : List Action) (record : Preview)
    (issued : issue g.mac g.accessSecret claims ttl issuedAt nonce = some token) (started : Started start)
    (led : run (step g) start before = some early)
    (stored : early.maps.previews.lookup claims.previewID = some record)
    (current : claims.accessVersion ≤ record.accessVersion)
    (passed : run (step g) early history = some middle)
    (ended : ∀ value, middle.maps.previews.lookup claims.previewID = some value →
      value.accessVersion ≠ record.accessVersion)
    (onward : run (step g) middle after = some w)
    (spared : ∀ action ∈ history ++ after, spares claims.previewID action) :
    Along (step g) Generations start (before ++ history ++ after) ∧
      ∀ call request began route, w.requests call = .serving request began route →
        route.id ≠ claims.previewID ∨ equalFold (toLower (trimSpace claims.hostname)) route.hostname = false ∨
          middle.now + g.cacheTTL ≤ began →
        ∀ now drawn, (request.token = token → serveRoute g route request now drawn = .unauthorized) ∧
          (request.token = [] ∧ request.cookie = some token ∧ route.visibility ≠ "public" →
            serveRoute g route request now drawn = .unauthorized) := by
  have timely : Timely g middle := by
    have first := run_invariant (Timely g) (fun _ _ _ held stepped => step_timely stepped held) led
      (started_timely started)
    exact run_invariant (Timely g) (fun _ _ _ held stepped => step_timely stepped held) passed first
  have raised : ∃ value, middle.maps.previews.lookup claims.previewID = some value ∧
      record.accessVersion ≤ value.accessVersion := by
    have spares : Guarded (step g) (fun _ action => spares claims.previewID action) early history :=
      each_guarded early history fun _ action member => spared action (List.mem_append_left after member)
    refine guarded_run_invariant (fun w => ∃ value, w.maps.previews.lookup claims.previewID = some value ∧
      record.accessVersion ≤ value.accessVersion) ?_ spares passed ⟨record, stored, le_refl _⟩
    exact fun _ _ _ kept held stepped => step_version stepped kept held
  have gone : Ended g claims.previewID claims.accessVersion middle.now w := by
    have spares : Guarded (step g) (fun _ action => spares claims.previewID action) middle after :=
      each_guarded middle after fun _ action member => spared action (List.mem_append_right history member)
    refine guarded_run_invariant (Ended g claims.previewID claims.accessVersion middle.now) ?_ spares onward ?_
    · exact fun _ _ _ kept held stepped => step_ended stepped kept held
    · obtain ⟨value, found, least⟩ := raised
      have apart := ended value found
      exact timely_ended timely ⟨value, found, by omega⟩
  refine ⟨each_guarded _ _ fun _ _ _ _ stepped => step_generations stepped, ?_⟩
  intro call request began route served apart now drawn
  refine serve_refused (issued_nonempty issued) (fun expectedType time => ?_) now drawn
  refine Bool.eq_false_iff.mpr fun admitted => ?_
  obtain ⟨id, hostname, version⟩ := admits_issued issued admitted
  rcases apart with other | other | late
  · exact other id
  · rw [hostname] at other
    cases other
  · have past := gone.held.2 call
    rw [served] at past
    rcases past with later | soon
    · exact absurd (later id) (by omega)
    · exact absurd late (Int.not_le.mpr soon)

def site : Preview :=
  ⟨"v1", "acme", "u1", "owner", "p1", ".", "p-aaaaaaaaaaaaaaaaaaaaaaaaaa.preview.test", "exec-1", 20000, "auto",
    "private", 1, .ready, "", 0, none, none, none, 1, 1, 1⟩

def opened : Preview := { site with visibility := "public", accessVersion := 2 }

def shopMaps : Service := filed {
  integrations := AList.singleton "acme" ⟨"acme", .active, 10, 10, 4, 4⟩
  users := ∅
  devices := ∅
  sessions := ∅
  integrationUsers := AList.singleton "u1" ⟨"u1", "acme", "ext", "owner", .ready, 1, 1, 1⟩
  projects := AList.singleton "p1" ⟨"p1", "acme", "u1", "owner", "shop", "en", "/workspace/projects/p1", "", .ready,
    "", 1, 1, 1⟩
  conversations := ∅
  previews := ∅
  previewIndex := emptyIndex } site

def opening : World := ⟨shopMaps, 0, fun _ => none, fun _ => .idle⟩

def twoSeconds : Gateway where
  mac _ _ := [1, 2, 3]
  accessSecret := List.replicate 32 7
  domain := "preview.test"
  cacheTTL := 2000000000
  sessionTTL := 28800000000000
  positive := by decide

def launch : Claims := ⟨"", "launch", "v1", site.hostname, 1, "", 0⟩

def minute : Time := 60000000000

def launchToken : Bytes := (issue twoSeconds.mac twoSeconds.accessSecret launch minute 0 "n").getD []

def visit (token : Bytes) : Request := ⟨site.hostname, token, none⟩

def firstVisit : List Action := [.arrive "a" (visit []), .answer "a", .keep "a"]

def lateVisit : List Action := [.tick 2000000000, .arrive "b" (visit launchToken), .answer "b", .keep "b"]

def Phase.served : Phase → Option (Request × Time × Route)
  | .serving request began route => some (request, began, route)
  | _ => none

def versionOf (w : World) : Option Int := (w.maps.previews.lookup "v1").map fun value => value.accessVersion

theorem served_serving {request : Request} {began : Time}
    (served : phase.served = some (request, began, route)) : phase = .serving request began route := by
  cases phase with
  | serving =>
    cases served
    rfl
  | idle | asked _ _ | answered _ _ _ => cases served

theorem opening_started : Started opening := by
  refine ⟨filed_filed ?_, fun _ => rfl, fun _ => rfl⟩
  intro id other stored
  cases stored

theorem launch_issued : issue twoSeconds.mac twoSeconds.accessSecret launch minute 0 "n" = some launchToken := by
  decide +kernel

theorem opened_differs {middle : World} {record : Preview} (first : record.accessVersion = 1)
    (second : versionOf middle = some 2) : ∀ value, middle.maps.previews.lookup launch.previewID = some value →
      value.accessVersion ≠ record.accessVersion := by
  intro value found unchanged
  obtain ⟨changed, there, raised⟩ := map_eq_some_iff.mp second
  rw [show launch.previewID = "v1" from rfl, there] at found
  cases found
  omega

/-- Who comes while the old route is kept is let in. -/
theorem cached_route_admits : ¬ ∀ (g : Gateway) (claims : Claims) (ttl issuedAt : Time) (nonce : String)
    (token : Bytes) (start early middle w : World) (before history after : List Action) (record : Preview),
    issue g.mac g.accessSecret claims ttl issuedAt nonce = some token → Started start →
    run (step g) start before = some early →
    early.maps.previews.lookup claims.previewID = some record →
    claims.accessVersion ≤ record.accessVersion → run (step g) early history = some middle →
    (∀ value, middle.maps.previews.lookup claims.previewID = some value → value.accessVersion ≠ record.accessVersion) →
    run (step g) middle after = some w →
    (∀ action ∈ history ++ after, spares claims.previewID action) →
    ∀ call request began route, w.requests call = .serving request began route → middle.now ≤ began →
      ∀ now drawn, request.token = token → serveRoute g route request now drawn = .unauthorized := by
  intro claimed
  have outcome : ((run (step twoSeconds) opening firstVisit).bind fun early =>
      (run (step twoSeconds) early [.put opened 1]).bind fun middle =>
      (run (step twoSeconds) middle [.arrive "b" (visit launchToken)]).bind fun w =>
      (w.requests "b").served.map fun served => (versionOf early, versionOf middle,
        decide (middle.now ≤ served.2.1), decide (served.1.token = launchToken),
        decide (serveRoute twoSeconds served.2.2 served.1 0 "x" = .unauthorized))) =
      some (some 1, some 2, true, true, false) := by decide +kernel
  obtain ⟨early, led, outcome⟩ := bind_eq_some_iff.mp outcome
  obtain ⟨middle, passed, outcome⟩ := bind_eq_some_iff.mp outcome
  obtain ⟨w, onward, outcome⟩ := bind_eq_some_iff.mp outcome
  obtain ⟨⟨request, began, route⟩, served, outcome⟩ := map_eq_some_iff.mp outcome
  simp only [Prod.mk.injEq, decide_eq_true_eq, decide_eq_false_iff_not] at outcome
  obtain ⟨first, second, late, same, admitted⟩ := outcome
  obtain ⟨record, stored, version⟩ := map_eq_some_iff.mp first
  exact admitted (claimed twoSeconds launch minute 0 "n" launchToken opening early middle w firstVisit _ _ record
    launch_issued opening_started led stored (le_of_eq version.symm) passed (opened_differs version second) onward
    (by decide) "b" request began route (served_serving served) late 0 "x" same)

theorem late_visit_refused : ∃ early middle w request began route,
    run (step twoSeconds) opening firstVisit = some early ∧
    run (step twoSeconds) early [.put opened 1] = some middle ∧
    run (step twoSeconds) middle lateVisit = some w ∧ w.requests "b" = .serving request began route ∧
    request.token = launchToken ∧ serveRoute twoSeconds route request 0 "x" = .unauthorized := by
  have outcome : ((run (step twoSeconds) opening firstVisit).bind fun early =>
      (run (step twoSeconds) early [.put opened 1]).bind fun middle =>
      (run (step twoSeconds) middle lateVisit).bind fun w =>
      (w.requests "b").served.map fun served => (versionOf early, versionOf middle,
        decide (middle.now + twoSeconds.cacheTTL ≤ served.2.1), decide (served.1.token = launchToken))) =
      some (some 1, some 2, true, true) := by decide +kernel
  obtain ⟨early, led, outcome⟩ := bind_eq_some_iff.mp outcome
  obtain ⟨middle, passed, outcome⟩ := bind_eq_some_iff.mp outcome
  obtain ⟨w, onward, outcome⟩ := bind_eq_some_iff.mp outcome
  obtain ⟨⟨request, began, route⟩, served, outcome⟩ := map_eq_some_iff.mp outcome
  simp only [Prod.mk.injEq, decide_eq_true_eq] at outcome
  obtain ⟨first, second, late, same⟩ := outcome
  obtain ⟨record, stored, version⟩ := map_eq_some_iff.mp first
  refine ⟨early, middle, w, request, began, route, led, passed, onward, served_serving served, same, ?_⟩
  exact ((old_generation_refused twoSeconds launch minute 0 "n" launchToken opening early middle w firstVisit _ _
    record launch_issued opening_started led stored (le_of_eq version.symm) passed (opened_differs version second)
    onward (by decide)).2 "b" request began route (served_serving served) (.inr (.inr late)) 0 "x").1 same

end PieRelay.PreviewGateway
