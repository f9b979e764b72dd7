/-
# Download tickets

A browser that downloads an export cannot send a bearer token, so an authorised client asks for
a ticket first. Tickets for session exports and for bundles are kept in tables of their own,
each behind a lock. A ticket is taken out of its table by the download it pays for.

Requests run at the same time. A step of a request ends where it has touched something that is
shared: it has read the clock, or changed a table under its lock. Between two steps of a request
time may pass and other requests may take any steps of theirs. In particular the clock is read
before the lock is taken, so a download is held against the time it has read.

Ticket texts are drawn from a source of which nothing is assumed but that it never repeats
itself.
-/

import TraceMux.Base.OneTime
import TraceMux.Server.ExportApi

namespace TraceMux.Server.DownloadTickets

open Base Base.OneTime Base.Transition TraceMux.Core Server.Auth Server.ExportApi List Function

/-! ## Requests -/

inductive Route
  | export (sid : String) (query : ExportQuery)
  | exportTicket (sid : String) (query : ExportQuery)
  | exportBundle (query : BundleDownloadQuery)
  | exportBundleTicket (request : ExportBundleTicketRequest)

structure Request where
  peer : IpAddr
  headers : HeaderMap
  route : Route

/-- The answer to a request for a ticket. -/
structure ExportTicketResponse where
  ticket : String
  expiresInMs : ℕ
  expiresAtMs : ℕ
  deriving DecidableEq, Repr

/-- The answer to a request. -/
inductive Response
  | error (e : ExportApiError)
  | ticket (response : ExportTicketResponse)
  | artifact (artifact : ExportArtifact)

/-- The two tables of tickets. -/
inductive Kind
  | session
  | bundle
  deriving DecidableEq, Repr

/-- What a ticket of each table is good for. -/
def Grant : Kind → Type
  | .session => DownloadTicketScope
  | .bundle => ExportBundleTicketRequest

def Kind.label : Kind → String
  | .session => "download ticket"
  | .bundle => "bundle download ticket"

structure SessionOrder where
  ticket : String
  scope : DownloadTicketScope
  sid : String
  query : ExportQuery

/-- What a download that needs a ticket goes on with. -/
def Order : Kind → Type
  | .session => SessionOrder
  | .bundle => BundleDownloadQuery

def Order.ticket : {k : Kind} → Order k → String
  | .session, order => SessionOrder.ticket order
  | .bundle, query => BundleDownloadQuery.ticket query

inductive ExportTask
  | session (sid : String) (query : ExportQuery)
  | bundle (request : ExportBundleTicketRequest)

/-- A session export has to be the one the ticket was issued for. -/
def SessionOrder.fulfil (order : SessionOrder) (scope : DownloadTicketScope) :
    Except ExportApiError ExportTask :=
  if scope = order.scope then .ok (.session order.sid order.query)
  else .error (.auth "download ticket does not match export request")

/-- What a download does with the grant of its ticket. A bundle is whatever the ticket was
issued for. -/
def Order.fulfil : {k : Kind} → Order k → Grant k → Except ExportApiError ExportTask
  | .session, order, scope => SessionOrder.fulfil order scope
  | .bundle, _, request => .ok (.bundle request)

/-- Where a request stands. -/
inductive Phase
  | received
  /-- About to drop tickets that have expired at `now`, on behalf of a new ticket. -/
  | issuePruning (k : Kind) (grant : Grant k) (now : ℕ)
  | drawing (k : Kind) (grant : Grant k)
  | inserting (k : Kind) (ticket : String) (stored : Stored (Grant k))
  | inserted (ticket : String)
  /-- About to drop tickets that have expired at `now`, on behalf of a download. -/
  | consumePruning (k : Kind) (order : Order k) (now : ℕ)
  | removing (k : Kind) (order : Order k) (now : ℕ)
  | exporting (task : ExportTask)
  | answered (response : Response)

/-! ## Steps of a request -/

/-- How long a ticket lives: 60 seconds, in nanoseconds. -/
def downloadTicketTtl : ℕ := 60 * 1000000000

/-- A request up to where it touches what is shared. -/
def received (lib : Libraries) (state : ExportRouteState) (now : ℕ) (request : Request) : Phase :=
  match request.route with
  | .export sid query =>
    match authorizeExport lib state request.headers request.peer with
    | .ok () => .exporting (.session sid query)
    | .error authErr =>
      match query.ticket with
      | none => .answered (.error authErr)
      | some ticket =>
        match ticketScope lib sid query state.defaults with
        | .error e => .answered (.error e)
        | .ok scope => .consumePruning .session (⟨ticket, scope, sid, query⟩ : SessionOrder) now
  | .exportTicket sid query =>
    match authorizeExport lib state request.headers request.peer with
    | .error e => .answered (.error e)
    | .ok () =>
      match ticketScope lib sid query state.defaults with
      | .error e => .answered (.error e)
      | .ok scope => .issuePruning .session scope now
  | .exportBundle query => .consumePruning .bundle query now
  | .exportBundleTicket bundle =>
    match authorizeExport lib state request.headers request.peer with
    | .error e => .answered (.error e)
    | .ok () =>
      match validateBundleRequest bundle with
      | .error e => .answered (.error e)
      | .ok () => .issuePruning .bundle bundle now

/-- The answer with a new ticket. -/
def ticketResponse (world : World) (ticket : String) : ExportTicketResponse where
  ticket := ticket
  expiresInMs := downloadTicketTtl / 1000000
  expiresAtMs := systemTimeMs (world.systemTime + downloadTicketTtl)

def ExportTask.run (lib : Libraries) (state : ExportRouteState) (world : World) :
    ExportTask → Except ExportApiError ExportArtifact
  | .session sid query => exportSession lib state world sid query
  | .bundle request => exportBundle lib state world request

def exportResponse (lib : Libraries) (state : ExportRouteState) (world : World)
    (task : ExportTask) : Response :=
  match task.run lib state world with
  | .ok artifact => .artifact artifact
  | .error e => .error e

/-! ## The routes -/

abbrev HandlerId := ℕ

/-- A request that has been received. -/
structure Handler where
  request : Request
  arrived : ℕ
  phase : Phase

/-- The state the routes share, with the requests received so far. -/
structure Routes where
  now : ℕ
  ledgers : (k : Kind) → Ledger HandlerId String (Grant k)
  handlers : HandlerId → Option Handler
  drawn : ℕ

namespace Routes

def new : Routes := ⟨0, fun _ => .empty, fun _ => none, 0⟩

/-- A request goes on. -/
def setPhase (s : Routes) (id : HandlerId) (h : Handler) (phase : Phase) : Routes :=
  { s with handlers := Function.update s.handlers id (some { h with phase := phase }) }

/-- Change a table. -/
def setLedger (s : Routes) (k : Kind) (l : Ledger HandlerId String (Grant k)) : Routes :=
  { s with ledgers := Function.update s.ledgers k l }

/-- Take a ticket out of its table. The journal notes it when the ticket pays for an export. -/
def consume (s : Routes) (id : HandlerId) (h : Handler) {k : Kind} (order : Order k) (now : ℕ) :
    Routes :=
  match (s.ledgers k).table order.ticket with
  | none =>
    s.setPhase id h (.answered (.error (.auth (k.label ++ " is missing or expired"))))
  | some stored =>
    let removed := s.setLedger k ((s.ledgers k).remove order.ticket)
    if stored.expiresAt ≤ now then
      removed.setPhase id h (.answered (.error (.auth (k.label ++ " is expired"))))
    else
      match order.fulfil stored.grant with
      | .error e => removed.setPhase id h (.answered (.error e))
      | .ok task =>
        (s.setLedger k ((s.ledgers k).redeem id order.ticket stored.grant now)).setPhase id h
          (.exporting task)

end Routes

/-- What happens at the routes. -/
inductive Action
  | tick (elapsed : ℕ)
  | receive (id : HandlerId) (request : Request)
  /-- A request takes its next step in a world. -/
  | advance (id : HandlerId) (world : World)

/-- The next step of a request. -/
def advance (lib : Libraries) (state : ExportRouteState) (newTicket : ℕ → String) (s : Routes)
    (id : HandlerId) (h : Handler) (world : World) : Option Routes :=
  match h.phase with
  | .received => some (s.setPhase id h (received lib state s.now h.request))
  | .issuePruning k grant now =>
    some ((s.setLedger k ((s.ledgers k).pruneExpired now)).setPhase id h (.drawing k grant))
  | .drawing k grant =>
    some ({ s with drawn := s.drawn + 1 }.setPhase id h
      (.inserting k (newTicket s.drawn) ⟨grant, s.now + downloadTicketTtl⟩))
  | .inserting k ticket stored =>
    some ((s.setLedger k ((s.ledgers k).insert id ticket stored)).setPhase id h
      (.inserted ticket))
  | .inserted ticket => some (s.setPhase id h (.answered (.ticket (ticketResponse world ticket))))
  | .consumePruning k order now =>
    some ((s.setLedger k ((s.ledgers k).pruneExpired now)).setPhase id h (.removing k order now))
  | .removing _ order now => some (s.consume id h order now)
  | .exporting task =>
    some (s.setPhase id h (.answered (exportResponse lib state world task)))
  | .answered _ => none

def step (lib : Libraries) (state : ExportRouteState) (newTicket : ℕ → String) (s : Routes) :
    Action → Option Routes
  | .tick elapsed => some { s with now := s.now + elapsed }
  | .receive id request =>
    match s.handlers id with
    | some _ => none
    | none =>
      some { s with handlers := Function.update s.handlers id (some ⟨request, s.now, .received⟩) }
  | .advance id world =>
    match s.handlers id with
    | none => none
    | some h => advance lib state newTicket s id h world

/-! ## What requests are entitled to -/

variable (lib : Libraries) (state : ExportRouteState)

/-- The request carries a token that is accepted, or needs none. -/
def Request.Authorised (request : Request) : Prop :=
  authorizeExport lib state request.headers request.peer = .ok ()

def Route.Asks (route : Route) : (k : Kind) → Grant k → Prop
  | .session, scope => ∃ sid query, route = .exportTicket sid query ∧
      ticketScope lib sid query state.defaults = .ok scope
  | .bundle, request => route = .exportBundleTicket request

def Route.Presents (route : Route) : (k : Kind) → Order k → Prop
  | .session, order =>
    route = .export (SessionOrder.sid order) (SessionOrder.query order) ∧
      ticketScope lib (SessionOrder.sid order) (SessionOrder.query order) state.defaults =
        .ok (SessionOrder.scope order)
  | .bundle, query => route = .exportBundle query

def Route.Gets (route : Route) (task : ExportTask) : (k : Kind) → Grant k → Prop
  | .session, scope => ∃ sid query, route = .export sid query ∧ task = .session sid query ∧
      ticketScope lib sid query state.defaults = .ok scope
  | .bundle, request => ∃ query, route = .exportBundle query ∧ task = .bundle request

/-- An artifact is the export a grant is for, made in a world. -/
def Exported (world : World) (artifact : ExportArtifact) : (k : Kind) → Grant k → Prop
  | .session, scope => ∃ sessionDir,
      world.sessionDirForSid (DownloadTicketScope.sid scope) = some sessionDir ∧
        exportOne world (DownloadTicketScope.format scope) sessionDir
          (DownloadTicketScope.timezone scope) (DownloadTicketScope.encoding scope) =
          .ok artifact.body
  | .bundle, request => exportBundle lib state world request = .ok artifact

/-- Journals of both tables. -/
abbrev Journals := (k : Kind) → List (Entry HandlerId String (Grant k))

/-- A request may have an export: it is authorised, or has redeemed a ticket for it. -/
def Entitled (journals : Journals) (id : HandlerId) (request : Request) (arrived : ℕ)
    (task : ExportTask) : Prop :=
  request.Authorised lib state ∨
    ∃ k grant ticket now, Entry.redeemed id ticket grant now ∈ journals k ∧ arrived ≤ now ∧
      request.route.Gets lib state task k grant

/-- What is known of a request by where it stands. -/
def Follows (past : List Action) (journals : Journals) (id : HandlerId) (request : Request)
    (arrived : ℕ) : Phase → Prop
  | .received | .inserted _ => True
  | .issuePruning k grant _ | .drawing k grant | .inserting k _ ⟨grant, _⟩ =>
    request.Authorised lib state ∧ request.route.Asks lib state k grant
  | .consumePruning k order now | .removing k order now =>
    request.route.Presents lib state k order ∧ arrived ≤ now
  | .exporting task => Entitled lib state journals id request arrived task
  | .answered (.artifact artifact) => ∃ task world,
      Entitled lib state journals id request arrived task ∧
        .advance id world ∈ past ∧ task.run lib state world = .ok artifact
  | .answered _ => True

variable {lib state} {route : Route} {k : Kind} {grant : Grant k} {task : ExportTask}

theorem gets_of_fulfil {order : Order k} (hpresents : route.Presents lib state k order)
    (h : order.fulfil grant = .ok task) : route.Gets lib state task k grant := by
  cases k with
  | session =>
    have hfulfil : SessionOrder.fulfil order grant = .ok task := h
    unfold SessionOrder.fulfil at hfulfil
    split at hfulfil
    · next heq =>
      cases hfulfil
      exact ⟨_, _, hpresents.1, rfl, heq ▸ hpresents.2⟩
    · cases hfulfil
  | bundle =>
    cases h
    exact ⟨_, hpresents, rfl⟩

/-- What is handed out for a query is the export of its scope. -/
theorem exported_of_run {world : World} {artifact : ExportArtifact}
    (hgets : route.Gets lib state task k grant) (h : task.run lib state world = .ok artifact) :
    Exported lib state world artifact k grant := by
  cases k with
  | session =>
    obtain ⟨sid, query, -, rfl, hscope⟩ := hgets
    obtain ⟨sid, hsid, h⟩ := exists_of_bind_eq_ok h
    obtain ⟨format, hformat, h⟩ := exists_of_bind_eq_ok h
    obtain ⟨sessionDir, hdir, h⟩ := exists_of_bind_eq_ok h
    obtain ⟨-, -, h⟩ := exists_of_bind_eq_ok h
    obtain ⟨body, hbody, h⟩ := exists_of_bind_eq_ok h
    cases h
    rw [ticketScope, hsid, hformat] at hscope
    cases hscope
    exact ⟨sessionDir, sessionDirOf_eq_ok hdir, mapError_eq_ok (artifactBody_eq_ok hbody)⟩
  | bundle =>
    obtain ⟨query, -, rfl⟩ := hgets
    exact h

section

variable {past past' : List Action} {journals journals' : Journals} {id : HandlerId}
  {request : Request} {arrived : ℕ}

/-- What entitles a request is never taken back. -/
theorem Entitled.mono {task : ExportTask}
    (h : Entitled lib state journals id request arrived task)
    (hsub : ∀ k, journals k ⊆ journals' k) :
    Entitled lib state journals' id request arrived task := by
  apply h.imp_right
  rintro ⟨k, grant, ticket, now, hmem, hgets⟩
  exact ⟨k, grant, ticket, now, hsub k hmem, hgets⟩

theorem Follows.mono {phase : Phase}
    (h : Follows lib state past journals id request arrived phase) (hpast : past ⊆ past')
    (hsub : ∀ k, journals k ⊆ journals' k) :
    Follows lib state past' journals' id request arrived phase := by
  cases phase with
  | exporting task => exact Entitled.mono h hsub
  | answered response =>
    cases response with
    | artifact artifact =>
      obtain ⟨task, world, hentitled, hmem, hrun⟩ := h
      exact ⟨task, world, hentitled.mono hsub, hpast hmem, hrun⟩
    | _ => trivial
  | _ => exact h

end

/-! ## Every run -/

/-- The ticket a request has drawn and not yet put in its table. -/
def Phase.pending : Phase → Option String
  | .inserting _ ticket _ => some ticket
  | _ => none

namespace Routes

/-- A request is about to put a ticket in its table. -/
def Awaits (s : Routes) (id : HandlerId) (ticket : String) : Prop :=
  ∃ h, s.handlers id = some h ∧ h.phase.pending = some ticket

def journals (s : Routes) : Journals := fun k => (s.ledgers k).journal

def Drawn (newTicket : ℕ → String) (s : Routes) (ticket : String) : Prop :=
  ∃ n < s.drawn, ticket = newTicket n

/-- A request that was entitled to a ticket. -/
def Issuer (lib : Libraries) (state : ExportRouteState) (s : Routes) (k : Kind) :
    Entry HandlerId String (Grant k) → Prop
  | .issued id _ stored => ∃ h, s.handlers id = some h ∧ h.request.Authorised lib state ∧
      h.request.route.Asks lib state k stored.grant
  | .redeemed .. => True

end Routes

/-- The invariant of every run. -/
structure Kept (lib : Libraries) (state : ExportRouteState) (newTicket : ℕ → String)
    (past : List Action) (s : Routes) : Prop where
  sound : ∀ k, (s.ledgers k).Sound
  known : ∀ k, ∀ e ∈ s.journals k, s.Drawn newTicket e.ticket
  /-- Tickets on their way to a table have been drawn. -/
  awaited : ∀ id ticket, s.Awaits id ticket → s.Drawn newTicket ticket
  /-- They are not in the journals yet. -/
  unknown : ∀ id ticket, s.Awaits id ticket → ∀ k, ∀ e ∈ s.journals k, e.ticket ≠ ticket
  /-- They belong to one request each. -/
  unique : ∀ id id' ticket, s.Awaits id ticket → s.Awaits id' ticket → id = id'
  issuer : ∀ k, ∀ e ∈ s.journals k, s.Issuer lib state k e
  arrived : ∀ id h, s.handlers id = some h → h.arrived ≤ s.now
  follows : ∀ id h, s.handlers id = some h →
    Follows lib state past s.journals id h.request h.arrived h.phase

section

variable {newTicket : ℕ → String} {past : List Action} {s : Routes} {id : HandlerId} {h : Handler}

theorem kept_new : Kept lib state newTicket [] Routes.new where
  sound _ := Ledger.sound_empty
  known _ _ he := by cases he
  awaited _ _ hawaits := by
    obtain ⟨_, hnone, -⟩ := hawaits
    cases hnone
  unknown _ _ _ _ _ he := by cases he
  unique _ _ _ hawaits := by
    obtain ⟨_, hnone, -⟩ := hawaits
    cases hnone
  issuer _ _ he := by cases he
  arrived _ _ hnone := by cases hnone
  follows _ _ hnone := by cases hnone

theorem Kept.mono (hkept : Kept lib state newTicket past s) (a : Action) :
    Kept lib state newTicket (past ++ [a]) s :=
  { hkept with
    follows := fun id h hid =>
      (hkept.follows id h hid).mono (subset_append_left past [a]) fun _ => List.Subset.refl _ }

/-! ### Requests -/

variable {row : Handler} {ticket : String} {drawn : ℕ}

/-- Who waits after one request has moved. -/
theorem Routes.Awaits.of_update {id' : HandlerId}
    (hawaits : Routes.Awaits { s with
      handlers := update s.handlers id (some row), drawn := drawn } id' ticket) :
    (id' = id ∧ row.phase.pending = some ticket) ∨ (id' ≠ id ∧ s.Awaits id' ticket) := by
  obtain ⟨h', hid', hpending⟩ := hawaits
  rcases update_some_eq_some hid' with ⟨rfl, rfl⟩ | ⟨hne, hold⟩
  · exact .inl ⟨rfl, hpending⟩
  · exact .inr ⟨hne, h', hold, hpending⟩

/-- Those who were issued tickets stay who they were. -/
theorem Routes.Issuer.of_update {e : Entry HandlerId String (Grant k)}
    (hissuer : s.Issuer lib state k e)
    (hsame : ∀ h, s.handlers id = some h → row.request = h.request) :
    Routes.Issuer lib state { s with
      handlers := update s.handlers id (some row), drawn := drawn } k e := by
  cases e with
  | redeemed caller ticket grant now => trivial
  | issued caller ticket stored =>
    obtain ⟨h, hid, hauth, hasks⟩ := hissuer
    by_cases heq : caller = id
    · subst heq
      refine ⟨row, update_self .., ?_, ?_⟩
      · rw [hsame h hid]
        exact hauth
      · rw [hsame h hid]
        exact hasks
    · exact ⟨h, (update_of_ne heq _ _).trans hid, hauth, hasks⟩

section

variable (hkept : Kept lib state newTicket past s)
include hkept

/-- A request that is not about to put a ticket in its table is received or moves on. -/
theorem Kept.setHandler (hsame : ∀ h, s.handlers id = some h → row.request = h.request)
    (hpending : row.phase.pending = none) (harrived : row.arrived ≤ s.now)
    (hfollows : Follows lib state past s.journals id row.request row.arrived row.phase) :
    Kept lib state newTicket past
      { s with handlers := update s.handlers id (some row) } := by
  have hawaits : ∀ {id' ticket}, Routes.Awaits { s with
      handlers := update s.handlers id (some row) } id' ticket → s.Awaits id' ticket := by
    intro id' ticket hawaits
    rcases Routes.Awaits.of_update hawaits with ⟨-, hnone⟩ | ⟨-, hold⟩
    · rw [hpending] at hnone
      cases hnone
    · exact hold
  exact {
    sound := hkept.sound
    known := hkept.known
    awaited := fun id' ticket h => hkept.awaited id' ticket (hawaits h)
    unknown := fun id' ticket h => hkept.unknown id' ticket (hawaits h)
    unique := fun _ _ ticket h h' => hkept.unique _ _ ticket (hawaits h) (hawaits h')
    issuer := fun k e he => (hkept.issuer k e he).of_update hsame
    arrived := forall_update hkept.arrived harrived
    follows := forall_update hkept.follows hfollows }

theorem Kept.setPhase (hid : s.handlers id = some h) {phase : Phase}
    (hpending : phase.pending = none)
    (hfollows : Follows lib state past s.journals id h.request h.arrived phase) :
    Kept lib state newTicket past (s.setPhase id h phase) := by
  apply hkept.setHandler
  · intro h' hid'
    rw [hid] at hid'
    cases hid'
    rfl
  · exact hpending
  · exact hkept.arrived id h hid
  · exact hfollows

theorem Kept.draw (hnew : Function.Injective newTicket) (hid : s.handlers id = some h)
    {grant : Grant k} (hphase : h.phase = .drawing k grant) (expiresAt : ℕ) :
    Kept lib state newTicket past ({ s with drawn := s.drawn + 1 }.setPhase id h
      (.inserting k (newTicket s.drawn) ⟨grant, expiresAt⟩)) := by
  have hunseen : ∀ ticket, s.Drawn newTicket ticket → ticket ≠ newTicket s.drawn := by
    rintro ticket ⟨n, hn, rfl⟩ heq
    exact hn.ne (hnew heq)
  have hlater : ∀ ticket, s.Drawn newTicket ticket →
      Routes.Drawn newTicket { s with drawn := s.drawn + 1 } ticket := by
    rintro ticket ⟨n, hn, rfl⟩
    exact ⟨n, Nat.lt_succ_of_lt hn, rfl⟩
  have hfollows := hkept.follows id h hid
  rw [hphase] at hfollows
  refine {
    sound := hkept.sound
    known := fun k e he => hlater _ (hkept.known k e he)
    awaited := fun id' ticket hawaits => ?_
    unknown := fun id' ticket hawaits k e he => ?_
    unique := fun id' id'' ticket hawaits hawaits' => ?_
    issuer := fun k e he => (hkept.issuer k e he).of_update fun h' hid' => ?_
    arrived := forall_update hkept.arrived (hkept.arrived id h hid)
    follows := forall_update hkept.follows hfollows }
  · rcases Routes.Awaits.of_update hawaits with ⟨-, heq⟩ | ⟨-, hold⟩
    · cases heq
      exact ⟨s.drawn, Nat.lt_succ_self _, rfl⟩
    · exact hlater ticket (hkept.awaited id' ticket hold)
  · rcases Routes.Awaits.of_update hawaits with ⟨-, heq⟩ | ⟨-, hold⟩
    · cases heq
      exact hunseen e.ticket (hkept.known k e he)
    · exact hkept.unknown id' ticket hold k e he
  · rcases Routes.Awaits.of_update hawaits with ⟨rfl, heq⟩ | ⟨-, hold⟩
    · rcases Routes.Awaits.of_update hawaits' with ⟨rfl, -⟩ | ⟨-, hold'⟩
      · rfl
      · cases heq
        exact absurd rfl (hunseen _ (hkept.awaited id'' _ hold'))
    · rcases Routes.Awaits.of_update hawaits' with ⟨rfl, heq⟩ | ⟨-, hold'⟩
      · cases heq
        exact absurd rfl (hunseen _ (hkept.awaited id' _ hold))
      · exact hkept.unique id' id'' ticket hold hold'
  · rw [hid] at hid'
    cases hid'
    rfl

end

/-! ### Tables -/

section

variable {l : Ledger HandlerId String (Grant k)}
  {extra : List (Entry HandlerId String (Grant k))}

theorem forall_mem_setLedger {P : (k : Kind) → Entry HandlerId String (Grant k) → Prop}
    (hold : ∀ k, ∀ e ∈ s.journals k, P k e) (hjournal : l.journal = s.journals k ++ extra)
    (hextra : ∀ e ∈ extra, P k e) : ∀ k', ∀ e ∈ (s.setLedger k l).journals k', P k' e := by
  intro k' e he
  unfold Routes.journals Routes.setLedger at he
  by_cases heq : k' = k
  · subst heq
    simp only [update_self, hjournal] at he
    rcases mem_append.mp he with he | he
    · exact hold k' e he
    · exact hextra e he
  · simp only [update_of_ne heq] at he
    exact hold k' e he

theorem subset_setLedger (hjournal : l.journal = s.journals k ++ extra) (k' : Kind) :
    s.journals k' ⊆ (s.setLedger k l).journals k' := by
  intro e he
  unfold Routes.journals Routes.setLedger
  by_cases heq : k' = k
  · subst heq
    simp only [update_self, hjournal]
    exact mem_append_left extra he
  · simp only [update_of_ne heq]
    exact he

/-- A table changes, and its journal grows by entries about tickets that are not on their way
to a table. -/
theorem Kept.setLedger (hkept : Kept lib state newTicket past s) (hl : l.Sound)
    (hjournal : l.journal = s.journals k ++ extra)
    (hknown : ∀ e ∈ extra, s.Drawn newTicket e.ticket)
    (hfree : ∀ e ∈ extra, ∀ id, ¬ s.Awaits id e.ticket)
    (hissuer : ∀ e ∈ extra, s.Issuer lib state k e) :
    Kept lib state newTicket past (s.setLedger k l) where
  sound k' := by
    unfold Routes.setLedger
    by_cases heq : k' = k
    · subst heq
      simp only [update_self]
      exact hl
    · simp only [update_of_ne heq]
      exact hkept.sound k'
  known := forall_mem_setLedger hkept.known hjournal hknown
  awaited := hkept.awaited
  unknown id ticket hawaits := by
    apply forall_mem_setLedger (hkept.unknown id ticket hawaits) hjournal
    intro e he heq
    exact hfree e he id (heq ▸ hawaits)
  unique := hkept.unique
  issuer := forall_mem_setLedger hkept.issuer hjournal hissuer
  arrived := hkept.arrived
  follows id h hid :=
    (hkept.follows id h hid).mono (List.Subset.refl past) (subset_setLedger hjournal)

/-- Tickets may be dropped. -/
theorem Kept.dropTickets (hkept : Kept lib state newTicket past s) (hl : l.Sound)
    (hjournal : l.journal = s.journals k) :
    Kept lib state newTicket past (s.setLedger k l) := by
  apply hkept.setLedger hl (show l.journal = s.journals k ++ [] by rw [hjournal, append_nil])
  all_goals
    intro e he
    cases he

end

section

variable (hkept : Kept lib state newTicket past s)
include hkept

variable {stored : Stored (Grant k)} {now : ℕ} {s' : Routes}

/-- A request puts the ticket it has drawn in its table. -/
theorem Kept.insert (hid : s.handlers id = some h) (hphase : h.phase = .inserting k ticket stored) :
    Kept lib state newTicket past
      ((s.setLedger k ((s.ledgers k).insert id ticket stored)).setPhase id h
        (.inserted ticket)) := by
  have hawaits : s.Awaits id ticket := ⟨h, hid, by rw [hphase]; rfl⟩
  have hfollows := hkept.follows id h hid
  rw [hphase] at hfollows
  -- The request moves first: the ticket is then on its way to no table any more.
  have hmoved : Kept lib state newTicket past (s.setPhase id h (.inserted ticket)) :=
    hkept.setPhase hid rfl trivial
  show Kept lib state newTicket past
    ((s.setPhase id h (.inserted ticket)).setLedger k ((s.ledgers k).insert id ticket stored))
  apply hmoved.setLedger (l := (s.ledgers k).insert id ticket stored)
      ((hkept.sound k).insert id stored fun caller grant now hmem =>
        hkept.unknown id ticket hawaits k _ hmem rfl)
    (show _ = s.journals k ++ [.issued id ticket stored] from rfl)
  · intro e he
    cases mem_singleton.mp he
    exact hkept.awaited id ticket hawaits
  · intro e he id' hawaits'
    cases mem_singleton.mp he
    rcases Routes.Awaits.of_update hawaits' with ⟨-, hnone⟩ | ⟨hne, hold⟩
    · cases hnone
    · exact hne (hkept.unique id' id ticket hold hawaits)
  · intro e he
    cases mem_singleton.mp he
    exact ⟨{ h with phase := .inserted ticket }, update_self .., hfollows⟩

/-- A download takes its ticket. -/
theorem Kept.redeem (hlive : (s.ledgers k).table ticket = some stored)
    (hnow : now < stored.expiresAt) (id : HandlerId) :
    Kept lib state newTicket past
      (s.setLedger k ((s.ledgers k).redeem id ticket stored.grant now)) := by
  obtain ⟨issuer, hissued⟩ := (hkept.sound k).issued ticket stored hlive
  apply hkept.setLedger ((hkept.sound k).redeem id hlive hnow)
    (show _ = s.journals k ++ [.redeemed id ticket stored.grant now] from rfl)
  · intro e he
    cases mem_singleton.mp he
    exact hkept.known k (.issued issuer ticket stored) hissued
  · intro e he id' hawaits
    cases mem_singleton.mp he
    exact hkept.unknown id' ticket hawaits k _ hissued rfl
  · intro e he
    cases mem_singleton.mp he
    trivial

theorem Kept.consume (hid : s.handlers id = some h) {order : Order k}
    (hphase : h.phase = .removing k order now) :
    Kept lib state newTicket past (s.consume id h order now) := by
  have hfollows := hkept.follows id h hid
  rw [hphase] at hfollows
  obtain ⟨hpresents, harrived⟩ := hfollows
  have hremoved : Kept lib state newTicket past
      (s.setLedger k ((s.ledgers k).remove order.ticket)) :=
    hkept.dropTickets ((hkept.sound k).remove order.ticket) rfl
  simp only [Routes.consume]
  split
  · exact hkept.setPhase hid rfl trivial
  · next stored hlive =>
    split
    · exact hremoved.setPhase hid rfl trivial
    · next hnow =>
      split
      · exact hremoved.setPhase hid rfl trivial
      · next task hfulfil =>
        have hredeemed := hkept.redeem hlive (Nat.lt_of_not_le hnow) id
        apply hredeemed.setPhase hid rfl
        -- The entry that was just written entitles the request.
        refine .inr ⟨k, stored.grant, order.ticket, now, ?_, harrived,
          gets_of_fulfil hpresents hfulfil⟩
        simp [Routes.journals, Routes.setLedger, Ledger.redeem]

theorem Kept.advance (hnew : Function.Injective newTicket) (hid : s.handlers id = some h)
    {world : World} (hpast : .advance id world ∈ past)
    (hstep : advance lib state newTicket s id h world = some s') :
    Kept lib state newTicket past s' := by
  have hfollows := hkept.follows id h hid
  unfold DownloadTickets.advance at hstep
  split at hstep
  all_goals cases hstep
  · apply hkept.setPhase hid
    · unfold received
      repeat' split
      all_goals rfl
    · have hnow := hkept.arrived id h hid
      fun_cases received lib state s.now h.request with
      | case1 sid query hroute hauth => exact .inl hauth
      | case4 sid query hroute _ _ _ _ scope hscope => exact ⟨⟨hroute, hscope⟩, hnow⟩
      | case7 sid query hroute hauth scope hscope => exact ⟨hauth, sid, query, hroute, hscope⟩
      | case8 query hroute => exact ⟨hroute, hnow⟩
      | case11 bundle hroute hauth => exact ⟨hauth, hroute⟩
      | _ => trivial
  · next k grant now hphase =>
    rw [hphase] at hfollows
    exact (hkept.dropTickets ((hkept.sound k).pruneExpired now) rfl).setPhase hid rfl hfollows
  · next k grant hphase => exact hkept.draw hnew hid hphase _
  · next k ticket stored hphase => exact hkept.insert hid hphase
  · exact hkept.setPhase hid rfl trivial
  · next k order now hphase =>
    rw [hphase] at hfollows
    exact (hkept.dropTickets ((hkept.sound k).pruneExpired now) rfl).setPhase hid rfl hfollows
  · next k order now hphase => exact hkept.consume hid hphase
  · next task hphase =>
    rw [hphase] at hfollows
    apply hkept.setPhase hid rfl
    unfold exportResponse
    split
    · next artifact hrun => exact ⟨task, world, hfollows, hpast, hrun⟩
    · trivial

theorem Kept.step (hnew : Function.Injective newTicket) {a : Action}
    (hstep : step lib state newTicket s a = some s') :
    Kept lib state newTicket (past ++ [a]) s' := by
  have hlater := hkept.mono a
  cases a with
  | tick elapsed =>
    cases hstep
    exact { hlater with
      arrived := fun id h hid => (hkept.arrived id h hid).trans (Nat.le_add_right _ _) }
  | receive id request =>
    simp only [DownloadTickets.step] at hstep
    split at hstep
    · cases hstep
    · next hfree =>
      cases hstep
      apply hlater.setHandler
      · intro h hid
        rw [hfree] at hid
        cases hid
      · rfl
      · exact Nat.le_refl _
      · trivial
  | advance id world =>
    simp only [DownloadTickets.step] at hstep
    split at hstep
    · cases hstep
    · next h hid =>
      exact hlater.advance hnew hid (mem_append_right _ (mem_singleton_self _)) hstep

end

end

/-! ## Downloads without authorisation -/

/-- In every run a download that is served without being authorised itself has redeemed a
ticket: one issued before to an authorised request for the very grant that is exported, not
expired when the download read the clock, and not redeemed before. -/
theorem served_redeemed_ticket {lib : Libraries} {state : ExportRouteState}
    {newTicket : ℕ → String} (hnew : Function.Injective newTicket) {actions : List Action}
    {s : Routes} (hrun : exec (step lib state newTicket) .new actions = some s)
    {id : HandlerId} {h : Handler} (hid : s.handlers id = some h) {artifact : ExportArtifact}
    (hserved : h.phase = .answered (.artifact artifact))
    (hauth : ¬ h.request.Authorised lib state) :
    ∃ k grant world, .advance id world ∈ actions ∧ Exported lib state world artifact k grant ∧
      ∃ ticket now before after, (s.ledgers k).journal =
          before ++ .redeemed id ticket grant now :: after ∧ h.arrived ≤ now ∧
        ∃ issuer expiresAt hissuer, .issued issuer ticket ⟨grant, expiresAt⟩ ∈ before ∧
          s.handlers issuer = some hissuer ∧ hissuer.request.Authorised lib state ∧
          hissuer.request.route.Asks lib state k grant ∧
          now < expiresAt ∧ Unredeemed before ticket := by
  have hguard : Guarded (step lib state newTicket) (fun _ _ => True) .new actions :=
    guarded_of_forall (fun _ _ => trivial) _ _
  have hkept : Kept lib state newTicket ([] ++ actions) s :=
    exec_history_invariant (fun _ _ _ _ h _ hstep => h.step hnew hstep) kept_new hguard hrun
  have hfollows := hkept.follows id h hid
  rw [hserved] at hfollows
  obtain ⟨task, world, hentitled, hworld, hexport⟩ := hfollows
  obtain ⟨k, grant, ticket, now, hmem, harrived, hgets⟩ := hentitled.resolve_left hauth
  obtain ⟨before, after, issuer, expiresAt, hjournal, hissued, hnow, hunredeemed⟩ :=
    (hkept.sound k).orderly.of_redeemed hmem
  have hissuer := hkept.issuer k (.issued issuer ticket ⟨grant, expiresAt⟩) (by
    show _ ∈ (s.ledgers k).journal
    rw [hjournal]
    exact mem_append_left _ hissued)
  obtain ⟨h', hid', hauth', hasks⟩ := hissuer
  exact ⟨k, grant, world, hworld, exported_of_run hgets hexport, ticket, now, before, after,
    hjournal, harrived, issuer, expiresAt, h', hissued, hid', hauth', hasks, hnow, hunredeemed⟩

def plainLibraries : Libraries where
  argon2 := ⟨fun _ => none, fun _ _ => false⟩
  parseUuid _ := .ok 0

def oneSession : World where
  sessionDirForSid _ := some "/sessions/a"
  sessionRoot := none
  pathExists _ := true
  canonicalize path := .ok path
  isFile _ := true
  exportRows _ _ _ _ := .ok [97]
  exportPackets _ _ := .ok []
  createBundleZip _ _ _ _ _ := .ok []
  systemTime := 0

/-- A source of tickets. -/
def letters (n : ℕ) : String := String.ofList (List.replicate (n + 1) 'a')

theorem letters_injective : Function.Injective letters := by
  intro m n h
  have hlength := congrArg (length ∘ String.toList) h
  simpa [letters] using hlength

def ticketRequest : Request :=
  ⟨.v4 0x7f000001, {}, .exportTicket "00000000-0000-0000-0000-000000000000" {}⟩

def downloadRequest : Request :=
  ⟨.v4 0xc000020a, {}, .export "00000000-0000-0000-0000-000000000000" { ticket := some "a" }⟩

/-- The ticket is issued, a second passes, and the export is downloaded. -/
def ticketRun : List Action :=
  [Action.receive 0 ticketRequest] ++ List.replicate 5 (Action.advance 0 oneSession) ++
    [Action.tick 1000000000] ++ [Action.receive 1 downloadRequest] ++
    List.replicate 4 (Action.advance 1 oneSession)

/-- The download of another host is served, and has redeemed a ticket. -/
theorem served_redeemed_ticket_remote :
    ∃ s h artifact, exec (step plainLibraries { noAuth := true } letters) .new ticketRun = some s ∧
      s.handlers 1 = some h ∧ h.phase = .answered (.artifact artifact) ∧
      ∃ k ticket grant now, Entry.redeemed 1 ticket grant now ∈ (s.ledgers k).journal := by
  obtain ⟨s, hrun, h, hid, artifact, hserved, hrequest⟩ :
      ∃ s, exec (step plainLibraries { noAuth := true } letters) .new ticketRun = some s ∧
        ∃ h, s.handlers 1 = some h ∧ ∃ artifact, h.phase = .answered (.artifact artifact) ∧
          h.request = downloadRequest := ⟨_, rfl, _, rfl, _, rfl, rfl⟩
  have hauth : ¬ h.request.Authorised plainLibraries { noAuth := true } := by
    rw [hrequest]
    intro hauth
    cases hauth
  obtain ⟨k, grant, -, -, -, ticket, now, before, after, hjournal, -⟩ :=
    served_redeemed_ticket letters_injective hrun hid hserved hauth
  refine ⟨s, h, artifact, hrun, hid, hserved, k, ticket, grant, now, ?_⟩
  rw [hjournal]
  exact mem_append_right _ mem_cons_self

/-- A minute passes between the moment in which the download has read the clock and the one in
which it takes its ticket. -/
def lateRun : List Action :=
  [Action.receive 0 ticketRequest] ++ List.replicate 5 (Action.advance 0 oneSession) ++
    [Action.receive 1 downloadRequest] ++ List.replicate 2 (Action.advance 1 oneSession) ++
    [Action.tick downloadTicketTtl]

/-- The ticket has expired, and the download takes it and is served. -/
theorem expired_ticket_redeemed :
    ∃ s, exec (step plainLibraries { noAuth := true } letters) .new lateRun = some s ∧
      ((s.ledgers .session).table "a").any (fun stored => stored.expiresAt ≤ s.now) = true ∧
      ∃ s' h artifact, exec (step plainLibraries { noAuth := true } letters) s
          [.advance 1 oneSession, .advance 1 oneSession] = some s' ∧
        (s'.ledgers .session).table "a" = none ∧
        s'.handlers 1 = some h ∧ h.phase = .answered (.artifact artifact) ∧
        ¬ h.request.Authorised plainLibraries { noAuth := true } :=
  ⟨_, rfl, by decide, _, _, _, rfl, rfl, rfl, rfl, nofun⟩

end TraceMux.Server.DownloadTickets
