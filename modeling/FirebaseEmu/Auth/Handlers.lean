import FirebaseEmu.Auth.Effects
import FirebaseEmu.Lib.Machine
import Mathlib.Logic.Function.Basic

namespace FirebaseEmu.Auth
open Lib Std

/-- An account by its key and its number among those that were created under it. -/
structure Account where
  key : AccountKey
  number : Nat
  deriving DecidableEq

/-- The requests whose handlers run side by side on the in-memory tables. A request that shows an
ID token has its token looked up by `session_user`. -/
inductive Handler where
  | createAccount (project : Option String) (request : WriteAccountRequest)
  | signIn (request : WriteAccountRequest)
  | refreshToken (request : RefreshRequest)
  | deleteAccount (project : Option String) (request : DeleteRequest)
  | sessionUser (ns token : String)

/-- Where a handler stands: the lock it takes next, and what it has in hand. A session in hand
comes with the accounts on whose behalf its token was issued. -/
inductive Stage where
  | creating (ns : String) (request : WriteAccountRequest) (now : Instant) (draws : Draws)
  | signingIn (email password : String)
  | refreshing (refresh : String) (now : Instant)
  | spending (session : Session) (accounts : List Account)
  | issuing (ns : String) (user : User) (accounts : List Account) (spent : Option Session)
  | lookingUp (ns token : String) (now : Instant) (deletes : Bool)
  | checking (ns token : String) (now : Instant) (deletes : Bool) (session : Session)
      (accounts : List Account)
  | dropping (token : String) (error : ApiError)
  | deleting (ns uid : String)
  | clearing (account : Account)
  | answered (reply : ApiResult)

/-- The accounts a handler has in hand between two locks. -/
def Stage.inHand : Stage → List Account
  | .spending _ accounts => accounts
  | .issuing _ _ accounts _ => accounts
  | .checking _ _ _ _ _ accounts => accounts
  | _ => []

/-- The clock as a step reads it, a second time before it drops expired sessions, and what the
step draws. -/
structure StepInput where
  now : Instant
  later : Instant
  draws : Draws

/-- The tables and the handlers; for the record, how many accounts were created under each key,
the accounts on whose behalf the token of a session was issued, and the accounts whose deletion
has been answered. -/
structure Handlers where
  data : AuthData
  stages : ExtTreeMap Nat Stage
  creations : AccountKey → Nat
  owners : String → List Account
  gone : List Account

/-- A request comes, its handler takes its next lock, or the client goes and the handler with
it. -/
inductive HandlerEvent where
  | arrive (id : Nat) (handler : Handler) (input : StepInput)
  | advance (id : Nat) (input : StepInput)
  | cancel (id : Nat)

/-- What `session_user` makes of a session and a user. -/
inductive Checked where
  | refused (error : ApiError)
  | expired
  | accepted (user : User)

variable (config : AuthConfig)

/-- `session_user` after its two reads. -/
def checkSession (ns token : String) (now : Instant) (session : Session) :
    Option User → Checked
  | none => .refused (badRequest "USER_NOT_FOUND")
  | some user =>
    if session.kind ≠ .idToken ∨ session.ns ≠ ns then .refused (badRequest "INVALID_ID_TOKEN")
    else if session.expiresAt ≤ now.unixSeconds then .expired
    else
      match checkClaims config.tokens token user now.unixSeconds with
      | .error error => .refused error
      | .ok user => .accepted user

/-- `sign_in` up to the end of its lock on the users. -/
def AuthData.signInUser (data : AuthData) (email password : String) (now : Instant) :
    Except ApiError (User × AuthData) :=
  match (data.table (config.ns none)).find? fun entry =>
      entry.2.email.any fun current => eqIgnoreAsciiCase current email with
  | none => .error (badRequest "EMAIL_NOT_FOUND")
  | some (key, user) =>
    if user.disabled then .error (badRequest "USER_DISABLED")
    else if user.password ≠ some password then .error (badRequest "INVALID_PASSWORD")
    else
      let user := { user with lastLoginAt := now.nowMillis }
      .ok (user, { data with users := data.users.insert key user })

namespace Handlers

def start (data : AuthData) : Handlers := ⟨data, ∅, fun _ => 0, fun _ => [], []⟩

/-- The account that stands under the key. -/
def current (state : Handlers) (key : AccountKey) : Account := ⟨key, state.creations key⟩

def goto (state : Handlers) (id : Nat) (stage : Stage) : Handlers :=
  { state with stages := state.stages.insert id stage }

def refuse (state : Handlers) (id : Nat) (error : ApiError) : Handlers :=
  state.goto id (.answered (.error error))

def arrival (input : StepInput) : Handler → Stage
  | .createAccount project request => .creating (config.ns project) request input.now input.draws
  | .signIn request =>
    match request.email, request.password with
    | none, _ => .answered (.error (badRequest "MISSING_EMAIL"))
    | some _, none => .answered (.error (badRequest "MISSING_PASSWORD"))
    | some email, some password => .signingIn email password
  | .refreshToken request =>
    if request.grantType ≠ some "refresh_token" then
      .answered (.error (badRequest "INVALID_GRANT_TYPE"))
    else
      match request.refreshToken with
      | none => .answered (.error (badRequest "MISSING_REFRESH_TOKEN"))
      | some refresh =>
        if !parsesUuid refresh then .answered (.error (badRequest "INVALID_REFRESH_TOKEN"))
        else .refreshing refresh input.now
  | .deleteAccount project request =>
    match request.idToken with
    | none => .deleting (config.ns project) request.localId
    | some token => .lookingUp (config.ns project) token input.now true
  | .sessionUser ns token => .lookingUp ns token input.now false

def create (state : Handlers) (id : Nat) (ns : String) (request : WriteAccountRequest)
    (now : Instant) (draws : Draws) : Handlers :=
  match state.data.createAccount ns request now draws with
  | (.error error, _) => state.refuse id error
  | (.ok user, data) =>
    let key : AccountKey := ⟨ns, user.localId⟩
    ({ state with
        data
        creations := Function.update state.creations key (state.creations key + 1) } :
      Handlers).goto id (.answered (.ok (.user user.shown none)))

def signIn (state : Handlers) (id : Nat) (email password : String) (now : Instant) : Handlers :=
  match state.data.signInUser config email password now with
  | .error error => state.refuse id error
  | .ok (user, data) =>
    ({ state with data } : Handlers).goto id (.issuing (config.ns none) user
      [state.current ⟨config.ns none, user.localId⟩] none)

def refresh (state : Handlers) (id : Nat) (refresh : String) (now : Instant) : Handlers :=
  match state.data.sessions[refresh]? with
  | none => state.refuse id (badRequest "INVALID_REFRESH_TOKEN")
  | some session =>
    if session.kind ≠ .refreshToken ∨ session.expiresAt ≤ now.unixSeconds then
      state.goto id (.dropping refresh (badRequest "INVALID_REFRESH_TOKEN"))
    else state.goto id (.spending session (state.owners refresh))

/-- The new tokens are on behalf of the user's account, and of those of the token that is
spent. -/
def spend (state : Handlers) (id : Nat) (session : Session) (accounts : List Account) :
    Handlers :=
  let key : AccountKey := ⟨session.ns, session.uid⟩
  match state.data.users[key]? with
  | none => state.refuse id (badRequest "USER_NOT_FOUND")
  | some user =>
    match checkRefresh session user with
    | .error error => state.refuse id error
    | .ok user =>
      state.goto id (.issuing session.ns user (state.current key :: accounts) (some session))

/-- The answer of `sign_in`, or of `refresh_token` for the session it has spent. -/
def issueReply (session : SessionReply) : Option Session → AuthReply
  | none => .session session
  | some spent => .refreshed session spent.uid (projectOf spent.ns)

def issue (state : Handlers) (id : Nat) (ns : String) (user : User) (accounts : List Account)
    (spent : Option Session) (input : StepInput) : Handlers :=
  let refresh := input.draws.refresh
  let (reply, new) := sessionBundle config.tokens ns user input.now.unixSeconds refresh
  ({ state with
      data := { state.data with
        sessions := insertSessions state.data.sessions new input.later.unixSeconds }
      owners := Function.update (Function.update state.owners reply.idToken accounts) refresh
        accounts } : Handlers).goto id (.answered (.ok (issueReply reply spent)))

def lookUp (state : Handlers) (id : Nat) (ns token : String) (now : Instant) (deletes : Bool) :
    Handlers :=
  match state.data.sessions[token]? with
  | none => state.refuse id (badRequest "INVALID_ID_TOKEN")
  | some session => state.goto id (.checking ns token now deletes session (state.owners token))

def check (state : Handlers) (id : Nat) (ns token : String) (now : Instant) (deletes : Bool)
    (session : Session) : Handlers :=
  match checkSession config ns token now session
      state.data.users[(⟨ns, session.uid⟩ : AccountKey)]? with
  | .refused error => state.refuse id error
  | .expired => state.goto id (.dropping token (badRequest "TOKEN_EXPIRED"))
  | .accepted user =>
    state.goto id (if deletes then .deleting ns user.localId
      else .answered (.ok (.user user none)))

def drop (state : Handlers) (id : Nat) (token : String) (error : ApiError) : Handlers :=
  ({ state with data := { state.data with sessions := state.data.sessions.erase token } } :
    Handlers).refuse id error

def delete (state : Handlers) (id : Nat) (ns uid : String) : Handlers :=
  let key : AccountKey := ⟨ns, uid⟩
  if state.data.users.contains key then
    ({ state with data := { state.data with users := state.data.users.erase key } } :
      Handlers).goto id (.clearing (state.current key))
  else state.refuse id (badRequest "USER_NOT_FOUND")

/-- The last step of a deletion. -/
def clear (state : Handlers) (id : Nat) (account : Account) : Handlers :=
  ({ state with
      data := { state.data with
        sessions := state.data.sessions.filter fun _ session =>
          session.ns != account.key.ns || session.uid != account.key.uid }
      gone := account :: state.gone } : Handlers).goto id (.answered (.ok .empty))

/-- The handler takes its next lock, and goes on until the one after it. -/
def advance (state : Handlers) (id : Nat) (input : StepInput) : Stage → Handlers
  | .creating ns request now draws => state.create id ns request now draws
  | .signingIn email password => state.signIn config id email password input.now
  | .refreshing refresh now => state.refresh id refresh now
  | .spending session accounts => state.spend id session accounts
  | .issuing ns user accounts spent => state.issue config id ns user accounts spent input
  | .lookingUp ns token now deletes => state.lookUp id ns token now deletes
  | .checking ns token now deletes session _ => state.check config id ns token now deletes session
  | .dropping token error => state.drop id token error
  | .deleting ns uid => state.delete id ns uid
  | .clearing account => state.clear id account
  | .answered _ => state

def step (state : Handlers) : HandlerEvent → Handlers
  | .arrive id handler input =>
    if state.stages.contains id then state else state.goto id (arrival config input handler)
  | .advance id input =>
    match state.stages[id]? with
    | some stage => state.advance config id input stage
    | none => state
  | .cancel id => { state with stages := state.stages.erase id }

/-- The accounts on whose behalf the token was issued that the handler accepts in its next
step: `session_user` in its check, and `refresh_token` when it answers with new tokens. -/
def accepts (state : Handlers) : HandlerEvent → List Account
  | .advance id _ =>
    match state.stages[id]? with
    | some (.checking ns token now _ session accounts) =>
      match checkSession config ns token now session
          state.data.users[(⟨ns, session.uid⟩ : AccountKey)]? with
      | .accepted _ => accounts
      | _ => []
    | some (.issuing _ _ accounts (some _)) => accounts
    | _ => []
  | _ => []

end Handlers

variable {config : AuthConfig} {state : Handlers} {id : Nat} {reply : ApiResult} {data : AuthData}

theorem getElem?_goto (stage : Stage) (other : Nat) :
    (state.goto id stage).stages[other]? = if id = other then some stage
      else state.stages[other]? := by
  rw [Handlers.goto, ExtTreeMap.getElem?_insert]
  simp only [LawfulEqOrd.compare_eq_iff_eq]

@[simp] theorem getElem?_goto_self (stage : Stage) :
    (state.goto id stage).stages[id]? = some stage := by
  rw [getElem?_goto, if_pos rfl]

theorem goto_data (stage : Stage) : (state.goto id stage).data = state.data := rfl

/-- The handler has answered, and the tables are these. -/
def Handlers.Done (state : Handlers) (id : Nat) (reply : ApiResult) (data : AuthData) : Prop :=
  state.stages[id]? = some (.answered reply) ∧ state.data = data

/-- The handler takes so many locks, one right after the other. -/
def Handlers.locks (config : AuthConfig) (state : Handlers) (id : Nat) (input : StepInput) :
    Nat → Handlers
  | 0 => state
  | n + 1 => (state.step config (.advance id input)).locks config id input n

variable {input : StepInput}

theorem Handlers.Done.locks (h : state.Done id reply data) (n : Nat) :
    (state.locks config id input n).Done id reply data := by
  induction n generalizing state with
  | zero => exact h
  | succ n ih =>
    refine ih ?_
    unfold Handlers.step
    dsimp only
    rw [h.1]
    exact h

theorem done_goto (reply : ApiResult) :
    (state.goto id (.answered reply)).Done id reply state.data :=
  ⟨getElem?_goto_self _, rfl⟩

theorem step_goto (stage : Stage) :
    (state.goto id stage).step config (.advance id input) =
      (state.goto id stage).advance config id input stage := by
  unfold Handlers.step
  dsimp only
  rw [getElem?_goto_self]

theorem locks_goto (stage : Stage) (n : Nat) :
    (state.goto id stage).locks config id input (n + 1) =
      ((state.goto id stage).advance config id input stage).locks config id input n := by
  rw [Handlers.locks, step_goto]

/-- The request of a handler. -/
def Handler.request : Handler → Option AuthRequest
  | .createAccount project request => some (.createAccount project request)
  | .signIn request => some (.signIn request)
  | .refreshToken request => some (.refreshToken request)
  | .deleteAccount project request => some (.deleteAccount project request)
  | .sessionUser _ _ => none

theorem signIn_eq (data : AuthData) (request : WriteAccountRequest) (now : Instant)
    (draws : Draws) :
    data.signIn config request now draws =
      match request.email, request.password with
      | none, _ => (.error (badRequest "MISSING_EMAIL"), data)
      | some _, none => (.error (badRequest "MISSING_PASSWORD"), data)
      | some email, some password =>
        match data.signInUser config email password now with
        | .error error => (.error error, data)
        | .ok (user, data) =>
          let (session, data) := data.issueSession config (config.ns none) user now draws
          (.ok (.session session), data) := by
  unfold AuthData.signIn AuthData.signInUser
  cases request.email with
  | none => rfl
  | some email =>
    cases request.password with
    | none => rfl
    | some password =>
      dsimp only
      cases (data.table (config.ns none)).find? fun entry =>
          entry.2.email.any fun current => eqIgnoreAsciiCase current email with
      | none => rfl
      | some entry =>
        dsimp only
        split
        · rfl
        · split <;> rfl

theorem sessionUser_eq (data : AuthData) (ns token : String) (now : Instant) :
    data.sessionUser config ns token now =
      match data.sessions[token]? with
      | none => (.error (badRequest "INVALID_ID_TOKEN"), data)
      | some session =>
        match checkSession config ns token now session
            data.users[(⟨ns, session.uid⟩ : AccountKey)]? with
        | .refused error => (.error error, data)
        | .expired => (.error (badRequest "TOKEN_EXPIRED"),
            { data with sessions := data.sessions.erase token })
        | .accepted user => (.ok user, data) := by
  unfold AuthData.sessionUser
  cases data.sessions[token]? with
  | none => rfl
  | some session =>
    dsimp only
    cases data.users[(⟨ns, session.uid⟩ : AccountKey)]? with
    | none => rfl
    | some user =>
      unfold checkSession
      dsimp only
      split
      · rfl
      · split
        · rfl
        · cases checkClaims config.tokens token user now.unixSeconds <;> rfl

theorem issue_done (state : Handlers) (ns : String) (user : User) (accounts : List Account)
    (spent : Option Session) (now : Instant) (draws : Draws) :
    (state.issue config id ns user accounts spent ⟨now, now, draws⟩).Done id
      (.ok (Handlers.issueReply (state.data.issueSession config ns user now draws).1 spent))
      (state.data.issueSession config ns user now draws).2 := by
  unfold Handlers.issue AuthData.issueSession
  exact done_goto _

/-- The two steps of a deletion. -/
theorem delete_done (state : Handlers) (ns uid : String) (n : Nat) :
    ((state.delete id ns uid).locks config id input (n + 1)).Done id
      (state.data.deleteKnown ns uid).1 (state.data.deleteKnown ns uid).2 := by
  unfold Handlers.delete AuthData.deleteKnown
  dsimp only
  split
  · rw [locks_goto]
    exact (done_goto _).locks n
  · exact (done_goto _).locks (n + 1)

theorem createAccount_alone (state : Handlers) (ns : String) (request : WriteAccountRequest)
    (now : Instant) (draws : Draws) :
    let whole : ApiResult × AuthData :=
      match state.data.createAccount ns request now draws with
      | (.error error, data) => (.error error, data)
      | (.ok user, data) => (.ok (.user user.shown none), data)
    ((state.goto id (.creating ns request now draws)).locks config id input 4).Done id whole.1
      whole.2 := by
  intro whole
  rw [locks_goto, Handlers.advance, Handlers.create, goto_data]
  obtain ⟨error, hc⟩ | ⟨user, -, hc⟩ := createAccount_cases state.data ns request now draws
  · rw [show whole = (.error error, state.data) by simp only [whole, hc], hc]
    exact (done_goto _).locks 3
  · rw [show whole = (.ok (.user user.shown none),
      { state.data with users := state.data.users.insert ⟨ns, user.localId⟩ user }) by
        simp only [whole, hc], hc]
    exact (done_goto _).locks 3

theorem signIn_alone (state : Handlers) (request : WriteAccountRequest) (now : Instant)
    (draws : Draws) :
    ((state.goto id (Handlers.arrival config ⟨now, now, draws⟩ (.signIn request))).locks config id
      ⟨now, now, draws⟩ 4).Done id (state.data.signIn config request now draws).1
        (state.data.signIn config request now draws).2 := by
  rw [signIn_eq, Handlers.arrival]
  cases request.email with
  | none => exact (done_goto _).locks 4
  | some email =>
    cases request.password with
    | none => exact (done_goto _).locks 4
    | some password =>
      dsimp only
      rw [locks_goto, Handlers.advance, Handlers.signIn, goto_data]
      cases state.data.signInUser config email password now with
      | error error => exact (done_goto _).locks 3
      | ok entry =>
        dsimp only
        rw [locks_goto]
        exact (issue_done _ _ _ _ _ _ _).locks 2

theorem refreshToken_alone (state : Handlers) (request : RefreshRequest) (now : Instant)
    (draws : Draws) :
    ((state.goto id (Handlers.arrival config ⟨now, now, draws⟩ (.refreshToken request))).locks
      config id ⟨now, now, draws⟩ 4).Done id (state.data.refreshToken config request now draws).1
        (state.data.refreshToken config request now draws).2 := by
  rw [Handlers.arrival]
  unfold AuthData.refreshToken
  split
  · exact (done_goto _).locks 4
  · cases request.refreshToken with
    | none => exact (done_goto _).locks 4
    | some refresh =>
      dsimp only
      split
      · exact (done_goto _).locks 4
      · rw [locks_goto, Handlers.advance, Handlers.refresh, goto_data]
        cases state.data.sessions[refresh]? with
        | none => exact (done_goto _).locks 3
        | some session =>
          dsimp only
          split
          · rw [locks_goto]
            exact (done_goto _).locks 2
          · rw [locks_goto, Handlers.advance, Handlers.spend]
            simp only [goto_data]
            cases state.data.users[(⟨session.ns, session.uid⟩ : AccountKey)]? with
            | none => exact (done_goto _).locks 2
            | some user =>
              dsimp only
              cases checkRefresh session user with
              | error error => exact (done_goto _).locks 2
              | ok user =>
                dsimp only
                rw [locks_goto]
                exact (issue_done _ _ _ _ _ _ _).locks 1

theorem deleteAccount_alone (state : Handlers) (project : Option String) (request : DeleteRequest)
    (now : Instant) (draws : Draws) :
    ((state.goto id (Handlers.arrival config ⟨now, now, draws⟩
      (.deleteAccount project request))).locks config id ⟨now, now, draws⟩ 4).Done id
        (state.data.deleteAccount config (config.ns project) request now).1
        (state.data.deleteAccount config (config.ns project) request now).2 := by
  rw [Handlers.arrival]
  unfold AuthData.deleteAccount
  cases request.idToken with
  | none =>
    dsimp only
    rw [locks_goto]
    exact delete_done _ _ _ 2
  | some token =>
    dsimp only
    rw [sessionUser_eq, locks_goto, Handlers.advance, Handlers.lookUp, goto_data]
    cases state.data.sessions[token]? with
    | none => exact (done_goto _).locks 3
    | some session =>
      dsimp only
      rw [locks_goto, Handlers.advance, Handlers.check]
      simp only [goto_data]
      cases checkSession config (config.ns project) token now session
          state.data.users[(⟨config.ns project, session.uid⟩ : AccountKey)]? with
      | refused error => exact (done_goto _).locks 2
      | expired =>
        dsimp only
        rw [locks_goto]
        exact (done_goto _).locks 1
      | accepted user =>
        dsimp only
        rw [if_pos trivial, locks_goto]
        exact delete_done _ _ _ 0

/-- A handler that is not interrupted does what its request does in one piece. -/
theorem handler_alone (config : AuthConfig) (state : Handlers) {handler : Handler}
    {request : AuthRequest} (now : Instant) (draws : Draws)
    (hfree : state.stages.contains id = false) (hrequest : handler.request = some request) :
    ((state.step config (.arrive id handler ⟨now, now, draws⟩)).locks config id
      ⟨now, now, draws⟩ 4).Done id (state.data.handle config ⟨request, now, draws⟩).1
        (state.data.handle config ⟨request, now, draws⟩).2 := by
  have harrive : state.step config (.arrive id handler ⟨now, now, draws⟩) =
      state.goto id (Handlers.arrival config ⟨now, now, draws⟩ handler) := by
    unfold Handlers.step
    dsimp only
    rw [hfree]
    rfl
  rw [harrive]
  cases handler with
  | sessionUser ns token => cases hrequest
  | createAccount project request =>
    obtain rfl := Option.some.inj hrequest
    exact createAccount_alone state (config.ns project) request now draws
  | signIn request =>
    obtain rfl := Option.some.inj hrequest
    exact signIn_alone state request now draws
  | refreshToken request =>
    obtain rfl := Option.some.inj hrequest
    exact refreshToken_alone state request now draws
  | deleteAccount project request =>
    obtain rfl := Option.some.inj hrequest
    exact deleteAccount_alone state project request now draws

end FirebaseEmu.Auth
