import FirebaseEmu.Auth.Memory

namespace FirebaseEmu.Auth
open Lib Std

/-- A row of `auth_users`, beside its primary key. -/
structure AuthRow (υ : Type) where
  userJson : υ
  password : Option String

/-- The JSON text of a user, which leaves the password out, and `json_extract` of its email. -/
structure UserCodec (υ : Type) where
  encode : User → υ
  decode : υ → Except String User
  email : υ → Option String
  decode_encode : ∀ user, decode (encode user) = .ok user.shown
  email_encode : ∀ user, email (encode user) = user.email

/-- The order in which SQLite comes by the rows of a query that asks for none. -/
structure RowOrder (υ : Type) where
  scan : List (AccountKey × AuthRow υ) → List (AccountKey × AuthRow υ)
  perm : ∀ rows, (scan rows).Perm rows

/-- The tables of the persistent backend. -/
structure AuthStore (υ : Type) where
  rows : ExtTreeMap AccountKey (AuthRow υ)
  sessions : ExtTreeMap String Session

variable {υ : Type} (config : AuthConfig) (codec : UserCodec υ) (order : RowOrder υ)

def persistenceError (error : String) : ApiError :=
  ⟨500, "AUTH_PERSISTENCE_ERROR: SQLite persistence error: " ++ error⟩

def decodeUser (row : AuthRow υ) : Except ApiError User :=
  match codec.decode row.userJson with
  | .error error => .error (persistenceError error)
  | .ok user => .ok { user with password := row.password }

def userRow (user : User) : AuthRow υ := ⟨codec.encode user, user.password⟩

/-- `ensure_unique_persistent` over the rows in the order they are come by. -/
def ensureUniquePersistent (email phone exceptUid : Option String) :
    List (AccountKey × AuthRow υ) → Except ApiError Unit
  | [] => .ok ()
  | (key, row) :: rows =>
    if exceptUid = some key.uid then ensureUniquePersistent email phone exceptUid rows
    else
      match decodeUser codec row with
      | .error error => .error error
      | .ok user =>
        if emailTaken email user then .error (badRequest "EMAIL_EXISTS")
        else if phoneTaken phone user then .error (badRequest "PHONE_NUMBER_EXISTS")
        else ensureUniquePersistent email phone exceptUid rows

namespace AuthStore

def empty : AuthStore υ := ⟨∅, ∅⟩

/-- `WHERE namespace=?1 ORDER BY uid`. -/
def table (store : AuthStore υ) (ns : String) : List (AccountKey × AuthRow υ) :=
  store.rows.toList.filter fun entry => entry.1.ns == ns

def loadUser (store : AuthStore υ) (key : AccountKey) : Except ApiError (Option User) :=
  match store.rows[key]? with
  | none => .ok none
  | some row => (decodeUser codec row).map some

def storeUser (store : AuthStore υ) (ns : String) (user : User) : AuthStore υ :=
  { store with rows := store.rows.insert ⟨ns, user.localId⟩ (userRow codec user) }

/-- The transaction of a new account, with the sessions that it starts with. -/
def insertAccount (store : AuthStore υ) (ns : String) (user : User)
    (new : List (String × Session)) (now : Instant) : Except ApiError (AuthStore υ) :=
  match store.loadUser codec ⟨ns, user.localId⟩ with
  | .error error => .error error
  | .ok (some _) => .error (badRequest "DUPLICATE_LOCAL_ID")
  | .ok none =>
    match ensureUniquePersistent codec user.email user.phoneNumber none
        (order.scan (store.table ns)) with
    | .error error => .error error
    | .ok () =>
      let store := store.storeUser codec ns user
      .ok (if new.isEmpty then store
        else { store with sessions := insertSessions store.sessions new now.unixSeconds })

def createAccount (store : AuthStore υ) (ns : String) (request : WriteAccountRequest)
    (now : Instant) (draws : Draws) : ApiResult × AuthStore υ :=
  match prepareAccount request now draws with
  | .error error => (.error error, store)
  | .ok user =>
    match store.insertAccount codec order ns user [] now with
    | .error error => (.error error, store)
    | .ok store => (.ok (.user user.shown none), store)

def signUp (store : AuthStore υ) (request : WriteAccountRequest) (now : Instant)
    (draws : Draws) : ApiResult × AuthStore υ :=
  if request.email.isSome && request.password.isNone then
    (.error (badRequest "MISSING_PASSWORD"), store)
  else
    match prepareAccount request now draws with
    | .error error => (.error error, store)
    | .ok user =>
      let (session, new) := sessionBundle config.tokens (config.ns none) user now.unixSeconds
        draws.refresh
      match store.insertAccount codec order (config.ns none) user new now with
      | .error error => (.error error, store)
      | .ok store => (.ok (.session session), store)

def signIn (store : AuthStore υ) (request : WriteAccountRequest) (now : Instant)
    (draws : Draws) : ApiResult × AuthStore υ :=
  match request.email, request.password with
  | none, _ => (.error (badRequest "MISSING_EMAIL"), store)
  | some _, none => (.error (badRequest "MISSING_PASSWORD"), store)
  | some email, some password =>
    match (order.scan (store.table (config.ns none))).find? fun entry =>
        (codec.email entry.2.userJson).any fun current => asciiLower current == asciiLower email with
    | none => (.error (badRequest "EMAIL_NOT_FOUND"), store)
    | some (_, row) =>
      match decodeUser codec row with
      | .error error => (.error error, store)
      | .ok user =>
        if user.disabled then (.error (badRequest "USER_DISABLED"), store)
        else if user.password ≠ some password then (.error (badRequest "INVALID_PASSWORD"), store)
        else
          let user := { user with lastLoginAt := now.nowMillis }
          let (session, new) := sessionBundle config.tokens (config.ns none) user now.unixSeconds
            draws.refresh
          let store := store.storeUser codec (config.ns none) user
          (.ok (.session session), { store with
            sessions := insertSessions store.sessions new now.unixSeconds })

def sessionUser (store : AuthStore υ) (ns token : String) (now : Instant) :
    Except ApiError User × AuthStore υ :=
  match store.sessions[token]? with
  | none => (.error (badRequest "INVALID_ID_TOKEN"), store)
  | some session =>
    match store.loadUser codec ⟨ns, session.uid⟩ with
    | .error error => (.error error, store)
    | .ok none => (.error (badRequest "USER_NOT_FOUND"), store)
    | .ok (some user) =>
      if session.kind ≠ .idToken ∨ session.ns ≠ ns then
        (.error (badRequest "INVALID_ID_TOKEN"), store)
      else if session.expiresAt ≤ now.unixSeconds then
        (.error (badRequest "TOKEN_EXPIRED"), { store with
          sessions := store.sessions.erase token })
      else (checkClaims config.tokens token user now.unixSeconds, store)

def refreshToken (store : AuthStore υ) (request : RefreshRequest) (now : Instant)
    (draws : Draws) : ApiResult × AuthStore υ :=
  if request.grantType ≠ some "refresh_token" then
    (.error (badRequest "INVALID_GRANT_TYPE"), store)
  else
    match request.refreshToken with
    | none => (.error (badRequest "MISSING_REFRESH_TOKEN"), store)
    | some refresh =>
      if !parsesUuid refresh then (.error (badRequest "INVALID_REFRESH_TOKEN"), store)
      else
        match store.sessions[refresh]? with
        | none => (.error (badRequest "INVALID_REFRESH_TOKEN"), store)
        | some session =>
          if session.kind ≠ .refreshToken ∨ session.expiresAt ≤ now.unixSeconds then
            (.error (badRequest "INVALID_REFRESH_TOKEN"),
              { store with sessions := store.sessions.erase refresh })
          else
            match store.loadUser codec ⟨session.ns, session.uid⟩ with
            | .error error => (.error error, store)
            | .ok none => (.error (badRequest "USER_NOT_FOUND"), store)
            | .ok (some user) =>
              match checkRefresh session user with
              | .error error => (.error error, store)
              | .ok user =>
                let (reply, new) := sessionBundle config.tokens session.ns user now.unixSeconds
                  draws.refresh
                (.ok (.refreshed reply session.uid (projectOf session.ns)),
                  { store with sessions := insertSessions store.sessions new now.unixSeconds })

/-- The users of the rows, each decoded, that a query keeps. -/
def select (store : AuthStore υ) (ns : String) (keep : User → Bool) :
    Except ApiError (List User) :=
  ((store.table ns).mapM fun entry => decodeUser codec entry.2).map (List.filter keep)

def lookupAccounts (store : AuthStore υ) (ns : String) (request : LookupRequest)
    (now : Instant) : ApiResult × AuthStore υ :=
  let found (store : AuthStore υ) (request : LookupRequest) : ApiResult :=
    (store.select codec ns (lookupMatches config.toLowercase request)).map fun users =>
      .users (users.map User.shown)
  match request.idToken with
  | none => (found store request, store)
  | some token =>
    match store.sessionUser config codec ns token now with
    | (.error error, store) => (.error error, store)
    | (.ok user, store) => (found store { request with localId := [user.localId] }, store)

/-- The transaction of an update, once the token of a browser has been looked up. -/
def updateKnown (store : AuthStore υ) (ns : String) (request : WriteAccountRequest)
    (browser : Bool) (now : Instant) (draws : Draws) : ApiResult × AuthStore υ :=
  match validateCredentials request with
  | .error error => (.error error, store)
  | .ok () =>
    match request.localId with
    | none => (.error (badRequest "MISSING_LOCAL_ID"), store)
    | some localId =>
      match store.loadUser codec ⟨ns, localId⟩ with
      | .error error => (.error error, store)
      | .ok none => (.error (badRequest "USER_NOT_FOUND"), store)
      | .ok (some user) =>
        match ensureUniquePersistent codec request.email request.phoneNumber (some localId)
            (order.scan (store.table ns)) with
        | .error error => (.error error, store)
        | .ok () =>
          let user := applyUpdate user request
          if browser then
            let (session, new) := sessionBundle config.tokens ns user now.unixSeconds
              draws.refresh
            let store := { store with
              sessions := insertSessions store.sessions new now.unixSeconds }
            (.ok (.user user.shown (some session)), store.storeUser codec ns user)
          else (.ok (.user user.shown none), store.storeUser codec ns user)

def updateAccount (store : AuthStore υ) (ns : String) (request : WriteAccountRequest)
    (now : Instant) (draws : Draws) : ApiResult × AuthStore υ :=
  match request.idToken with
  | none => store.updateKnown config codec order ns request false now draws
  | some token =>
    match store.sessionUser config codec ns token now with
    | (.error error, store) => (.error error, store)
    | (.ok user, store) =>
      store.updateKnown config codec order ns { request with localId := some user.localId } true
        now draws

/-- The transaction of a delete, once the token of a browser has been looked up. -/
def deleteKnown (store : AuthStore υ) (ns localId : String) : ApiResult × AuthStore υ :=
  if store.rows.contains ⟨ns, localId⟩ then
    (.ok .empty, ⟨store.rows.erase ⟨ns, localId⟩, store.sessions.filter fun _ session =>
      !(session.ns == ns && session.uid == localId)⟩)
  else (.error (badRequest "USER_NOT_FOUND"), store)

def deleteAccount (store : AuthStore υ) (ns : String) (request : DeleteRequest)
    (now : Instant) : ApiResult × AuthStore υ :=
  match request.idToken with
  | none => store.deleteKnown ns request.localId
  | some token =>
    match store.sessionUser config codec ns token now with
    | (.error error, store) => (.error error, store)
    | (.ok user, store) => store.deleteKnown ns user.localId

def listUsers (store : AuthStore υ) (ns : String) (limit : Nat) : ApiResult × AuthStore υ :=
  ((((store.table ns).take (min limit 1000)).mapM fun entry => decodeUser codec entry.2).map
    fun users => .users (users.map User.shown), store)

def handle (store : AuthStore υ) (call : AuthCall) : ApiResult × AuthStore υ :=
  match call.request with
  | .createAccount project request =>
    store.createAccount codec order (config.ns project) request call.now call.draws
  | .signUp request => store.signUp config codec order request call.now call.draws
  | .signIn request => store.signIn config codec order request call.now call.draws
  | .refreshToken request => store.refreshToken config codec request call.now call.draws
  | .lookupAccounts project request =>
    store.lookupAccounts config codec (config.ns project) request call.now
  | .updateAccount project request =>
    store.updateAccount config codec order (config.ns project) request call.now call.draws
  | .deleteAccount project request =>
    store.deleteAccount config codec (config.ns project) request call.now
  | .listUsers project limit => store.listUsers codec (config.ns project) limit

end AuthStore

end FirebaseEmu.Auth
