import FirebaseEmu.Auth.Sessions

namespace FirebaseEmu.Auth
open Lib Std

structure FederatedId where
  providerId : String
  rawId : String

structure LookupRequest where
  idToken : Option String
  localId : List String
  email : List String
  phoneNumber : List String
  federatedUserId : List FederatedId

structure DeleteRequest where
  localId : String
  idToken : Option String

/-- The fields of a form that `refresh_token` reads. -/
structure RefreshRequest where
  grantType : Option String
  refreshToken : Option String

/-- A request of the Auth service. Of an account's address the project is kept, which is the
default one on the routes without a project. -/
inductive AuthRequest where
  | createAccount (project : Option String) (request : WriteAccountRequest)
  | signUp (request : WriteAccountRequest)
  | signIn (request : WriteAccountRequest)
  | refreshToken (request : RefreshRequest)
  | lookupAccounts (project : Option String) (request : LookupRequest)
  | updateAccount (project : Option String) (request : WriteAccountRequest)
  | deleteAccount (project : Option String) (request : DeleteRequest)
  | listUsers (project : Option String) (limit : Nat)

/-- A request, the time at which it is handled and what it draws. -/
structure AuthCall where
  request : AuthRequest
  now : Instant
  draws : Draws

/-- What an answer is written from. The JSON of a user leaves its password out; the answer of a
browser's update is the user's with the session's fields set in it. -/
inductive AuthReply where
  | user (user : User) (session : Option SessionReply)
  | session (session : SessionReply)
  | refreshed (session : SessionReply) (userId projectId : String)
  | users (users : List User)
  | empty

abbrev ApiResult := Except ApiError AuthReply

/-- What does not change over a run: the codecs, the folding of letters in lookups, and the
project of the routes without one. -/
structure AuthConfig where
  tokens : TokenCodec
  toLowercase : String → String
  defaultProject : String

def AuthConfig.ns (config : AuthConfig) (project : Option String) : String :=
  projectNamespace (project.getD config.defaultProject)

/-- The filter of a lookup. -/
def lookupMatches (toLowercase : String → String) (request : LookupRequest) (user : User) :
    Bool :=
  request.localId.contains user.localId ||
    user.email.any (fun email => (request.email.map toLowercase).contains (toLowercase email)) ||
    user.phoneNumber.any request.phoneNumber.contains ||
    request.federatedUserId.any fun wanted => user.providerUserInfo.any fun provider =>
      stringField "providerId" provider == some wanted.providerId &&
        stringField "rawId" provider == some wanted.rawId

/-- The user as JSON shows it. -/
def User.shown (user : User) : User := { user with password := none }

/-- The in-memory backend. The accounts of all namespaces are in one table. -/
structure AuthData where
  users : ExtTreeMap AccountKey User
  sessions : ExtTreeMap String Session

namespace AuthData

def empty : AuthData := ⟨∅, ∅⟩

/-- The users of a namespace by local id. -/
def table (data : AuthData) (ns : String) : List (AccountKey × User) :=
  data.users.toList.filter fun entry => entry.1.ns == ns

variable (config : AuthConfig)

/-- `values()` of a namespace's table, each user with its local id. -/
def accounts (data : AuthData) (ns : String) : List (String × User) :=
  (data.table ns).map fun entry => (entry.2.localId, entry.2)

def createAccount (data : AuthData) (ns : String) (request : WriteAccountRequest) (now : Instant)
    (draws : Draws) : Except ApiError User × AuthData :=
  match prepareAccount request now draws with
  | .error error => (.error error, data)
  | .ok user =>
    if data.users.contains ⟨ns, user.localId⟩ then (.error (badRequest "DUPLICATE_LOCAL_ID"), data)
    else
      match ensureUnique user.email user.phoneNumber none (data.accounts ns) with
      | .error error => (.error error, data)
      | .ok () => (.ok user, { data with users := data.users.insert ⟨ns, user.localId⟩ user })

def issueSession (data : AuthData) (ns : String) (user : User) (now : Instant)
    (draws : Draws) : SessionReply × AuthData :=
  let (reply, new) := sessionBundle config.tokens ns user now.unixSeconds draws.refresh
  (reply, { data with sessions := insertSessions data.sessions new now.unixSeconds })

/-- The user that was created is read again for its session. -/
def signUp (data : AuthData) (request : WriteAccountRequest) (now : Instant) (draws : Draws) :
    ApiResult × AuthData :=
  if request.email.isSome && request.password.isNone then
    (.error (badRequest "MISSING_PASSWORD"), data)
  else
    match data.createAccount (config.ns none) request now draws with
    | (.error error, data) => (.error error, data)
    | (.ok created, data) =>
      let user := (data.users[(⟨config.ns none, created.localId⟩ : AccountKey)]?).getD created
      let (session, data) := data.issueSession config (config.ns none) user now draws
      (.ok (.session session), data)

def signIn (data : AuthData) (request : WriteAccountRequest) (now : Instant) (draws : Draws) :
    ApiResult × AuthData :=
  match request.email, request.password with
  | none, _ => (.error (badRequest "MISSING_EMAIL"), data)
  | some _, none => (.error (badRequest "MISSING_PASSWORD"), data)
  | some email, some password =>
    match (data.table (config.ns none)).find? fun entry =>
        entry.2.email.any fun current => eqIgnoreAsciiCase current email with
    | none => (.error (badRequest "EMAIL_NOT_FOUND"), data)
    | some (key, user) =>
      if user.disabled then (.error (badRequest "USER_DISABLED"), data)
      else if user.password ≠ some password then (.error (badRequest "INVALID_PASSWORD"), data)
      else
        let user := { user with lastLoginAt := now.nowMillis }
        let data := { data with users := data.users.insert key user }
        let (session, data) := data.issueSession config (config.ns none) user now draws
        (.ok (.session session), data)

def sessionUser (data : AuthData) (ns token : String) (now : Instant) :
    Except ApiError User × AuthData :=
  match data.sessions[token]? with
  | none => (.error (badRequest "INVALID_ID_TOKEN"), data)
  | some session =>
    match data.users[(⟨ns, session.uid⟩ : AccountKey)]? with
    | none => (.error (badRequest "USER_NOT_FOUND"), data)
    | some user =>
      if session.kind ≠ .idToken ∨ session.ns ≠ ns then
        (.error (badRequest "INVALID_ID_TOKEN"), data)
      else if session.expiresAt ≤ now.unixSeconds then
        (.error (badRequest "TOKEN_EXPIRED"), { data with sessions := data.sessions.erase token })
      else (checkClaims config.tokens token user now.unixSeconds, data)

def refreshToken (data : AuthData) (request : RefreshRequest) (now : Instant) (draws : Draws) :
    ApiResult × AuthData :=
  if request.grantType ≠ some "refresh_token" then
    (.error (badRequest "INVALID_GRANT_TYPE"), data)
  else
    match request.refreshToken with
    | none => (.error (badRequest "MISSING_REFRESH_TOKEN"), data)
    | some refresh =>
      if !parsesUuid refresh then (.error (badRequest "INVALID_REFRESH_TOKEN"), data)
      else
        match data.sessions[refresh]? with
        | none => (.error (badRequest "INVALID_REFRESH_TOKEN"), data)
        | some session =>
          if session.kind ≠ .refreshToken ∨ session.expiresAt ≤ now.unixSeconds then
            (.error (badRequest "INVALID_REFRESH_TOKEN"),
              { data with sessions := data.sessions.erase refresh })
          else
            match data.users[(⟨session.ns, session.uid⟩ : AccountKey)]? with
            | none => (.error (badRequest "USER_NOT_FOUND"), data)
            | some user =>
              match checkRefresh session user with
              | .error error => (.error error, data)
              | .ok user =>
                let (reply, data) := data.issueSession config session.ns user now draws
                (.ok (.refreshed reply session.uid (projectOf session.ns)), data)

def lookupAccounts (data : AuthData) (ns : String) (request : LookupRequest) (now : Instant) :
    ApiResult × AuthData :=
  let found (data : AuthData) (request : LookupRequest) : ApiResult :=
    .ok (.users (((data.table ns).map Prod.snd).filter
      (lookupMatches config.toLowercase request) |>.map User.shown))
  match request.idToken with
  | none => (found data request, data)
  | some token =>
    match data.sessionUser config ns token now with
    | (.error error, data) => (.error error, data)
    | (.ok user, data) => (found data { request with localId := [user.localId] }, data)

/-- An update once the token of a browser has been looked up. -/
def updateKnown (data : AuthData) (ns : String) (request : WriteAccountRequest) (browser : Bool)
    (now : Instant) (draws : Draws) : ApiResult × AuthData :=
  match validateCredentials request with
  | .error error => (.error error, data)
  | .ok () =>
    match request.localId with
    | none => (.error (badRequest "MISSING_LOCAL_ID"), data)
    | some localId =>
      match data.users[(⟨ns, localId⟩ : AccountKey)]? with
      | none => (.error (badRequest "USER_NOT_FOUND"), data)
      | some user =>
        match ensureUnique request.email request.phoneNumber (some localId)
            (data.accounts ns) with
        | .error error => (.error error, data)
        | .ok () =>
          let user := applyUpdate user request
          let data := { data with users := data.users.insert ⟨ns, localId⟩ user }
          if browser then
            let (session, data) := data.issueSession config ns user now draws
            (.ok (.user user.shown (some session)), data)
          else (.ok (.user user.shown none), data)

def updateAccount (data : AuthData) (ns : String) (request : WriteAccountRequest) (now : Instant)
    (draws : Draws) : ApiResult × AuthData :=
  match request.idToken with
  | none => data.updateKnown config ns request false now draws
  | some token =>
    match data.sessionUser config ns token now with
    | (.error error, data) => (.error error, data)
    | (.ok user, data) =>
      data.updateKnown config ns { request with localId := some user.localId } true now draws

/-- A delete once the token of a browser has been looked up. -/
def deleteKnown (data : AuthData) (ns localId : String) : ApiResult × AuthData :=
  if data.users.contains ⟨ns, localId⟩ then
    (.ok .empty, ⟨data.users.erase ⟨ns, localId⟩,
      data.sessions.filter fun _ session => session.ns != ns || session.uid != localId⟩)
  else (.error (badRequest "USER_NOT_FOUND"), data)

def deleteAccount (data : AuthData) (ns : String) (request : DeleteRequest) (now : Instant) :
    ApiResult × AuthData :=
  match request.idToken with
  | none => data.deleteKnown ns request.localId
  | some token =>
    match data.sessionUser config ns token now with
    | (.error error, data) => (.error error, data)
    | (.ok user, data) => data.deleteKnown ns user.localId

def listUsers (data : AuthData) (ns : String) (limit : Nat) : ApiResult × AuthData :=
  (.ok (.users (((data.table ns).map fun entry => entry.2.shown).take (min limit 1000))), data)

def handle (data : AuthData) (call : AuthCall) : ApiResult × AuthData :=
  match call.request with
  | .createAccount project request =>
    match data.createAccount (config.ns project) request call.now call.draws with
    | (.error error, data) => (.error error, data)
    | (.ok user, data) => (.ok (.user user.shown none), data)
  | .signUp request => data.signUp config request call.now call.draws
  | .signIn request => data.signIn config request call.now call.draws
  | .refreshToken request => data.refreshToken config request call.now call.draws
  | .lookupAccounts project request =>
    data.lookupAccounts config (config.ns project) request call.now
  | .updateAccount project request =>
    data.updateAccount config (config.ns project) request call.now call.draws
  | .deleteAccount project request =>
    data.deleteAccount config (config.ns project) request call.now
  | .listUsers project limit => data.listUsers (config.ns project) limit

end AuthData

end FirebaseEmu.Auth
