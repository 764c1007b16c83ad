import FirebaseEmu.Auth.Accounts

namespace FirebaseEmu.Auth
open Lib Std

inductive SessionKind where
  | idToken
  | refreshToken
  deriving DecidableEq

structure Session where
  ns : String
  uid : String
  issuedAt : Nat
  expiresAt : Nat
  kind : SessionKind
  deriving DecidableEq

def idTokenTtlSecs : Nat := 60 * 60
def refreshTokenTtlSecs : Nat := 30 * 24 * 60 * 60

/-- What a client gets with a session, beside fields that are the same in each. -/
structure SessionReply where
  localId : String
  email : Option String
  displayName : Option String
  idToken : String
  refreshToken : String

/-- The entries of a JSON object, with the key set. -/
def setEntry (key : String) (value : Json) : List (String × Json) → List (String × Json)
  | [] => [(key, value)]
  | (other, old) :: entries =>
    if key < other then (key, value) :: (other, old) :: entries
    else if key = other then (key, value) :: entries
    else (other, old) :: setEntry key value entries

def extendEntries (entries more : List (String × Json)) : List (String × Json) :=
  more.foldl (fun entries entry => setEntry entry.1 entry.2 entries) entries

/-- The value is a text or a natural number, which its JSON text keeps as it is. -/
def Exact (value : Json) : Prop :=
  (∃ text, value = .string text) ∨ ∃ n, value = .number (.posInt n)

/-- JSON text and its base64 form: `parse` reads a JSON text, `encode` writes the payload of a
token and `decode` reads it. -/
structure TokenCodec where
  parse : String → Option Json
  encode : Json → String
  decode : String → Option Json
  noDot : ∀ json, '.' ∉ (encode json).toList
  decode_encode : ∀ json, ∃ decoded, decode (encode json) = some decoded ∧
    ∀ key value, Exact value → json.get key = value → decoded.get key = value

/-- A time as a JSON number. -/
def seconds (n : Nat) : Json := .number (.posInt (UInt64.ofNat n))

/-- `as_u64().unwrap_or(0)`. -/
def asSeconds : Json → Nat
  | .number (.posInt n) => n.toNat
  | _ => 0

/-- `namespace.strip_prefix("project/").unwrap_or(namespace)`. -/
def projectOf (ns : String) : String := (stripPrefix ns "project/").getD ns

variable (codec : TokenCodec)

def customClaims (user : User) : List (String × Json) :=
  match user.customAttributes.bind codec.parse with
  | some (.object entries) => entries
  | _ => []

def standardClaims (ns : String) (user : User) (now : Nat) : List (String × Json) :=
  let project := projectOf ns
  let provider := if user.password.isSome then "password" else "anonymous"
  let identities : List (String × Json) := match user.email with
    | some email => [("email", .array [.string email])]
    | none => []
  [("aud", .string project), ("auth_time", seconds now),
    ("email_verified", .bool user.emailVerified), ("exp", seconds (now + idTokenTtlSecs)),
    ("firebase", .object [("identities", .object identities),
      ("sign_in_provider", .string provider)]),
    ("iat", seconds now), ("iss", .string ("https://securetoken.google.com/" ++ project)),
    ("sub", .string user.localId), ("user_id", .string user.localId)]

def setOptional (key : String) (value : Option String) (entries : List (String × Json)) :
    List (String × Json) :=
  match value with
  | some text => setEntry key (.string text) entries
  | none => entries

def claims (ns : String) (user : User) (now : Nat) : Json :=
  .object (setOptional "name" user.displayName (setOptional "email" user.email
    (extendEntries (customClaims codec user) (standardClaims ns user now))))

/-- The base64 form of `{"alg":"none","typ":"JWT"}`. -/
def tokenHeader : String := "eyJhbGciOiJub25lIiwidHlwIjoiSldUIn0"

def idToken (ns : String) (user : User) (now : Nat) : String :=
  tokenHeader ++ String.singleton '.' ++
    (codec.encode (claims codec ns user now) ++ String.singleton '.' ++ "")

/-- The claims in the payload of a token. -/
def tokenClaims (token : String) : Option Json := ((split '.' token)[1]?).bind codec.decode

def newSession (ns uid : String) (now : Nat) : SessionKind → Session
  | .idToken => ⟨ns, uid, now, now + idTokenTtlSecs, .idToken⟩
  | .refreshToken => ⟨ns, uid, now, now + refreshTokenTtlSecs, .refreshToken⟩

def sessionBundle (ns : String) (user : User) (now : Nat) (refresh : String) :
    SessionReply × List (String × Session) :=
  let token := idToken codec ns user now
  (⟨user.localId, user.email, user.displayName, token, refresh⟩,
    [(token, newSession ns user.localId now .idToken),
      (refresh, newSession ns user.localId now .refreshToken)])

/-- `parse::<u64>()`. -/
def parseU64 (text : String) : Option Nat :=
  let digits := match text.toList with
    | '+' :: digits => digits
    | digits => digits
  if digits.isEmpty || !digits.all Char.isDigit then none
  else
    let n := digits.foldl (fun n c => n * 10 + (c.toNat - '0'.toNat)) 0
    if n < 2 ^ 64 then some n else none

/-- The earliest time of a session that is not revoked: 0 where the text is no number. -/
def User.validFrom (user : User) : Nat := (parseU64 user.validSince).getD 0

/-- The checks of `session_user` on the claims and the user. -/
def checkClaims (token : String) (user : User) (now : Nat) : Except ApiError User :=
  match tokenClaims codec token with
  | none => .error (badRequest "INVALID_ID_TOKEN")
  | some claims =>
    if asSeconds (claims.get "exp") ≤ now then .error (badRequest "TOKEN_EXPIRED")
    else if user.disabled then .error (badRequest "USER_DISABLED")
    else if asSeconds (claims.get "auth_time") < user.validFrom then
      .error (badRequest "TOKEN_EXPIRED")
    else .ok user

/-- The checks of `refresh_token` on the user. -/
def checkRefresh (session : Session) (user : User) : Except ApiError User :=
  if user.disabled then .error (badRequest "USER_DISABLED")
  else if session.issuedAt < user.validFrom then .error (badRequest "TOKEN_EXPIRED")
  else .ok user

def isHex (c : Char) : Bool := c.isDigit || ('a' ≤ c && c ≤ 'f') || ('A' ≤ c && c ≤ 'F')

def hyphenated (text : String) : Bool :=
  (split '-' text).map String.length == [8, 4, 4, 4, 12] &&
    text.toList.all fun c => c == '-' || isHex c

/-- `Uuid::parse_str` takes the text: the simple form, the form with hyphens, and that form in
braces or as a URN. -/
def parsesUuid (text : String) : Bool :=
  (text.length == 32 && text.toList.all isHex) || hyphenated text ||
    ((stripPrefix text "urn:uuid:").any hyphenated) ||
    (startsWith text "\x7b" && text.toList.getLast? == some '}' &&
      hyphenated (String.ofList (text.toList.drop 1).dropLast))

/-- The part of `issue_session` under the lock of the sessions, and of `insert_sessions`: what
has expired goes, and the new sessions come in. -/
def insertSessions (sessions : ExtTreeMap String Session) (new : List (String × Session))
    (now : Nat) : ExtTreeMap String Session :=
  new.foldl (fun sessions entry => sessions.insert entry.1 entry.2)
    (sessions.filter fun _ session => decide (now < session.expiresAt))

end FirebaseEmu.Auth
