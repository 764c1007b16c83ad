import FirebaseEmu.Lib.Json
import FirebaseEmu.Lib.Maps
import FirebaseEmu.Lib.Text

namespace FirebaseEmu.Auth
open Lib Std

/-- A user stands under its namespace and its local id. -/
structure AccountKey where
  ns : String
  uid : String
  deriving DecidableEq

instance : Ord AccountKey := ⟨compareLex (compareOn AccountKey.ns) (compareOn AccountKey.uid)⟩

instance : TransOrd AccountKey :=
  inferInstanceAs (TransCmp (compareLex (compareOn _) (compareOn _)))

instance : LawfulEqOrd AccountKey where
  compare_self := ReflCmp.compare_self
  eq_of_compare {a b} h := by
    obtain ⟨hn, hu⟩ := Ordering.then_eq_eq.mp h
    obtain ⟨ns, uid⟩ := a
    obtain ⟨ns', uid'⟩ := b
    obtain rfl := LawfulEqOrd.eq_of_compare hn
    obtain rfl := LawfulEqOrd.eq_of_compare hu
    rfl

structure User where
  localId : String
  password : Option String
  email : Option String
  emailVerified : Bool
  displayName : Option String
  photoUrl : Option String
  phoneNumber : Option String
  disabled : Bool
  customAttributes : Option String
  providerUserInfo : List Json
  mfaInfo : List Json
  validSince : String
  createdAt : String
  lastLoginAt : String

structure WriteAccountRequest where
  localId : Option String
  email : Option String
  emailVerified : Option Bool
  displayName : Option String
  photoUrl : Option String
  phoneNumber : Option String
  disabled : Option Bool
  disableUser : Option Bool
  customAttributes : Option String
  validSince : Option String
  deleteAttribute : List String
  deleteProvider : List String
  linkProviderUserInfo : List Json
  providerUserInfo : List Json
  mfa : List Json
  mfaInfo : List Json
  password : Option String
  idToken : Option String

structure ApiError where
  status : Nat
  message : String
  deriving DecidableEq

def badRequest (message : String) : ApiError := ⟨400, message⟩

/-- A reading of the host's clock, whose seconds fit 64 bits in every cast. -/
structure Instant where
  millis : Nat
  inRange : millis < 2 ^ 63

namespace Instant

def unixSeconds (now : Instant) : Nat := now.millis / 1000

def nowMillis (now : Instant) : String := toString now.millis

end Instant

/-- What a request draws at random: a local id for a new account, and a refresh token. -/
structure Draws where
  localId : String
  refresh : String

def projectNamespace (project : String) : String := "project/" ++ project

def validEmail (email : String) : Bool :=
  (match split '@' email with
  | [name, host] => !name.isEmpty && !host.isEmpty
  | _ => false) && !email.toList.any isWhitespace

def validateCredentials (request : WriteAccountRequest) : Except ApiError Unit :=
  if request.email.any fun email => !validEmail email then .error (badRequest "INVALID_EMAIL")
  else if request.password.any fun password => password.utf8ByteSize < 6 then
    .error (badRequest "WEAK_PASSWORD : Password should be at least 6 characters")
  else .ok ()

/-- `provider.get("providerId").and_then(Value::as_str)`, and other fields likewise. -/
def stringField (key : String) (json : Json) : Option String :=
  match json.get key with
  | .string text => some text
  | _ => none

def upsertProvider (provider : Json) : List Json → List Json
  | [] => [provider]
  | other :: providers =>
    if stringField "providerId" other == stringField "providerId" provider then
      provider :: providers
    else other :: upsertProvider provider providers

def optionalJson : Option String → Json
  | some text => .string text
  | none => .null

def syncPasswordProvider (user : User) : User :=
  match user.email, user.password with
  | some email, some _ =>
    { user with providerUserInfo := upsertProvider (.object [
        ("displayName", optionalJson user.displayName), ("email", .string email),
        ("photoUrl", optionalJson user.photoUrl), ("providerId", .string "password"),
        ("rawId", .string email)]) user.providerUserInfo }
  | _, _ => user

def newUser (localId : String) (request : WriteAccountRequest) (now : Instant) : User :=
  syncPasswordProvider {
    localId := localId
    password := request.password
    email := request.email
    emailVerified := request.emailVerified.getD false
    displayName := request.displayName
    photoUrl := request.photoUrl
    phoneNumber := request.phoneNumber
    disabled := (request.disableUser.or request.disabled).getD false
    customAttributes := request.customAttributes
    providerUserInfo := if request.linkProviderUserInfo.isEmpty then request.providerUserInfo
      else request.linkProviderUserInfo
    mfaInfo := if request.mfa.isEmpty then request.mfaInfo else request.mfa
    validSince := request.validSince.getD "0"
    createdAt := now.nowMillis
    lastLoginAt := now.nowMillis }

def deleteAttribute (user : User) (name : String) : User :=
  if name = "EMAIL" then { user with email := none, emailVerified := false }
  else if name = "DISPLAY_NAME" then { user with displayName := none }
  else if name = "PHOTO_URL" then { user with photoUrl := none }
  else if name = "PHONE_NUMBER" then { user with phoneNumber := none }
  else if name = "CUSTOM_ATTRIBUTES" then { user with customAttributes := none }
  else user

/-- With no provider to delete, all stay. -/
def applyDeletions (user : User) (attributes providers : List String) : User :=
  let user := attributes.foldl deleteAttribute user
  { user with providerUserInfo := user.providerUserInfo.filter fun provider =>
      (stringField "providerId" provider).all fun id => !providers.contains id }

def applyUpdate (user : User) (request : WriteAccountRequest) : User :=
  let user := applyDeletions user request.deleteAttribute request.deleteProvider
  let linked := request.linkProviderUserInfo.foldl (fun providers provider =>
    upsertProvider provider providers) user.providerUserInfo
  syncPasswordProvider { user with
    password := request.password.or user.password
    email := request.email.or user.email
    emailVerified := request.emailVerified.getD user.emailVerified
    displayName := request.displayName.or user.displayName
    photoUrl := request.photoUrl.or user.photoUrl
    phoneNumber := request.phoneNumber.or user.phoneNumber
    disabled := (request.disableUser.or request.disabled).getD user.disabled
    customAttributes := request.customAttributes.or user.customAttributes
    validSince := request.validSince.getD user.validSince
    providerUserInfo := if request.providerUserInfo.isEmpty then linked
      else request.providerUserInfo
    mfaInfo := if !request.mfa.isEmpty then request.mfa
      else if !request.mfaInfo.isEmpty then request.mfaInfo
      else user.mfaInfo }

def emailTaken (email : Option String) (user : User) : Bool :=
  email.any fun candidate => user.email.any fun current => eqIgnoreAsciiCase current candidate

def phoneTaken (phone : Option String) (user : User) : Bool :=
  phone.any fun candidate => user.phoneNumber == some candidate

/-- `ensure_unique` over the users in the order they are come by. -/
def ensureUnique (email phone exceptLocalId : Option String) :
    List (String × User) → Except ApiError Unit
  | [] => .ok ()
  | (uid, user) :: users =>
    if exceptLocalId = some uid then ensureUnique email phone exceptLocalId users
    else if emailTaken email user then .error (badRequest "EMAIL_EXISTS")
    else if phoneTaken phone user then .error (badRequest "PHONE_NUMBER_EXISTS")
    else ensureUnique email phone exceptLocalId users

/-- The checks that come before any store is read, and the user they lead to. -/
def prepareAccount (request : WriteAccountRequest) (now : Instant) (draws : Draws) :
    Except ApiError User :=
  match validateCredentials request with
  | .error error => .error error
  | .ok () =>
    let localId := request.localId.getD draws.localId
    if localId.isEmpty then .error (badRequest "INVALID_LOCAL_ID")
    else .ok (newUser localId request now)

end FirebaseEmu.Auth
