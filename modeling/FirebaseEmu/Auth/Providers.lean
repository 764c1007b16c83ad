import FirebaseEmu.Auth.Rejections
import FirebaseEmu.Lib.Machine

namespace FirebaseEmu.Auth
open Lib Std

variable {υ : Type} {config : AuthConfig} {data : AuthData} {call : AuthCall}

/-! ### What a request does to the accounts -/

/-- The checks of a new account, and of an update, before it is written. -/
def Passes (data : AuthData) (write : AccountWrite) : Prop :=
  validateCredentials write.request = .ok () ∧
    ensureUnique write.request.email write.request.phoneNumber write.target
      (data.accounts write.ns) = .ok ()

/-- The accounts after a request. -/
inductive UsersStep (config : AuthConfig) (data : AuthData) (call : AuthCall) :
    ExtTreeMap AccountKey User → Prop where
  | same : UsersStep config data call data.users
  | erased (key : AccountKey) : UsersStep config data call (data.users.erase key)
  | signedIn {key : AccountKey} {user : User} (hu : data.users[key]? = some user)
      (stamp : String) :
    UsersStep config data call (data.users.insert key { user with lastLoginAt := stamp })
  | created {write : AccountWrite} (localId : String) (hw : data.writes config call = some write)
      (ht : write.target = none) (hpass : Passes data write) :
    UsersStep config data call
      (data.users.insert ⟨write.ns, localId⟩ (newUser localId write.request call.now))
  | updated {write : AccountWrite} {localId : String} {user : User}
      (hw : data.writes config call = some write) (ht : write.target = some localId)
      (hpass : Passes data write)
      (hu : data.users[(⟨write.ns, localId⟩ : AccountKey)]? = some user) :
    UsersStep config data call
      (data.users.insert ⟨write.ns, localId⟩ (applyUpdate user write.request))

theorem createAccount_passes {ns : String} {request : WriteAccountRequest} {now : Instant}
    {draws : Draws} {user : User} {after : AuthData}
    (h : data.createAccount ns request now draws = (.ok user, after)) :
    Passes data ⟨ns, request, none⟩ := by
  have hprepare := (createAccount_ok h).1
  obtain ⟨hemail, hphone⟩ := prepareAccount_fields hprepare
  unfold AuthData.createAccount at h
  rw [hprepare] at h
  dsimp only at h
  refine ⟨?_, ?_⟩
  · unfold prepareAccount at hprepare
    split at hprepare
    · cases hprepare
    · assumption
  · split at h
    · cases h
    · split at h
      · cases h
      · rename_i hunique
        rwa [hemail, hphone] at hunique

theorem signUp_passes {request : WriteAccountRequest} {now : Instant} {draws : Draws}
    {reply : AuthReply} {after : AuthData}
    (h : data.signUp config request now draws = (.ok reply, after)) :
    Passes data ⟨config.ns none, request, none⟩ := by
  unfold AuthData.signUp at h
  split at h
  · cases h
  · split at h
    · cases h
    · rename_i hc
      exact createAccount_passes hc

theorem sessionUser_users (config : AuthConfig) (data : AuthData) (ns token : String)
    (now : Instant) : (data.sessionUser config ns token now).2.users = data.users := by
  obtain ⟨error, hs⟩ | ⟨error, session, -, -, hs⟩ | ⟨session, user, -, -, -, -, -, -, hs⟩ :=
    sessionUser_cases config data ns token now
  all_goals rw [hs]

theorem refreshToken_users (request : RefreshRequest) (now : Instant) (draws : Draws) :
    (data.refreshToken config request now draws).2.users = data.users := by
  unfold AuthData.refreshToken
  repeat' split
  all_goals try rfl
  rename_i hissue
  obtain ⟨-, rfl⟩ := Prod.mk.inj hissue
  rfl

theorem lookupAccounts_users (ns : String) (request : LookupRequest) (now : Instant) :
    (data.lookupAccounts config ns request now).2.users = data.users := by
  unfold AuthData.lookupAccounts
  cases request.idToken with
  | none => rfl
  | some token =>
    have hsame := sessionUser_users config data ns token now
    dsimp only
    split
    · rename_i heq
      rwa [heq] at hsame
    · rename_i heq
      rwa [heq] at hsame

theorem signIn_users (request : WriteAccountRequest) :
    UsersStep config data call (data.signIn config request call.now call.draws).2.users := by
  unfold AuthData.signIn
  split
  · exact .same
  · exact .same
  · split
    · exact .same
    · rename_i key user hfind
      have hm := (List.mem_filter.mp (List.mem_of_find?_eq_some hfind)).1
      split
      · exact .same
      · split
        · exact .same
        · exact .signedIn (ExtTreeMap.mem_toList_iff_getElem?_eq_some.mp hm) _

theorem deleteKnown_users (ns localId : String) :
    UsersStep config data call (data.deleteKnown ns localId).2.users := by
  unfold AuthData.deleteKnown
  split
  · exact .erased _
  · exact .same

theorem deleteAccount_users (ns : String) (request : DeleteRequest) :
    UsersStep config data call (data.deleteAccount config ns request call.now).2.users := by
  unfold AuthData.deleteAccount
  cases request.idToken with
  | none => exact deleteKnown_users ns request.localId
  | some token =>
    dsimp only
    obtain ⟨error, hs⟩ | ⟨error, session, -, -, hs⟩ | ⟨session, user, -, -, -, -, -, -, hs⟩ :=
      sessionUser_cases config data ns token call.now
    · rw [hs]
      exact .same
    · rw [hs]
      exact .same
    · rw [hs]
      exact deleteKnown_users ns user.localId

theorem updateKnown_passes {ns : String} {request : WriteAccountRequest} {browser : Bool}
    {now : Instant} {draws : Draws} {reply : AuthReply} {after : AuthData}
    (h : data.updateKnown config ns request browser now draws = (.ok reply, after)) :
    Passes data ⟨ns, request, request.localId⟩ := by
  unfold AuthData.updateKnown at h
  split at h
  · cases h
  · rename_i hvalid
    split at h
    · cases h
    · rename_i localId hid
      split at h
      · cases h
      · split at h
        · cases h
        · rename_i hunique
          refine ⟨hvalid, ?_⟩
          rw [← hid] at hunique
          exact hunique

/-- An update that is served writes the account it names. -/
theorem updateAccount_users {project : Option String} {request : WriteAccountRequest}
    (hr : call.request = .updateAccount project request) {reply : AuthReply} {after : AuthData}
    (h : data.updateAccount config (config.ns project) request call.now call.draws =
      (.ok reply, after)) : UsersStep config data call after.users := by
  unfold AuthData.updateAccount at h
  cases ht : request.idToken with
  | none =>
    rw [ht] at h
    have hpass := updateKnown_passes h
    obtain ⟨localId, user, hid, hu, husers⟩ := updateKnown_ok h
    have hw : data.writes config call = some ⟨config.ns project, request, some localId⟩ := by
      simp only [AuthData.writes, hr, ht, hid, Option.map_some]
    rw [husers]
    exact .updated hw rfl (hid ▸ hpass) hu
  | some token =>
    rw [ht] at h
    dsimp only at h
    obtain ⟨error, hs⟩ | ⟨error, session, -, -, hs⟩ | ⟨session, found, -, -, -, -, -, -, hs⟩ :=
      sessionUser_cases config data (config.ns project) token call.now
    · rw [hs] at h
      cases h
    · rw [hs] at h
      cases h
    · rw [hs] at h
      have hpass := updateKnown_passes h
      obtain ⟨localId, user, hid, hu, husers⟩ := updateKnown_ok h
      obtain rfl := Option.some.inj hid
      have hw : data.writes config call =
          some ⟨config.ns project, request, some found.localId⟩ := by
        simp only [AuthData.writes, hr, ht, hs, Except.toOption, Option.map_some]
      rw [husers]
      exact .updated hw rfl hpass hu

/-- Every request does one of these to the accounts. -/
theorem handle_users (config : AuthConfig) (h : Sound data) (call : AuthCall) :
    UsersStep config data call (data.handle config call).2.users := by
  have heffect := handle_effect config h call
  cases hh : data.handle config call with
  | mk result after =>
    rw [hh] at heffect
    cases result with
    | error error =>
      rw [heffect.refused_users]
      exact .same
    | ok reply =>
      unfold AuthData.handle at hh
      split at hh
      · rename_i project request hr
        split at hh
        · cases hh
        · rename_i user stored hc
          obtain ⟨-, rfl⟩ := Prod.mk.inj hh
          have hpass := createAccount_passes hc
          obtain ⟨hprepare, hu⟩ := createAccount_ok hc
          obtain ⟨localId, rfl, hid⟩ := prepareAccount_ok hprepare
          rw [hu, hid]
          exact .created localId (by rw [AuthData.writes, hr]) rfl hpass
      · rename_i request hr
        have hpass := signUp_passes hh
        obtain ⟨user, hprepare, hu⟩ := signUp_ok hh
        obtain ⟨localId, rfl, hid⟩ := prepareAccount_ok hprepare
        rw [hu, hid]
        refine .created localId ?_ rfl hpass
        rw [AuthData.writes, hr]
        dsimp only
        unfold AuthData.signUp at hh
        split at hh
        · cases hh
        · rename_i hpassword
          exact if_neg hpassword
      · rename_i request hr
        have hstep : UsersStep config data call _ := signIn_users request
        rwa [hh] at hstep
      · rename_i request hr
        have hsame : (data.refreshToken config request call.now call.draws).2.users = data.users :=
          refreshToken_users request call.now call.draws
        rw [hh] at hsame
        rw [show after.users = data.users from hsame]
        exact .same
      · rename_i project request hr
        have hsame : (data.lookupAccounts config (config.ns project) request call.now).2.users =
            data.users := lookupAccounts_users (config.ns project) request call.now
        rw [hh] at hsame
        rw [show after.users = data.users from hsame]
        exact .same
      · rename_i project request hr
        exact updateAccount_users hr hh
      · rename_i project request hr
        have hstep : UsersStep config data call _ :=
          deleteAccount_users (config.ns project) request
        rwa [hh] at hstep
      · obtain ⟨-, rfl⟩ := Prod.mk.inj hh
        exact .same

/-! ### What an update does to the entries of a provider -/

/-- The user's entries of a provider. -/
def User.entries (user : User) (id : String) : List Json :=
  user.providerUserInfo.filter fun provider => stringField "providerId" provider == some id

theorem filter_upsert_other {provider : Json} {id : String}
    (h : stringField "providerId" provider ≠ some id) (providers : List Json) :
    (upsertProvider provider providers).filter
        (fun provider => stringField "providerId" provider == some id) =
      providers.filter fun provider => stringField "providerId" provider == some id := by
  induction providers with
  | nil => simp [upsertProvider, h]
  | cons other providers ih =>
    unfold upsertProvider
    split
    · rename_i hsame
      rw [beq_iff_eq] at hsame
      rw [List.filter_cons_of_neg (by simpa using h),
        List.filter_cons_of_neg (by simpa [hsame] using h)]
    · rw [List.filter_cons, List.filter_cons, ih]

/-- An entry takes the place of the first one of its provider. -/
theorem filter_upsert_self {provider : Json} {id : String}
    (h : stringField "providerId" provider = some id) (providers : List Json) :
    (upsertProvider provider providers).filter
        (fun provider => stringField "providerId" provider == some id) =
      provider :: (providers.filter fun provider =>
        stringField "providerId" provider == some id).tail := by
  induction providers with
  | nil => simp [upsertProvider, h]
  | cons other providers ih =>
    unfold upsertProvider
    split
    · rename_i hsame
      rw [beq_iff_eq, h] at hsame
      rw [List.filter_cons_of_pos (by simpa using h), List.filter_cons_of_pos (by simpa using hsame),
        List.tail_cons]
    · rename_i hother
      rw [beq_iff_eq, h] at hother
      rw [List.filter_cons_of_neg (by simpa using hother),
        List.filter_cons_of_neg (by simpa using hother), ih]

/-- The entry that `sync_password_provider` writes. -/
def passwordEntry (user : User) (email : String) : Json := .object [
  ("displayName", optionalJson user.displayName), ("email", .string email),
  ("photoUrl", optionalJson user.photoUrl), ("providerId", .string "password"),
  ("rawId", .string email)]

theorem passwordEntry_providerId (user : User) (email : String) :
    stringField "providerId" (passwordEntry user email) = some "password" := rfl

theorem passwordEntry_rawId (user : User) (email : String) :
    stringField "rawId" (passwordEntry user email) = some email := rfl

theorem entries_sync_other (user : User) {id : String} (h : id ≠ "password") :
    (syncPasswordProvider user).entries id = user.entries id := by
  unfold syncPasswordProvider
  split
  · exact filter_upsert_other (by
      rw [show stringField "providerId" _ = some "password" from rfl]
      simpa using h.symm) _
  · rfl

theorem entries_sync_password {user : User} {email password : String}
    (he : user.email = some email) (hp : user.password = some password) :
    (syncPasswordProvider user).entries "password" =
      passwordEntry user email :: (user.entries "password").tail := by
  unfold syncPasswordProvider
  rw [he, hp]
  exact filter_upsert_self (passwordEntry_providerId user email) _

theorem sync_without {user : User} (h : user.email = none ∨ user.password = none) :
    syncPasswordProvider user = user := by
  unfold syncPasswordProvider
  rcases h with h | h
  · rw [h]
  · rw [h]
    cases user.email <;> rfl

theorem deleteAttributes_fields (user : User) (attributes : List String) :
    (attributes.foldl deleteAttribute user).email =
        (if "EMAIL" ∈ attributes then none else user.email) ∧
      (attributes.foldl deleteAttribute user).password = user.password ∧
      (attributes.foldl deleteAttribute user).providerUserInfo = user.providerUserInfo := by
  induction attributes generalizing user with
  | nil => simp
  | cons name attributes ih =>
    obtain ⟨hemail, hpassword, hproviders⟩ := ih (deleteAttribute user name)
    rw [List.foldl_cons, hemail, hpassword, hproviders]
    unfold deleteAttribute
    by_cases hname : name = "EMAIL"
    · simp [hname]
    · have hname' : "EMAIL" ≠ name := fun h => hname h.symm
      simp only [hname, if_false, List.mem_cons, hname', false_or]
      repeat' split
      all_goals exact ⟨rfl, rfl, rfl⟩

theorem entries_deletions (user : User) (attributes providers : List String) (id : String) :
    (applyDeletions user attributes providers).entries id =
      if id ∈ providers then [] else user.entries id := by
  unfold applyDeletions User.entries
  dsimp only
  rw [(deleteAttributes_fields user attributes).2.2, List.filter_filter]
  split
  · rename_i hdeleted
    rw [List.filter_eq_nil_iff]
    intro provider _
    cases hid : stringField "providerId" provider with
    | none => simp
    | some other =>
      simp only [Bool.and_eq_true, beq_iff_eq, Option.some.injEq, Option.all_some, not_and]
      rintro rfl
      simpa using hdeleted
  · rename_i hkept
    apply List.filter_congr
    intro provider _
    cases hid : stringField "providerId" provider with
    | none => simp
    | some other =>
      by_cases hother : other = id
      · simp [hother, hkept]
      · simp [hother]

theorem filter_linked {linked : List Json} {id : String}
    (h : ∀ provider ∈ linked, stringField "providerId" provider ≠ some id)
    (providers : List Json) :
    (linked.foldl (fun providers provider => upsertProvider provider providers) providers).filter
        (fun provider => stringField "providerId" provider == some id) =
      providers.filter fun provider => stringField "providerId" provider == some id := by
  induction linked generalizing providers with
  | nil => rfl
  | cons provider linked ih =>
    rw [List.foldl_cons, ih (fun p hp => h p (List.mem_cons_of_mem _ hp)),
      filter_upsert_other (h provider List.mem_cons_self)]

/-- The email of a user that an update leaves. -/
def emailAfter (user : User) (request : WriteAccountRequest) : Option String :=
  request.email.or (if "EMAIL" ∈ request.deleteAttribute then none else user.email)

def passwordAfter (user : User) (request : WriteAccountRequest) : Option String :=
  request.password.or user.password

/-- An update but for the last call. -/
def updated (user : User) (request : WriteAccountRequest) : User :=
  let user := applyDeletions user request.deleteAttribute request.deleteProvider
  let linked := request.linkProviderUserInfo.foldl (fun providers provider =>
    upsertProvider provider providers) user.providerUserInfo
  { user with
    password := request.password.or user.password
    email := request.email.or user.email
    emailVerified := request.emailVerified.getD user.emailVerified
    displayName := request.displayName.or user.displayName
    photoUrl := request.photoUrl.or user.photoUrl
    phoneNumber := request.phoneNumber.or user.phoneNumber
    disabled := (request.disableUser.or request.disabled).getD user.disabled
    customAttributes := request.customAttributes.or user.customAttributes
    validSince := request.validSince.getD user.validSince
    providerUserInfo := if request.providerUserInfo.isEmpty then linked
      else request.providerUserInfo
    mfaInfo := if !request.mfa.isEmpty then request.mfa
      else if !request.mfaInfo.isEmpty then request.mfaInfo
      else user.mfaInfo }

theorem applyUpdate_eq (user : User) (request : WriteAccountRequest) :
    applyUpdate user request = syncPasswordProvider (updated user request) := rfl

theorem updated_fields (user : User) (request : WriteAccountRequest) :
    (updated user request).email = emailAfter user request ∧
      (updated user request).password = passwordAfter user request := by
  obtain ⟨hemail, hpassword, -⟩ := deleteAttributes_fields user request.deleteAttribute
  refine ⟨?_, ?_⟩
  · show request.email.or (request.deleteAttribute.foldl deleteAttribute user).email = _
    rw [hemail, emailAfter]
  · show request.password.or (request.deleteAttribute.foldl deleteAttribute user).password = _
    rw [hpassword, passwordAfter]

/-- What is left of a provider's entries that the request does not supply itself. -/
theorem entries_updated (user : User) {request : WriteAccountRequest} {id : String}
    (hl : ∀ provider ∈ request.linkProviderUserInfo, stringField "providerId" provider ≠ some id)
    (hp : ∀ provider ∈ request.providerUserInfo, stringField "providerId" provider ≠ some id) :
    (updated user request).entries id =
      if id ∈ request.deleteProvider ∨ request.providerUserInfo ≠ [] then []
      else user.entries id := by
  unfold updated User.entries
  dsimp only
  cases hinfo : request.providerUserInfo with
  | nil =>
    rw [List.isEmpty_nil, if_pos rfl, filter_linked hl]
    have hdeleted := entries_deletions user request.deleteAttribute request.deleteProvider id
    unfold User.entries at hdeleted
    rw [hdeleted]
    simp
  | cons provider providers =>
    rw [if_neg (by simp), if_pos (by simp), List.filter_eq_nil_iff]
    intro other ho
    simpa using hp other (hinfo ▸ ho)

/-- A provider that an update unlinks, and neither links nor supplies, is gone: unless it is the
one that is written anew for every user with an email and a password. -/
theorem unlinked_provider_gone (user : User) (request : WriteAccountRequest) (p : String)
    (hd : p ∈ request.deleteProvider)
    (hl : ∀ provider ∈ request.linkProviderUserInfo, stringField "providerId" provider ≠ some p)
    (hn : request.providerUserInfo = []) :
    (∀ provider ∈ (applyUpdate user request).providerUserInfo,
      stringField "providerId" provider ≠ some p) ↔
    p ≠ "password" ∨ emailAfter user request = none ∨ passwordAfter user request = none := by
  obtain ⟨hemail, hpassword⟩ := updated_fields user request
  have hnone : (updated user request).entries p = [] := by
    rw [entries_updated user hl (by simp [hn]), if_pos (.inl hd)]
  have hgone : (∀ provider ∈ (applyUpdate user request).providerUserInfo,
      stringField "providerId" provider ≠ some p) ↔ (applyUpdate user request).entries p = [] := by
    unfold User.entries
    rw [List.filter_eq_nil_iff]
    simp
  rw [hgone, applyUpdate_eq]
  by_cases hp : p = "password"
  · subst hp
    cases he : emailAfter user request with
    | none =>
      rw [sync_without (.inl (hemail.trans he)), hnone]
      simp
    | some email =>
      cases hw : passwordAfter user request with
      | none =>
        rw [sync_without (.inr (hpassword.trans hw)), hnone]
        simp
      | some password =>
        rw [entries_sync_password (hemail.trans he) (hpassword.trans hw)]
        simp
  · rw [entries_sync_other _ hp, hnone]
    simp [hp]

/-- A request that asks for nothing. -/
def blankRequest : WriteAccountRequest where
  localId := none
  email := none
  emailVerified := none
  displayName := none
  photoUrl := none
  phoneNumber := none
  disabled := none
  disableUser := none
  customAttributes := none
  validSince := none
  deleteAttribute := []
  deleteProvider := []
  linkProviderUserInfo := []
  providerUserInfo := []
  mfa := []
  mfaInfo := []
  password := none
  idToken := none

/-- An account with a password. -/
theorem thousand_inRange : 1000 < 2 ^ 63 := by decide

def passwordUser : User :=
  newUser "a" { blankRequest with email := some "a@x", password := some "secret1" }
    ⟨1000, thousand_inRange⟩

/-- Another provider of the account is unlinked. -/
theorem unlinked_provider_gone_sample :
    ((applyUpdate
        { passwordUser with providerUserInfo := [.object [("providerId", .string "google.com")]] }
        { blankRequest with deleteProvider := ["google.com"] }).providerUserInfo.all fun provider =>
      stringField "providerId" provider != some "google.com") = true := by
  have hgone := (unlinked_provider_gone
    { passwordUser with providerUserInfo := [.object [("providerId", .string "google.com")]] }
    { blankRequest with deleteProvider := ["google.com"] } "google.com"
    (by decide) (by simp [blankRequest]) rfl).mpr (.inl (by decide))
  exact List.all_eq_true.mpr fun provider hp => bne_iff_ne.mpr (hgone provider hp)

/-- The password provider of the account stays. -/
theorem password_provider_stays :
    ¬ ∀ (user : User) (request : WriteAccountRequest) (p : String), p ∈ request.deleteProvider →
      (∀ provider ∈ request.linkProviderUserInfo, stringField "providerId" provider ≠ some p) →
      request.providerUserInfo = [] →
      ∀ provider ∈ (applyUpdate user request).providerUserInfo,
        stringField "providerId" provider ≠ some p := by
  intro h
  have hgone := h passwordUser { blankRequest with deleteProvider := ["password"] } "password"
    (by decide) (by simp [blankRequest]) rfl
  exact hgone (passwordEntry passwordUser "a@x") (by
    rw [show (applyUpdate passwordUser { blankRequest with
      deleteProvider := ["password"] }).providerUserInfo = [passwordEntry passwordUser "a@x"] from rfl]
    exact List.mem_singleton.mpr rfl) rfl

/-! ### The entry of the password provider over a run -/

/-- A password entry names the user's email. -/
def MirrorsEmail (user : User) : Prop :=
  ∀ provider ∈ user.providerUserInfo, stringField "providerId" provider = some "password" →
    ∀ r, stringField "rawId" provider = some r → user.email = some r

/-- There is no password entry, or one, which names the email of a user with a password. -/
def Mirrored (user : User) : Prop :=
  user.entries "password" = [] ∨ ∃ entry email, user.entries "password" = [entry] ∧
    stringField "rawId" entry = some email ∧ user.email = some email ∧ user.password ≠ none

theorem Mirrored.mirrors {user : User} (h : Mirrored user) : MirrorsEmail user := by
  intro provider hm hid r hr
  have hentry : provider ∈ user.entries "password" :=
    List.mem_filter.mpr ⟨hm, by simpa using hid⟩
  rcases h with h | ⟨entry, email, h, hraw, hemail, -⟩
  · rw [h] at hentry
    cases hentry
  · rw [h, List.mem_singleton] at hentry
    obtain rfl := hentry
    rwa [hr.symm.trans hraw]

theorem Mirrored.lastLogin {user : User} (h : Mirrored user) (stamp : String) :
    Mirrored { user with lastLoginAt := stamp } := h

/-- A user with at most one password entry, and none that would be left over, is mirrored once
the entry is written. -/
theorem mirrored_sync {user : User} (h : user.entries "password" = [] ∨
    user.email ≠ none ∧ user.password ≠ none ∧ ∃ entry, user.entries "password" = [entry]) :
    Mirrored (syncPasswordProvider user) := by
  cases he : user.email with
  | none =>
    rw [sync_without (.inl he)]
    rcases h with h | ⟨hemail, -⟩
    · exact .inl h
    · exact absurd he hemail
  | some email =>
    cases hp : user.password with
    | none =>
      rw [sync_without (.inr hp)]
      rcases h with h | ⟨-, hpassword, -⟩
      · exact .inl h
      · exact absurd hp hpassword
    | some password =>
      have htail : (user.entries "password").tail = [] := by
        rcases h with h | ⟨-, -, entry, h⟩
        · rw [h]
          rfl
        · rw [h]
          rfl
      refine .inr ⟨passwordEntry user email, email, ?_, passwordEntry_rawId user email,
        (syncPasswordProvider_email user).trans he, ?_⟩
      · rw [entries_sync_password he hp, htail]
      · unfold syncPasswordProvider
        simp [he, hp]

/-- What a request supplies as provider entries. -/
def WriteAccountRequest.supplied (request : WriteAccountRequest) : List Json :=
  request.linkProviderUserInfo ++ request.providerUserInfo

/-- The update takes a user's email and leaves its password entry. -/
def Strands (user : User) (request : WriteAccountRequest) : Prop :=
  user.entries "password" ≠ [] ∧ "EMAIL" ∈ request.deleteAttribute ∧ request.email = none ∧
    "password" ∉ request.deleteProvider ∧ request.providerUserInfo = []

theorem newUser_mirrored {request : WriteAccountRequest} (localId : String) (now : Instant)
    (hs : ∀ provider ∈ request.supplied, stringField "providerId" provider ≠ some "password") :
    Mirrored (newUser localId request now) := by
  apply mirrored_sync
  left
  unfold User.entries
  rw [List.filter_eq_nil_iff]
  intro provider hm
  have hmem : provider ∈ request.supplied := by
    dsimp only at hm
    split at hm
    · exact List.mem_append_right _ hm
    · exact List.mem_append_left _ hm
  simpa using hs provider hmem

theorem applyUpdate_mirrored {user : User} {request : WriteAccountRequest} (h : Mirrored user)
    (hs : ∀ provider ∈ request.supplied, stringField "providerId" provider ≠ some "password")
    (hkeep : ¬ Strands user request) : Mirrored (applyUpdate user request) := by
  obtain ⟨hemail, hpassword⟩ := updated_fields user request
  have hentries := entries_updated user
    (fun provider hm => hs provider (List.mem_append_left _ hm))
    (fun provider hm => hs provider (List.mem_append_right _ hm))
  rw [applyUpdate_eq]
  apply mirrored_sync
  by_cases hgone : "password" ∈ request.deleteProvider ∨ request.providerUserInfo ≠ []
  · rw [if_pos hgone] at hentries
    exact .inl hentries
  · rw [if_neg hgone] at hentries
    rw [not_or, not_not] at hgone
    rcases h with h | ⟨entry, email, hentry, -, he, hp⟩
    · exact .inl (hentries.trans h)
    · refine .inr ⟨?_, ?_, entry, hentries.trans hentry⟩
      · -- the email is only gone if the update takes it
        rw [hemail, emailAfter]
        intro hnone
        rw [Option.or_eq_none_iff] at hnone
        obtain ⟨hasked, hkept⟩ := hnone
        by_cases hdeleted : "EMAIL" ∈ request.deleteAttribute
        · exact hkeep ⟨by simp [hentry], hdeleted, hasked, hgone.1, hgone.2⟩
        · rw [if_neg hdeleted, he] at hkept
          cases hkept
      · rw [hpassword, passwordAfter]
        intro hnone
        exact hp (Option.or_eq_none_iff.mp hnone).2

/-- The request of a call that writes an account or signs in. -/
def AuthCall.write? (call : AuthCall) : Option WriteAccountRequest :=
  match call.request with
  | .createAccount _ request => some request
  | .signUp request => some request
  | .signIn request => some request
  | .updateAccount _ request => some request
  | _ => none

theorem writes_request {write : AccountWrite} (h : data.writes config call = some write) :
    call.write? = some write.request := by
  unfold AuthData.writes at h
  unfold AuthCall.write?
  split at h
  · rename_i hr
    rw [hr]
    obtain rfl := Option.some.inj h
    rfl
  · rename_i hr
    rw [hr]
    split at h
    · cases h
    · obtain rfl := Option.some.inj h
      rfl
  · rename_i hr
    rw [hr]
    obtain ⟨localId, -, rfl⟩ := Option.map_eq_some_iff.mp h
    rfl
  · cases h

/-- No request supplies a password entry itself. -/
def SuppliesNone (call : AuthCall) : Prop :=
  ∀ request, call.write? = some request →
    ∀ provider ∈ request.supplied, stringField "providerId" provider ≠ some "password"

/-- The request is no update that goes through, takes the email of its account and leaves the
password entry. -/
def KeepsEntry (config : AuthConfig) (data : AuthData) (call : AuthCall) : Prop :=
  ∀ write localId user, data.writes config call = some write → write.target = some localId →
    Passes data write → data.users[(⟨write.ns, localId⟩ : AccountKey)]? = some user →
      ¬ Strands user write.request

def AuthData.next (config : AuthConfig) (data : AuthData) (call : AuthCall) : AuthData :=
  (data.handle config call).2

/-- What holds of a user as it is created, and stays with a sign-in and with an update, holds of
every user. -/
theorem UsersStep.forall {P : User → Prop} {users : ExtTreeMap AccountKey User}
    (hstep : UsersStep config data call users)
    (h : ∀ (key : AccountKey) (user : User), data.users[key]? = some user → P user)
    (hlogin : ∀ user stamp, P user → P { user with lastLoginAt := stamp })
    (hnew : ∀ write localId, data.writes config call = some write →
      P (newUser localId write.request call.now))
    (hupdate : ∀ write localId user, data.writes config call = some write →
      write.target = some localId → Passes data write →
      data.users[(⟨write.ns, localId⟩ : AccountKey)]? = some user →
      P (applyUpdate user write.request))
    (key : AccountKey) (user : User) (hu : users[key]? = some user) : P user := by
  cases hstep with
  | same => exact h key user hu
  | erased gone =>
    rw [ExtTreeMap.getElem?_erase] at hu
    split at hu
    · cases hu
    · exact h key user hu
  | signedIn hold stamp =>
    rw [getElem?_insertUser] at hu
    split at hu
    · obtain rfl := Option.some.inj hu
      exact hlogin _ stamp (h _ _ hold)
    · exact h key user hu
  | created localId hw ht hpass =>
    rw [getElem?_insertUser] at hu
    split at hu
    · obtain rfl := Option.some.inj hu
      exact hnew _ localId hw
    · exact h key user hu
  | updated hw ht hpass hold =>
    rw [getElem?_insertUser] at hu
    split at hu
    · obtain rfl := Option.some.inj hu
      exact hupdate _ _ _ hw ht hpass hold
    · exact h key user hu

theorem mirrored_reach
    (h : Reach (AuthData.next config)
      (fun data call => SuppliesNone call ∧ KeepsEntry config data call) (· = .empty) data) :
    Sound data ∧ ∀ (key : AccountKey) (user : User), data.users[key]? = some user →
      Mirrored user := by
  refine h.invariant (I := fun data => Sound data ∧ ∀ (key : AccountKey) (user : User),
    data.users[key]? = some user → Mirrored user) ?_ ?_
  · rintro _ rfl
    refine ⟨.empty, fun key user hu => ?_⟩
    rw [show AuthData.empty.users[key]? = none from ExtTreeMap.getElem?_empty] at hu
    cases hu
  · rintro data call ⟨hsound, hall⟩ ⟨hsupply, hkeep⟩
    refine ⟨hsound.step (handle_effect config hsound call),
      (handle_users config hsound call).forall hall (fun user stamp hm => hm.lastLogin stamp) ?_ ?_⟩
    · intro write localId hw
      exact newUser_mirrored localId call.now (hsupply _ (writes_request hw))
    · intro write localId user hw ht hpass hu
      exact applyUpdate_mirrored (hall _ _ hu) (hsupply _ (writes_request hw))
        (hkeep write localId user hw ht hpass hu)

theorem federated_email (h : ∀ (key : AccountKey) (user : User), data.users[key]? = some user →
    MirrorsEmail user) {ns r : String} {now : Instant} {users : List User}
    (hl : (data.lookupAccounts config ns ⟨none, [], [], [], [⟨"password", r⟩]⟩ now).1 =
      .ok (.users users)) : ∀ user ∈ users, user.email = some r := by
  have hfound : (((data.table ns).map Prod.snd).filter
      (lookupMatches config.toLowercase ⟨none, [], [], [], [⟨"password", r⟩]⟩)).map User.shown =
        users := AuthReply.users.inj (Except.ok.inj hl)
  intro user hm
  rw [← hfound, List.mem_map] at hm
  obtain ⟨stored, hm, rfl⟩ := hm
  obtain ⟨hm, hmatch⟩ := List.mem_filter.mp hm
  obtain ⟨⟨key, other⟩, hentry, rfl⟩ := List.mem_map.mp hm
  have hu := (mem_table.mp hentry).1
  have hnamed : ∃ provider ∈ other.providerUserInfo,
      stringField "providerId" provider = some "password" ∧
        stringField "rawId" provider = some r := by
    have hphone : other.phoneNumber.any ([] : List String).contains = false := by
      cases other.phoneNumber <;> rfl
    simpa [lookupMatches, hphone] using hmatch
  obtain ⟨provider, hprovider, hid, hraw⟩ := hnamed
  exact h key other hu provider hprovider hid r hraw

/-- In every run in which no request supplies a password entry itself and no update takes the
email of an account and leaves its password entry, on either backend: a password entry names the
user's email, and a lookup by it finds only users with that email. -/
theorem password_entry_mirrors_email (config : AuthConfig) (codec : UserCodec υ)
    (order : RowOrder υ) (calls : List AuthCall) (hsupply : ∀ call ∈ calls, SuppliesNone call)
    (hkeep : Reach.Along (AuthData.next config) (KeepsEntry config) .empty calls) :
    let data := AuthData.run config calls
    let store := AuthStore.run config codec order calls
    (∀ (key : AccountKey) (user : User), data.users[key]? = some user → MirrorsEmail user) ∧
    (∀ key user, store.loadUser codec key = .ok (some user) → MirrorsEmail user) ∧
    ∀ ns r now users,
      ((data.lookupAccounts config ns ⟨none, [], [], [], [⟨"password", r⟩]⟩ now).1 =
          .ok (.users users) ∨
        (store.lookupAccounts config codec ns ⟨none, [], [], [], [⟨"password", r⟩]⟩ now).1 =
          .ok (.users users)) →
      ∀ user ∈ users, user.email = some r := by
  intro data store
  have hreach := (@Reach.start _ _ (AuthData.next config) _ (· = AuthData.empty) _ rfl).run
    (hkeep.and hsupply)
  have hall : ∀ (key : AccountKey) (user : User), data.users[key]? = some user →
      MirrorsEmail user := fun key user hu => ((mirrored_reach hreach).2 key user hu).mirrors
  have hstore : store = data.persisted codec := run_persisted config codec order calls
  refine ⟨hall, fun key user hu => ?_, fun ns r now users hl => ?_⟩
  · rw [hstore, loadUser_persisted, Except.ok.injEq] at hu
    exact hall key user hu
  · rw [hstore, lookupAccounts_persisted] at hl
    exact federated_email hall (hl.elim id id)

def sampleCreate : AuthCall where
  request := .createAccount none
    { blankRequest with localId := some "a", email := some "a@x", password := some "secret1" }
  now := ⟨1000, thousand_inRange⟩
  draws := ⟨"drawn", "refresh"⟩

def sampleUpdate (request : WriteAccountRequest) : AuthCall where
  request := .updateAccount none { request with localId := some "a" }
  now := ⟨2000, by decide⟩
  draws := ⟨"drawn", "refresh"⟩

theorem suppliesNone_sample {request : WriteAccountRequest} (h : request.supplied = []) :
    ∀ call ∈ [sampleCreate, sampleUpdate request], SuppliesNone call := by
  intro call hc asked hasked provider hp
  have hnone : asked.supplied = [] := by
    rcases List.mem_cons.mp hc with rfl | hc
    · obtain rfl := Option.some.inj hasked
      rfl
    · obtain rfl := List.mem_singleton.mp hc
      obtain rfl := Option.some.inj hasked
      exact h
  rw [hnone] at hp
  cases hp

/-- An account gets another email. -/
theorem password_entry_mirrors_email_sample :
    ∃ user, (AuthData.run sampleConfig [sampleCreate,
        sampleUpdate { blankRequest with email := some "b@x" }]).users[
          (⟨"project/demo", "a"⟩ : AccountKey)]? = some user ∧ MirrorsEmail user := by
  have hthere : ((AuthData.run sampleConfig [sampleCreate,
      sampleUpdate { blankRequest with email := some "b@x" }]).users[
        (⟨"project/demo", "a"⟩ : AccountKey)]?).isSome = true := by
    decide
  obtain ⟨user, hu⟩ := Option.isSome_iff_exists.mp hthere
  refine ⟨user, hu, (password_entry_mirrors_email sampleConfig plainUserCodec emailOrder
    [sampleCreate, sampleUpdate { blankRequest with email := some "b@x" }]
    (suppliesNone_sample rfl) ⟨?_, ?_, trivial⟩).1 _ user hu⟩
  · intro write localId user hw ht
    obtain rfl := Option.some.inj hw
    cases ht
  · intro write localId user hw ht _ hu hstrands
    obtain rfl := Option.some.inj hw
    exact absurd hstrands.2.1 List.not_mem_nil

/-- An account loses its email, and its password entry still names it. -/
theorem password_entry_outlives_email :
    ¬ ∀ calls : List AuthCall, (∀ call ∈ calls, SuppliesNone call) →
      ∀ (key : AccountKey) (user : User),
        (AuthData.run sampleConfig calls).users[key]? = some user → MirrorsEmail user := by
  intro h
  have hstale : ((AuthData.run sampleConfig [sampleCreate, sampleUpdate { blankRequest with
      deleteAttribute := ["EMAIL"] }]).users[(⟨"project/demo", "a"⟩ : AccountKey)]?).any
        (fun user => user.email.isNone && user.providerUserInfo.any fun provider =>
          stringField "providerId" provider == some "password" &&
            stringField "rawId" provider == some "a@x") = true := by
    decide
  obtain ⟨user, hu, hstale⟩ := (Option.any_eq_true _ _).mp hstale
  simp only [Bool.and_eq_true, Option.isNone_iff_eq_none, List.any_eq_true, beq_iff_eq] at hstale
  obtain ⟨hemail, provider, hm, hid, hraw⟩ := hstale
  have hmirrors := h _ (suppliesNone_sample rfl) _ user hu provider hm hid "a@x" hraw
  rw [hemail] at hmirrors
  cases hmirrors

end FirebaseEmu.Auth
