import FirebaseEmu.Auth.Unique

namespace FirebaseEmu.Auth
open Lib Std

/-- The tokens that an answer hands out, and for whom. -/
structure Issue where
  key : AccountKey
  idToken : String
  refreshToken : String

def SessionReply.issue (session : SessionReply) (ns : String) : Issue :=
  ⟨⟨ns, session.localId⟩, session.idToken, session.refreshToken⟩

/-- Sign-up, sign-in, a refresh and a browser's update answer with tokens. -/
def issueOf (config : AuthConfig) (request : AuthRequest) : ApiResult → Option Issue
  | .ok (.session session) => some (session.issue (config.ns none))
  | .ok (.refreshed session userId projectId) =>
    some ⟨⟨projectNamespace projectId, userId⟩, session.idToken, session.refreshToken⟩
  | .ok (.user _ (some session)) =>
    match request with
    | .updateAccount project _ => some (session.issue (config.ns project))
    | _ => none
  | _ => none

/-- What a request can do to the two tables, and how it is answered. -/
inductive Effect (config : AuthConfig) (call : AuthCall) (data : AuthData) :
    ApiResult → AuthData → Prop where
  | refused (error : ApiError) : Effect config call data (.error error) data
  | dropped (error : ApiError) {token : String} {session : Session}
      (hs : data.sessions[token]? = some session)
      (hdead : session.expiresAt ≤ call.now.unixSeconds ∨
        session.kind = .idToken ∧ parsesUuid token = true) :
    Effect config call data (.error error) ⟨data.users, data.sessions.erase token⟩
  | read (users : List User) : Effect config call data (.ok (.users users)) data
  | stored {ns : String} {user : User} (hf : Fits data.users ⟨ns, user.localId⟩ user) :
    Effect config call data (.ok (.user user.shown none))
      ⟨data.users.insert ⟨ns, user.localId⟩ user, data.sessions⟩
  | issued {ns : String} {user : User} {reply : AuthReply}
      (hf : Fits data.users ⟨ns, user.localId⟩ user)
      (hi : issueOf config call.request (.ok reply) = some ⟨⟨ns, user.localId⟩,
        idToken config.tokens ns user call.now.unixSeconds, call.draws.refresh⟩)
      (hns : projectNamespace (projectOf ns) = ns) :
    Effect config call data (.ok reply) ⟨data.users.insert ⟨ns, user.localId⟩ user,
      insertSessions data.sessions (sessionBundle config.tokens ns user call.now.unixSeconds
        call.draws.refresh).2 call.now.unixSeconds⟩
  | deleted {key : AccountKey} (hm : key ∈ data.users) :
    Effect config call data (.ok .empty) ⟨data.users.erase key,
      data.sessions.filter fun _ session => session.ns != key.ns || session.uid != key.uid⟩

/-- What every state of the service keeps. -/
structure Sound (data : AuthData) : Prop where
  unique : Unique data.users
  projects : ∀ (token : String) (session : Session), data.sessions[token]? = some session →
    projectNamespace (projectOf session.ns) = session.ns

variable {config : AuthConfig} {data : AuthData} {call : AuthCall}

theorem projectOf_projectNamespace (project : String) :
    projectOf (projectNamespace project) = project := by
  have hstarts : startsWith (projectNamespace project) "project/" = true :=
    (startsWith_iff _ _).mpr ⟨project, rfl⟩
  rw [projectOf, stripPrefix, if_pos hstarts, projectNamespace, String.toList_append,
    List.drop_left, String.ofList_toList]
  rfl

theorem projectNamespace_ns (project : Option String) :
    projectNamespace (projectOf (config.ns project)) = config.ns project := by
  rw [AuthConfig.ns, projectOf_projectNamespace]

theorem insert_same {key : AccountKey} {users : ExtTreeMap AccountKey User} {user : User}
    (hu : users[key]? = some user) : users.insert key user = users := by
  apply ExtTreeMap.ext_getElem?
  intro other
  rw [getElem?_insertUser]
  split
  · rename_i heq
    exact heq ▸ hu.symm
  · rfl

theorem prepareAccount_ok {request : WriteAccountRequest} {now : Instant} {draws : Draws}
    {user : User} (h : prepareAccount request now draws = .ok user) :
    ∃ localId, user = newUser localId request now ∧ user.localId = localId := by
  unfold prepareAccount at h
  split at h
  · cases h
  · dsimp only at h
    split at h
    · cases h
    · obtain rfl := Except.ok.inj h
      exact ⟨_, rfl, syncPasswordProvider_localId _⟩

theorem createAccount_cases (data : AuthData) (ns : String) (request : WriteAccountRequest)
    (now : Instant) (draws : Draws) :
    (∃ error, data.createAccount ns request now draws = (.error error, data)) ∨
    ∃ user, Fits data.users ⟨ns, user.localId⟩ user ∧
      data.createAccount ns request now draws =
        (.ok user, { data with users := data.users.insert ⟨ns, user.localId⟩ user }) := by
  unfold AuthData.createAccount
  cases hp : prepareAccount request now draws with
  | error error => exact .inl ⟨error, rfl⟩
  | ok user =>
    dsimp only
    split
    · exact .inl ⟨_, rfl⟩
    · cases hu : ensureUnique user.email user.phoneNumber none (data.accounts ns) with
      | error error => exact .inl ⟨error, rfl⟩
      | ok =>
        refine .inr ⟨user, ⟨rfl, fun key' user' hu' hns _ => ?_⟩, rfl⟩
        obtain ⟨he, hp⟩ := ensureUnique_ok.mp hu (user'.localId, user')
          (mem_accounts.mpr ⟨key', hu', hns, rfl⟩) nofun
        rw [clash, he, hp]
        rfl

/-- Looking a token up either answers with the stored user of its session and changes nothing,
or refuses, dropping the session at most when it has expired. -/
theorem sessionUser_cases (config : AuthConfig) (data : AuthData) (ns token : String)
    (now : Instant) :
    (∃ error, data.sessionUser config ns token now = (.error error, data)) ∨
    (∃ error session, data.sessions[token]? = some session ∧
      session.expiresAt ≤ now.unixSeconds ∧ data.sessionUser config ns token now =
        (.error error, ⟨data.users, data.sessions.erase token⟩)) ∨
    ∃ session user, data.sessions[token]? = some session ∧ session.kind = .idToken ∧
      session.ns = ns ∧ now.unixSeconds < session.expiresAt ∧
      data.users[(⟨ns, session.uid⟩ : AccountKey)]? = some user ∧
      checkClaims config.tokens token user now.unixSeconds = .ok user ∧
      data.sessionUser config ns token now = (.ok user, data) := by
  unfold AuthData.sessionUser
  cases hs : data.sessions[token]? with
  | none => exact .inl ⟨_, rfl⟩
  | some session =>
    dsimp only
    cases hu : data.users[(⟨ns, session.uid⟩ : AccountKey)]? with
    | none => exact .inl ⟨_, rfl⟩
    | some user =>
      dsimp only
      split
      · exact .inl ⟨_, rfl⟩
      · rename_i hkind
        rw [not_or, not_not, not_not] at hkind
        split
        · rename_i hexpired
          exact .inr (.inl ⟨_, session, rfl, hexpired, rfl⟩)
        · rename_i hlive
          cases hc : checkClaims config.tokens token user now.unixSeconds with
          | error error => exact .inl ⟨error, rfl⟩
          | ok checked =>
            obtain rfl : checked = user := by
              unfold checkClaims at hc
              split at hc
              · cases hc
              · split at hc
                · cases hc
                · split at hc
                  · cases hc
                  · split at hc
                    · cases hc
                    · exact (Except.ok.inj hc).symm
            exact .inr (.inr ⟨session, checked, rfl, hkind.1, hkind.2, Nat.lt_of_not_le hlive,
              hu, hc, rfl⟩)

theorem checkRefresh_eq_ok {session : Session} {user checked : User} :
    checkRefresh session user = .ok checked ↔
      checked = user ∧ user.disabled = false ∧ user.validFrom ≤ session.issuedAt := by
  unfold checkRefresh
  cases hd : user.disabled
  · by_cases hv : session.issuedAt < user.validFrom
    · simp [hv]
    · simp [hv, eq_comm]
      omega
  · simp

theorem signUp_effect (request : WriteAccountRequest)
    (hr : call.request = .signUp request) :
    Effect config call data (data.signUp config request call.now call.draws).1
      (data.signUp config request call.now call.draws).2 := by
  unfold AuthData.signUp
  split
  · exact .refused _
  · obtain ⟨error, hc⟩ | ⟨user, hf, hc⟩ := createAccount_cases data (config.ns none)
      request call.now call.draws
    · rw [hc]
      exact .refused error
    · rw [hc]
      have huser : ((data.users.insert ⟨config.ns none, user.localId⟩ user)[
          (⟨config.ns none, user.localId⟩ : AccountKey)]?).getD user = user := by
        rw [getElem?_insertUser, if_pos rfl]
        rfl
      simp only [huser, AuthData.issueSession]
      refine Effect.issued hf ?_ (projectNamespace_ns none)
      rw [hr]
      rfl

theorem signIn_effect (h : Sound data) (request : WriteAccountRequest)
    (hr : call.request = .signIn request) :
    Effect config call data (data.signIn config request call.now call.draws).1
      (data.signIn config request call.now call.draws).2 := by
  unfold AuthData.signIn
  split
  · exact .refused _
  · exact .refused _
  · split
    · exact .refused _
    · rename_i key user hfind
      obtain ⟨hm, hns⟩ := List.mem_filter.mp (List.mem_of_find?_eq_some hfind)
      have hu := ExtTreeMap.mem_toList_iff_getElem?_eq_some.mp hm
      have hkey : key = ⟨config.ns none, user.localId⟩ := by
        have hns : key.ns = config.ns none := by simpa using hns
        rw [h.unique.keyed key user hu, ← hns]
      split
      · exact .refused _
      · split
        · exact .refused _
        · subst hkey
          let signed : User := { user with lastLoginAt := call.now.nowMillis }
          have hf : Fits data.users ⟨config.ns none, signed.localId⟩ signed :=
            h.unique.refit signed hu rfl rfl rfl
          refine Effect.issued hf ?_ (projectNamespace_ns none)
          rw [hr]
          rfl

theorem refreshToken_effect (h : Sound data) (request : RefreshRequest) :
    Effect config call data (data.refreshToken config request call.now call.draws).1
      (data.refreshToken config request call.now call.draws).2 := by
  unfold AuthData.refreshToken
  split
  · exact .refused _
  · split
    · exact .refused _
    · rename_i refresh hrefresh
      split
      · exact .refused _
      · rename_i hparses
        split
        · exact .refused _
        · rename_i session hs
          split
          · rename_i hbad
            refine .dropped _ hs ?_
            rcases hbad with hkind | hexpired
            · right
              refine ⟨?_, by simpa using hparses⟩
              cases hk : session.kind with
              | idToken => rfl
              | refreshToken => exact absurd hk hkind
            · exact .inl hexpired
          · split
            · exact .refused _
            · rename_i user hu
              split
              · exact .refused _
              · rename_i checked hc
                obtain ⟨rfl, -⟩ := checkRefresh_eq_ok.mp hc
                have huid : checked.localId = session.uid := h.unique.keyed _ _ hu
                have hns := h.projects _ _ hs
                rw [← huid] at hu ⊢
                have hf := h.unique.refit checked hu rfl rfl rfl
                have hi : issueOf config call.request (.ok (.refreshed
                    (sessionBundle config.tokens session.ns checked call.now.unixSeconds
                      call.draws.refresh).1 checked.localId (projectOf session.ns))) =
                    some ⟨⟨session.ns, checked.localId⟩, idToken config.tokens session.ns checked
                      call.now.unixSeconds, call.draws.refresh⟩ := by
                  simp only [issueOf, hns]
                  rfl
                have hstep : Effect config call data _ _ := .issued hf hi hns
                rwa [insert_same hu] at hstep

theorem updateKnown_effect (h : Sound data) (project : Option String)
    (request original : WriteAccountRequest) (browser : Bool)
    (hr : call.request = .updateAccount project original) :
    Effect config call data
      (data.updateKnown config (config.ns project) request browser call.now call.draws).1
      (data.updateKnown config (config.ns project) request browser call.now call.draws).2 := by
  unfold AuthData.updateKnown
  split
  · exact .refused _
  · split
    · exact .refused _
    · rename_i localId _
      split
      · exact .refused _
      · rename_i user hu
        split
        · exact .refused _
        · rename_i hunique
          obtain ⟨hid, hemail, hphone⟩ := applyUpdate_fields user request
          have huid : user.localId = localId := h.unique.keyed _ _ hu
          have hkey : (⟨config.ns project, localId⟩ : AccountKey) =
              ⟨config.ns project, (applyUpdate user request).localId⟩ := by
            rw [hid, huid]
          have hf : Fits data.users ⟨config.ns project, (applyUpdate user request).localId⟩
              (applyUpdate user request) := by
            refine ⟨rfl, fun key' user' hu' hns hne => ?_⟩
            rw [← hkey] at hns hne
            have hother : some localId ≠ some user'.localId := by
              intro he
              refine hne ?_
              rw [h.unique.keyed key' user' hu'] at he
              obtain ⟨ns, uid⟩ := key'
              obtain rfl : ns = config.ns project := hns
              obtain rfl : localId = uid := Option.some.inj he
              rfl
            obtain ⟨hefree, hpfree⟩ := ensureUnique_ok.mp hunique (user'.localId, user')
              (mem_accounts.mpr ⟨key', hu', hns, rfl⟩) hother
            have hold := h.unique.apart _ _ _ _ hu hu' hns.symm hne.symm
            simp only [clash, Bool.or_eq_false_iff] at hold ⊢
            refine ⟨?_, ?_⟩
            · rcases hemail with he | he
              · exact he ▸ hefree
              · exact he ▸ hold.1
            · rcases hphone with hp | hp
              · exact hp ▸ hpfree
              · exact hp ▸ hold.2
          simp only [hkey]
          split
          · refine Effect.issued hf ?_ (projectNamespace_ns project)
            rw [hr]
            rfl
          · exact .stored hf

theorem updateAccount_effect (h : Sound data) (project : Option String)
    (request : WriteAccountRequest) (hr : call.request = .updateAccount project request) :
    Effect config call data
      (data.updateAccount config (config.ns project) request call.now call.draws).1
      (data.updateAccount config (config.ns project) request call.now call.draws).2 := by
  unfold AuthData.updateAccount
  cases request.idToken with
  | none => exact updateKnown_effect h project request request false hr
  | some token =>
    dsimp only
    obtain ⟨error, hs⟩ | ⟨error, session, hs, hexpired, hs'⟩ |
      ⟨session, user, -, -, -, -, -, -, hs⟩ :=
        sessionUser_cases config data (config.ns project) token call.now
    · rw [hs]
      exact .refused error
    · rw [hs']
      exact .dropped error hs (.inl hexpired)
    · rw [hs]
      exact updateKnown_effect h project _ request true hr

theorem deleteKnown_effect (ns localId : String) :
    Effect config call data (data.deleteKnown ns localId).1 (data.deleteKnown ns localId).2 := by
  unfold AuthData.deleteKnown
  split
  · rename_i hm
    exact .deleted (ExtTreeMap.contains_iff_mem.mp hm)
  · exact .refused _

theorem deleteAccount_effect (ns : String) (request : DeleteRequest) :
    Effect config call data (data.deleteAccount config ns request call.now).1
      (data.deleteAccount config ns request call.now).2 := by
  unfold AuthData.deleteAccount
  cases request.idToken with
  | none => exact deleteKnown_effect ns request.localId
  | some token =>
    dsimp only
    obtain ⟨error, hs⟩ | ⟨error, session, hs, hexpired, hs'⟩ |
      ⟨session, user, -, -, -, -, -, -, hs⟩ :=
        sessionUser_cases config data ns token call.now
    · rw [hs]
      exact .refused error
    · rw [hs']
      exact .dropped error hs (.inl hexpired)
    · rw [hs]
      exact deleteKnown_effect ns user.localId

theorem lookupAccounts_effect (ns : String) (request : LookupRequest) :
    Effect config call data (data.lookupAccounts config ns request call.now).1
      (data.lookupAccounts config ns request call.now).2 := by
  unfold AuthData.lookupAccounts
  cases request.idToken with
  | none => exact .read _
  | some token =>
    dsimp only
    obtain ⟨error, hs⟩ | ⟨error, session, hs, hexpired, hs'⟩ |
      ⟨session, user, -, -, -, -, -, -, hs⟩ :=
        sessionUser_cases config data ns token call.now
    · rw [hs]
      exact .refused error
    · rw [hs']
      exact .dropped error hs (.inl hexpired)
    · rw [hs]
      exact .read _

/-- Every request has one of the effects. -/
theorem handle_effect (config : AuthConfig) (h : Sound data) (call : AuthCall) :
    Effect config call data (data.handle config call).1 (data.handle config call).2 := by
  unfold AuthData.handle
  split
  · rename_i project request hr
    obtain ⟨error, hc⟩ | ⟨user, hf, hc⟩ := createAccount_cases data (config.ns project)
      request call.now call.draws
    · rw [hc]
      exact .refused error
    · rw [hc]
      exact .stored hf
  · rename_i request hr
    exact signUp_effect request hr
  · rename_i request hr
    exact signIn_effect h request hr
  · exact refreshToken_effect h _
  · exact lookupAccounts_effect _ _
  · rename_i project request hr
    exact updateAccount_effect h project request hr
  · exact deleteAccount_effect _ _
  · exact .read _

theorem getElem?_insertSessions (sessions : ExtTreeMap String Session) (ns : String) (user : User)
    (now later : Nat) (refresh token : String) :
    (insertSessions sessions (sessionBundle config.tokens ns user now refresh).2 later)[token]? =
      if refresh = token then some (newSession ns user.localId now .refreshToken)
      else if idToken config.tokens ns user now = token then
        some (newSession ns user.localId now .idToken)
      else sessions[token]?.filter fun session => decide (later < session.expiresAt) := by
  simp only [insertSessions, sessionBundle, List.foldl_cons, List.foldl_nil,
    ExtTreeMap.getElem?_insert, ExtTreeMap.getElem?_filter', LawfulEqOrd.compare_eq_iff_eq]

theorem newSession_ns (ns uid : String) (now : Nat) (kind : SessionKind) :
    (newSession ns uid now kind).ns = ns := by
  cases kind <;> rfl

theorem Effect.unique {reply : ApiResult} {data' : AuthData}
    (h : Effect config call data reply data') (hu : Unique data.users) : Unique data'.users := by
  cases h with
  | refused | dropped | read => exact hu
  | stored hf => exact hu.insert hf
  | issued hf => exact hu.insert hf
  | deleted hm => exact hu.erase _

theorem Sound.step (h : Sound data) {reply : ApiResult} {data' : AuthData}
    (he : Effect config call data reply data') : Sound data' := by
  refine ⟨he.unique h.unique, fun token session hs => ?_⟩
  cases he with
  | refused | read | stored => exact h.projects token session hs
  | dropped =>
    rw [ExtTreeMap.getElem?_erase] at hs
    split at hs
    · cases hs
    · exact h.projects token session hs
  | issued hf hi hns =>
    rw [getElem?_insertSessions] at hs
    split at hs
    · obtain rfl := Option.some.inj hs
      rwa [newSession_ns]
    · split at hs
      · obtain rfl := Option.some.inj hs
        rwa [newSession_ns]
      · exact h.projects token session (Option.filter_eq_some_iff.mp hs).1
  | deleted =>
    rw [ExtTreeMap.getElem?_filter'] at hs
    exact h.projects token session (Option.filter_eq_some_iff.mp hs).1

theorem Sound.empty : Sound .empty := by
  refine ⟨Unique.empty, fun token session hs => ?_⟩
  rw [show AuthData.empty.sessions[token]? = none from ExtTreeMap.getElem?_empty] at hs
  cases hs

/-- The state after a run. -/
def AuthData.run (config : AuthConfig) (calls : List AuthCall) : AuthData :=
  calls.foldl (fun data call => (data.handle config call).2) .empty

theorem sound_run (config : AuthConfig) (calls : List AuthCall) :
    Sound (AuthData.run config calls) := by
  unfold AuthData.run
  induction calls using List.reverseRecOn with
  | nil => exact .empty
  | append_singleton calls call ih =>
    rw [List.foldl_concat]
    exact ih.step (handle_effect config ih call)

end FirebaseEmu.Auth
