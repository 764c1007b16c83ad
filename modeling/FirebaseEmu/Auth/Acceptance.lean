import FirebaseEmu.Auth.Agreement
import FirebaseEmu.Auth.Tokens

namespace FirebaseEmu.Auth
open Lib Std

variable {υ : Type}

/-- What one request of a run did: when, which tokens it issued, and which accounts it deleted. -/
structure Served where
  time : Nat
  issue : Option Issue
  deleted : AccountKey → Bool

/-- A request with its answer, by the accounts that were there before and after it. -/
def served (config : AuthConfig) (call : AuthCall) (reply : ApiResult)
    (before after : AccountKey → Bool) : Served where
  time := call.now.unixSeconds
  issue := issueOf config call.request reply
  deleted key := before key && !after key

/-- What the requests of a run on the in-memory backend did. -/
def AuthData.history (config : AuthConfig) : AuthData → List AuthCall → List Served
  | _, [] => []
  | data, call :: calls =>
    let (reply, data') := data.handle config call
    served config call reply data.users.contains data'.users.contains ::
      AuthData.history config data' calls

/-- What the requests of a run on the persistent backend did. -/
def AuthStore.history (config : AuthConfig) (codec : UserCodec υ) (order : RowOrder υ) :
    AuthStore υ → List AuthCall → List Served
  | _, [] => []
  | store, call :: calls =>
    let (reply, store') := store.handle config codec order call
    served config call reply store.rows.contains store'.rows.contains ::
      AuthStore.history config codec order store' calls

def Issue.token (issue : Issue) : SessionKind → String
  | .idToken => issue.idToken
  | .refreshToken => issue.refreshToken

/-- The token was issued for the account at that time, and the account was not deleted since. -/
def Live (kind : SessionKind) (steps : List Served) (key : AccountKey) (token : String)
    (time : Nat) : Prop :=
  ∃ earlier step later issue, steps = earlier ++ step :: later ∧ step.issue = some issue ∧
    issue.key = key ∧ issue.token kind = token ∧ step.time = time ∧
    ∀ other ∈ later, other.deleted key = false

def ttl : SessionKind → Nat
  | .idToken => idTokenTtlSecs
  | .refreshToken => refreshTokenTtlSecs

theorem newSession_eq (ns uid : String) (now : Nat) (kind : SessionKind) :
    newSession ns uid now kind = ⟨ns, uid, now, now + ttl kind, kind⟩ := by
  cases kind <;> rfl

variable {config : AuthConfig} {steps : List Served} {step : Served} {key : AccountKey}
  {token : String} {time : Nat} {kind : SessionKind}

theorem live_concat : Live kind (steps ++ [step]) key token time ↔
    Live kind steps key token time ∧ step.deleted key = false ∨
      ∃ issue, step.issue = some issue ∧ issue.key = key ∧ issue.token kind = token ∧
        step.time = time := by
  constructor
  · rintro ⟨earlier, issuing, later, issue, heq, hi, hkey, htoken, htime, hlater⟩
    rcases List.eq_nil_or_concat later with rfl | ⟨later, last, rfl⟩
    · obtain ⟨-, hlast⟩ := List.append_inj' heq rfl
      obtain rfl := List.singleton_inj.mp hlast
      exact .inr ⟨issue, hi, hkey, htoken, htime⟩
    · have hsplit : steps ++ [step] = (earlier ++ issuing :: later) ++ [last] := by
        simpa using heq
      obtain ⟨rfl, hlast⟩ := List.append_inj' hsplit rfl
      obtain rfl := List.singleton_inj.mp hlast
      rw [List.concat_eq_append] at hlater
      refine .inl ⟨⟨earlier, issuing, later, issue, rfl, hi, hkey, htoken, htime,
        fun other hm => hlater other (List.mem_append_left _ hm)⟩, hlater step (by simp)⟩
  · rintro (⟨⟨earlier, issuing, later, issue, rfl, hi, hkey, htoken, htime, hlater⟩, hd⟩ |
      ⟨issue, hi, hkey, htoken, htime⟩)
    · refine ⟨earlier, issuing, later ++ [step], issue, by simp, hi, hkey, htoken, htime,
        fun other hm => ?_⟩
      rcases List.mem_append.mp hm with hm | hm
      · exact hlater other hm
      · obtain rfl := List.mem_singleton.mp hm
        exact hd
    · exact ⟨steps, step, [], issue, rfl, hi, hkey, htoken, htime, List.forall_mem_nil _⟩

/-- A step that issues nothing and deletes nothing leaves what is live. -/
theorem live_quiet (hi : step.issue = none) (hd : ∀ key, step.deleted key = false) :
    Live kind (steps ++ [step]) key token time ↔ Live kind steps key token time := by
  rw [live_concat, hi]
  constructor
  · rintro (⟨h, -⟩ | ⟨issue, h, -⟩)
    · exact h
    · cases h
  · exact fun h => .inl ⟨h, hd key⟩

/-- The sessions are those of live tokens, and all of these that have not expired. -/
structure Recorded (config : AuthConfig) (steps : List Served) (data : AuthData) (last : Nat)
    (drawn : List String) : Prop where
  sound : Sound data
  sessions : ∀ (token : String) (session : Session), data.sessions[token]? = some session →
    ∃ key kind time, session = newSession key.ns key.uid time kind ∧
      Live kind steps key token time
  kept : ∀ (kind : SessionKind) (key : AccountKey) (token : String) (time : Nat),
    Live kind steps key token time →
      data.sessions[token]? = some (newSession key.ns key.uid time kind) ∨ time + ttl kind ≤ last
  idTokens : ∀ (key : AccountKey) (token : String) (time : Nat),
    Live .idToken steps key token time → ∃ user : User, user.localId = key.uid ∧
      token = idToken config.tokens key.ns user time ∧
      projectNamespace (projectOf key.ns) = key.ns ∧ time + idTokenTtlSecs < 2 ^ 64
  refreshTokens : ∀ (key : AccountKey) (token : String) (time : Nat),
    Live .refreshToken steps key token time → token ∈ drawn ∧ hyphenated token = true

theorem Recorded.empty : Recorded config [] .empty 0 [] := by
  have hnone : ∀ {kind key token time}, ¬ Live kind [] key token time := by
    rintro kind key token time ⟨earlier, step, later, issue, heq, -⟩
    exact absurd heq (by simp)
  refine ⟨.empty, fun token session hs => ?_, fun _ _ _ _ h => absurd h hnone,
    fun _ _ _ h => absurd h hnone, fun _ _ _ h => absurd h hnone⟩
  rw [show AuthData.empty.sessions[token]? = none from ExtTreeMap.getElem?_empty] at hs
  cases hs

variable {data data' : AuthData} {last now : Nat} {drawn : List String}

/-- A step that issues and deletes nothing may drop sessions that are dead. -/
theorem Recorded.quiet (h : Recorded config steps data last drawn) (hsound : Sound data')
    (hi : step.issue = none) (hd : ∀ key, step.deleted key = false) (hnow : last ≤ now)
    (hsub : ∀ (token : String) (session : Session), data'.sessions[token]? = some session →
      data.sessions[token]? = some session)
    (hlost : ∀ (token : String) (session : Session), data.sessions[token]? = some session →
      data'.sessions[token]? = some session ∨ session.expiresAt ≤ now) (name : String) :
    Recorded config (steps ++ [step]) data' now (name :: drawn) := by
  refine ⟨hsound, fun token session hs => ?_, fun kind key token time hl => ?_,
    fun key token time hl => h.idTokens key token time ((live_quiet hi hd).mp hl),
    fun key token time hl => ?_⟩
  · obtain ⟨key, kind, time, heq, hl⟩ := h.sessions token session (hsub token session hs)
    exact ⟨key, kind, time, heq, (live_quiet hi hd).mpr hl⟩
  · rcases h.kept kind key token time ((live_quiet hi hd).mp hl) with hs | hexpired
    · rcases hlost token _ hs with hs' | hexpired
      · exact .inl hs'
      · rw [newSession_eq] at hexpired
        exact .inr hexpired
    · exact .inr (Nat.le_trans hexpired hnow)
  · obtain ⟨hm, hh⟩ := h.refreshTokens key token time ((live_quiet hi hd).mp hl)
    exact ⟨List.mem_cons_of_mem _ hm, hh⟩

variable {call : AuthCall} {reply : ApiResult}

theorem contains_insert_kept (users : ExtTreeMap AccountKey User) (key : AccountKey) (user : User)
    (other : AccountKey) :
    (users.contains other && !(users.insert key user).contains other) = false := by
  rw [ExtTreeMap.contains_insert]
  cases users.contains other <;> simp

theorem contains_erase_lost {users : ExtTreeMap AccountKey User} {key : AccountKey}
    (hm : key ∈ users) (other : AccountKey) :
    (users.contains other && !(users.erase key).contains other) = decide (other = key) := by
  rw [ExtTreeMap.contains_erase]
  by_cases ho : other = key
  · subst ho
    simp [ExtTreeMap.contains_iff_mem.mpr hm]
  · have hne : compare key other ≠ .eq := fun hc => ho (LawfulEqOrd.eq_of_compare hc).symm
    simp [ho, hne]

/-- A deletion takes the sessions of its account, and no others. -/
theorem Recorded.delete (h : Recorded config steps data last drawn) {gone : AccountKey}
    (hsound : Sound data') (hi : step.issue = none)
    (hd : ∀ key, step.deleted key = decide (key = gone)) (hnow : last ≤ now)
    (hs' : data'.sessions = data.sessions.filter fun _ session =>
      session.ns != gone.ns || session.uid != gone.uid) (name : String) :
    Recorded config (steps ++ [step]) data' now (name :: drawn) := by
  have hlive : ∀ {kind key token time}, Live kind (steps ++ [step]) key token time ↔
      Live kind steps key token time ∧ key ≠ gone := by
    intro kind key token time
    rw [live_concat, hi, hd, decide_eq_false_iff_not]
    simp
  have hother : ∀ (key : AccountKey) (time : Nat) (kind : SessionKind),
      ((newSession key.ns key.uid time kind).ns != gone.ns ||
        (newSession key.ns key.uid time kind).uid != gone.uid) = true ↔ key ≠ gone := by
    intro key time kind
    obtain ⟨ns, uid⟩ := key
    obtain ⟨ns', uid'⟩ := gone
    rw [newSession_eq]
    simp only [Bool.or_eq_true, bne_iff_ne, ne_eq, AccountKey.mk.injEq, not_and_or]
  refine ⟨hsound, fun token session hs => ?_, fun kind key token time hl => ?_,
    fun key token time hl => h.idTokens key token time (hlive.mp hl).1, fun key token time hl => ?_⟩
  · rw [hs', ExtTreeMap.getElem?_filter', Option.filter_eq_some_iff] at hs
    obtain ⟨key, kind, time, rfl, hl⟩ := h.sessions token session hs.1
    exact ⟨key, kind, time, rfl, hlive.mpr ⟨hl, (hother key time kind).mp hs.2⟩⟩
  · obtain ⟨hl, hne⟩ := hlive.mp hl
    rcases h.kept kind key token time hl with hs | hexpired
    · left
      rw [hs', ExtTreeMap.getElem?_filter', Option.filter_eq_some_iff]
      exact ⟨hs, (hother key time kind).mpr hne⟩
    · exact .inr (Nat.le_trans hexpired hnow)
  · obtain ⟨hm, hh⟩ := h.refreshTokens key token time (hlive.mp hl).1
    exact ⟨List.mem_cons_of_mem _ hm, hh⟩

theorem Instant.expiry_lt (now : Instant) : now.unixSeconds + idTokenTtlSecs < 2 ^ 64 := by
  have hrange := now.inRange
  simp only [Instant.unixSeconds, idTokenTtlSecs]
  omega

theorem ne_of_dot {token refresh : String} (hdot : '.' ∈ token.toList)
    (hhyphens : hyphenated refresh = true) : refresh ≠ token := by
  rintro rfl
  exact hyphenated_no_dot hhyphens hdot

/-- New tokens come with their sessions. A token that was issued before is the refresh token of
none of them, and the ID token only where it is for the same account at the same time. -/
theorem Recorded.issue (h : Recorded config steps data last drawn) {ns : String} {user : User}
    {refresh : String} {clock : Instant} (hsound : Sound data')
    (hi : step.issue = some ⟨⟨ns, user.localId⟩, idToken config.tokens ns user clock.unixSeconds,
      refresh⟩)
    (htime : step.time = clock.unixSeconds) (hd : ∀ key, step.deleted key = false)
    (hnow : last ≤ clock.unixSeconds) (hns : projectNamespace (projectOf ns) = ns)
    (hs' : data'.sessions = insertSessions data.sessions (sessionBundle config.tokens ns user
      clock.unixSeconds refresh).2 clock.unixSeconds)
    (hhyphens : hyphenated refresh = true) (hfresh : refresh ∉ drawn) :
    Recorded config (steps ++ [step]) data' clock.unixSeconds (refresh :: drawn) := by
  have hdot : '.' ∈ (idToken config.tokens ns user clock.unixSeconds).toList := dot_mem_idToken
  have hsessions (token : String) : data'.sessions[token]? =
      if refresh = token then some (newSession ns user.localId clock.unixSeconds .refreshToken)
      else if idToken config.tokens ns user clock.unixSeconds = token then
        some (newSession ns user.localId clock.unixSeconds .idToken)
      else data.sessions[token]?.filter fun session =>
        decide (clock.unixSeconds < session.expiresAt) := by
    rw [hs', getElem?_insertSessions]
  have hlive : ∀ {kind key token time}, Live kind (steps ++ [step]) key token time ↔
      Live kind steps key token time ∨ (⟨ns, user.localId⟩ : AccountKey) = key ∧
        Issue.token ⟨⟨ns, user.localId⟩, idToken config.tokens ns user clock.unixSeconds, refresh⟩
          kind = token ∧ clock.unixSeconds = time := by
    intro kind key token time
    rw [live_concat, hi, hd, htime]
    simp
  refine ⟨hsound, fun token session hs => ?_, fun kind key token time hl => ?_,
    fun key token time hl => ?_, fun key token time hl => ?_⟩
  · rw [hsessions] at hs
    split at hs
    · rename_i heq
      obtain rfl := Option.some.inj hs
      exact ⟨⟨ns, user.localId⟩, .refreshToken, _, rfl, hlive.mpr (.inr ⟨rfl, heq, rfl⟩)⟩
    · split at hs
      · rename_i heq
        obtain rfl := Option.some.inj hs
        exact ⟨⟨ns, user.localId⟩, .idToken, _, rfl, hlive.mpr (.inr ⟨rfl, heq, rfl⟩)⟩
      · obtain ⟨key, kind, time, heq, hl⟩ :=
          h.sessions token session (Option.filter_eq_some_iff.mp hs).1
        exact ⟨key, kind, time, heq, hlive.mpr (.inl hl)⟩
  · rcases hlive.mp hl with hl | ⟨rfl, rfl, rfl⟩
    · rcases h.kept kind key token time hl with hs | hexpired
      · cases kind with
        | refreshToken =>
          obtain ⟨hm, hh⟩ := h.refreshTokens key token time hl
          have hold : refresh ≠ token := by
            rintro rfl
            exact hfresh hm
          rw [hsessions, if_neg hold, if_neg (ne_of_dot hdot hh).symm, hs]
          by_cases hlate : clock.unixSeconds < time + ttl .refreshToken
          · exact .inl (Option.filter_eq_some_iff.mpr ⟨rfl, decide_eq_true hlate⟩)
          · exact .inr (Nat.le_of_not_lt hlate)
        | idToken =>
          obtain ⟨other, huid, rfl, hns', hlt⟩ := h.idTokens key token time hl
          rw [hsessions, if_neg (ne_of_dot dot_mem_idToken hhyphens)]
          split
          · rename_i heq
            have hclock := clock.expiry_lt
            obtain ⟨rfl, huid', htime'⟩ :=
              idToken_inj hns hns' (by omega) (by omega) heq
            rw [huid', huid, htime']
            exact .inl rfl
          · rw [hs]
            by_cases hlate : clock.unixSeconds < time + ttl .idToken
            · exact .inl (Option.filter_eq_some_iff.mpr ⟨rfl, decide_eq_true hlate⟩)
            · exact .inr (Nat.le_of_not_lt hlate)
      · exact .inr (Nat.le_trans hexpired hnow)
    · left
      cases kind with
      | refreshToken => rw [hsessions, Issue.token, if_pos rfl]
      | idToken => rw [hsessions, Issue.token, if_neg (ne_of_dot hdot hhyphens), if_pos rfl]
  · rcases hlive.mp hl with hl | ⟨rfl, rfl, rfl⟩
    · exact h.idTokens key token time hl
    · exact ⟨user, rfl, rfl, hns, clock.expiry_lt⟩
  · rcases hlive.mp hl with hl | ⟨rfl, rfl, rfl⟩
    · obtain ⟨hm, hh⟩ := h.refreshTokens key token time hl
      exact ⟨List.mem_cons_of_mem _ hm, hh⟩
    · exact ⟨List.mem_cons_self, hhyphens⟩

/-- What a request keeps: the sessions of the new state are those of the longer history. -/
theorem Recorded.effect (h : Recorded config steps data last drawn)
    (he : Effect config call data reply data') (hnow : last ≤ call.now.unixSeconds)
    (hhyphens : hyphenated call.draws.refresh = true) (hfresh : call.draws.refresh ∉ drawn) :
    Recorded config (steps ++ [served config call reply data.users.contains data'.users.contains])
      data' call.now.unixSeconds (call.draws.refresh :: drawn) := by
  have hsound := h.sound.step he
  cases he with
  | refused error =>
    exact h.quiet hsound rfl (fun key => Bool.and_not_self _) hnow (fun _ _ hs => hs)
      (fun _ _ hs => .inl hs) _
  | read users =>
    exact h.quiet hsound rfl (fun key => Bool.and_not_self _) hnow (fun _ _ hs => hs)
      (fun _ _ hs => .inl hs) _
  | stored hf =>
    exact h.quiet hsound rfl (contains_insert_kept _ _ _) hnow (fun _ _ hs => hs)
      (fun _ _ hs => .inl hs) _
  | @dropped error token session hs hdead =>
    refine h.quiet hsound rfl (fun key => Bool.and_not_self _) hnow
      (fun other session' hs' => ?_) (fun other session' hs' => ?_) _
    · rw [ExtTreeMap.getElem?_erase] at hs'
      split at hs'
      · cases hs'
      · exact hs'
    · rw [ExtTreeMap.getElem?_erase]
      split
      · rename_i heq
        obtain rfl := LawfulEqOrd.eq_of_compare heq
        obtain rfl := Option.some.inj (hs.symm.trans hs')
        rcases hdead with hexpired | ⟨hkind, hparses⟩
        · exact .inr hexpired
        · -- an ID token that parses as a UUID was never issued
          obtain ⟨key, kind, time, rfl, hl⟩ := h.sessions token session hs
          rw [newSession_eq] at hkind
          obtain rfl : kind = .idToken := hkind
          obtain ⟨user, -, rfl, -⟩ := h.idTokens key _ time hl
          exact absurd dot_mem_idToken (parsesUuid_no_dot hparses)
      · exact .inl hs'
  | issued hf hi hns =>
    exact h.issue hsound hi rfl (contains_insert_kept _ _ _) hnow hns rfl hhyphens hfresh
  | deleted hm =>
    exact h.delete hsound rfl (contains_erase_lost hm) hnow rfl _

theorem Recorded.later (h : Recorded config steps data last drawn) (hnow : last ≤ now) :
    Recorded config steps data now drawn := by
  refine ⟨h.sound, h.sessions, fun kind key token time hl => ?_, h.idTokens, h.refreshTokens⟩
  rcases h.kept kind key token time hl with hs | hexpired
  · exact .inl hs
  · exact .inr (Nat.le_trans hexpired hnow)

/-- The conditions on a run: the clock does not go back, and no refresh token is drawn twice. -/
structure Serial (calls : List AuthCall) (now : Instant) : Prop where
  clock : (calls.map (fun call => call.now.unixSeconds) ++ [now.unixSeconds]).Pairwise (· ≤ ·)
  fresh : (calls.map fun call => call.draws.refresh).Nodup
  hyphens : ∀ call ∈ calls, hyphenated call.draws.refresh = true

theorem Serial.tail {calls : List AuthCall} {now : Instant} (h : Serial (call :: calls) now) :
    Serial calls now :=
  ⟨(List.pairwise_cons.mp h.clock).2, (List.nodup_cons.mp h.fresh).2,
    fun other hm => h.hyphens other (List.mem_cons_of_mem _ hm)⟩

theorem Recorded.calls {now : Instant} (h : Recorded config steps data last drawn)
    (calls : List AuthCall) (hserial : Serial calls now)
    (hlast : ∀ time ∈ calls.map (fun call => call.now.unixSeconds) ++ [now.unixSeconds],
      last ≤ time)
    (hdrawn : ∀ call ∈ calls, call.draws.refresh ∉ drawn) :
    ∃ drawn', Recorded config (steps ++ data.history config calls)
      (calls.foldl (fun data call => (data.handle config call).2) data) now.unixSeconds
      drawn' := by
  induction calls generalizing steps data last drawn with
  | nil =>
    refine ⟨drawn, ?_⟩
    rw [AuthData.history, List.append_nil]
    exact h.later (hlast _ List.mem_cons_self)
  | cons call calls ih =>
    have hstep := h.effect (handle_effect config h.sound call)
      (hlast _ List.mem_cons_self) (hserial.hyphens call List.mem_cons_self)
      (hdrawn call List.mem_cons_self)
    obtain ⟨hnew, -⟩ := List.nodup_cons.mp hserial.fresh
    obtain ⟨drawn', hrun⟩ := ih hstep hserial.tail (List.pairwise_cons.mp hserial.clock).1
      fun other hm => by
        rw [List.mem_cons, not_or]
        refine ⟨fun heq => hnew ?_, hdrawn other (List.mem_cons_of_mem _ hm)⟩
        exact List.mem_map.mpr ⟨other, hm, heq⟩
    rw [List.append_assoc] at hrun
    exact ⟨drawn', hrun⟩

/-- After a run the sessions are those of its live tokens. -/
theorem recorded_run (config : AuthConfig) {calls : List AuthCall} {now : Instant}
    (h : Serial calls now) :
    ∃ drawn, Recorded config (AuthData.empty.history config calls) (AuthData.run config calls)
      now.unixSeconds drawn :=
  Recorded.empty.calls calls h (fun _ _ => Nat.zero_le _) (fun _ _ => List.not_mem_nil)

/-- The token has been issued for the account, which has not been deleted since, has not expired,
and the account neither is disabled nor has revoked it. -/
def Usable (kind : SessionKind) (steps : List Served) (key : AccountKey) (token : String)
    (now : Nat) (user : User) : Prop :=
  ∃ time, Live kind steps key token time ∧ now < time + ttl kind ∧ user.disabled = false ∧
    user.validFrom ≤ time

theorem Recorded.sessionUser_iff (h : Recorded config steps data last drawn) {now : Instant}
    (hnow : last ≤ now.unixSeconds) (ns token : String) (user : User) :
    (data.sessionUser config ns token now).1 = .ok user ↔
      data.users[(⟨ns, user.localId⟩ : AccountKey)]? = some user ∧
        Usable .idToken steps ⟨ns, user.localId⟩ token now.unixSeconds user := by
  constructor
  · intro hok
    obtain ⟨error, hs⟩ | ⟨error, session, -, -, hs⟩ |
      ⟨session, found, hsession, hkind, rfl, -, hu, hc, hs⟩ :=
        sessionUser_cases config data ns token now
    · rw [hs] at hok
      cases hok
    · rw [hs] at hok
      cases hok
    · rw [hs] at hok
      obtain rfl := Except.ok.inj hok
      obtain ⟨key, kind, time, rfl, hl⟩ := h.sessions token session hsession
      rw [newSession_eq] at hkind hu ⊢
      obtain rfl : kind = .idToken := hkind
      obtain ⟨issued, huid, rfl, -, hlt⟩ := h.idTokens key _ time hl
      obtain ⟨-, hlate, hdisabled, hvalid⟩ := (checkClaims_idToken hlt).mp hc
      have hkey : (⟨key.ns, found.localId⟩ : AccountKey) = key := by
        rw [h.sound.unique.keyed _ _ hu]
      dsimp only at hu ⊢
      rw [hkey]
      exact ⟨hu, time, hl, hlate, hdisabled, hvalid⟩
  · rintro ⟨hu, time, hl, hlate, hdisabled, hvalid⟩
    obtain ⟨issued, huid, rfl, -, hlt⟩ := h.idTokens _ _ time hl
    rcases h.kept .idToken _ _ time hl with hs | hexpired
    · rw [newSession_eq] at hs
      unfold AuthData.sessionUser
      simp only [hs, hu, ne_eq, not_true_eq_false, or_self, if_false,
        if_neg (Nat.not_le_of_lt hlate)]
      exact (checkClaims_idToken hlt).mpr ⟨rfl, hlate, hdisabled, hvalid⟩
    · have hdead := Nat.le_trans hexpired hnow
      omega

/-- What a refresh of the user's session answers with. -/
def refreshReply (config : AuthConfig) (key : AccountKey) (user : User) (now : Instant)
    (draws : Draws) : AuthReply :=
  .refreshed (sessionBundle config.tokens key.ns user now.unixSeconds draws.refresh).1 key.uid
    (projectOf key.ns)

theorem Recorded.refreshToken_iff (h : Recorded config steps data last drawn) {now : Instant}
    (hnow : last ≤ now.unixSeconds) (token : String) (draws : Draws) (reply : AuthReply) :
    (data.refreshToken config ⟨some "refresh_token", some token⟩ now draws).1 = .ok reply ↔
      ∃ key user, data.users[key]? = some user ∧
        Usable .refreshToken steps key token now.unixSeconds user ∧
        reply = refreshReply config key user now draws := by
  unfold AuthData.refreshToken
  simp only [ne_eq, not_true_eq_false, if_false]
  constructor
  · intro hok
    split at hok
    · cases hok
    · split at hok
      · cases hok
      · rename_i session hs
        split at hok
        · cases hok
        · rename_i hgood
          rw [not_or, not_not] at hgood
          split at hok
          · cases hok
          · rename_i user hu
            split at hok
            · cases hok
            · rename_i checked hc
              obtain ⟨rfl, hdisabled, hvalid⟩ := checkRefresh_eq_ok.mp hc
              obtain ⟨key, kind, time, rfl, hl⟩ := h.sessions token session hs
              rw [newSession_eq] at hgood hu hvalid hok
              obtain ⟨hkind, hlate⟩ := hgood
              obtain rfl : kind = .refreshToken := hkind
              refine ⟨key, checked, hu, ⟨time, hl, Nat.lt_of_not_le hlate, hdisabled, hvalid⟩, ?_⟩
              exact (Except.ok.inj hok).symm
  · rintro ⟨key, user, hu, ⟨time, hl, hlate, hdisabled, hvalid⟩, rfl⟩
    obtain ⟨-, hhyphens⟩ := h.refreshTokens key token time hl
    have hparses : parsesUuid token = true := by
      simp [parsesUuid, hhyphens]
    rcases h.kept .refreshToken key token time hl with hs | hexpired
    · rw [newSession_eq] at hs
      have hc : checkRefresh ⟨key.ns, key.uid, time, time + ttl .refreshToken, .refreshToken⟩
          user = .ok user := checkRefresh_eq_ok.mpr ⟨rfl, hdisabled, hvalid⟩
      simp only [hparses, hs, hu, hc, Bool.not_true, Bool.false_eq_true, not_true_eq_false,
        false_or, if_false, if_neg (Nat.not_le_of_lt hlate)]
      rfl
    · have hdead := Nat.le_trans hexpired hnow
      omega

/-- The persistent backend issues and deletes what the in-memory one does. -/
theorem history_persisted (config : AuthConfig) (codec : UserCodec υ) (order : RowOrder υ)
    (h : Sound data) (calls : List AuthCall) :
    (data.persisted codec).history config codec order calls = data.history config calls := by
  induction calls generalizing data with
  | nil => rfl
  | cons call calls ih =>
    obtain ⟨hreply, hstore⟩ := handle_persisted config codec order h.unique call
    have hissue : issueOf config call.request
        ((data.persisted codec).handle config codec order call).1 =
          issueOf config call.request (data.handle config call).1 := by
      rcases hreply with hsame | ⟨-, -, -, -, error, error', hm, hs, -⟩
      · rw [hsame]
      · rw [hm, hs]
        rfl
    have hrest := ih (h.step (handle_effect config h call))
    simp only [AuthStore.history, AuthData.history, served, hissue, hstore, contains_persisted,
      hrest]

theorem loadUser_eq_ok {codec : UserCodec υ} {key : AccountKey} {user : User} :
    (data.persisted codec).loadUser codec key = .ok (some user) ↔
      data.users[key]? = some user := by
  rw [loadUser_persisted, Except.ok.injEq]

/-- After every run in which the clock does not go back and no refresh token is drawn twice, on
either backend: an ID token is accepted for a user exactly where it was issued for the user's
account less than an hour ago, the account has not been deleted since, is not disabled, and is not
valid only since a later time; a refresh token exactly where it was issued less than thirty days
ago under the same conditions, and it then yields tokens of the same account. -/
theorem auth_tokens_accepted (config : AuthConfig) (codec : UserCodec υ) (order : RowOrder υ)
    (calls : List AuthCall) (now : Instant) (h : Serial calls now) :
    let data := AuthData.run config calls
    let store := AuthStore.run config codec order calls
    let steps := AuthData.empty.history config calls
    let steps' := AuthStore.empty.history config codec order calls
    (∀ ns token user, (data.sessionUser config ns token now).1 = .ok user ↔
      data.users[(⟨ns, user.localId⟩ : AccountKey)]? = some user ∧
        Usable .idToken steps ⟨ns, user.localId⟩ token now.unixSeconds user) ∧
    (∀ ns token user, (store.sessionUser config codec ns token now).1 = .ok user ↔
      store.loadUser codec ⟨ns, user.localId⟩ = .ok (some user) ∧
        Usable .idToken steps' ⟨ns, user.localId⟩ token now.unixSeconds user) ∧
    (∀ token draws reply,
      (data.refreshToken config ⟨some "refresh_token", some token⟩ now draws).1 = .ok reply ↔
        ∃ key user, data.users[key]? = some user ∧
          Usable .refreshToken steps key token now.unixSeconds user ∧
          reply = refreshReply config key user now draws) ∧
    ∀ token draws reply,
      (store.refreshToken config codec ⟨some "refresh_token", some token⟩ now draws).1 =
          .ok reply ↔
        ∃ key user, store.loadUser codec key = .ok (some user) ∧
          Usable .refreshToken steps' key token now.unixSeconds user ∧
          reply = refreshReply config key user now draws := by
  intro data store steps steps'
  obtain ⟨drawn, hrecorded⟩ := recorded_run config h
  have hstore : store = data.persisted codec := run_persisted config codec order calls
  have hsteps : steps' = steps := by
    have hsame := history_persisted config codec order Sound.empty calls
    rwa [empty_persisted] at hsame
  have huser := fun ns token user => hrecorded.sessionUser_iff (Nat.le_refl _) ns token user
  have hrefresh := fun token draws reply =>
    hrecorded.refreshToken_iff (Nat.le_refl _) token draws reply
  refine ⟨huser, fun ns token user => ?_, hrefresh, fun token draws reply => ?_⟩
  · rw [hstore, hsteps, sessionUser_persisted, loadUser_eq_ok]
    exact huser ns token user
  · rw [hstore, hsteps, refreshToken_persisted]
    simp only [loadUser_eq_ok]
    exact hrefresh token draws reply

/-- An anonymous sign-up at a time, and the refresh token that is drawn for it. -/
def sampleSignUp (millis : Fin (2 ^ 63)) (localId refresh : String) : AuthCall where
  request := .signUp {
    localId := none, email := none, emailVerified := none, displayName := none
    photoUrl := none, phoneNumber := none, disabled := none, disableUser := none
    customAttributes := none, validSince := none, deleteAttribute := [], deleteProvider := []
    linkProviderUserInfo := [], providerUserInfo := [], mfa := [], mfaInfo := []
    password := none, idToken := none }
  now := ⟨millis, millis.isLt⟩
  draws := ⟨localId, refresh⟩

/-- Twenty-nine days after a sign-up its refresh token is still good. -/
theorem auth_tokens_accepted_sample :
    ∃ reply, ((AuthStore.run sampleConfig plainUserCodec emailOrder
      [sampleSignUp 1000 "a" "01234567-89ab-4cde-8f01-23456789abcd"]).refreshToken sampleConfig
        plainUserCodec ⟨some "refresh_token", some "01234567-89ab-4cde-8f01-23456789abcd"⟩
        ⟨2505601000, by decide⟩ ⟨"b", "next"⟩).1 = .ok reply := by
  have hserial : Serial [sampleSignUp 1000 "a" "01234567-89ab-4cde-8f01-23456789abcd"]
      ⟨2505601000, by decide⟩ :=
    ⟨by decide, by decide, by decide⟩
  obtain ⟨-, -, -, hrefresh⟩ :=
    auth_tokens_accepted sampleConfig plainUserCodec emailOrder _ _ hserial
  refine ⟨_, (hrefresh _ _ _).mpr ⟨⟨"project/demo", "a"⟩, _, rfl, ⟨1, ?_, ?_, rfl, ?_⟩, rfl⟩⟩
  · exact ⟨[], _, [], _, rfl, rfl, rfl, rfl, rfl, List.forall_mem_nil _⟩
  · decide
  · exact Nat.zero_le 1

end FirebaseEmu.Auth
