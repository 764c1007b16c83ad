import FirebaseEmu.Auth.Deletion

namespace FirebaseEmu.Auth
open Lib Std

/-- What a browser's request goes on to when its token has been looked up. -/
inductive Purpose where
  | update (request : WriteAccountRequest)
  | delete

/-- Where the handler of an account request stands: the lock that it takes next. A sign-up reads
the account it has created under a lock of its own, and panics when it is not there. -/
inductive Turn where
  | creating (ns : String) (request : WriteAccountRequest) (now : Instant) (draws : Draws)
      (signsUp : Bool)
  | reading (key : AccountKey)
  | signingIn (email password : String)
  | lookingUp (ns token : String) (now : Instant) (purpose : Purpose)
  | checking (ns token : String) (now : Instant) (session : Session) (purpose : Purpose)
  | dropping (token : String) (error : ApiError)
  | updating (ns : String) (request : WriteAccountRequest) (browser : Bool)
  | deleting (key : AccountKey)
  | clearing (key : AccountKey)
  | issuing (ns : String) (user : User) (updated : Bool)
  | answered (reply : ApiResult)
  | panicked

/-- The account that a sign-up has created and not read yet. -/
def Turn.created : Turn → Option AccountKey
  | .reading key => some key
  | _ => none

inductive AccountRequest where
  | createAccount (project : Option String) (request : WriteAccountRequest)
  | signUp (request : WriteAccountRequest)
  | signIn (request : WriteAccountRequest)
  | updateAccount (project : Option String) (request : WriteAccountRequest)
  | deleteAccount (project : Option String) (request : DeleteRequest)

/-- The in-memory tables and the handlers that are under way. -/
structure Turns where
  data : AuthData
  turns : ExtTreeMap Nat Turn

inductive TurnEvent where
  | arrive (id : Nat) (request : AccountRequest) (input : StepInput)
  | advance (id : Nat) (input : StepInput)
  | cancel (id : Nat)

variable (config : AuthConfig)

/-- `update_account` from its checks to the end of its lock on the users. -/
def AuthData.updateUser (data : AuthData) (ns : String) (request : WriteAccountRequest) :
    Except ApiError (User × AuthData) :=
  match validateCredentials request with
  | .error error => .error error
  | .ok () =>
    match request.localId with
    | none => .error (badRequest "MISSING_LOCAL_ID")
    | some localId =>
      match data.users[(⟨ns, localId⟩ : AccountKey)]? with
      | none => .error (badRequest "USER_NOT_FOUND")
      | some user =>
        match ensureUnique request.email request.phoneNumber (some localId) (data.accounts ns) with
        | .error error => .error error
        | .ok () =>
          let user := applyUpdate user request
          .ok (user, { data with users := data.users.insert ⟨ns, localId⟩ user })

theorem updateKnown_eq (data : AuthData) (ns : String) (request : WriteAccountRequest)
    (browser : Bool) (now : Instant) (draws : Draws) :
    data.updateKnown config ns request browser now draws =
      match data.updateUser ns request with
      | .error error => (.error error, data)
      | .ok (user, data) =>
        if browser then
          let (session, data) := data.issueSession config ns user now draws
          (.ok (.user user.shown (some session)), data)
        else (.ok (.user user.shown none), data) := by
  unfold AuthData.updateKnown AuthData.updateUser
  cases validateCredentials request with
  | error error => rfl
  | ok =>
    cases request.localId with
    | none => rfl
    | some localId =>
      dsimp only
      cases data.users[(⟨ns, localId⟩ : AccountKey)]? with
      | none => rfl
      | some user =>
        dsimp only
        cases ensureUnique request.email request.phoneNumber (some localId)
          (data.accounts ns) with
        | error error => rfl
        | ok => rfl

namespace Turns

def start (data : AuthData) : Turns := ⟨data, ∅⟩

def goto (state : Turns) (id : Nat) (turn : Turn) : Turns :=
  { state with turns := state.turns.insert id turn }

def refuse (state : Turns) (id : Nat) (error : ApiError) : Turns :=
  state.goto id (.answered (.error error))

def arrival (input : StepInput) : AccountRequest → Turn
  | .createAccount project request =>
    .creating (config.ns project) request input.now input.draws false
  | .signUp request =>
    if request.email.isSome && request.password.isNone then
      .answered (.error (badRequest "MISSING_PASSWORD"))
    else .creating (config.ns none) request input.now input.draws true
  | .signIn request =>
    match request.email, request.password with
    | none, _ => .answered (.error (badRequest "MISSING_EMAIL"))
    | some _, none => .answered (.error (badRequest "MISSING_PASSWORD"))
    | some email, some password => .signingIn email password
  | .updateAccount project request =>
    match request.idToken with
    | none => .updating (config.ns project) request false
    | some token => .lookingUp (config.ns project) token input.now (.update request)
  | .deleteAccount project request =>
    match request.idToken with
    | none => .deleting ⟨config.ns project, request.localId⟩
    | some token => .lookingUp (config.ns project) token input.now .delete

def create (state : Turns) (id : Nat) (ns : String) (request : WriteAccountRequest)
    (now : Instant) (draws : Draws) (signsUp : Bool) : Turns :=
  match state.data.createAccount ns request now draws with
  | (.error error, _) => state.refuse id error
  | (.ok user, data) =>
    ({ state with data } : Turns).goto id
      (if signsUp then .reading ⟨ns, user.localId⟩ else .answered (.ok (.user user.shown none)))

/-- `state.users.read().await[&namespace][local_id]`. -/
def read (state : Turns) (id : Nat) (key : AccountKey) : Turns :=
  match state.data.users[key]? with
  | none => state.goto id .panicked
  | some user => state.goto id (.issuing key.ns user false)

def signIn (state : Turns) (id : Nat) (email password : String) (now : Instant) : Turns :=
  match state.data.signInUser config email password now with
  | .error error => state.refuse id error
  | .ok (user, data) =>
    ({ state with data } : Turns).goto id (.issuing (config.ns none) user false)

def lookUp (state : Turns) (id : Nat) (ns token : String) (now : Instant) (purpose : Purpose) :
    Turns :=
  match state.data.sessions[token]? with
  | none => state.refuse id (badRequest "INVALID_ID_TOKEN")
  | some session => state.goto id (.checking ns token now session purpose)

def check (state : Turns) (id : Nat) (ns token : String) (now : Instant) (session : Session)
    (purpose : Purpose) : Turns :=
  match checkSession config ns token now session
      state.data.users[(⟨ns, session.uid⟩ : AccountKey)]? with
  | .refused error => state.refuse id error
  | .expired => state.goto id (.dropping token (badRequest "TOKEN_EXPIRED"))
  | .accepted user =>
    match purpose with
    | .update request =>
      state.goto id (.updating ns { request with localId := some user.localId } true)
    | .delete => state.goto id (.deleting ⟨ns, user.localId⟩)

def drop (state : Turns) (id : Nat) (token : String) (error : ApiError) : Turns :=
  ({ state with data := { state.data with sessions := state.data.sessions.erase token } } :
    Turns).refuse id error

def update (state : Turns) (id : Nat) (ns : String) (request : WriteAccountRequest)
    (browser : Bool) : Turns :=
  match state.data.updateUser ns request with
  | .error error => state.refuse id error
  | .ok (user, data) =>
    ({ state with data } : Turns).goto id
      (if browser then .issuing ns user true else .answered (.ok (.user user.shown none)))

def delete (state : Turns) (id : Nat) (key : AccountKey) : Turns :=
  if state.data.users.contains key then
    ({ state with data := { state.data with users := state.data.users.erase key } } :
      Turns).goto id (.clearing key)
  else state.refuse id (badRequest "USER_NOT_FOUND")

def clear (state : Turns) (id : Nat) (key : AccountKey) : Turns :=
  ({ state with
      data := { state.data with
        sessions := state.data.sessions.filter fun _ session =>
          session.ns != key.ns || session.uid != key.uid } } : Turns).goto id (.answered (.ok .empty))

def issue (state : Turns) (id : Nat) (ns : String) (user : User) (updated : Bool)
    (input : StepInput) : Turns :=
  let (reply, new) := sessionBundle config.tokens ns user input.now.unixSeconds
    input.draws.refresh
  ({ state with
      data := { state.data with
        sessions := insertSessions state.data.sessions new input.later.unixSeconds } } :
    Turns).goto id (.answered (.ok
      (if updated then .user user.shown (some reply) else .session reply)))

/-- The handler takes its next lock, and goes on until the one after it. -/
def advance (state : Turns) (id : Nat) (input : StepInput) : Turn → Turns
  | .creating ns request now draws signsUp => state.create id ns request now draws signsUp
  | .reading key => state.read id key
  | .signingIn email password => state.signIn config id email password input.now
  | .lookingUp ns token now purpose => state.lookUp id ns token now purpose
  | .checking ns token now session purpose => state.check config id ns token now session purpose
  | .dropping token error => state.drop id token error
  | .updating ns request browser => state.update id ns request browser
  | .deleting key => state.delete id key
  | .clearing key => state.clear id key
  | .issuing ns user updated => state.issue config id ns user updated input
  | .answered _ => state
  | .panicked => state

def step (state : Turns) : TurnEvent → Turns
  | .arrive id request input =>
    if state.turns.contains id then state else state.goto id (arrival config input request)
  | .advance id input =>
    match state.turns[id]? with
    | some turn => state.advance config id input turn
    | none => state
  | .cancel id => { state with turns := state.turns.erase id }

/-- The account that an event takes from the table. -/
def erases (state : Turns) : TurnEvent → Option AccountKey
  | .advance id _ =>
    match state.turns[id]? with
    | some (.deleting key) => some key
    | _ => none
  | _ => none

/-- The event deletes no account that a sign-up has created and not read yet. -/
def Undisturbed (state : Turns) (event : TurnEvent) : Prop :=
  ((state.erases event).all fun key => state.turns.toList.all fun entry =>
    entry.2.created != some key) = true

instance (state : Turns) (event : TurnEvent) : Decidable (state.Undisturbed event) :=
  inferInstanceAs (Decidable (_ = _))

variable {config : AuthConfig} {state : Turns} {id : Nat}

/-- Every sign-up that has created its account will find it, and none has panicked. -/
def Reads (state : Turns) : Prop :=
  ∀ (id : Nat) (turn : Turn), state.turns[id]? = some turn →
    (∀ key, turn.created = some key → key ∈ state.data.users) ∧ turn ≠ .panicked

theorem getElem?_goto (turn : Turn) (other : Nat) :
    (state.goto id turn).turns[other]? = if id = other then some turn
      else state.turns[other]? := by
  rw [Turns.goto, ExtTreeMap.getElem?_insert]
  simp only [LawfulEqOrd.compare_eq_iff_eq]

/-- A step that loses no account and goes on to a turn that is no sign-up's reading. -/
theorem Reads.goto (h : state.Reads) {data : AuthData}
    (hkept : ∀ key, key ∈ state.data.users → key ∈ data.users) {turn : Turn}
    (hnext : ∀ key, turn.created = some key → key ∈ data.users) (hturn : turn ≠ .panicked) :
    (({ state with data } : Turns).goto id turn).Reads := by
  intro other found hf
  rw [getElem?_goto] at hf
  split at hf
  · obtain rfl := Option.some.inj hf
    exact ⟨hnext, hturn⟩
  · exact ⟨fun key hk => hkept key ((h other found hf).1 key hk), (h other found hf).2⟩

theorem Reads.plain (h : state.Reads) {turn : Turn} (hcreated : turn.created = none)
    (hturn : turn ≠ .panicked) : (state.goto id turn).Reads :=
  h.goto (fun _ hk => hk) (by simp [hcreated]) hturn

theorem Reads.refuse (h : state.Reads) (error : ApiError) : (state.refuse id error).Reads :=
  h.plain rfl nofun

theorem mem_insertUser {users : ExtTreeMap AccountKey User} {key : AccountKey} (user : User)
    (other : AccountKey) (h : other ∈ users) : other ∈ users.insert key user :=
  ExtTreeMap.mem_insert.mpr (.inr h)

theorem Reads.create (h : state.Reads) (ns : String) (request : WriteAccountRequest)
    (now : Instant) (draws : Draws) (signsUp : Bool) :
    (state.create id ns request now draws signsUp).Reads := by
  unfold Turns.create
  obtain ⟨error, hc⟩ | ⟨user, -, hc⟩ := createAccount_cases state.data ns request now draws
  · rw [hc]
    exact h.refuse error
  · rw [hc]
    dsimp only
    cases signsUp with
    | false => exact h.goto (mem_insertUser user) nofun nofun
    | true =>
      refine h.goto (mem_insertUser user) (fun key hk => ?_) nofun
      obtain rfl := Option.some.inj hk
      exact ExtTreeMap.mem_insert_self

theorem Reads.read (h : state.Reads) {key : AccountKey} (hm : key ∈ state.data.users) :
    (state.read id key).Reads := by
  unfold Turns.read
  obtain ⟨user, hu⟩ := mem_iff_exists.mp hm
  rw [hu]
  exact h.plain rfl nofun

theorem Reads.signIn (h : state.Reads) (email password : String) (now : Instant) :
    (state.signIn config id email password now).Reads := by
  unfold Turns.signIn AuthData.signInUser
  split
  · exact h.refuse _
  · rename_i hs
    split at hs
    · cases hs
    · split at hs
      · cases hs
      · split at hs
        · cases hs
        · obtain ⟨-, rfl⟩ := Prod.mk.inj (Except.ok.inj hs)
          exact h.goto (mem_insertUser _) nofun nofun

theorem Reads.lookUp (h : state.Reads) (ns token : String) (now : Instant) (purpose : Purpose) :
    (state.lookUp id ns token now purpose).Reads := by
  unfold Turns.lookUp
  split
  · exact h.refuse _
  · exact h.plain rfl nofun

theorem Reads.check (h : state.Reads) (ns token : String) (now : Instant) (session : Session)
    (purpose : Purpose) : (state.check config id ns token now session purpose).Reads := by
  unfold Turns.check
  split
  · exact h.refuse _
  · exact h.plain rfl nofun
  · cases purpose with
    | update request => exact h.plain rfl nofun
    | delete => exact h.plain rfl nofun

theorem Reads.update (h : state.Reads) (ns : String) (request : WriteAccountRequest)
    (browser : Bool) : (state.update id ns request browser).Reads := by
  unfold Turns.update AuthData.updateUser
  split
  · exact h.refuse _
  · rename_i hu
    split at hu
    · cases hu
    · split at hu
      · cases hu
      · split at hu
        · cases hu
        · split at hu
          · cases hu
          · obtain ⟨-, rfl⟩ := Prod.mk.inj (Except.ok.inj hu)
            cases browser with
            | false => exact h.goto (mem_insertUser _) nofun nofun
            | true => exact h.goto (mem_insertUser _) nofun nofun

theorem Reads.delete (h : state.Reads) {key : AccountKey}
    (hfree : ∀ (other : Nat) (turn : Turn), state.turns[other]? = some turn →
      turn.created ≠ some key) : (state.delete id key).Reads := by
  unfold Turns.delete
  split
  · intro other turn ht
    rw [getElem?_goto] at ht
    split at ht
    · obtain rfl := Option.some.inj ht
      exact ⟨nofun, nofun⟩
    · refine ⟨fun created hk => ?_, (h other turn ht).2⟩
      have hne : created ≠ key := by
        rintro rfl
        exact hfree other turn ht hk
      exact ExtTreeMap.mem_erase.mpr
        ⟨fun heq => hne (LawfulEqOrd.eq_of_compare heq).symm, (h other turn ht).1 created hk⟩
  · exact h.refuse _

theorem arrival_plain (input : StepInput) (request : AccountRequest) :
    (arrival config input request).created = none ∧ arrival config input request ≠ .panicked := by
  cases request with
  | createAccount project request => exact ⟨rfl, nofun⟩
  | signUp request =>
    unfold arrival
    dsimp only
    split
    · exact ⟨rfl, nofun⟩
    · exact ⟨rfl, nofun⟩
  | signIn request =>
    unfold arrival
    dsimp only
    split
    · exact ⟨rfl, nofun⟩
    · exact ⟨rfl, nofun⟩
    · exact ⟨rfl, nofun⟩
  | updateAccount project request =>
    unfold arrival
    dsimp only
    split
    · exact ⟨rfl, nofun⟩
    · exact ⟨rfl, nofun⟩
  | deleteAccount project request =>
    unfold arrival
    dsimp only
    split
    · exact ⟨rfl, nofun⟩
    · exact ⟨rfl, nofun⟩

theorem Reads.step (h : state.Reads) {event : TurnEvent} (hcalm : state.Undisturbed event) :
    (state.step config event).Reads := by
  cases event with
  | arrive id request input =>
    unfold Turns.step
    dsimp only
    split
    · exact h
    · exact h.plain (arrival_plain input request).1 (arrival_plain input request).2
  | cancel id =>
    intro other turn ht
    unfold Turns.step at ht
    dsimp only at ht
    rw [ExtTreeMap.getElem?_erase] at ht
    split at ht
    · cases ht
    · exact h other turn ht
  | advance id input =>
    unfold Turns.step
    dsimp only
    split
    · rename_i turn ht
      cases turn with
      | creating ns request now draws signsUp => exact h.create ns request now draws signsUp
      | reading key => exact h.read ((h id _ ht).1 key rfl)
      | signingIn email password => exact h.signIn email password input.now
      | lookingUp ns token now purpose => exact h.lookUp ns token now purpose
      | checking ns token now session purpose => exact h.check ns token now session purpose
      | dropping token error => exact h.goto (fun _ hk => hk) nofun nofun
      | updating ns request browser => exact h.update ns request browser
      | deleting key =>
        apply h.delete
        intro other turn hother hc
        unfold Undisturbed erases at hcalm
        dsimp only at hcalm
        rw [ht] at hcalm
        have hentry := List.all_eq_true.mp hcalm (other, turn)
          (ExtTreeMap.mem_toList_iff_getElem?_eq_some.mpr hother)
        rw [hc] at hentry
        simp at hentry
      | clearing key => exact h.goto (fun _ hk => hk) nofun nofun
      | issuing ns user updated => exact h.goto (fun _ hk => hk) nofun nofun
      | answered reply => exact h
      | panicked => exact absurd rfl (h id _ ht).2
    · exact h

/-- The locks of a sign-up that nothing comes between. -/
theorem signUp_alone (state : Turns) (request : WriteAccountRequest) (now : Instant)
    (draws : Draws) (hfree : state.turns.contains id = false) :
    let after := [TurnEvent.arrive id (.signUp request) ⟨now, now, draws⟩,
      .advance id ⟨now, now, draws⟩, .advance id ⟨now, now, draws⟩,
      .advance id ⟨now, now, draws⟩].foldl (step config) state
    after.turns[id]? = some (.answered (state.data.signUp config request now draws).1) ∧
      after.data = (state.data.signUp config request now draws).2 := by
  have hself : ∀ (state : Turns) (turn : Turn), (state.goto id turn).turns[id]? = some turn :=
    fun state turn => by rw [getElem?_goto, if_pos rfl]
  have hgo : ∀ (state : Turns) (turn : Turn), (state.goto id turn).step config
      (.advance id ⟨now, now, draws⟩) = (state.goto id turn).advance config id ⟨now, now, draws⟩
        turn := fun state turn => by
    unfold Turns.step
    dsimp only
    rw [hself]
  have harrive : state.step config (.arrive id (.signUp request) ⟨now, now, draws⟩) =
      state.goto id (arrival config ⟨now, now, draws⟩ (.signUp request)) := by
    unfold Turns.step
    dsimp only
    rw [hfree]
    rfl
  rw [List.foldl_cons, List.foldl_cons, List.foldl_cons, List.foldl_cons, List.foldl_nil, harrive]
  unfold arrival AuthData.signUp
  dsimp only
  split
  · rw [hgo, Turns.advance, hgo, Turns.advance, hgo, Turns.advance]
    exact ⟨hself _ _, rfl⟩
  · rw [hgo, Turns.advance, Turns.create]
    obtain ⟨error, hc⟩ | ⟨user, -, hc⟩ := createAccount_cases state.data (config.ns none) request
      now draws
    · have hc' : (state.goto id (.creating (config.ns none) request now draws true)).data.createAccount
          (config.ns none) request now draws = (.error error, state.data) := hc
      rw [hc, hc']
      dsimp only
      rw [Turns.refuse, hgo, Turns.advance, hgo, Turns.advance]
      exact ⟨hself _ _, rfl⟩
    · have hc' : (state.goto id (.creating (config.ns none) request now draws true)).data.createAccount
          (config.ns none) request now draws =
            (.ok user, { state.data with
              users := state.data.users.insert ⟨config.ns none, user.localId⟩ user }) := hc
      have hu : (state.data.users.insert ⟨config.ns none, user.localId⟩ user)[
          (⟨config.ns none, user.localId⟩ : AccountKey)]? = some user := by
        rw [getElem?_insertUser, if_pos rfl]
      have hread : ∀ state : Turns, state.data.users[
          (⟨config.ns none, user.localId⟩ : AccountKey)]? = some user →
          state.read id ⟨config.ns none, user.localId⟩ =
            state.goto id (.issuing (config.ns none) user false) := fun state hu => by
        rw [Turns.read, hu]
      rw [hc, hc']
      dsimp only
      rw [if_pos rfl, hgo, Turns.advance, hread _ hu, hgo, Turns.advance, hu]
      exact ⟨hself _ _, rfl⟩

/-- In every run of the in-memory handlers in which no deletion takes an account that a sign-up
has created and not read again, no sign-up panics. -/
theorem sign_up_finds_its_account (config : AuthConfig) {state : Turns}
    (h : Reach (Turns.step config) Turns.Undisturbed (fun state => ∃ data, state = .start data)
      state) (id : Nat) :
    state.turns[id]? ≠ some .panicked := by
  have hreads : state.Reads := by
    refine h.invariant (fun state hs => ?_) fun state event he hcalm => he.step hcalm
    obtain ⟨data, rfl⟩ := hs
    intro id turn ht
    rw [show (Turns.start data).turns[id]? = none from ExtTreeMap.getElem?_empty] at ht
    cases ht
  exact fun hp => (hreads id _ hp).2 rfl

end Turns

/-- A sign-up takes its first lock, the account is deleted or not, and it takes the next. -/
def sampleSignUpRun (deleted : Bool) : List TurnEvent :=
  [.arrive 0 (.signUp sampleRequest) (sampleInput ""), .advance 0 (sampleInput "")] ++
  (if deleted then [.arrive 1 (.deleteAccount none ⟨"a", none⟩) (sampleInput ""),
    .advance 1 (sampleInput "")] else []) ++
  [.advance 0 (sampleInput "")]

theorem sign_up_finds_its_account_sample :
    ((sampleSignUpRun false).foldl (Turns.step sampleConfig) (.start .empty)).turns[0]? ≠
      some .panicked := by
  have hcalm : Reach.Along (Turns.step sampleConfig) Turns.Undisturbed (.start .empty)
      (sampleSignUpRun false) := by
    decide
  exact Turns.sign_up_finds_its_account sampleConfig ((Reach.start ⟨.empty, rfl⟩).run hcalm) 0

/-- The account is deleted between the two locks. -/
theorem sign_up_panics :
    ¬ ∀ (config : AuthConfig) (state : Turns),
      Reach (Turns.step config) (fun _ _ => True) (· = .start .empty) state →
      ∀ id : Nat, state.turns[id]? ≠ some .panicked := by
  intro h
  have hreach := (@Reach.start _ _ (Turns.step sampleConfig) (fun _ _ => True)
    (· = Turns.start .empty) _ rfl).run
      (Reach.along_free (fun _ _ => trivial) _ (sampleSignUpRun true))
  have hpanicked : ((((sampleSignUpRun true).foldl (Turns.step sampleConfig)
      (.start .empty)).turns[(0 : Nat)]?).any fun turn =>
        match turn with
        | .panicked => true
        | _ => false) = true := by
    decide
  obtain ⟨turn, ht, hp⟩ := (Option.any_eq_true _ _).mp hpanicked
  cases turn with
  | panicked => exact h sampleConfig _ hreach 0 ht
  | _ => cases hp

end FirebaseEmu.Auth
