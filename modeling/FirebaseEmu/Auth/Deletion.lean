import FirebaseEmu.Auth.Agreement
import FirebaseEmu.Auth.Handlers

namespace FirebaseEmu.Auth
open Lib Std

variable {config : AuthConfig} {state : Handlers} {id : Nat}

/-- When a deletion takes its last step, no handler has the account in hand. -/
def Handlers.Calm (state : Handlers) : HandlerEvent → Prop
  | .advance id _ => ∀ account, state.stages[id]? = some (.clearing account) →
      ∀ (other : Nat) (stage : Stage), state.stages[other]? = some stage →
        account ∉ stage.inHand
  | _ => True

/-- `Calm` as a check of the stages. -/
def Handlers.calm (state : Handlers) : HandlerEvent → Bool
  | .advance id _ =>
    match state.stages[id]? with
    | some (.clearing account) =>
      state.stages.toList.all fun entry => !entry.2.inHand.contains account
    | _ => true
  | _ => true

theorem Handlers.calm_iff {event : HandlerEvent} : state.calm event = true ↔ state.Calm event := by
  cases event with
  | arrive id handler input => exact ⟨fun _ => trivial, fun _ => rfl⟩
  | cancel id => exact ⟨fun _ => trivial, fun _ => rfl⟩
  | advance id input =>
    have hfree : ∀ account : Account,
        (state.stages.toList.all fun entry => !entry.2.inHand.contains account) = true ↔
          ∀ (other : Nat) (stage : Stage), state.stages[other]? = some stage →
            account ∉ stage.inHand := by
      intro account
      simp only [List.all_eq_true, Bool.not_eq_true', List.contains_eq_mem, decide_eq_false_iff_not,
        Prod.forall, ExtTreeMap.mem_toList_iff_getElem?_eq_some]
    unfold Handlers.calm Handlers.Calm
    dsimp only
    cases hs : state.stages[id]? with
    | none => exact ⟨fun _ account h => absurd h (by simp), fun _ => rfl⟩
    | some stage =>
      cases stage with
      | clearing account =>
        refine (hfree account).trans ⟨fun h other heq => ?_, fun h => h account rfl⟩
        obtain rfl := Stage.clearing.inj (Option.some.inj heq)
        exact h
      | _ => exact ⟨fun _ account h => absurd h (by simp), fun _ => rfl⟩

instance (event : HandlerEvent) : Decidable (state.Calm event) :=
  decidable_of_iff _ Handlers.calm_iff

/-- The accounts are those of the key, and none of them has been deleted. -/
def Present (gone : List Account) (key : AccountKey) (accounts : List Account) : Prop :=
  ∀ account ∈ accounts, account.key = key ∧ account ∉ gone

/-- What holds of a stage: the accounts in hand are there, and one that is being deleted does not
stand in the table any more. -/
def Stage.Ok (state : Handlers) : Stage → Prop
  | .spending session accounts => Present state.gone ⟨session.ns, session.uid⟩ accounts
  | .issuing ns user accounts _ => Present state.gone ⟨ns, user.localId⟩ accounts
  | .checking _ _ _ _ session accounts => Present state.gone ⟨session.ns, session.uid⟩ accounts
  | .clearing account => account.number ≤ state.creations account.key ∧
      (account.key ∈ state.data.users → account.number < state.creations account.key)
  | _ => True

/-- The invariant: nothing is left of an account whose deletion has been answered. -/
structure Handlers.Ended (state : Handlers) : Prop where
  keyed : ∀ (key : AccountKey) (user : User), state.data.users[key]? = some user →
    user.localId = key.uid
  bounded : ∀ account ∈ state.gone, account.number ≤ state.creations account.key
  users : ∀ key ∈ state.data.users, state.current key ∉ state.gone
  sessions : ∀ (token : String) (session : Session), state.data.sessions[token]? = some session →
    Present state.gone ⟨session.ns, session.uid⟩ (state.owners token)
  stages : ∀ (id : Nat) (stage : Stage), state.stages[id]? = some stage → stage.Ok state

/-- A handler goes on to a stage that is as it should be. -/
theorem Handlers.Ended.goto (h : state.Ended) {stage : Stage} (hok : stage.Ok state) :
    (state.goto id stage).Ended := by
  refine ⟨h.keyed, h.bounded, h.users, h.sessions, fun other stage' hs => ?_⟩
  rw [getElem?_goto] at hs
  split at hs
  · obtain rfl := Option.some.inj hs
    exact hok
  · exact h.stages other stage' hs

theorem Handlers.Ended.refuse (h : state.Ended) (error : ApiError) :
    (state.refuse id error).Ended :=
  h.goto trivial

/-- Sessions may go. -/
theorem Handlers.Ended.forget (h : state.Ended) {sessions : ExtTreeMap String Session}
    (hsub : ∀ (token : String) (session : Session), sessions[token]? = some session →
      state.data.sessions[token]? = some session) :
    ({ state with data := { state.data with sessions } } : Handlers).Ended :=
  ⟨h.keyed, h.bounded, h.users, fun token session hs => h.sessions token session (hsub _ _ hs),
    h.stages⟩

/-- A user may be changed in its place. -/
theorem Handlers.Ended.change (h : state.Ended) {key : AccountKey} {user : User}
    (hm : key ∈ state.data.users) (huid : user.localId = key.uid) :
    ({ state with data := { state.data with users := state.data.users.insert key user } } :
      Handlers).Ended := by
  have hsame : ∀ other ∈ state.data.users.insert key user, other ∈ state.data.users := by
    intro other ho
    rcases ExtTreeMap.mem_insert.mp ho with heq | ho
    · rwa [← LawfulEqOrd.eq_of_compare heq]
    · exact ho
  refine ⟨fun other user' hu => ?_, h.bounded, fun other ho => h.users other (hsame other ho),
    h.sessions, fun other stage hs => ?_⟩
  · change (state.data.users.insert key user)[other]? = some user' at hu
    rw [getElem?_insertUser] at hu
    split at hu
    · rename_i heq
      obtain rfl := Option.some.inj hu
      rw [huid, heq]
    · exact h.keyed other user' hu
  · have hok := h.stages other stage hs
    cases stage with
    | clearing account => exact ⟨hok.1, fun ho => hok.2 (hsame _ ho)⟩
    | _ => exact hok

theorem Handlers.Ended.create (h : state.Ended) (ns : String) (request : WriteAccountRequest)
    (now : Instant) (draws : Draws) : (state.create id ns request now draws).Ended := by
  unfold Handlers.create
  obtain ⟨error, hc⟩ | ⟨user, -, hc⟩ := createAccount_cases state.data ns request now draws
  · rw [hc]
    exact h.refuse error
  · rw [hc]
    let key : AccountKey := ⟨ns, user.localId⟩
    let created : Handlers := { state with
      data := { state.data with users := state.data.users.insert key user }
      creations := Function.update state.creations key (state.creations key + 1) }
    have hgrown : ∀ other, state.creations other ≤ created.creations other := by
      intro other
      by_cases ho : other = key
      · rw [ho, show created.creations key = state.creations key + 1 from Function.update_self ..]
        omega
      · rw [show created.creations other = state.creations other from
          Function.update_of_ne ho _ _]
    have hnew : created.Ended := by
      refine ⟨fun other user' hu => ?_, fun account hg => ?_, fun other ho hg => ?_, h.sessions,
        fun other stage hs => ?_⟩
      · change (state.data.users.insert key user)[other]? = some user' at hu
        rw [getElem?_insertUser] at hu
        split at hu
        · rename_i heq
          obtain rfl := Option.some.inj hu
          rw [← heq]
        · exact h.keyed other user' hu
      · exact Nat.le_trans (h.bounded account hg) (hgrown account.key)
      · have hbound := h.bounded _ hg
        change (Function.update state.creations key _ other) ≤ state.creations other at hbound
        by_cases hk : other = key
        · rw [hk, Function.update_self] at hbound
          omega
        · rcases ExtTreeMap.mem_insert.mp ho with heq | ho
          · exact hk (LawfulEqOrd.eq_of_compare heq).symm
          · refine h.users other ho ?_
            have hsame : created.current other = state.current other := by
              rw [Handlers.current, Handlers.current,
                show created.creations other = state.creations other from
                  Function.update_of_ne hk _ _]
            rwa [hsame] at hg
      · have hok := h.stages other stage hs
        cases stage with
        | clearing account =>
          refine ⟨Nat.le_trans hok.1 (hgrown account.key), fun hm => ?_⟩
          rcases ExtTreeMap.mem_insert.mp hm with heq | hm
          · have hk : account.key = key := (LawfulEqOrd.eq_of_compare heq).symm
            have hnumber := hok.1
            rw [hk] at hnumber ⊢
            rw [show created.creations key = state.creations key + 1 from
              Function.update_self ..]
            omega
          · exact Nat.lt_of_lt_of_le (hok.2 hm) (hgrown account.key)
        | _ => exact hok
    exact hnew.goto trivial

theorem Handlers.Ended.signIn (h : state.Ended) (email password : String) (now : Instant) :
    (state.signIn config id email password now).Ended := by
  unfold Handlers.signIn AuthData.signInUser
  split
  · exact h.refuse _
  · rename_i signed data hs
    split at hs
    · cases hs
    · rename_i key user hfind
      split at hs
      · cases hs
      · split at hs
        · cases hs
        · obtain ⟨rfl, rfl⟩ := Prod.mk.inj (Except.ok.inj hs)
          obtain ⟨hm, hns⟩ := List.mem_filter.mp (List.mem_of_find?_eq_some hfind)
          have hu := ExtTreeMap.mem_toList_iff_getElem?_eq_some.mp hm
          have huid : user.localId = key.uid := h.keyed key user hu
          have hkey : (⟨config.ns none, user.localId⟩ : AccountKey) = key := by
            have hns : key.ns = config.ns none := by simpa using hns
            rw [huid, ← hns]
          have hmem : key ∈ state.data.users := ExtTreeMap.mem_iff_isSome_getElem?.mpr (by simp [hu])
          have hhand : Present state.gone ⟨config.ns none, user.localId⟩
              [state.current ⟨config.ns none, user.localId⟩] := by
            intro account ha
            obtain rfl := List.mem_singleton.mp ha
            exact ⟨rfl, hkey ▸ h.users key hmem⟩
          let signed : User := { user with lastLoginAt := now.nowMillis }
          have hsigned : signed.localId = key.uid := huid
          exact (h.change hmem hsigned).goto hhand

theorem Handlers.Ended.refresh (h : state.Ended) (token : String) (now : Instant) :
    (state.refresh id token now).Ended := by
  unfold Handlers.refresh
  cases hs : state.data.sessions[token]? with
  | none => exact h.refuse _
  | some session =>
    dsimp only
    split
    · exact h.goto trivial
    · exact h.goto (h.sessions token session hs)

theorem Handlers.Ended.spend (h : state.Ended) {session : Session} {accounts : List Account}
    (hok : Present state.gone ⟨session.ns, session.uid⟩ accounts) :
    (state.spend id session accounts).Ended := by
  unfold Handlers.spend
  dsimp only
  cases hu : state.data.users[(⟨session.ns, session.uid⟩ : AccountKey)]? with
  | none => exact h.refuse _
  | some user =>
    dsimp only
    cases hc : checkRefresh session user with
    | error error => exact h.refuse error
    | ok checked =>
      obtain ⟨rfl, -⟩ := checkRefresh_eq_ok.mp hc
      have huid : checked.localId = session.uid := h.keyed _ _ hu
      have hmem : (⟨session.ns, session.uid⟩ : AccountKey) ∈ state.data.users :=
        ExtTreeMap.mem_iff_isSome_getElem?.mpr (by simp [hu])
      refine h.goto fun account ha => ?_
      rw [huid]
      rcases List.mem_cons.mp ha with rfl | ha
      · exact ⟨rfl, h.users _ hmem⟩
      · exact hok account ha

theorem Handlers.Ended.issue (h : state.Ended) {ns : String} {user : User}
    {accounts : List Account} (hok : Present state.gone ⟨ns, user.localId⟩ accounts)
    (spent : Option Session) (input : StepInput) :
    (state.issue config id ns user accounts spent input).Ended := by
  let key : AccountKey := ⟨ns, user.localId⟩
  let token := idToken config.tokens ns user input.now.unixSeconds
  let issued : Handlers := { state with
    data := { state.data with
      sessions := insertSessions state.data.sessions (sessionBundle config.tokens ns user
        input.now.unixSeconds input.draws.refresh).2 input.later.unixSeconds }
    owners := Function.update (Function.update state.owners token accounts) input.draws.refresh
      accounts }
  have hnew : issued.Ended := by
    refine ⟨h.keyed, h.bounded, h.users, fun other session hs => ?_, h.stages⟩
    change Present state.gone _ (Function.update (Function.update state.owners token accounts)
      input.draws.refresh accounts other)
    change (insertSessions state.data.sessions _ _)[other]? = some session at hs
    rw [getElem?_insertSessions] at hs
    by_cases hr : input.draws.refresh = other
    · rw [if_pos hr] at hs
      obtain rfl := Option.some.inj hs
      rw [hr, Function.update_self]
      exact hok
    · rw [if_neg hr] at hs
      rw [Function.update_of_ne (Ne.symm hr)]
      by_cases ht : token = other
      · rw [if_pos ht] at hs
        obtain rfl := Option.some.inj hs
        rw [ht, Function.update_self]
        exact hok
      · rw [if_neg ht] at hs
        rw [Function.update_of_ne (Ne.symm ht)]
        exact h.sessions other session (Option.filter_eq_some_iff.mp hs).1
  exact hnew.goto trivial

theorem Handlers.Ended.lookUp (h : state.Ended) (ns token : String) (now : Instant)
    (deletes : Bool) : (state.lookUp id ns token now deletes).Ended := by
  unfold Handlers.lookUp
  cases hs : state.data.sessions[token]? with
  | none => exact h.refuse _
  | some session => exact h.goto (h.sessions token session hs)

theorem Handlers.Ended.check (h : state.Ended) (ns token : String) (now : Instant)
    (deletes : Bool) (session : Session) :
    (state.check config id ns token now deletes session).Ended := by
  unfold Handlers.check
  split
  · exact h.refuse _
  · exact h.goto trivial
  · cases deletes with
    | false => exact h.goto trivial
    | true => exact h.goto trivial

theorem Handlers.Ended.drop (h : state.Ended) (token : String) (error : ApiError) :
    (state.drop id token error).Ended := by
  refine Handlers.Ended.refuse (h.forget fun other session hs => ?_) error
  rw [ExtTreeMap.getElem?_erase] at hs
  split at hs
  · cases hs
  · exact hs

theorem Handlers.Ended.delete (h : state.Ended) (ns uid : String) :
    (state.delete id ns uid).Ended := by
  unfold Handlers.delete
  dsimp only
  split
  · have hdeleted : ({ state with data := { state.data with
        users := state.data.users.erase ⟨ns, uid⟩ } } : Handlers).Ended := by
      refine ⟨fun other user hu => ?_, h.bounded,
        fun other ho => h.users other (ExtTreeMap.mem_of_mem_erase ho), h.sessions,
        fun other stage hs => ?_⟩
      · change (state.data.users.erase _)[other]? = some user at hu
        rw [ExtTreeMap.getElem?_erase] at hu
        split at hu
        · cases hu
        · exact h.keyed other user hu
      · have hok := h.stages other stage hs
        cases stage with
        | clearing account => exact ⟨hok.1, fun ho => hok.2 (ExtTreeMap.mem_of_mem_erase ho)⟩
        | _ => exact hok
    refine hdeleted.goto ⟨Nat.le_refl _, fun hm => ?_⟩
    exact absurd hm (by simp [Handlers.current])
  · exact h.refuse _

theorem Handlers.Ended.clear (h : state.Ended) {account : Account}
    (hs : state.stages[id]? = some (.clearing account))
    (hcalm : ∀ (other : Nat) (stage : Stage), state.stages[other]? = some stage →
      account ∉ stage.inHand) : (state.clear id account).Ended := by
  obtain ⟨hbound, hlater⟩ := h.stages id _ hs
  have hpresent : ∀ {key : AccountKey} {accounts : List Account},
      Present state.gone key accounts → account ∉ accounts →
        Present (account :: state.gone) key accounts := by
    intro key accounts hp hnew other ha
    refine ⟨(hp other ha).1, ?_⟩
    rw [List.mem_cons, not_or]
    exact ⟨fun heq => hnew (heq ▸ ha), (hp other ha).2⟩
  let cleared : Handlers := { state with
    data := { state.data with
      sessions := state.data.sessions.filter fun _ session =>
        session.ns != account.key.ns || session.uid != account.key.uid }
    gone := account :: state.gone }
  have hnew : cleared.Ended := by
    refine ⟨h.keyed, fun other hg => ?_, fun key hm hg => ?_, fun token session hs => ?_,
      fun other stage hs => ?_⟩
    · rcases List.mem_cons.mp hg with rfl | hg
      · exact hbound
      · exact h.bounded other hg
    · rcases List.mem_cons.mp hg with heq | hg
      · have hlt := hlater (heq ▸ hm)
        rw [← heq] at hlt
        exact Nat.lt_irrefl _ hlt
      · exact h.users key hm hg
    · change (state.data.sessions.filter _)[token]? = some session at hs
      rw [ExtTreeMap.getElem?_filter', Option.filter_eq_some_iff] at hs
      have hp := h.sessions token session hs.1
      refine hpresent hp fun ha => ?_
      have hkey := (hp account ha).1
      rw [hkey] at hs
      simp at hs
    · have hok := h.stages other stage hs
      have hfree := hcalm other stage hs
      cases stage with
      | spending session accounts => exact hpresent hok hfree
      | issuing ns user accounts spent => exact hpresent hok hfree
      | checking ns token now deletes session accounts => exact hpresent hok hfree
      | clearing account => exact hok
      | _ => trivial
  exact hnew.goto trivial

/-- A handler that has taken no lock has nothing in hand. -/
theorem arrival_ok (input : StepInput) (handler : Handler) :
    (Handlers.arrival config input handler).Ok state := by
  cases handler with
  | createAccount project request => trivial
  | sessionUser ns token => trivial
  | signIn request =>
    unfold Handlers.arrival
    dsimp only
    split <;> trivial
  | refreshToken request =>
    unfold Handlers.arrival
    dsimp only
    split
    · trivial
    · split
      · trivial
      · split <;> trivial
  | deleteAccount project request =>
    unfold Handlers.arrival
    dsimp only
    split <;> trivial

theorem Handlers.Ended.step (h : state.Ended) {event : HandlerEvent} (hcalm : state.Calm event) :
    (state.step config event).Ended := by
  cases event with
  | arrive id handler input =>
    unfold Handlers.step
    dsimp only
    split
    · exact h
    · exact h.goto (arrival_ok input handler)
  | cancel id =>
    refine ⟨h.keyed, h.bounded, h.users, h.sessions, fun other stage hs => h.stages other stage ?_⟩
    change (state.stages.erase id)[other]? = some stage at hs
    rw [ExtTreeMap.getElem?_erase] at hs
    split at hs
    · cases hs
    · exact hs
  | advance id input =>
    unfold Handlers.step
    dsimp only
    cases hs : state.stages[id]? with
    | none => exact h
    | some stage =>
      have hok := h.stages id stage hs
      cases stage with
      | creating ns request now draws => exact h.create ns request now draws
      | signingIn email password => exact h.signIn email password input.now
      | refreshing refresh now => exact h.refresh refresh now
      | spending session accounts => exact h.spend hok
      | issuing ns user accounts spent => exact h.issue hok spent input
      | lookingUp ns token now deletes => exact h.lookUp ns token now deletes
      | checking ns token now deletes session accounts => exact h.check ns token now deletes session
      | dropping token error => exact h.drop token error
      | deleting ns uid => exact h.delete ns uid
      | clearing account => exact h.clear hs (hcalm account hs)
      | answered reply => exact h

theorem start_ended {data : AuthData} (h : Unique data.users) : (Handlers.start data).Ended := by
  refine ⟨fun key user hu => h.keyed key user hu, fun account hg => absurd hg List.not_mem_nil,
    fun key _ => List.not_mem_nil, fun token session _ account ha => absurd ha List.not_mem_nil,
    fun id stage hs => ?_⟩
  rw [show (Handlers.start data).stages[id]? = none from ExtTreeMap.getElem?_empty] at hs
  cases hs

theorem Handlers.Ended.accepts (h : state.Ended) (event : HandlerEvent) {account : Account}
    (ha : account ∈ state.accepts config event) : account ∉ state.gone := by
  unfold Handlers.accepts at ha
  split at ha
  · split at ha
    · rename_i hs
      split at ha
      · exact (h.stages _ _ hs account ha).2
      · cases ha
    · rename_i hs
      exact (h.stages _ _ hs account ha).2
    · cases ha
  · cases ha

/-- A request for an account with a password. -/
def sampleRequest : WriteAccountRequest where
  localId := some "a"
  email := some "a@x"
  emailVerified := none
  displayName := none
  photoUrl := none
  phoneNumber := none
  disabled := none
  disableUser := none
  customAttributes := none
  validSince := none
  deleteAttribute := []
  deleteProvider := []
  linkProviderUserInfo := []
  providerUserInfo := []
  mfa := []
  mfaInfo := []
  password := some "secret1"
  idToken := none

def sampleRefresh : String := "01234567-89ab-4cde-8f01-23456789abcd"

def sampleInput (refresh : String) : StepInput :=
  ⟨⟨1000, by decide⟩, ⟨1000, by decide⟩, "drawn", refresh⟩

/-- A handler comes and takes so many steps. -/
def sampleHandler (id : Nat) (handler : Handler) (refresh : String) (steps : Nat) :
    List HandlerEvent :=
  .arrive id handler (sampleInput refresh) ::
    List.replicate steps (.advance id (sampleInput refresh))

/-- In every run of the in-memory handlers in which, whenever a deletion takes its last step, no
handler stands between two of its locks with the deleted account in hand: no token is ever
accepted that was issued on behalf of an account whose deletion has been answered. -/
theorem deleted_account_has_no_sessions (config : AuthConfig) {state : Handlers}
    (h : Reach (Handlers.step config) Handlers.Calm
      (fun state => ∃ data, Unique data.users ∧ state = .start data) state)
    (event : HandlerEvent) :
    ∀ account ∈ state.accepts config event, account ∉ state.gone := by
  have hended : state.Ended := by
    refine h.invariant (fun state hs => ?_) fun state event he hcalm => he.step hcalm
    obtain ⟨data, hu, rfl⟩ := hs
    exact start_ended hu
  exact fun account ha => hended.accepts event ha

theorem step_advance {input : StepInput} {stage : Stage} (h : state.stages[id]? = some stage) :
    state.step config (.advance id input) = state.advance config id input stage := by
  unfold Handlers.step
  dsimp only
  rw [h]

theorem calm_of_stage {input : StepInput} {stage : Stage} (h : state.stages[id]? = some stage)
    (hother : ∀ account, stage ≠ .clearing account) : state.Calm (.advance id input) := by
  intro account hs
  exact absurd (Option.some.inj (h.symm.trans hs)) (hother account)

/-- A handler issues its tokens, and another refreshes them. -/
def refreshing (id other : Nat) (input later : StepInput) : List HandlerEvent :=
  [.advance id input,
    .arrive other (.refreshToken ⟨some "refresh_token", some input.draws.refresh⟩) later,
    .advance other later, .advance other later]

/-- Tokens are accepted on behalf of the accounts the handler had in hand when it issued them,
whoever stands under their key by then. -/
theorem refreshing_accepts {other : Nat} {ns : String} {user user' : User}
    {accounts : List Account} (input later : StepInput)
    (hstage : state.stages[id]? = some (.issuing ns user accounts none))
    (hfree : state.stages.contains other = false) (hne : id ≠ other)
    (hparses : parsesUuid input.draws.refresh = true)
    (hu : state.data.users[(⟨ns, user.localId⟩ : AccountKey)]? = some user')
    (hlate : later.now.unixSeconds < input.now.unixSeconds + refreshTokenTtlSecs)
    (hvalid : user'.disabled = false ∧ user'.validFrom ≤ input.now.unixSeconds) :
    let after := (refreshing id other input later).foldl (Handlers.step config) state
    after.accepts config (.advance other later) = state.current ⟨ns, user.localId⟩ :: accounts ∧
      after.gone = state.gone ∧
      Reach.Along (Handlers.step config) Handlers.Calm state (refreshing id other input later) := by
  let token := input.draws.refresh
  let session := newSession ns user.localId input.now.unixSeconds .refreshToken
  let issued := state.issue config id ns user accounts none input
  have hsession : issued.data.sessions[token]? = some session :=
    (getElem?_insertSessions ..).trans (if_pos rfl)
  have howner : issued.owners token = accounts := Function.update_self ..
  have hother : issued.stages.contains other = false := by
    change (state.stages.insert id _).contains other = false
    rw [ExtTreeMap.contains_insert, hfree, Bool.or_false, beq_eq_false_iff_ne]
    exact fun heq => hne (LawfulEqOrd.eq_of_compare heq)
  have harrive : issued.step config (.arrive other (.refreshToken ⟨some "refresh_token",
      some token⟩) later) = issued.goto other (.refreshing token later.now) := by
    have hstage : Handlers.arrival config later (.refreshToken ⟨some "refresh_token",
        some token⟩) = .refreshing token later.now := by
      simp only [Handlers.arrival, ne_eq, not_true_eq_false, if_false]
      rw [show parsesUuid token = true from hparses]
      rfl
    unfold Handlers.step
    dsimp only
    rw [hother, hstage]
    rfl
  let found := (issued.goto other (.refreshing token later.now)).goto other
    (.spending session accounts)
  have hrefresh : (issued.goto other (.refreshing token later.now)).step config
      (.advance other later) = found := by
    rw [step_advance (getElem?_goto_self _)]
    change (issued.goto other _).refresh other token later.now = found
    unfold Handlers.refresh
    rw [show (issued.goto other (.refreshing token later.now)).data.sessions[token]? =
      some session from hsession]
    have hgood : ¬ (session.kind ≠ .refreshToken ∨ session.expiresAt ≤ later.now.unixSeconds) := by
      rw [not_or, not_not]
      exact ⟨rfl, Nat.not_le_of_lt hlate⟩
    dsimp only
    rw [if_neg hgood, show (issued.goto other (.refreshing token later.now)).owners token =
      accounts from howner]
  have hspend : found.step config (.advance other later) = found.goto other
      (.issuing ns user' (state.current ⟨ns, user.localId⟩ :: accounts) (some session)) := by
    rw [step_advance (getElem?_goto_self _)]
    change found.spend other session accounts = _
    unfold Handlers.spend
    dsimp only
    rw [show found.data.users[(⟨session.ns, session.uid⟩ : AccountKey)]? = some user' from hu]
    dsimp only
    rw [checkRefresh_eq_ok.mpr ⟨rfl, hvalid⟩]
    rfl
  have hissue : state.step config (.advance id input) = issued := step_advance hstage
  have hafter : (refreshing id other input later).foldl (Handlers.step config) state =
      found.goto other
        (.issuing ns user' (state.current ⟨ns, user.localId⟩ :: accounts) (some session)) := by
    rw [refreshing, List.foldl_cons, List.foldl_cons, List.foldl_cons, List.foldl_cons,
      List.foldl_nil, hissue, harrive, hrefresh, hspend]
  dsimp only
  rw [hafter]
  refine ⟨?_, rfl, calm_of_stage hstage (by simp), ?_⟩
  · unfold Handlers.accepts
    dsimp only
    rw [getElem?_goto_self]
  · rw [hissue]
    refine ⟨trivial, ?_⟩
    rw [harrive]
    refine ⟨calm_of_stage (getElem?_goto_self _) (by simp), ?_⟩
    rw [hrefresh]
    exact ⟨calm_of_stage (getElem?_goto_self _) (by simp), trivial⟩

/-- An account is created, a sign-in takes a copy of it, it is deleted, and it is created
again. -/
def sampleRace : List HandlerEvent :=
  sampleHandler 0 (.createAccount none sampleRequest) "" 1 ++
  sampleHandler 1 (.signIn sampleRequest) "" 1 ++
  sampleHandler 2 (.deleteAccount none ⟨"a", none⟩) "" 2 ++
  sampleHandler 3 (.createAccount none sampleRequest) "" 1

/-- The same with the sign-in last. -/
def sampleOrder : List HandlerEvent :=
  sampleHandler 0 (.createAccount none sampleRequest) "" 1 ++
  sampleHandler 2 (.deleteAccount none ⟨"a", none⟩) "" 2 ++
  sampleHandler 3 (.createAccount none sampleRequest) "" 1 ++
  sampleHandler 1 (.signIn sampleRequest) "" 1

def sampleState (events : List HandlerEvent) : Handlers :=
  events.foldl (Handlers.step sampleConfig) (.start .empty)

def sampleRefreshing : List HandlerEvent :=
  refreshing 1 4 (sampleInput sampleRefresh) (sampleInput "next")

/-- The sign-in holds one account, which has been deleted or not, and somebody stands under its
key. -/
def sampleReady (state : Handlers) (deleted : Bool) : Bool :=
  match state.stages[(1 : Nat)]? with
  | some (.issuing ns user [account] none) =>
    (state.gone.contains account == deleted) && !state.stages.contains 4 &&
      match state.data.users[(⟨ns, user.localId⟩ : AccountKey)]? with
      | some user => !user.disabled && decide (user.validFrom ≤ 1)
      | none => false
  | _ => false

theorem sampleRefreshing_accepts {state : Handlers} {deleted : Bool}
    (h : sampleReady state deleted = true) :
    let after := sampleRefreshing.foldl (Handlers.step sampleConfig) state
    (∃ account ∈ after.accepts sampleConfig (.advance 4 (sampleInput "next")),
      after.gone.contains account = deleted) ∧
    Reach.Along (Handlers.step sampleConfig) Handlers.Calm state sampleRefreshing := by
  unfold sampleReady at h
  split at h
  · rename_i ns user account hstage
    split at h
    · rename_i user' hu
      simp only [Bool.and_eq_true, beq_iff_eq, Bool.not_eq_true', decide_eq_true_eq] at h
      obtain ⟨⟨hgone, hfree⟩, hvalid⟩ := h
      obtain ⟨haccepts, hsame, hcalm⟩ := refreshing_accepts (sampleInput sampleRefresh)
        (sampleInput "next") hstage hfree (by decide) (by decide) hu (by decide) hvalid
      refine ⟨⟨account, ?_, ?_⟩, hcalm⟩
      · rw [sampleRefreshing, haccepts]
        simp
      · rw [sampleRefreshing, hsame, hgone]
    · simp at h
  · cases h

theorem deleted_account_has_no_sessions_sample :
    let state := sampleRefreshing.foldl (Handlers.step sampleConfig) (sampleState sampleOrder)
    (∃ account, account ∈ state.accepts sampleConfig (.advance 4 (sampleInput "next"))) ∧
      ∀ account ∈ state.accepts sampleConfig (.advance 4 (sampleInput "next")),
        account ∉ state.gone := by
  have hready : sampleReady (sampleState sampleOrder) false = true := by decide
  obtain ⟨⟨account, haccepted, -⟩, hlater⟩ := sampleRefreshing_accepts hready
  have hcalm : Reach.Along (Handlers.step sampleConfig) Handlers.Calm (.start .empty)
      sampleOrder := by
    decide
  have hreach : Reach (Handlers.step sampleConfig) Handlers.Calm
      (fun state => ∃ data, Unique data.users ∧ state = .start data) (sampleState sampleOrder) :=
    (Reach.start ⟨.empty, .empty, rfl⟩).run hcalm
  exact ⟨⟨account, haccepted⟩,
    deleted_account_has_no_sessions sampleConfig (hreach.run hlater) _⟩

/-- The sign-in issues its tokens after the deletion, and they are accepted for the new
account. -/
theorem session_outlives_deletion :
    ¬ ∀ (config : AuthConfig) (state : Handlers),
      Reach (Handlers.step config) (fun _ _ => True)
        (fun state => ∃ data, Unique data.users ∧ state = .start data) state →
      ∀ event, ∀ account ∈ state.accepts config event, account ∉ state.gone := by
  intro h
  have hready : sampleReady (sampleState sampleRace) true = true := by decide
  obtain ⟨⟨account, haccepted, hgone⟩, -⟩ := sampleRefreshing_accepts hready
  have hreach : Reach (Handlers.step sampleConfig) (fun _ _ => True)
      (fun state => ∃ data, Unique data.users ∧ state = .start data) (sampleState sampleRace) :=
    (Reach.start ⟨.empty, .empty, rfl⟩).run (Reach.along_free (fun _ _ => trivial) _ _)
  have hafter := hreach.run (Reach.along_free (fun _ _ => trivial) _ sampleRefreshing)
  exact h sampleConfig _ hafter _ account haccepted (List.contains_iff_mem.mp hgone)

end FirebaseEmu.Auth
