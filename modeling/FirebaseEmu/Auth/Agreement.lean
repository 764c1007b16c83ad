import FirebaseEmu.Auth.Effects
import FirebaseEmu.Auth.Payload
import FirebaseEmu.Auth.Sqlite
import FirebaseEmu.Lib.Results

namespace FirebaseEmu.Auth
open Lib Std

variable {υ : Type} {config : AuthConfig} {codec : UserCodec υ} {order : RowOrder υ}
  {data : AuthData}

/-- An account that a request would write: a new one, or the target of an update. -/
structure AccountWrite where
  ns : String
  request : WriteAccountRequest
  target : Option String

/-- The account of a request that creates or updates one. -/
def AuthData.writes (config : AuthConfig) (data : AuthData) (call : AuthCall) :
    Option AccountWrite :=
  match call.request with
  | .createAccount project request => some ⟨config.ns project, request, none⟩
  | .signUp request =>
    if request.email.isSome && request.password.isNone then none
    else some ⟨config.ns none, request, none⟩
  | .updateAccount project request =>
    (match request.idToken with
      | none => request.localId
      | some token =>
        (data.sessionUser config (config.ns project) token call.now).1.toOption.map
          User.localId).map fun localId => ⟨config.ns project, request, some localId⟩
  | _ => none

/-- The email belongs to one account and the phone number to another. -/
def Torn (users : ExtTreeMap AccountKey User) (write : AccountWrite) : Prop :=
  ∃ (key key' : AccountKey) (user user' : User), users[key]? = some user ∧
    users[key']? = some user' ∧ key.ns = write.ns ∧ key'.ns = write.ns ∧ key ≠ key' ∧
    write.target ≠ some key.uid ∧ write.target ≠ some key'.uid ∧
    emailTaken write.request.email user = true ∧
    phoneTaken write.request.phoneNumber user' = true

/-- The refusals of a check that finds an account with the same email or phone number. -/
def Conflict (error : ApiError) : Prop :=
  error = badRequest "EMAIL_EXISTS" ∨ error = badRequest "PHONE_NUMBER_EXISTS"

/-- The persistent state that holds what the in-memory one does. -/
def AuthData.persisted (codec : UserCodec υ) (data : AuthData) : AuthStore υ :=
  ⟨data.users.map fun _ user => userRow codec user, data.sessions⟩

theorem decodeUser_userRow (user : User) : decodeUser codec (userRow codec user) = .ok user := by
  unfold decodeUser userRow
  rw [codec.decode_encode]
  rfl

theorem sessions_persisted : (data.persisted codec).sessions = data.sessions := rfl

theorem loadUser_persisted (key : AccountKey) :
    (data.persisted codec).loadUser codec key = .ok data.users[key]? := by
  unfold AuthStore.loadUser AuthData.persisted
  rw [ExtTreeMap.getElem?_map]
  cases data.users[key]? with
  | none => rfl
  | some user =>
    simp only [Option.map_some, decodeUser_userRow]
    rfl

theorem contains_persisted (key : AccountKey) :
    (data.persisted codec).rows.contains key = data.users.contains key := by
  rw [ExtTreeMap.contains_eq_isSome_getElem?, ExtTreeMap.contains_eq_isSome_getElem?,
    AuthData.persisted, ExtTreeMap.getElem?_map, Option.isSome_map]

/-- The rows of these entries. -/
def rowsOf (codec : UserCodec υ) (entries : List (AccountKey × User)) :
    List (AccountKey × AuthRow υ) :=
  entries.map fun entry => (entry.1, userRow codec entry.2)

theorem table_persisted (ns : String) :
    (data.persisted codec).table ns = rowsOf codec (data.table ns) := by
  unfold AuthStore.table AuthData.table AuthData.persisted
  rw [ExtTreeMap.toList_map, List.filter_map]
  rfl

theorem storeUser_persisted (ns : String) (user : User) :
    (data.persisted codec).storeUser codec ns user =
      AuthData.persisted codec ⟨data.users.insert ⟨ns, user.localId⟩ user, data.sessions⟩ := by
  unfold AuthStore.storeUser AuthData.persisted
  refine congrArg (AuthStore.mk · data.sessions) ?_
  apply ExtTreeMap.ext_getElem?
  intro key
  rw [ExtTreeMap.getElem?_insert, ExtTreeMap.getElem?_map, ExtTreeMap.getElem?_map,
    getElem?_insertUser]
  simp only [LawfulEqOrd.compare_eq_iff_eq]
  split <;> rfl

theorem erase_persisted (key : AccountKey) :
    (data.persisted codec).rows.erase key =
      (data.users.erase key).map fun _ user => userRow codec user := by
  apply ExtTreeMap.ext_getElem?
  intro other
  rw [ExtTreeMap.getElem?_erase, AuthData.persisted, ExtTreeMap.getElem?_map,
    ExtTreeMap.getElem?_map, ExtTreeMap.getElem?_erase]
  split <;> rfl

theorem mem_table {ns : String} {entry : AccountKey × User} :
    entry ∈ data.table ns ↔ data.users[entry.1]? = some entry.2 ∧ entry.1.ns = ns := by
  unfold AuthData.table
  rw [List.mem_filter, ← ExtTreeMap.mem_toList_iff_getElem?_eq_some, beq_iff_eq]

/-- The entry of a row that is the row of a stored user. -/
def entryOf (data : AuthData) (row : AccountKey × AuthRow υ) : Option (AccountKey × User) :=
  data.users[row.1]?.map fun user => (row.1, user)

theorem filterMap_entryOf (ns : String) :
    ((data.persisted codec).table ns).filterMap (entryOf data) = data.table ns := by
  rw [table_persisted, rowsOf, List.filterMap_map]
  have hentry : ∀ entry ∈ data.table ns,
      (entryOf data ∘ fun entry => (entry.1, userRow codec entry.2)) entry = some entry := by
    intro entry hm
    change (data.users[entry.1]?).map _ = _
    rw [(mem_table.mp hm).1]
    rfl
  rw [List.filterMap_congr hentry, List.filterMap_some]

/-- A scan of the rows of a table comes by its entries, in some order. -/
theorem scan_table (codec : UserCodec υ) (order : RowOrder υ) (data : AuthData) (ns : String) :
    ∃ entries : List (AccountKey × User),
    order.scan ((data.persisted codec).table ns) = rowsOf codec entries ∧
      entries.Perm (data.table ns) ∧
      (order.scan ((data.persisted codec).table ns) = (data.persisted codec).table ns →
        entries = data.table ns) := by
  have hperm := order.perm ((data.persisted codec).table ns)
  refine ⟨(order.scan ((data.persisted codec).table ns)).filterMap (entryOf data), ?_, ?_, ?_⟩
  · have hrow : ∀ row ∈ order.scan ((data.persisted codec).table ns),
        (entryOf data row).map (fun entry => (entry.1, userRow codec entry.2)) = some row := by
      intro row hm
      have hm := hperm.mem_iff.mp hm
      rw [table_persisted, rowsOf] at hm
      obtain ⟨entry, he, rfl⟩ := List.mem_map.mp hm
      rw [entryOf, (mem_table.mp he).1]
      rfl
    rw [rowsOf, List.map_filterMap, List.filterMap_congr hrow, List.filterMap_some]
  · have hentries := hperm.filterMap (entryOf data)
    rwa [filterMap_entryOf] at hentries
  · intro hsame
    rw [hsame, filterMap_entryOf]

/-- Over the rows of some entries the check does as over the entries. -/
theorem ensureUniquePersistent_rows (codec : UserCodec υ) (email phone except : Option String)
    (entries : List (AccountKey × User)) :
    ensureUniquePersistent codec email phone except (rowsOf codec entries) =
      ensureUnique email phone except (entries.map fun entry => (entry.1.uid, entry.2)) := by
  induction entries with
  | nil => rfl
  | cons entry entries ih =>
    obtain ⟨key, user⟩ := entry
    change ensureUniquePersistent codec email phone except
      ((key, userRow codec user) :: rowsOf codec entries) = _
    rw [List.map_cons, ensureUniquePersistent, ensureUnique, decodeUser_userRow, ih]

theorem accounts_eq (h : Unique data.users) (ns : String) :
    data.accounts ns = (data.table ns).map fun entry => (entry.1.uid, entry.2) := by
  unfold AuthData.accounts
  refine List.map_congr_left fun entry hm => ?_
  rw [h.keyed entry.1 entry.2 (mem_table.mp hm).1]

/-- What a check over some entries finds: a clash in the email, else one in the phone number. It
depends on the order of the entries only where both are there in different accounts. -/
theorem ensureUnique_eq {email phone except : Option String} {accounts : List (String × User)}
    (h : ∀ entry ∈ accounts, ∀ entry' ∈ accounts, except ≠ some entry.1 →
      except ≠ some entry'.1 → emailTaken email entry.2 = true →
        phoneTaken phone entry'.2 = true → entry = entry') :
    ensureUnique email phone except accounts =
      if accounts.any fun entry => except != some entry.1 && emailTaken email entry.2 then
        .error (badRequest "EMAIL_EXISTS")
      else if accounts.any fun entry => except != some entry.1 && phoneTaken phone entry.2 then
        .error (badRequest "PHONE_NUMBER_EXISTS")
      else .ok () := by
  induction accounts with
  | nil => rfl
  | cons entry accounts ih =>
    have ih := ih fun a ha b hb => h a (List.mem_cons_of_mem _ ha) b (List.mem_cons_of_mem _ hb)
    obtain ⟨uid, user⟩ := entry
    rw [ensureUnique, ih, List.any_cons, List.any_cons]
    by_cases hx : except = some uid
    · have hx' : (except != some uid) = false := by simpa using hx
      simp only [if_pos hx, hx', Bool.false_and, Bool.false_or]
    · have hx' : (except != some uid) = true := by simpa using hx
      rw [if_neg hx]
      cases he : emailTaken email user with
      | true => simp only [hx', Bool.and_true, Bool.true_or, if_true]
      | false =>
        cases hp : phoneTaken phone user with
        | false =>
          simp only [Bool.and_false, Bool.false_or, Bool.false_eq_true, if_false]
        | true =>
          have hnone : accounts.any (fun entry => except != some entry.1 &&
              emailTaken email entry.2) = false := by
            rw [List.any_eq_false]
            intro entry hm ht
            rw [Bool.and_eq_true, bne_iff_ne] at ht
            obtain rfl := h entry (List.mem_cons_of_mem _ hm) (uid, user) List.mem_cons_self
              ht.1 hx ht.2 hp
            rw [he] at ht
            cases ht.2
          simp only [hx', hnone, Bool.and_false, Bool.and_true, Bool.true_or, Bool.false_or,
            Bool.false_eq_true, if_false, if_true]

theorem ensureUnique_table {write : AccountWrite} (h : ¬ Torn data.users write)
    {entries : List (AccountKey × User)} (hperm : entries.Perm (data.table write.ns)) :
    ∀ entry ∈ entries.map (fun entry => (entry.1.uid, entry.2)),
      ∀ entry' ∈ entries.map (fun entry => (entry.1.uid, entry.2)),
        write.target ≠ some entry.1 → write.target ≠ some entry'.1 →
          emailTaken write.request.email entry.2 = true →
            phoneTaken write.request.phoneNumber entry'.2 = true → entry = entry' := by
  intro entry hm entry' hm' hne hne' he hp
  obtain ⟨⟨key, user⟩, hentry, rfl⟩ := List.mem_map.mp hm
  obtain ⟨⟨key', user'⟩, hentry', rfl⟩ := List.mem_map.mp hm'
  obtain ⟨hu, hns⟩ := mem_table.mp (hperm.mem_iff.mp hentry)
  obtain ⟨hu', hns'⟩ := mem_table.mp (hperm.mem_iff.mp hentry')
  have hkey : key = key' := by
    by_contra hk
    exact h ⟨key, key', user, user', hu, hu', hns, hns', hk, hne, hne', he, hp⟩
  subst hkey
  obtain rfl : user = user' := Option.some.inj (hu.symm.trans hu')
  rfl

/-- The checks of the two backends find the same, unless the email is of one account, the phone
number of another, and SQLite comes by the rows in an order of its own. -/
theorem check_persisted (codec : UserCodec υ) (order : RowOrder υ) (h : Unique data.users)
    (write : AccountWrite) :
    let found := ensureUnique write.request.email write.request.phoneNumber write.target
      (data.accounts write.ns)
    let found' := ensureUniquePersistent codec write.request.email write.request.phoneNumber
      write.target (order.scan ((data.persisted codec).table write.ns))
    found' = found ∨ (Torn data.users write ∧ (∃ rows, order.scan rows ≠ rows) ∧
      ∃ error error', found = .error error ∧ found' = .error error' ∧ Conflict error ∧
        Conflict error') := by
  intro found found'
  obtain ⟨entries, hscan, hperm, hsame⟩ :=
    scan_table codec order data write.ns
  have hfound : found = ensureUnique write.request.email write.request.phoneNumber write.target
      ((data.table write.ns).map fun entry => (entry.1.uid, entry.2)) := by
    rw [← accounts_eq h]
  have hfound' : found' = ensureUnique write.request.email write.request.phoneNumber write.target
      (entries.map fun entry => (entry.1.uid, entry.2)) := by
    rw [← ensureUniquePersistent_rows codec, ← hscan]
  by_cases htorn : Torn data.users write
  · by_cases horder : order.scan ((data.persisted codec).table write.ns) =
        (data.persisted codec).table write.ns
    · left
      rw [hfound, hfound', hsame horder]
    · refine .inr ⟨htorn, ⟨_, horder⟩, ?_⟩
      obtain ⟨key, -, user, -, hu, -, hns, -, -, hne, -, he, -⟩ := htorn
      have hrefused : ∀ entries : List (AccountKey × User),
          entries.Perm (data.table write.ns) → ∃ error,
            ensureUnique write.request.email write.request.phoneNumber write.target
              (entries.map fun entry => (entry.1.uid, entry.2)) = .error error ∧
                Conflict error := by
        intro entries hperm
        cases hc : ensureUnique write.request.email write.request.phoneNumber write.target
            (entries.map fun entry => (entry.1.uid, entry.2)) with
        | error error => exact ⟨error, rfl, ensureUnique_error hc⟩
        | ok =>
          have hm : (key.uid, user) ∈ entries.map fun entry => (entry.1.uid, entry.2) :=
            List.mem_map.mpr ⟨(key, user), hperm.mem_iff.mpr (mem_table.mpr ⟨hu, hns⟩), rfl⟩
          have hfree := (ensureUnique_ok.mp hc _ hm hne).1
          rw [he] at hfree
          cases hfree
      obtain ⟨error, hr, hconflict⟩ := hrefused _ (.refl _)
      obtain ⟨error', hr', hconflict'⟩ := hrefused _ hperm
      exact ⟨error, error', hfound.trans hr, hfound'.trans hr', hconflict, hconflict'⟩
  · left
    have hlists := hperm.map fun entry : AccountKey × User => (entry.1.uid, entry.2)
    rw [hfound, hfound', ensureUnique_eq (ensureUnique_table htorn hperm),
      ensureUnique_eq (ensureUnique_table htorn (.refl _)), hlists.any_eq, hlists.any_eq]

/-- The answers may name different conflicts: the email that the request asks for is one account's
and the phone number another's, and the rows do not come in the order of their keys. -/
def Differ (config : AuthConfig) (order : RowOrder υ) (data : AuthData) (call : AuthCall)
    (memory sqlite : ApiResult) : Prop :=
  ∃ write, data.writes config call = some write ∧ Torn data.users write ∧
    (∃ rows, order.scan rows ≠ rows) ∧ ∃ error error', memory = .error error ∧
      sqlite = .error error' ∧ Conflict error ∧ Conflict error'

/-- The persistent backend answers like the in-memory one and ends in the state that holds what
the other has. -/
def Simulates (config : AuthConfig) (codec : UserCodec υ) (order : RowOrder υ) (data : AuthData)
    (call : AuthCall) (memory : ApiResult × AuthData) (sqlite : ApiResult × AuthStore υ) : Prop :=
  (sqlite.1 = memory.1 ∨ Differ config order data call memory.1 sqlite.1) ∧
    sqlite.2 = memory.2.persisted codec

variable {call : AuthCall}

theorem Simulates.same {memory : ApiResult × AuthData} {sqlite : ApiResult × AuthStore υ}
    (h : sqlite = (memory.1, memory.2.persisted codec)) :
    Simulates config codec order data call memory sqlite := by
  subst h
  exact ⟨.inl rfl, rfl⟩

theorem sessionUser_persisted (ns token : String) (now : Instant) :
    (data.persisted codec).sessionUser config codec ns token now =
      ((data.sessionUser config ns token now).1,
        (data.sessionUser config ns token now).2.persisted codec) := by
  unfold AuthStore.sessionUser AuthData.sessionUser
  rw [sessions_persisted]
  cases data.sessions[token]? with
  | none => rfl
  | some session =>
    simp only [loadUser_persisted]
    cases data.users[(⟨ns, session.uid⟩ : AccountKey)]? with
    | none => rfl
    | some user =>
      dsimp only
      split
      · rfl
      · split
        · rfl
        · rfl

theorem refreshToken_persisted (request : RefreshRequest) (now : Instant) (draws : Draws) :
    (data.persisted codec).refreshToken config codec request now draws =
      ((data.refreshToken config request now draws).1,
        (data.refreshToken config request now draws).2.persisted codec) := by
  unfold AuthStore.refreshToken AuthData.refreshToken
  split
  · rfl
  · cases request.refreshToken with
    | none => rfl
    | some refresh =>
      dsimp only
      split
      · rfl
      · rw [sessions_persisted]
        cases data.sessions[refresh]? with
        | none => rfl
        | some session =>
          dsimp only
          split
          · rfl
          · simp only [loadUser_persisted]
            cases data.users[(⟨session.ns, session.uid⟩ : AccountKey)]? with
            | none => rfl
            | some user =>
              dsimp only
              cases checkRefresh session user with
              | error error => rfl
              | ok user => rfl

theorem mapM_decodeUser (entries : List (AccountKey × User)) :
    (rowsOf codec entries).mapM (fun row => decodeUser codec row.2) =
      .ok (entries.map Prod.snd) := by
  induction entries with
  | nil => rfl
  | cons entry entries ih =>
    change ((entry.1, userRow codec entry.2) :: rowsOf codec entries).mapM
      (fun row => decodeUser codec row.2) = _
    rw [List.mapM_cons, decodeUser_userRow, ih]
    rfl

theorem select_persisted (ns : String) (keep : User → Bool) :
    (data.persisted codec).select codec ns keep =
      .ok (((data.table ns).map Prod.snd).filter keep) := by
  unfold AuthStore.select
  rw [table_persisted, mapM_decodeUser]
  rfl

theorem listUsers_persisted (ns : String) (limit : Nat) :
    (data.persisted codec).listUsers codec ns limit =
      ((data.listUsers ns limit).1, (data.listUsers ns limit).2.persisted codec) := by
  have htake : (rowsOf codec (data.table ns)).take (min limit 1000) =
      rowsOf codec ((data.table ns).take (min limit 1000)) := List.map_take.symm
  unfold AuthStore.listUsers AuthData.listUsers
  rw [table_persisted, htake, mapM_decodeUser, ← List.map_take]
  simp only [Except.map, List.map_map]
  rfl

theorem lookupAccounts_persisted (ns : String) (request : LookupRequest) (now : Instant) :
    (data.persisted codec).lookupAccounts config codec ns request now =
      ((data.lookupAccounts config ns request now).1,
        (data.lookupAccounts config ns request now).2.persisted codec) := by
  unfold AuthStore.lookupAccounts AuthData.lookupAccounts
  cases request.idToken with
  | none =>
    simp only [select_persisted]
    rfl
  | some token =>
    simp only [sessionUser_persisted]
    cases hs : data.sessionUser config ns token now with
    | mk result data' =>
      cases result with
      | error error => rfl
      | ok user =>
        simp only [select_persisted]
        rfl

theorem deleteKnown_persisted (ns localId : String) :
    (data.persisted codec).deleteKnown ns localId =
      ((data.deleteKnown ns localId).1, (data.deleteKnown ns localId).2.persisted codec) := by
  unfold AuthStore.deleteKnown AuthData.deleteKnown
  rw [contains_persisted]
  split
  · rw [erase_persisted]
    refine congrArg (Prod.mk _) (congrArg (AuthStore.mk _) ?_)
    refine congrArg (fun keep => ExtTreeMap.filter keep data.sessions) (funext₂ fun _ session => ?_)
    exact Bool.not_and _ _
  · rfl

theorem deleteAccount_persisted (ns : String) (request : DeleteRequest) (now : Instant) :
    (data.persisted codec).deleteAccount config codec ns request now =
      ((data.deleteAccount config ns request now).1,
        (data.deleteAccount config ns request now).2.persisted codec) := by
  unfold AuthStore.deleteAccount AuthData.deleteAccount
  cases request.idToken with
  | none => exact deleteKnown_persisted ns request.localId
  | some token =>
    simp only [sessionUser_persisted]
    cases hs : data.sessionUser config ns token now with
    | mk result data' =>
      cases result with
      | error error => rfl
      | ok user => exact deleteKnown_persisted ns user.localId

theorem prepareAccount_fields {request : WriteAccountRequest} {now : Instant} {draws : Draws}
    {user : User} (h : prepareAccount request now draws = .ok user) :
    user.email = request.email ∧ user.phoneNumber = request.phoneNumber := by
  obtain ⟨localId, rfl, -⟩ := prepareAccount_ok h
  simp [newUser]

/-- A new account is refused by both backends, or stored by both. -/
theorem insertAccount_persisted (codec : UserCodec υ) (order : RowOrder υ)
    (h : Unique data.users) (ns : String)
    {request : WriteAccountRequest} {user : User} {now : Instant} {draws : Draws}
    (hp : prepareAccount request now draws = .ok user) (new : List (String × Session)) :
    (∃ error error', data.createAccount ns request now draws = (.error error, data) ∧
      (data.persisted codec).insertAccount codec order ns user new now = .error error' ∧
      (error' = error ∨ Torn data.users ⟨ns, request, none⟩ ∧ (∃ rows, order.scan rows ≠ rows) ∧
        Conflict error ∧ Conflict error')) ∨
    data.createAccount ns request now draws =
      (.ok user, ⟨data.users.insert ⟨ns, user.localId⟩ user, data.sessions⟩) ∧
    (data.persisted codec).insertAccount codec order ns user new now =
      .ok (AuthData.persisted codec ⟨data.users.insert ⟨ns, user.localId⟩ user,
        if new.isEmpty then data.sessions
        else insertSessions data.sessions new now.unixSeconds⟩) := by
  obtain ⟨hemail, hphone⟩ := prepareAccount_fields hp
  have hcheck := check_persisted codec order h ⟨ns, request, none⟩
  unfold AuthData.createAccount AuthStore.insertAccount
  simp only [hp, loadUser_persisted, hemail, hphone, ExtTreeMap.contains_eq_isSome_getElem?]
  dsimp only at hcheck
  cases hu : data.users[(⟨ns, user.localId⟩ : AccountKey)]? with
  | some other => exact .inl ⟨_, _, rfl, rfl, .inl rfl⟩
  | none =>
    simp only [Option.isSome_none, Bool.false_eq_true, if_false]
    cases hfound : ensureUnique request.email request.phoneNumber none (data.accounts ns) with
    | error error =>
      left
      rw [hfound] at hcheck
      rcases hcheck with hsame | ⟨htorn, horder, error, error', he, he', hc, hc'⟩
      · rw [hsame]
        exact ⟨error, error, rfl, rfl, .inl rfl⟩
      · rw [he']
        obtain rfl := Except.error.inj he
        exact ⟨_, error', rfl, rfl, .inr ⟨htorn, horder, hc, hc'⟩⟩
    | ok =>
      right
      rw [hfound] at hcheck
      rcases hcheck with hsame | ⟨-, -, error, -, he, -⟩
      · rw [hsame]
        simp only [storeUser_persisted]
        refine ⟨trivial, congrArg Except.ok ?_⟩
        cases new.isEmpty <;> rfl
      · cases he

theorem createAccount_persisted (h : Unique data.users) {project : Option String}
    {request : WriteAccountRequest} (hr : call.request = .createAccount project request) :
    Simulates config codec order data call
      (match data.createAccount (config.ns project) request call.now call.draws with
        | (.error error, data) => (.error error, data)
        | (.ok user, data) => (.ok (.user user.shown none), data))
      ((data.persisted codec).createAccount codec order (config.ns project) request call.now
        call.draws) := by
  unfold AuthStore.createAccount
  cases hp : prepareAccount request call.now call.draws with
  | error error =>
    refine .same ?_
    rw [AuthData.createAccount, hp]
  | ok user =>
    obtain ⟨error, error', hm, hs, hsame⟩ | ⟨hm, hs⟩ :=
      insertAccount_persisted codec order h (config.ns project) hp []
    · simp only [hm, hs]
      refine ⟨?_, rfl⟩
      rcases hsame with rfl | ⟨htorn, horder, hc, hc'⟩
      · exact .inl rfl
      · refine .inr ⟨_, ?_, htorn, horder, error, error', rfl, rfl, hc, hc'⟩
        rw [AuthData.writes, hr]
    · simp only [hm, hs]
      exact .same rfl

theorem signUp_persisted (h : Unique data.users) {request : WriteAccountRequest}
    (hr : call.request = .signUp request) :
    Simulates config codec order data call (data.signUp config request call.now call.draws)
      ((data.persisted codec).signUp config codec order request call.now call.draws) := by
  unfold AuthStore.signUp AuthData.signUp
  split
  · exact .same rfl
  · rename_i hpassword
    cases hp : prepareAccount request call.now call.draws with
    | error error =>
      refine .same ?_
      rw [AuthData.createAccount, hp]
    | ok user =>
      obtain ⟨error, error', hm, hs, hsame⟩ | ⟨hm, hs⟩ :=
        insertAccount_persisted codec order h (config.ns none) hp
          (sessionBundle config.tokens (config.ns none) user call.now.unixSeconds
            call.draws.refresh).2
      · simp only [hm, hs]
        refine ⟨?_, rfl⟩
        rcases hsame with rfl | ⟨htorn, horder, hc, hc'⟩
        · exact .inl rfl
        · refine .inr ⟨_, ?_, htorn, horder, error, error', rfl, rfl, hc, hc'⟩
          rw [AuthData.writes, hr]
          exact if_neg hpassword
      · have hread : ((data.users.insert ⟨config.ns none, user.localId⟩ user)[
            (⟨config.ns none, user.localId⟩ : AccountKey)]?).getD user = user := by
          rw [getElem?_insertUser, if_pos rfl]
          rfl
        simp only [hm, hs, hread]
        exact .same rfl

/-- Where at most one element has the property, a search does not depend on the order. -/
theorem find?_perm {α : Type} {l l' : List α} {p : α → Bool} (hperm : l.Perm l')
    (h : ∀ a ∈ l, ∀ b ∈ l, p a = true → p b = true → a = b) : l.find? p = l'.find? p := by
  cases hl : l.find? p with
  | none =>
    rw [List.find?_eq_none] at hl
    exact (List.find?_eq_none.mpr fun a hm => hl a (hperm.mem_iff.mpr hm)).symm
  | some a =>
    have hm := List.mem_of_find?_eq_some hl
    have ha := List.find?_some hl
    cases hl' : l'.find? p with
    | none => exact absurd ha (List.find?_eq_none.mp hl' a (hperm.mem_iff.mp hm))
    | some b =>
      have hb := List.find?_some hl'
      rw [h a hm b (hperm.mem_iff.mpr (List.mem_of_find?_eq_some hl')) ha hb]

/-- Both backends find the same account for an email. -/
theorem findEmail_persisted (h : Unique data.users) (ns email : String) :
    (order.scan ((data.persisted codec).table ns)).find? (fun entry =>
        (codec.email entry.2.userJson).any fun current => asciiLower current == asciiLower email) =
      ((data.table ns).find? fun entry =>
        entry.2.email.any fun current => eqIgnoreAsciiCase current email).map fun entry =>
          (entry.1, userRow codec entry.2) := by
  obtain ⟨entries, hscan, hperm, -⟩ :=
    scan_table codec order data ns
  have hone : ∀ a ∈ entries, ∀ b ∈ entries,
      (a.2.email.any fun current => eqIgnoreAsciiCase current email) = true →
        (b.2.email.any fun current => eqIgnoreAsciiCase current email) = true → a = b := by
    intro a ha b hb hta htb
    obtain ⟨hua, hna⟩ := mem_table.mp (hperm.mem_iff.mp ha)
    obtain ⟨hub, hnb⟩ := mem_table.mp (hperm.mem_iff.mp hb)
    obtain ⟨ea, hea, hla⟩ := (Option.any_eq_true _ _).mp hta
    obtain ⟨eb, heb, hlb⟩ := (Option.any_eq_true _ _).mp htb
    have htaken : emailTaken a.2.email b.2 = true := by
      refine emailTaken_eq_true.mpr ⟨ea, eb, hea, heb, ?_⟩
      rw [eqIgnoreAsciiCase, beq_iff_eq] at hla hlb ⊢
      exact hla.trans hlb.symm
    have hkey : a.1 = b.1 := by
      by_contra hne
      have hapart := h.apart a.1 b.1 a.2 b.2 hua hub (hna.trans hnb.symm) hne
      rw [clash, htaken] at hapart
      cases hapart
    refine Prod.ext hkey ?_
    rw [hkey] at hua
    exact Option.some.inj (hua.symm.trans hub)
  rw [hscan, ← find?_perm hperm hone, rowsOf, List.find?_map]
  refine congrArg (Option.map _) (congrArg (fun p => List.find? p entries) (funext fun entry => ?_))
  simp only [Function.comp_apply, userRow, codec.email_encode]
  rfl

theorem signIn_persisted (h : Unique data.users) (request : WriteAccountRequest) (now : Instant)
    (draws : Draws) :
    (data.persisted codec).signIn config codec order request now draws =
      ((data.signIn config request now draws).1,
        (data.signIn config request now draws).2.persisted codec) := by
  unfold AuthStore.signIn AuthData.signIn
  cases request.email with
  | none => rfl
  | some email =>
    cases request.password with
    | none => rfl
    | some password =>
      simp only [findEmail_persisted h]
      cases hfind : (data.table (config.ns none)).find? fun entry =>
          entry.2.email.any fun current => eqIgnoreAsciiCase current email with
      | none => rfl
      | some entry =>
        obtain ⟨key, user⟩ := entry
        obtain ⟨hu, hns⟩ := mem_table.mp (List.mem_of_find?_eq_some hfind)
        have hkey : key = ⟨config.ns none, user.localId⟩ := by
          rw [h.keyed key user hu, ← hns]
        simp only [Option.map_some, decodeUser_userRow]
        split
        · rfl
        · split
          · rfl
          · subst hkey
            simp only [storeUser_persisted]
            rfl

theorem updateKnown_persisted (config : AuthConfig) (codec : UserCodec υ) (order : RowOrder υ)
    (h : Unique data.users) (ns : String)
    (request : WriteAccountRequest) (browser : Bool) (now : Instant) (draws : Draws) :
    (data.persisted codec).updateKnown config codec order ns request browser now draws =
        ((data.updateKnown config ns request browser now draws).1,
          (data.updateKnown config ns request browser now draws).2.persisted codec) ∨
      ∃ localId error error', request.localId = some localId ∧
        Torn data.users ⟨ns, request, some localId⟩ ∧ (∃ rows, order.scan rows ≠ rows) ∧
        data.updateKnown config ns request browser now draws = (.error error, data) ∧
        (data.persisted codec).updateKnown config codec order ns request browser now draws =
          (.error error', data.persisted codec) ∧ Conflict error ∧ Conflict error' := by
  unfold AuthStore.updateKnown AuthData.updateKnown
  cases validateCredentials request with
  | error error => exact .inl rfl
  | ok =>
    cases request.localId with
    | none => exact .inl rfl
    | some localId =>
      simp only [loadUser_persisted]
      cases hu : data.users[(⟨ns, localId⟩ : AccountKey)]? with
      | none => exact .inl rfl
      | some user =>
        have hid : (applyUpdate user request).localId = localId :=
          (applyUpdate_fields user request).1.trans (h.keyed _ _ hu)
        have hcheck := check_persisted codec order h
          ⟨ns, request, some localId⟩
        dsimp only at hcheck ⊢
        rcases hcheck with hsame | ⟨htorn, horder, error, error', he, he', hc, hc'⟩
        · left
          rw [hsame]
          cases ensureUnique request.email request.phoneNumber (some localId)
              (data.accounts ns) with
          | error error => rfl
          | ok =>
            cases browser with
            | false =>
              simp only [storeUser_persisted, hid]
              rfl
            | true =>
              have hstore : ({ data.persisted codec with
                  sessions := insertSessions (data.persisted codec).sessions
                    (sessionBundle config.tokens ns (applyUpdate user request) now.unixSeconds
                      draws.refresh).2 now.unixSeconds } : AuthStore υ) =
                  AuthData.persisted codec ⟨data.users, insertSessions data.sessions
                    (sessionBundle config.tokens ns (applyUpdate user request) now.unixSeconds
                      draws.refresh).2 now.unixSeconds⟩ := rfl
              simp only [if_true, hstore, storeUser_persisted, hid]
              rfl
        · right
          rw [he, he']
          exact ⟨localId, error, error', rfl, htorn, horder, rfl, rfl, hc, hc'⟩

theorem updateAccount_persisted (h : Unique data.users) {project : Option String}
    {request : WriteAccountRequest} (hr : call.request = .updateAccount project request) :
    Simulates config codec order data call
      (data.updateAccount config (config.ns project) request call.now call.draws)
      ((data.persisted codec).updateAccount config codec order (config.ns project) request
        call.now call.draws) := by
  unfold AuthStore.updateAccount AuthData.updateAccount
  cases ht : request.idToken with
  | none =>
    obtain hsame | ⟨localId, error, error', hid, htorn, horder, hm, hs, hc, hc'⟩ :=
      updateKnown_persisted config codec order h
        (config.ns project) request false call.now call.draws
    · exact .same hsame
    · simp only [hm, hs]
      refine ⟨.inr ⟨_, ?_, htorn, horder, error, error', rfl, rfl, hc, hc'⟩, rfl⟩
      rw [AuthData.writes, hr]
      dsimp only
      rw [ht, hid]
      rfl
  | some token =>
    simp only [sessionUser_persisted]
    obtain ⟨error, hs⟩ | ⟨error, session, -, -, hs⟩ | ⟨session, user, -, -, -, -, -, -, hs⟩ :=
      sessionUser_cases config data (config.ns project) token call.now
    · rw [hs]
      exact .same rfl
    · rw [hs]
      exact .same rfl
    · rw [hs]
      obtain hsame | ⟨localId, error, error', hid, htorn, horder, hm, hs', hc, hc'⟩ :=
        updateKnown_persisted config codec order h
          (config.ns project) { request with localId := some user.localId, idToken := some token }
          true call.now call.draws
      · exact .same hsame
      · simp only [hm, hs']
        obtain rfl := Option.some.inj hid
        refine ⟨.inr ⟨⟨config.ns project, request, some user.localId⟩, ?_, htorn, horder, error,
          error', rfl, rfl, hc, hc'⟩, rfl⟩
        rw [AuthData.writes, hr]
        dsimp only
        rw [ht]
        dsimp only
        rw [hs]
        rfl

/-- On the state that holds what the in-memory one does, the persistent backend does the same. -/
theorem handle_persisted (config : AuthConfig) (codec : UserCodec υ) (order : RowOrder υ)
    (h : Unique data.users) (call : AuthCall) :
    Simulates config codec order data call (data.handle config call)
      ((data.persisted codec).handle config codec order call) := by
  cases hr : call.request with
  | createAccount project request =>
    simp only [AuthStore.handle, AuthData.handle, hr]
    exact createAccount_persisted h hr
  | signUp request =>
    simp only [AuthStore.handle, AuthData.handle, hr]
    exact signUp_persisted h hr
  | signIn request =>
    simp only [AuthStore.handle, AuthData.handle, hr]
    exact .same (signIn_persisted h request _ _)
  | refreshToken request =>
    simp only [AuthStore.handle, AuthData.handle, hr]
    exact .same (refreshToken_persisted request _ _)
  | lookupAccounts project request =>
    simp only [AuthStore.handle, AuthData.handle, hr]
    exact .same (lookupAccounts_persisted _ request _)
  | updateAccount project request =>
    simp only [AuthStore.handle, AuthData.handle, hr]
    exact updateAccount_persisted h hr
  | deleteAccount project request =>
    simp only [AuthStore.handle, AuthData.handle, hr]
    exact .same (deleteAccount_persisted _ request _)
  | listUsers project limit =>
    simp only [AuthStore.handle, AuthData.handle, hr]
    exact .same (listUsers_persisted _ limit)

theorem empty_persisted : AuthData.empty.persisted codec = .empty := by
  refine congrArg (AuthStore.mk · ∅) ?_
  apply ExtTreeMap.ext_getElem?
  intro key
  rw [ExtTreeMap.getElem?_map]
  rw [show AuthData.empty.users[key]? = none from ExtTreeMap.getElem?_empty]
  exact ExtTreeMap.getElem?_empty.symm

/-- The state of the persistent backend after a run. -/
def AuthStore.run (config : AuthConfig) (codec : UserCodec υ) (order : RowOrder υ)
    (calls : List AuthCall) : AuthStore υ :=
  calls.foldl (fun store call => (store.handle config codec order call).2) .empty

/-- After any run the persistent backend holds what the in-memory one does. -/
theorem run_persisted (config : AuthConfig) (codec : UserCodec υ) (order : RowOrder υ)
    (calls : List AuthCall) :
    AuthStore.run config codec order calls = (AuthData.run config calls).persisted codec := by
  induction calls using List.reverseRecOn with
  | nil => exact empty_persisted.symm
  | append_singleton calls call ih =>
    have hstore : AuthStore.run config codec order (calls ++ [call]) =
        ((AuthStore.run config codec order calls).handle config codec order call).2 :=
      List.foldl_concat ..
    have hdata : AuthData.run config (calls ++ [call]) =
        ((AuthData.run config calls).handle config call).2 := List.foldl_concat ..
    rw [hstore, hdata, ih]
    exact (handle_persisted config codec order (sound_run config calls).unique call).2

/-- Over every run from empty stores both backends answer each request alike, but for one case:
where the email that is asked for is one account's and the phone number another's, each refuses
and may name either, as the rows of the accounts come in no fixed order. -/
theorem auth_backends_agree (config : AuthConfig) (codec : UserCodec υ) (order : RowOrder υ)
    (calls : List AuthCall) (call : AuthCall) :
    let data := AuthData.run config calls
    let memory := (data.handle config call).1
    let sqlite := ((AuthStore.run config codec order calls).handle config codec order call).1
    (sqlite = memory ∨ Differ config order data call memory sqlite) ∧
    ((∀ rows, order.scan rows = rows) → sqlite = memory) := by
  intro data memory sqlite
  have hagree : sqlite = memory ∨ Differ config order data call memory sqlite := by
    have hstep := (handle_persisted config codec order
      (sound_run config calls).unique call).1
    rwa [← run_persisted config codec order calls] at hstep
  refine ⟨hagree, fun hordered => ?_⟩
  rcases hagree with hsame | ⟨-, -, -, ⟨rows, hrows⟩, -⟩
  · exact hsame
  · exact absurd (hordered rows) hrows

/-- Users that are their own text. -/
def plainUserCodec : UserCodec User where
  encode := User.shown
  decode := .ok
  email := User.email
  decode_encode _ := rfl
  email_encode _ := rfl

/-- The order of the index on the namespace and the email. -/
def emailOrder : RowOrder User where
  scan rows := rows.insertionSort fun a b =>
    a.2.userJson.email.getD "" ≤ b.2.userJson.email.getD ""
  perm rows := List.perm_insertionSort _ rows

def sampleConfig : AuthConfig := ⟨Payload.plainTokenCodec, id, "demo"⟩

def sampleAccount (localId email phone : String) : AuthCall where
  request := .createAccount none {
    localId := some localId, email := some email, emailVerified := none, displayName := none
    photoUrl := none, phoneNumber := some phone, disabled := none, disableUser := none
    customAttributes := none, validSince := none, deleteAttribute := [], deleteProvider := []
    linkProviderUserInfo := [], providerUserInfo := [], mfa := [], mfaInfo := []
    password := none, idToken := none }
  now := ⟨1000000, by decide⟩
  draws := ⟨"drawn", "refresh"⟩

/-- The text of a refusal. -/
def refusal : ApiResult → String
  | .error error => error.message
  | .ok _ => ""

/-- A request that asks for the email of the one account and the phone number of the other. -/
theorem auth_backends_name_different_conflicts :
    ¬ ∀ (order : RowOrder User) (calls : List AuthCall) (call : AuthCall),
      ((AuthStore.run sampleConfig plainUserCodec order calls).handle sampleConfig plainUserCodec
        order call).1 = ((AuthData.run sampleConfig calls).handle sampleConfig call).1 := by
  intro h
  have heq := congrArg refusal (h emailOrder
    [sampleAccount "a" "z@x" "1", sampleAccount "b" "a@x" "2"] (sampleAccount "c" "a@x" "1"))
  revert heq
  decide

end FirebaseEmu.Auth
