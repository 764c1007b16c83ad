import FirebaseEmu.Auth.Agreement

namespace FirebaseEmu.Auth
open Lib Std

variable {υ : Type} {config : AuthConfig} {data data' : AuthData} {call : AuthCall}

/-- The user that a request asks to store, and where, before any check against the others. -/
def AuthData.proposed (config : AuthConfig) (data : AuthData) (call : AuthCall) :
    Option (AccountKey × User) :=
  (data.writes config call).bind fun write =>
    match write.target with
    | none => (prepareAccount write.request call.now call.draws).toOption.map fun user =>
        (⟨write.ns, user.localId⟩, user)
    | some localId => (data.users[(⟨write.ns, localId⟩ : AccountKey)]?).map fun user =>
        (⟨write.ns, localId⟩, applyUpdate user write.request)

theorem createAccount_ok {ns : String} {request : WriteAccountRequest} {now : Instant}
    {draws : Draws} {user : User}
    (h : data.createAccount ns request now draws = (.ok user, data')) :
    prepareAccount request now draws = .ok user ∧
      data'.users = data.users.insert ⟨ns, user.localId⟩ user := by
  unfold AuthData.createAccount at h
  split at h
  · cases h
  · rename_i prepared hp
    split at h
    · cases h
    · split at h
      · cases h
      · obtain ⟨hu, rfl⟩ := Prod.mk.inj h
        obtain rfl := Except.ok.inj hu
        exact ⟨hp, rfl⟩

theorem signUp_ok {request : WriteAccountRequest} {now : Instant} {draws : Draws}
    {reply : AuthReply} (h : data.signUp config request now draws = (.ok reply, data')) :
    ∃ user, prepareAccount request now draws = .ok user ∧
      data'.users = data.users.insert ⟨config.ns none, user.localId⟩ user := by
  unfold AuthData.signUp at h
  split at h
  · cases h
  · split at h
    · cases h
    · rename_i created stored hc
      obtain ⟨hp, hu⟩ := createAccount_ok hc
      obtain ⟨-, rfl⟩ := Prod.mk.inj h
      exact ⟨created, hp, hu⟩

theorem updateKnown_ok {ns : String} {request : WriteAccountRequest} {browser : Bool}
    {now : Instant} {draws : Draws} {reply : AuthReply}
    (h : data.updateKnown config ns request browser now draws = (.ok reply, data')) :
    ∃ localId user, request.localId = some localId ∧
      data.users[(⟨ns, localId⟩ : AccountKey)]? = some user ∧
      data'.users = data.users.insert ⟨ns, localId⟩ (applyUpdate user request) := by
  unfold AuthData.updateKnown at h
  split at h
  · cases h
  · split at h
    · cases h
    · rename_i localId hid
      split at h
      · cases h
      · rename_i user hu
        split at h
        · cases h
        · dsimp only at h
          split at h
          · obtain ⟨-, rfl⟩ := Prod.mk.inj h
            exact ⟨localId, user, hid, hu, rfl⟩
          · obtain ⟨-, rfl⟩ := Prod.mk.inj h
            exact ⟨localId, user, hid, hu, rfl⟩

/-- A request that is served has stored what it proposed. -/
theorem proposed_stored {reply : AuthReply} {key : AccountKey} {user : User}
    (h : data.handle config call = (.ok reply, data'))
    (hp : data.proposed config call = some (key, user)) :
    data'.users = data.users.insert key user := by
  unfold AuthData.proposed AuthData.writes at hp
  unfold AuthData.handle at h
  split at h
  · rename_i project request hr
    simp only [hr, Option.bind_some] at hp
    split at h
    · cases h
    · rename_i created stored hc
      obtain ⟨-, rfl⟩ := Prod.mk.inj h
      obtain ⟨hprepare, hu⟩ := createAccount_ok hc
      rw [hprepare] at hp
      obtain ⟨rfl, rfl⟩ := Prod.mk.inj (Option.some.inj hp)
      exact hu
  · rename_i request hr
    obtain ⟨created, hprepare, hu⟩ := signUp_ok h
    simp only [hr] at hp
    split at hp
    · cases hp
    · simp only [Option.bind_some, hprepare] at hp
      obtain ⟨rfl, rfl⟩ := Prod.mk.inj (Option.some.inj hp)
      exact hu
  · rename_i hr
    simp only [hr] at hp
    cases hp
  · rename_i hr
    simp only [hr] at hp
    cases hp
  · rename_i hr
    simp only [hr] at hp
    cases hp
  · rename_i project request hr
    unfold AuthData.updateAccount at h
    simp only [hr] at hp
    cases ht : request.idToken with
    | none =>
      rw [ht] at h hp
      obtain ⟨localId, old, hid, hold, hu⟩ := updateKnown_ok h
      simp only [hid, Option.map_some, Option.bind_some, hold] at hp
      obtain ⟨rfl, rfl⟩ := Prod.mk.inj (Option.some.inj hp)
      exact hu
    | some token =>
      rw [ht] at h hp
      dsimp only at h hp
      obtain ⟨error, hs⟩ | ⟨error, session, -, -, hs⟩ | ⟨session, found, -, -, -, -, -, -, hs⟩ :=
        sessionUser_cases config data (config.ns project) token call.now
      · rw [hs] at h
        cases h
      · rw [hs] at h
        cases h
      · rw [hs] at h hp
        obtain ⟨localId, old, hid, hold, hu⟩ := updateKnown_ok h
        obtain rfl := Option.some.inj hid
        simp only [Except.toOption, Option.map_some, Option.bind_some, hold] at hp
        obtain ⟨rfl, rfl⟩ := Prod.mk.inj (Option.some.inj hp)
        exact hu
  · rename_i hr
    simp only [hr] at hp
    cases hp
  · rename_i hr
    simp only [hr] at hp
    cases hp

/-- A refusal leaves the users. -/
theorem Effect.refused_users {error : ApiError}
    (h : Effect config call data (.error error) data') : data'.users = data.users := by
  cases h with
  | refused => rfl
  | dropped => rfl

/-- What would break uniqueness is refused. -/
theorem refused_of_breaks (h : Sound data) {key : AccountKey} {user : User}
    (hp : data.proposed config call = some (key, user))
    (hbreaks : ¬ Unique (data.users.insert key user)) :
    ∃ error, (data.handle config call).1 = .error error := by
  have heffect := handle_effect config h call
  cases hr : (data.handle config call).1 with
  | error error => exact ⟨error, rfl⟩
  | ok reply =>
    have hhandle : data.handle config call = (.ok reply, (data.handle config call).2) :=
      Prod.ext hr rfl
    have hu := proposed_stored hhandle hp
    exact absurd (hu ▸ heffect.unique h.unique) hbreaks

/-- Whether the other backend refuses is the same. -/
theorem Simulates.refused {codec : UserCodec υ} {order : RowOrder υ}
    {memory : ApiResult × AuthData} {sqlite : ApiResult × AuthStore υ}
    (h : Simulates config codec order data call memory sqlite) :
    (∃ error, memory.1 = .error error) ↔ ∃ error, sqlite.1 = .error error := by
  rcases h.1 with hsame | ⟨-, -, -, -, error, error', hm, hs, -⟩
  · rw [hsame]
  · exact ⟨fun _ => ⟨error', hs⟩, fun _ => ⟨error, hm⟩⟩

/-- After every run, in either backend, every user stands under its own local id and no two of a
namespace have the same email, up to the case of ASCII letters, or the same phone number. A
request that would store a user against this is refused, and no refusal changes the users. -/
theorem auth_users_unique (config : AuthConfig) (codec : UserCodec υ) (order : RowOrder υ)
    (calls : List AuthCall) (call : AuthCall) :
    let data := AuthData.run config calls
    let store := AuthStore.run config codec order calls
    let memory := data.handle config call
    let sqlite := store.handle config codec order call
    Unique data.users ∧ store.rows = data.users.map (fun _ user => userRow codec user) ∧
    ((∃ error, memory.1 = .error error) → memory.2.users = data.users) ∧
    ((∃ error, sqlite.1 = .error error) → sqlite.2.rows = store.rows) ∧
    ∀ key user, data.proposed config call = some (key, user) →
      ¬ Unique (data.users.insert key user) →
        (∃ error, memory.1 = .error error) ∧ ∃ error, sqlite.1 = .error error := by
  intro data store memory sqlite
  have hsound := sound_run config calls
  have hstore : store = data.persisted codec := run_persisted config codec order calls
  have hsimulates : Simulates config codec order data call memory sqlite := by
    have hstep := handle_persisted config codec order
      hsound.unique call
    rwa [← run_persisted config codec order calls] at hstep
  have hkept : (∃ error, memory.1 = .error error) → memory.2.users = data.users := by
    rintro ⟨error, he⟩
    have heffect := handle_effect config hsound call
    rw [show (data.handle config call).1 = .error error from he] at heffect
    exact heffect.refused_users
  refine ⟨hsound.unique, by rw [hstore]; rfl, hkept, fun hrefused => ?_,
    fun key user hp hbreaks => ?_⟩
  · rw [hsimulates.2, hstore, AuthData.persisted, AuthData.persisted,
      hkept (hsimulates.refused.mpr hrefused)]
  · have hmemory := refused_of_breaks hsound hp hbreaks
    exact ⟨hmemory, hsimulates.refused.mp hmemory⟩

end FirebaseEmu.Auth
