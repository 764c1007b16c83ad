import FirebaseEmu.Auth.Memory

namespace FirebaseEmu.Auth
open Lib Std

/-- The two users have one email, up to the case of ASCII letters, or one phone number. -/
def clash (user other : User) : Bool :=
  emailTaken user.email other || phoneTaken user.phoneNumber other

/-- Every user stands under its own local id, and no two of one namespace clash. -/
structure Unique (users : ExtTreeMap AccountKey User) : Prop where
  keyed : ∀ (key : AccountKey) (user : User), users[key]? = some user → user.localId = key.uid
  apart : ∀ (key key' : AccountKey) (user user' : User), users[key]? = some user →
    users[key']? = some user' → key.ns = key'.ns → key ≠ key' → clash user user' = false

/-- The user may come in under the key: no other user of the namespace clashes with it. -/
structure Fits (users : ExtTreeMap AccountKey User) (key : AccountKey) (user : User) : Prop where
  keyed : user.localId = key.uid
  apart : ∀ (key' : AccountKey) (user' : User), users[key']? = some user' → key'.ns = key.ns →
    key' ≠ key → clash user user' = false

variable {users : ExtTreeMap AccountKey User} {key : AccountKey} {user other : User}

theorem eqIgnoreAsciiCase_comm (a b : String) : eqIgnoreAsciiCase a b = eqIgnoreAsciiCase b a := by
  rw [eqIgnoreAsciiCase, eqIgnoreAsciiCase, Bool.eq_iff_iff, beq_iff_eq, beq_iff_eq]
  exact eq_comm

theorem emailTaken_eq_true : emailTaken user.email other = true ↔
    ∃ email email', user.email = some email ∧ other.email = some email' ∧
      eqIgnoreAsciiCase email email' = true := by
  unfold emailTaken
  cases user.email with
  | none => simp
  | some email =>
    cases other.email with
    | none => simp
    | some email' => simp [eqIgnoreAsciiCase_comm]

theorem phoneTaken_eq_true : phoneTaken user.phoneNumber other = true ↔
    ∃ phone, user.phoneNumber = some phone ∧ other.phoneNumber = some phone := by
  unfold phoneTaken
  cases user.phoneNumber with
  | none => simp
  | some phone => simp

theorem clash_comm (user other : User) : clash user other = clash other user := by
  have hemail : emailTaken user.email other = emailTaken other.email user := by
    rw [Bool.eq_iff_iff, emailTaken_eq_true, emailTaken_eq_true]
    constructor
    · rintro ⟨email, email', hu, ho, he⟩
      exact ⟨email', email, ho, hu, eqIgnoreAsciiCase_comm _ _ ▸ he⟩
    · rintro ⟨email, email', hu, ho, he⟩
      exact ⟨email', email, ho, hu, eqIgnoreAsciiCase_comm _ _ ▸ he⟩
  have hphone : phoneTaken user.phoneNumber other = phoneTaken other.phoneNumber user := by
    rw [Bool.eq_iff_iff, phoneTaken_eq_true, phoneTaken_eq_true]
    constructor
    · rintro ⟨phone, hu, ho⟩
      exact ⟨phone, ho, hu⟩
    · rintro ⟨phone, hu, ho⟩
      exact ⟨phone, ho, hu⟩
  rw [clash, clash, hemail, hphone]

theorem getElem?_insertUser (users : ExtTreeMap AccountKey User) (key : AccountKey) (user : User)
    (other : AccountKey) :
    (users.insert key user)[other]? = if key = other then some user else users[other]? := by
  rw [ExtTreeMap.getElem?_insert]
  simp only [LawfulEqOrd.compare_eq_iff_eq]

theorem Unique.empty : Unique (∅ : ExtTreeMap AccountKey User) := by
  have hnone : ∀ key : AccountKey, (∅ : ExtTreeMap AccountKey User)[key]? = none :=
    fun key => ExtTreeMap.getElem?_empty
  refine ⟨fun key user hu => ?_, fun key key' user user' hu => ?_⟩
  · rw [hnone] at hu
    cases hu
  · rw [hnone] at hu
    cases hu

theorem Unique.insert (h : Unique users) (hf : Fits users key user) :
    Unique (users.insert key user) := by
  refine ⟨fun key' user' hu => ?_, fun key₁ key₂ user₁ user₂ h₁ h₂ hns hne => ?_⟩
  · rw [getElem?_insertUser] at hu
    split at hu
    · rename_i heq
      obtain rfl := Option.some.inj hu
      exact heq ▸ hf.keyed
    · exact h.keyed key' user' hu
  · rw [getElem?_insertUser] at h₁ h₂
    split at h₁
    · rename_i heq
      obtain rfl := Option.some.inj h₁
      subst heq
      rw [if_neg hne] at h₂
      exact hf.apart key₂ user₂ h₂ hns.symm hne.symm
    · split at h₂
      · rename_i hne' heq
        obtain rfl := Option.some.inj h₂
        subst heq
        rw [clash_comm]
        exact hf.apart key₁ user₁ h₁ hns hne
      · exact h.apart key₁ key₂ user₁ user₂ h₁ h₂ hns hne

theorem Unique.erase (h : Unique users) (key : AccountKey) : Unique (users.erase key) := by
  have hsub : ∀ (other : AccountKey) (user : User), (users.erase key)[other]? = some user →
      users[other]? = some user := by
    intro other user hu
    rw [ExtTreeMap.getElem?_erase] at hu
    split at hu
    · cases hu
    · exact hu
  exact ⟨fun other user hu => h.keyed other user (hsub other user hu),
    fun key₁ key₂ user₁ user₂ h₁ h₂ => h.apart key₁ key₂ user₁ user₂ (hsub _ _ h₁) (hsub _ _ h₂)⟩

/-- A stored user with the same local id, email and phone number fits in its own place. -/
theorem Unique.refit (h : Unique users) (user : User) (hu : users[key]? = some other)
    (hid : user.localId = other.localId) (he : user.email = other.email)
    (hp : user.phoneNumber = other.phoneNumber) : Fits users key user := by
  refine ⟨hid.trans (h.keyed key other hu), fun key' user' hu' hns hne => ?_⟩
  rw [clash, he, hp]
  exact h.apart key key' other user' hu hu' hns.symm hne.symm

theorem ensureUnique_ok {email phone exceptLocalId : Option String}
    {accounts : List (String × User)} :
    ensureUnique email phone exceptLocalId accounts = .ok () ↔
      ∀ entry ∈ accounts, exceptLocalId ≠ some entry.1 →
        emailTaken email entry.2 = false ∧ phoneTaken phone entry.2 = false := by
  induction accounts with
  | nil => simp [ensureUnique]
  | cons entry accounts ih =>
    obtain ⟨uid, user⟩ := entry
    rw [List.forall_mem_cons, ← ih, ensureUnique]
    by_cases hx : exceptLocalId = some uid
    · simp [hx]
    · cases he : emailTaken email user
      · cases hp : phoneTaken phone user
        · simp [hx]
        · simp [hx]
      · simp [hx]

/-- Only these two refusals come from the check. -/
theorem ensureUnique_error {email phone exceptLocalId : Option String}
    {accounts : List (String × User)} {error : ApiError}
    (h : ensureUnique email phone exceptLocalId accounts = .error error) :
    error = badRequest "EMAIL_EXISTS" ∨ error = badRequest "PHONE_NUMBER_EXISTS" := by
  induction accounts with
  | nil => cases h
  | cons entry accounts ih =>
    obtain ⟨uid, user⟩ := entry
    unfold ensureUnique at h
    split at h
    · exact ih h
    · split at h
      · exact .inl (Except.error.inj h).symm
      · split at h
        · exact .inr (Except.error.inj h).symm
        · exact ih h

theorem mem_accounts {data : AuthData} {ns : String} {entry : String × User} :
    entry ∈ data.accounts ns ↔ ∃ key : AccountKey, data.users[key]? = some entry.2 ∧
      key.ns = ns ∧ entry.1 = entry.2.localId := by
  unfold AuthData.accounts AuthData.table
  rw [List.mem_map]
  constructor
  · rintro ⟨⟨key, user⟩, hm, rfl⟩
    obtain ⟨hm, hns⟩ := List.mem_filter.mp hm
    exact ⟨key, ExtTreeMap.mem_toList_iff_getElem?_eq_some.mp hm, by simpa using hns, rfl⟩
  · rintro ⟨key, hu, hns, huid⟩
    obtain ⟨uid, user⟩ := entry
    refine ⟨(key, user), List.mem_filter.mpr
      ⟨ExtTreeMap.mem_toList_iff_getElem?_eq_some.mpr hu, by simpa using hns⟩, ?_⟩
    exact Prod.ext huid.symm rfl

@[simp] theorem syncPasswordProvider_localId (user : User) :
    (syncPasswordProvider user).localId = user.localId := by
  unfold syncPasswordProvider
  split <;> rfl

@[simp] theorem syncPasswordProvider_email (user : User) :
    (syncPasswordProvider user).email = user.email := by
  unfold syncPasswordProvider
  split <;> rfl

@[simp] theorem syncPasswordProvider_phoneNumber (user : User) :
    (syncPasswordProvider user).phoneNumber = user.phoneNumber := by
  unfold syncPasswordProvider
  split <;> rfl

/-- A deletion leaves the local id, and leaves or takes the email and the phone number. -/
structure Deleted (user after : User) : Prop where
  localId : after.localId = user.localId
  email : after.email = none ∨ after.email = user.email
  phone : after.phoneNumber = none ∨ after.phoneNumber = user.phoneNumber

theorem deleteAttribute_deleted (user : User) (name : String) :
    Deleted user (deleteAttribute user name) := by
  unfold deleteAttribute
  split
  · exact ⟨rfl, .inl rfl, .inr rfl⟩
  · split
    · exact ⟨rfl, .inr rfl, .inr rfl⟩
    · split
      · exact ⟨rfl, .inr rfl, .inr rfl⟩
      · split
        · exact ⟨rfl, .inr rfl, .inl rfl⟩
        · split
          · exact ⟨rfl, .inr rfl, .inr rfl⟩
          · exact ⟨rfl, .inr rfl, .inr rfl⟩

theorem Deleted.trans {a b c : User} (h : Deleted a b) (h' : Deleted b c) : Deleted a c := by
  refine ⟨h'.localId.trans h.localId, ?_, ?_⟩
  · rcases h'.email with he | he
    · exact .inl he
    · rw [he]
      exact h.email
  · rcases h'.phone with hp | hp
    · exact .inl hp
    · rw [hp]
      exact h.phone

theorem applyDeletions_deleted (user : User) (attributes providers : List String) :
    Deleted user (applyDeletions user attributes providers) := by
  have hfold : ∀ user : User, Deleted user (attributes.foldl deleteAttribute user) := by
    induction attributes with
    | nil => exact fun user => ⟨rfl, .inr rfl, .inr rfl⟩
    | cons name attributes ih =>
      exact fun user => (deleteAttribute_deleted user name).trans (ih _)
  exact ⟨(hfold user).localId, (hfold user).email, (hfold user).phone⟩

/-- The email and the phone number after an update are the requested ones, or those that the
user had, or none. -/
theorem applyUpdate_fields (user : User) (request : WriteAccountRequest) :
    (applyUpdate user request).localId = user.localId ∧
    ((applyUpdate user request).email = request.email ∨
      (applyUpdate user request).email = user.email) ∧
    ((applyUpdate user request).phoneNumber = request.phoneNumber ∨
      (applyUpdate user request).phoneNumber = user.phoneNumber) := by
  obtain ⟨hid, hemail, hphone⟩ :=
    applyDeletions_deleted user request.deleteAttribute request.deleteProvider
  unfold applyUpdate
  simp only [syncPasswordProvider_localId, syncPasswordProvider_email,
    syncPasswordProvider_phoneNumber]
  refine ⟨hid, ?_, ?_⟩
  · cases he : request.email with
    | none => rcases hemail with h | h <;> simp [h]
    | some email => exact .inl rfl
  · cases hp : request.phoneNumber with
    | none => rcases hphone with h | h <;> simp [h]
    | some phone => exact .inl rfl

end FirebaseEmu.Auth
