import FirebaseEmu.Auth.Providers

namespace FirebaseEmu.Auth
open Lib Std

variable {υ : Type} {config : AuthConfig} {data : AuthData} {call : AuthCall}

/-- The account that `sign_in` finds for an email. -/
def AuthData.accountOf (data : AuthData) (ns email : String) : Option (AccountKey × User) :=
  (data.table ns).find? fun entry =>
    entry.2.email.any fun current => eqIgnoreAsciiCase current email

def AuthStore.accountOf (codec : UserCodec υ) (order : RowOrder υ) (store : AuthStore υ)
    (ns email : String) : Option (AccountKey × AuthRow υ) :=
  (order.scan (store.table ns)).find? fun entry =>
    (codec.email entry.2.userJson).any fun current => asciiLower current == asciiLower email

theorem signIn_not_found (request : WriteAccountRequest) {email password : String}
    (he : request.email = some email) (hp : request.password = some password) (now : Instant)
    (draws : Draws) :
    (data.signIn config request now draws).1 = .error (badRequest "EMAIL_NOT_FOUND") ↔
      data.accountOf (config.ns none) email = none := by
  unfold AuthData.signIn AuthData.accountOf
  rw [he, hp]
  dsimp only
  cases hfind : (data.table (config.ns none)).find? fun entry =>
      entry.2.email.any fun current => eqIgnoreAsciiCase current email with
  | none => simp
  | some entry =>
    obtain ⟨key, user⟩ := entry
    dsimp only
    split
    · simp [badRequest]
    · split
      · simp [badRequest]
      · simp

/-- A lookup by one email. -/
def emailLookup (email : String) : LookupRequest := ⟨none, [], [email], [], []⟩

theorem lookupMatches_email (toLowercase : String → String) (email : String) (user : User) :
    lookupMatches toLowercase (emailLookup email) user =
      user.email.any fun current => toLowercase current == toLowercase email := by
  have hphone : user.phoneNumber.any ([] : List String).contains = false := by
    cases user.phoneNumber <;> rfl
  simp only [lookupMatches, emailLookup, hphone, List.contains_nil, List.map_cons, List.map_nil,
    List.any_nil, Bool.false_or, Bool.or_false, List.contains_cons]

/-- No two accounts of a namespace have emails with one text in lower case. -/
def Folded (config : AuthConfig) (users : ExtTreeMap AccountKey User) : Prop :=
  ∀ (key key' : AccountKey) (user user' : User) (email email' : String),
    users[key]? = some user → users[key']? = some user' → key.ns = key'.ns → key ≠ key' →
    user.email = some email → user'.email = some email' →
    config.toLowercase email ≠ config.toLowercase email'

/-- The request is none that goes through and asks for an email that another account has, up to
the case of its letters, but not up to the case of the ASCII ones. -/
def FoldsAlike (config : AuthConfig) (data : AuthData) (call : AuthCall) : Prop :=
  ∀ write email (key : AccountKey) user current, data.writes config call = some write →
    Passes data write → write.request.email = some email → data.users[key]? = some user →
    key.ns = write.ns → write.target ≠ some key.uid → user.email = some current →
    config.toLowercase email = config.toLowercase current → eqIgnoreAsciiCase email current = true

theorem Folded.insert {users : ExtTreeMap AccountKey User} (h : Folded config users)
    {key : AccountKey} {user : User}
    (hnew : ∀ (key' : AccountKey) (user' : User) (email email' : String),
      users[key']? = some user' → key'.ns = key.ns → key' ≠ key → user.email = some email →
      user'.email = some email' → config.toLowercase email ≠ config.toLowercase email') :
    Folded config (users.insert key user) := by
  intro key₁ key₂ user₁ user₂ email₁ email₂ h₁ h₂ hns hne he₁ he₂
  rw [getElem?_insertUser] at h₁ h₂
  split at h₁
  · rename_i heq
    obtain rfl := Option.some.inj h₁
    subst heq
    rw [if_neg hne] at h₂
    exact hnew key₂ user₂ email₁ email₂ h₂ hns.symm hne.symm he₁ he₂
  · split at h₂
    · rename_i hne' heq
      obtain rfl := Option.some.inj h₂
      subst heq
      exact (hnew key₁ user₁ email₂ email₁ h₁ hns hne he₂ he₁).symm
    · exact h key₁ key₂ user₁ user₂ email₁ email₂ h₁ h₂ hns hne he₁ he₂

/-- A user with the email of the one it takes the place of, or with none. -/
theorem Folded.refit {users : ExtTreeMap AccountKey User} (h : Folded config users)
    {key : AccountKey} {user old : User} (hu : users[key]? = some old)
    (he : user.email = none ∨ user.email = old.email) : Folded config (users.insert key user) := by
  apply h.insert
  intro key' user' email email' hu' hns hne he₁ he₂
  rcases he with he | he
  · rw [he] at he₁
    cases he₁
  · exact h key key' old user' email email' hu hu' hns.symm hne.symm (he ▸ he₁) he₂

/-- What goes through is written for a user whose email is no other's. -/
theorem Passes.apart (hfold : FoldsAlike config data call) (hs : Sound data)
    {write : AccountWrite} (hw : data.writes config call = some write) (hpass : Passes data write)
    {email : String} (he : write.request.email = some email) {key : AccountKey} {user : User}
    (hu : data.users[key]? = some user) (hns : key.ns = write.ns)
    (ht : write.target ≠ some key.uid) {current : String} (hc : user.email = some current) :
    config.toLowercase email ≠ config.toLowercase current := by
  intro hsame
  have hcase := hfold write email key user current hw hpass he hu hns ht hc hsame
  have hentry : (user.localId, user) ∈ data.accounts write.ns :=
    mem_accounts.mpr ⟨key, hu, hns, rfl⟩
  have hexcept : write.target ≠ some user.localId := by
    rwa [hs.unique.keyed key user hu]
  have hfree := (ensureUnique_ok.mp hpass.2 _ hentry hexcept).1
  have htaken : emailTaken write.request.email user = true := by
    rw [emailTaken, he, hc, Option.any_some, Option.any_some, eqIgnoreAsciiCase_comm]
    exact hcase
  rw [htaken] at hfree
  cases hfree

theorem folded_step (h : Folded config data.users) (hs : Sound data)
    (hfold : FoldsAlike config data call) {users : ExtTreeMap AccountKey User}
    (hstep : UsersStep config data call users) : Folded config users := by
  cases hstep with
  | same => exact h
  | erased gone =>
    have hsub : ∀ (key : AccountKey) (user : User), (data.users.erase gone)[key]? = some user →
        data.users[key]? = some user := by
      intro key user hu
      rw [ExtTreeMap.getElem?_erase] at hu
      split at hu
      · cases hu
      · exact hu
    exact fun key key' user user' email email' hu hu' =>
      h key key' user user' email email' (hsub _ _ hu) (hsub _ _ hu')
  | signedIn hu stamp => exact h.refit hu (.inr rfl)
  | created localId hw ht hpass =>
    apply h.insert
    intro key' user' email email' hu' hns hne he he'
    rw [newUser, syncPasswordProvider_email] at he
    exact hpass.apart hfold hs hw he hu' hns (by rw [ht]; simp) he'
  | updated hw ht hpass hu =>
    rename_i write localId user
    cases hasked : write.request.email with
    | none =>
      apply h.refit hu
      rw [applyUpdate_eq, syncPasswordProvider_email, (updated_fields user write.request).1,
        emailAfter, hasked, Option.none_or]
      split
      · exact .inl rfl
      · exact .inr rfl
    | some asked =>
      apply h.insert
      intro key' user' email email' hu' hns hne he he'
      rw [applyUpdate_eq, syncPasswordProvider_email, (updated_fields user write.request).1,
        emailAfter, hasked, Option.some_or] at he
      refine hpass.apart hfold hs hw (hasked.trans he) hu' hns (fun heq => hne ?_) he'
      obtain ⟨ns', uid'⟩ := key'
      obtain rfl : ns' = write.ns := hns
      obtain rfl : localId = uid' := Option.some.inj (ht.symm.trans heq)
      rfl

theorem folded_reach
    (h : Reach (AuthData.next config) (FoldsAlike config) (· = .empty) data) :
    Sound data ∧ Folded config data.users := by
  refine h.invariant (I := fun data => Sound data ∧ Folded config data.users) ?_ ?_
  · rintro _ rfl
    refine ⟨.empty, fun key key' user user' email email' hu => ?_⟩
    rw [show AuthData.empty.users[key]? = none from ExtTreeMap.getElem?_empty] at hu
    cases hu
  · rintro data call ⟨hsound, hfolded⟩ hfold
    exact ⟨hsound.step (handle_effect config hsound call),
      folded_step hfolded hsound hfold (handle_users config hsound call)⟩

theorem table_nodup (data : AuthData) (ns : String) : (data.table ns).Nodup := by
  apply List.Nodup.filter
  refine data.users.distinct_keys_toList.imp ?_
  rintro a b hne rfl
  exact hne ReflCmp.compare_self

/-- The accounts with an email up to the case of its letters. -/
def AuthData.wearing (config : AuthConfig) (data : AuthData) (ns email : String) :
    List (AccountKey × User) :=
  (data.table ns).filter fun entry => entry.2.email.any fun current =>
    config.toLowercase current == config.toLowercase email

theorem mem_wearing {ns email : String} {entry : AccountKey × User} :
    entry ∈ data.wearing config ns email ↔ data.users[entry.1]? = some entry.2 ∧
      entry.1.ns = ns ∧ ∃ current, entry.2.email = some current ∧
        config.toLowercase current = config.toLowercase email := by
  rw [AuthData.wearing, List.mem_filter, mem_table, and_assoc, Option.any_eq_true]
  simp only [beq_iff_eq]

/-- Where no two accounts do, one account has the email alone. -/
theorem wearing_lone (h : Folded config data.users) {email ns : String}
    {entry : AccountKey × User} (hm : entry ∈ data.wearing config ns email) :
    data.wearing config ns email = [entry] := by
  have hnodup : (data.wearing config ns email).Nodup := (table_nodup data ns).filter _
  have hsame : ∀ b ∈ data.wearing config ns email, b = entry := by
    intro b hb
    obtain ⟨hua, hna, ea, hea, hla⟩ := mem_wearing.mp hm
    obtain ⟨hub, hnb, eb, heb, hlb⟩ := mem_wearing.mp hb
    have hkey : b.1 = entry.1 := by
      by_contra hne
      exact h b.1 entry.1 b.2 entry.2 eb ea hub hua (hnb.trans hna.symm) hne heb hea
        (hlb.trans hla.symm)
    rw [hkey] at hub
    exact Prod.ext hkey (Option.some.inj (hub.symm.trans hua))
  generalize data.wearing config ns email = entries at hm hnodup hsame
  cases entries with
  | nil => cases hm
  | cons a entries =>
    obtain rfl : a = entry := hsame a List.mem_cons_self
    cases entries with
    | nil => rfl
    | cons b entries =>
      obtain rfl : b = a := hsame b (by simp)
      simp at hnodup

theorem wearing_one (h : Folded config data.users) (email ns : String) :
    (data.wearing config ns email).length ≤ 1 := by
  cases hw : data.wearing config ns email with
  | nil => exact Nat.zero_le 1
  | cons entry entries =>
    have hm : entry ∈ data.wearing config ns email := hw ▸ List.mem_cons_self
    rw [← hw, wearing_lone h hm]
    exact Nat.le_refl 1

/-- The users that a lookup by one email finds. -/
theorem lookup_email (ns email : String) (now : Instant) :
    (data.lookupAccounts config ns (emailLookup email) now).1 =
      .ok (.users ((data.wearing config ns email).map fun entry => entry.2.shown)) := by
  show Except.ok (AuthReply.users _) = _
  rw [List.filter_map, List.map_map, AuthData.wearing]
  congr 3
  apply List.filter_congr
  intro entry _
  exact lookupMatches_email config.toLowercase email entry.2

/-- In every run in which no request that goes through asks for an email that another account has
up to the case of its letters but not up to the case of the ASCII ones, on either backend: a
lookup by an email finds at most one user, and the one that a sign-in by it finds. -/
theorem email_lookup_finds_one (config : AuthConfig)
    (hascii : ∀ a b, eqIgnoreAsciiCase a b = true → config.toLowercase a = config.toLowercase b)
    (codec : UserCodec υ) (order : RowOrder υ) (calls : List AuthCall)
    (hfold : Reach.Along (AuthData.next config) (FoldsAlike config) .empty calls) (email : String)
    (now : Instant) :
    let data := AuthData.run config calls
    let store := AuthStore.run config codec order calls
    (∀ ns users, (data.lookupAccounts config ns (emailLookup email) now).1 = .ok (.users users) ∨
        (store.lookupAccounts config codec ns (emailLookup email) now).1 = .ok (.users users) →
      users.length ≤ 1) ∧
    (∀ ns key user, data.accountOf ns email = some (key, user) →
      (data.lookupAccounts config ns (emailLookup email) now).1 = .ok (.users [user.shown])) ∧
    ∀ ns key row, store.accountOf codec order ns email = some (key, row) →
      ∃ user, decodeUser codec row = .ok user ∧
        (store.lookupAccounts config codec ns (emailLookup email) now).1 =
          .ok (.users [user.shown]) := by
  intro data store
  have hreach := (@Reach.start _ _ (AuthData.next config) _ (· = AuthData.empty) _ rfl).run hfold
  obtain ⟨hsound, hfolded⟩ : Sound data ∧ Folded config data.users := folded_reach hreach
  have hstore : store = data.persisted codec := run_persisted config codec order calls
  have hfound : ∀ ns key user, data.accountOf ns email = some (key, user) →
      (data.lookupAccounts config ns (emailLookup email) now).1 = .ok (.users [user.shown]) := by
    intro ns key user hfind
    obtain ⟨hu, hns⟩ := mem_table.mp (List.mem_of_find?_eq_some hfind)
    have hnamed : (user.email.any fun current => eqIgnoreAsciiCase current email) = true :=
      List.find?_some (p := fun entry : AccountKey × User =>
        entry.2.email.any fun current => eqIgnoreAsciiCase current email) hfind
    obtain ⟨current, hcurrent, hcase⟩ := (Option.any_eq_true _ _).mp hnamed
    have hmem : (key, user) ∈ data.wearing config ns email :=
      mem_wearing.mpr ⟨hu, hns, current, hcurrent, hascii current email hcase⟩
    rw [lookup_email, wearing_lone hfolded hmem]
    rfl
  refine ⟨fun ns users hl => ?_, hfound, fun ns key row hfind => ?_⟩
  · rw [hstore, lookupAccounts_persisted, or_self, lookup_email, Except.ok.injEq,
      AuthReply.users.injEq] at hl
    rw [← hl, List.length_map]
    exact wearing_one hfolded email ns
  · rw [hstore, AuthStore.accountOf, findEmail_persisted hsound.unique,
      Option.map_eq_some_iff] at hfind
    obtain ⟨⟨key', user⟩, hfind, heq⟩ := hfind
    obtain ⟨-, rfl⟩ := Prod.mk.inj heq
    refine ⟨user, decodeUser_userRow user, ?_⟩
    rw [hstore, lookupAccounts_persisted]
    exact hfound ns key' user hfind

/-- Lower case as far as the samples need it. -/
def sampleLower (text : String) : String :=
  String.ofList ((asciiLower text).map fun c => if c = 'É' then 'é' else c)

def foldingConfig : AuthConfig := { sampleConfig with toLowercase := sampleLower }

/-- Two accounts with different emails. -/
theorem email_lookup_finds_one_sample :
    ∃ users, ((AuthData.run foldingConfig
        [sampleAccount "a" "É@x" "1", sampleAccount "b" "e@x" "2"]).lookupAccounts foldingConfig
          "project/demo" (emailLookup "é@x") ⟨1000, by decide⟩).1 = .ok (.users users) ∧
      users.length ≤ 1 := by
  have hascii : ∀ a b, eqIgnoreAsciiCase a b = true → sampleLower a = sampleLower b := by
    intro a b h
    rw [eqIgnoreAsciiCase, beq_iff_eq] at h
    rw [sampleLower, sampleLower, h]
  have hapart : ((AuthData.run foldingConfig [sampleAccount "a" "É@x" "1"]).users.toList.all
      fun entry => entry.2.email.all fun current => sampleLower "e@x" != sampleLower current) =
        true := by
    decide
  have hone := (email_lookup_finds_one foldingConfig hascii plainUserCodec emailOrder
    [sampleAccount "a" "É@x" "1", sampleAccount "b" "e@x" "2"] ⟨?_, ?_, trivial⟩ "é@x"
    ⟨1000, by decide⟩).1
  · exact ⟨_, lookup_email _ _ _, hone _ _ (.inl (lookup_email _ _ _))⟩
  · intro write email key user current _ _ _ hu
    rw [show AuthData.empty.users[key]? = none from ExtTreeMap.getElem?_empty] at hu
    cases hu
  · intro write email key user current hw _ he hu _ _ hc hsame
    obtain rfl := Option.some.inj hw
    obtain rfl := Option.some.inj he
    have hentry := List.all_eq_true.mp hapart (key, user)
      (ExtTreeMap.mem_toList_iff_getElem?_eq_some.mpr hu)
    rw [hc, Option.all_some, bne_iff_ne] at hentry
    exact absurd hsame hentry

/-- The emails of two accounts differ in the case of one letter that is not ASCII. -/
theorem email_lookup_finds_two :
    ¬ ∀ (calls : List AuthCall) (ns email : String) (now : Instant) (users : List User),
      ((AuthData.run foldingConfig calls).lookupAccounts foldingConfig ns (emailLookup email)
        now).1 = .ok (.users users) → users.length ≤ 1 := by
  intro h
  let calls := [sampleAccount "a" "É@x" "1", sampleAccount "b" "é@x" "2"]
  have htwo : (((AuthData.run foldingConfig calls).wearing foldingConfig "project/demo"
      "é@x").map fun entry => entry.2.shown).length = 2 := by
    decide
  have hone := h calls "project/demo" "é@x" ⟨1000, by decide⟩ _
    (@lookup_email foldingConfig (AuthData.run foldingConfig calls) _ _ _)
  rw [htwo] at hone
  exact absurd hone (by decide)

end FirebaseEmu.Auth
