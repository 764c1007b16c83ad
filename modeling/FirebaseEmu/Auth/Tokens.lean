import FirebaseEmu.Auth.Sessions

namespace FirebaseEmu.Auth
open Lib Std

variable {codec : TokenCodec} {ns ns' : String} {user user' : User} {now now' : Nat}

theorem lookup_entry (key other : String) (value : Json) (entries : List (String × Json)) :
    ((key, value) :: entries).lookup other =
      if other = key then some value else entries.lookup other := by
  rw [List.lookup_cons]
  by_cases ho : other = key
  · rw [if_pos ho, beq_iff_eq.mpr ho]
  · rw [if_neg ho, beq_eq_false_iff_ne.mpr ho]

theorem lookup_setEntry (key other : String) (value : Json) (entries : List (String × Json)) :
    (setEntry key value entries).lookup other =
      if other = key then some value else entries.lookup other := by
  induction entries with
  | nil => exact lookup_entry key other value []
  | cons entry entries ih =>
    obtain ⟨found, old⟩ := entry
    unfold setEntry
    split
    · exact lookup_entry ..
    · split
      · rename_i hkey
        subst hkey
        rw [lookup_entry, lookup_entry]
        split <;> rfl
      · rename_i hkey
        rw [lookup_entry, lookup_entry, ih]
        split
        · rename_i hf
          rw [if_neg fun ho => hkey (ho.symm.trans hf)]
        · rfl

/-- What is set last is found, and what is not set is found as before. -/
theorem lookup_extendEntries {more : List (String × Json)} (h : (more.map Prod.fst).Nodup)
    (entries : List (String × Json)) (key : String) :
    (extendEntries entries more).lookup key = (more.lookup key).or (entries.lookup key) := by
  induction more generalizing entries with
  | nil => rfl
  | cons entry more ih =>
    rw [List.map_cons, List.nodup_cons] at h
    obtain ⟨other, value⟩ := entry
    rw [extendEntries, List.foldl_cons, ← extendEntries, ih h.2, lookup_setEntry, lookup_entry]
    by_cases hk : key = other
    · subst hk
      have hnone : more.lookup key = none := by
        rw [List.lookup_eq_none_iff]
        intro entry hm
        have hne : key ≠ entry.1 := fun he => h.1 (List.mem_map.mpr ⟨entry, hm, he.symm⟩)
        simpa using hne
      rw [hnone, if_pos rfl, if_pos rfl]
      rfl
    · rw [if_neg hk, if_neg hk]

theorem lookup_setOptional {key other : String} (h : other ≠ key) (value : Option String)
    (entries : List (String × Json)) :
    (setOptional key value entries).lookup other = entries.lookup other := by
  cases value with
  | none => rfl
  | some text => rw [setOptional, lookup_setEntry, if_neg h]

/-- A standard claim cannot be overridden by custom attributes. -/
theorem claims_standard {key : String} {value : Json}
    (h : (standardClaims ns user now).lookup key = some value) (hname : key ≠ "name")
    (hemail : key ≠ "email") : (claims codec ns user now).get key = value := by
  have hnodup : ((standardClaims ns user now).map Prod.fst).Nodup :=
    (by decide : ["aud", "auth_time", "email_verified", "exp", "firebase", "iat", "iss", "sub",
      "user_id"].Nodup)
  rw [claims, Json.get, lookup_setOptional hname, lookup_setOptional hemail,
    lookup_extendEntries hnodup, h]
  rfl

theorem claims_aud : (claims codec ns user now).get "aud" = .string (projectOf ns) :=
  claims_standard rfl (by decide) (by decide)

theorem claims_auth_time : (claims codec ns user now).get "auth_time" = seconds now :=
  claims_standard rfl (by decide) (by decide)

theorem claims_exp : (claims codec ns user now).get "exp" = seconds (now + idTokenTtlSecs) :=
  claims_standard rfl (by decide) (by decide)

theorem claims_sub : (claims codec ns user now).get "sub" = .string user.localId :=
  claims_standard rfl (by decide) (by decide)

theorem exact_seconds (n : Nat) : Exact (seconds n) := .inr ⟨_, rfl⟩

theorem asSeconds_seconds {n : Nat} (h : n < 2 ^ 64) : asSeconds (seconds n) = n := by
  simp only [asSeconds, seconds]
  exact Nat.mod_eq_of_lt h

/-- A text without the separator is its own piece. -/
theorem split_of_not_mem {sep : Char} {text : String} (h : sep ∉ text.toList) :
    split sep text = [text] := by
  have hone : [sep].intercalate [text.toList] = text.toList := by simp
  have hpieces : ∀ piece ∈ [text.toList], sep ∉ piece := by simpa using h
  have hsplit := List.splitOn_intercalate sep hpieces (List.cons_ne_nil _ _)
  rw [hone] at hsplit
  rw [split, hsplit, List.map_singleton, String.ofList_toList]

/-- The payload of a token is read back. -/
theorem split_idToken :
    split '.' (idToken codec ns user now) =
      [tokenHeader, codec.encode (claims codec ns user now), ""] := by
  have hheader : split '.' tokenHeader = [tokenHeader] := split_of_not_mem (by decide)
  have hempty : split '.' "" = [""] := split_of_not_mem (by decide)
  rw [idToken, split_append, split_append, hheader, split_of_not_mem (codec.noDot _), hempty]
  rfl

/-- The claims that are read of a token are those the service put there. -/
theorem tokenClaims_idToken (codec : TokenCodec) (ns : String) (user : User) (now : Nat) :
    ∃ claims, tokenClaims codec (idToken codec ns user now) = some claims ∧
      claims.get "aud" = .string (projectOf ns) ∧ claims.get "sub" = .string user.localId ∧
      claims.get "auth_time" = seconds now ∧
      claims.get "exp" = seconds (now + idTokenTtlSecs) := by
  obtain ⟨decoded, hd, hkept⟩ := codec.decode_encode (claims codec ns user now)
  refine ⟨decoded, ?_, hkept _ _ (.inl ⟨_, rfl⟩) claims_aud, hkept _ _ (.inl ⟨_, rfl⟩) claims_sub,
    hkept _ _ (exact_seconds _) claims_auth_time, hkept _ _ (exact_seconds _) claims_exp⟩
  rw [tokenClaims, split_idToken]
  exact hd

/-- A token tells whose it is and when it was issued. -/
theorem idToken_inj (hns : projectNamespace (projectOf ns) = ns)
    (hns' : projectNamespace (projectOf ns') = ns') (hnow : now < 2 ^ 64) (hnow' : now' < 2 ^ 64)
    (h : idToken codec ns user now = idToken codec ns' user' now') :
    ns = ns' ∧ user.localId = user'.localId ∧ now = now' := by
  obtain ⟨claims, hc, haud, hsub, htime, -⟩ :=
    tokenClaims_idToken codec ns user now
  obtain ⟨claims', hc', haud', hsub', htime', -⟩ :=
    tokenClaims_idToken codec ns' user' now'
  rw [h] at hc
  obtain rfl := Option.some.inj (hc.symm.trans hc')
  have hproject : projectOf ns = projectOf ns' := Json.string.inj (haud.symm.trans haud')
  have huid : user.localId = user'.localId := Json.string.inj (hsub.symm.trans hsub')
  have hseconds : asSeconds (seconds now) = asSeconds (seconds now') := by
    rw [← htime, ← htime']
  rw [asSeconds_seconds hnow, asSeconds_seconds hnow'] at hseconds
  exact ⟨by rw [← hns, ← hns', hproject], huid, hseconds⟩

theorem dot_mem_idToken : '.' ∈ (idToken codec ns user now).toList := by
  simp [idToken]

theorem hyphenated_no_dot {text : String} (h : hyphenated text = true) : '.' ∉ text.toList := by
  intro hm
  rw [hyphenated, Bool.and_eq_true, List.all_eq_true] at h
  exact absurd (h.2 '.' hm) (by decide)

/-- What parses as a UUID has no dot in it. -/
theorem parsesUuid_no_dot {text : String} (h : parsesUuid text = true) : '.' ∉ text.toList := by
  simp only [parsesUuid, Bool.or_eq_true, Bool.and_eq_true] at h
  rcases h with ((⟨-, hhex⟩ | hplain) | hurn) | ⟨⟨hopen, hclose⟩, hbraced⟩
  · intro hm
    exact absurd (List.all_eq_true.mp hhex '.' hm) (by decide)
  · exact hyphenated_no_dot hplain
  · obtain ⟨rest, hrest, hr⟩ := (Option.any_eq_true _ _).mp hurn
    unfold stripPrefix at hrest
    split at hrest
    · rename_i hstarts
      obtain ⟨tail, rfl⟩ := (startsWith_iff _ _).mp hstarts
      obtain rfl := Option.some.inj hrest
      rw [String.toList_append, List.drop_left, String.ofList_toList] at hr
      rw [String.toList_append, List.mem_append, not_or]
      exact ⟨by decide, hyphenated_no_dot hr⟩
    · cases hrest
  · obtain ⟨tail, rfl⟩ := (startsWith_iff _ _).mp hopen
    have hinner := hyphenated_no_dot hbraced
    have htoList : ("\x7b" ++ tail).toList = '{' :: tail.toList := by
      rw [String.toList_append]
      rfl
    rw [String.toList_ofList, htoList, List.drop_one, List.tail_cons] at hinner
    rw [htoList] at hclose ⊢
    rw [List.mem_cons, not_or]
    refine ⟨by decide, fun hm => ?_⟩
    -- the last character is the closing brace, and the others are those of the UUID
    have hne : tail.toList ≠ [] := List.ne_nil_of_mem hm
    have hlast : tail.toList.getLast hne = '}' := by
      have hsome := beq_iff_eq.mp hclose
      rw [List.getLast?_cons_of_ne_nil hne, List.getLast?_eq_some_getLast hne] at hsome
      exact Option.some.inj hsome
    rw [← List.dropLast_append_getLast hne, List.mem_append, List.mem_singleton, hlast] at hm
    rcases hm with hm | hm
    · exact hinner hm
    · exact absurd hm (by decide)

/-- The check of the claims of a token that was issued at `now`, at a later time. -/
theorem checkClaims_idToken {later : Nat} {checked : User}
    (hnow : now + idTokenTtlSecs < 2 ^ 64) :
    checkClaims codec (idToken codec ns user now) user' later = .ok checked ↔
      checked = user' ∧ later < now + idTokenTtlSecs ∧ user'.disabled = false ∧
        user'.validFrom ≤ now := by
  obtain ⟨claims, hc, -, -, htime, hexp⟩ :=
    tokenClaims_idToken codec ns user now
  have hnow' : now < 2 ^ 64 := by omega
  unfold checkClaims
  rw [hc]
  simp only [hexp, htime, asSeconds_seconds hnow, asSeconds_seconds hnow']
  by_cases hlate : now + idTokenTtlSecs ≤ later
  · simp [hlate]
  · cases hd : user'.disabled with
    | true => simp [hlate]
    | false =>
      by_cases hv : now < user'.validFrom
      · simp [hlate, hv]
      · simp only [hlate, hv, if_false, Except.ok.injEq, Bool.false_eq_true]
        constructor
        · rintro rfl
          exact ⟨rfl, by omega, trivial, by omega⟩
        · exact fun h => h.1.symm

end FirebaseEmu.Auth
