import FirebaseEmu.Firestore.Forms
import FirebaseEmu.Lib.Json
import FirebaseEmu.Lib.Text
import Std.Data.ExtTreeMap

namespace FirebaseEmu.Firestore.Web
open Lib Std

/-- The fields of a form. A later field of the same name replaces an earlier one, and pairs
without an equals sign are skipped. -/
def formFields : List String → ExtTreeMap String String →
    Except Status (ExtTreeMap String String)
  | [], fields => .ok fields
  | pair :: pairs, fields =>
    match splitOnce '=' pair with
    | none => formFields pairs fields
    | some (k, v) => do
      let key ← decodeFormComponent k
      let value ← decodeFormComponent v
      formFields pairs (fields.insert key value)

def formOffset (fields : ExtTreeMap String String) : UInt64 :=
  (fields["ofs"]?.bind parseU64).getD 0

/-- The `N` of `reqN___data__`. -/
def requestIndex (key : String) : Option String :=
  (stripPrefix key "req").bind fun k => stripSuffix k "___data__"

/-- Addition of a build that checks overflows, where it panics, or of one that does not. -/
def addU64 (checks : Bool) (a b : UInt64) : Option UInt64 :=
  if checks && decide (2 ^ 64 ≤ a.toNat + b.toNat) then none else some (a + b)

section Messages
variable (fromStr : String → Option Json)

/-- The loop over the fields, in key order. There is no outcome after a panic. -/
def collectMessages (checks : Bool) (offset : UInt64) :
    List (String × String) → Option (Except Status (List (UInt64 × Json)))
  | [] => some (.ok [])
  | (key, value) :: fields =>
    match requestIndex key with
    | none => collectMessages checks offset fields
    | some index =>
      match parseU64 index with
      | none => some (.error (invalidArgument "invalid request index"))
      | some n => (addU64 checks offset n).bind fun id =>
        match fromStr value with
        | none => some (.error (invalidArgument "invalid request JSON"))
        | some message => (collectMessages checks offset fields).map
          (Except.map fun messages => (id, message) :: messages)

def formMessages (checks : Bool) (body : Bytes) :
    Option (Except Status (List (UInt64 × Json))) :=
  match ofUtf8 body with
  | none => some (.error (invalidArgument "invalid form"))
  | some text =>
    match formFields (split '&' text) ∅ with
    | .error status => some (.error status)
    | .ok fields => (collectMessages fromStr checks (formOffset fields) fields.toList).map
      (Except.map fun messages => messages.mergeSort fun a b => decide (a.1 ≤ b.1))

/-- The message is that of the field, numbered with the sum of its index and the offset. -/
def Numbered (offset : UInt64) (field : String × String) (message : UInt64 × Json) : Prop :=
  ∃ index n, requestIndex field.1 = some index ∧ parseU64 index = some n ∧
    message.1.toNat = offset.toNat + n.toNat ∧ fromStr field.2 = some message.2

def isRequest (field : String × String) : Bool := (requestIndex field.1).isSome

/-- The answer is an error, or the messages in the order of their numbers. -/
def NumbersRequests (body : Bytes) : Option (Except Status (List (UInt64 × Json))) → Prop
  | none => False
  | some (.error _) => True
  | some (.ok messages) => ∃ text fields, ofUtf8 body = some text ∧
    formFields (split '&' text) ∅ = .ok fields ∧
    messages.Pairwise (fun a b => a.1 ≤ b.1) ∧
    ∃ numbered, messages.Perm numbered ∧
      List.Forall₂ (Numbered fromStr (formOffset fields)) (fields.toList.filter isRequest) numbered

/-- The field is no request, or a request with an index and a message. -/
def Readable (field : String × String) : Prop :=
  ∀ index, requestIndex field.1 = some index →
    (parseU64 index).isSome = true ∧ (fromStr field.2).isSome = true

/-- Behind readable fields there is one whose index is too great for the offset. -/
inductive Overflows (offset : UInt64) : List (String × String) → Prop
  | here {key value index : String} {n : UInt64} {fields : List (String × String)}
    (hindex : requestIndex key = some index) (hn : parseU64 index = some n)
    (hsum : 2 ^ 64 ≤ offset.toNat + n.toNat) : Overflows offset ((key, value) :: fields)
  | later {field : String × String} {fields : List (String × String)}
    (hfield : Readable fromStr field) (h : Overflows offset fields) :
    Overflows offset (field :: fields)

variable {fromStr}

theorem NumbersRequests.ne_none {body : Bytes}
    {outcome : Option (Except Status (List (UInt64 × Json)))}
    (h : NumbersRequests fromStr body outcome) : outcome ≠ none := by
  rintro rfl
  exact h

theorem addU64_fits {checks : Bool} {a b : UInt64} (h : a.toNat + b.toNat < 2 ^ 64) :
    addU64 checks a b = some (a + b) := by
  rw [addU64, decide_eq_false (Nat.not_le.mpr h), Bool.and_false]
  rfl

theorem addU64_overflows {a b : UInt64} (h : 2 ^ 64 ≤ a.toNat + b.toNat) :
    addU64 true a b = none := by
  rw [addU64, decide_eq_true h]
  rfl

theorem collectMessages_overflows {offset : UInt64} {fields : List (String × String)}
    (h : Overflows fromStr offset fields) : collectMessages fromStr true offset fields = none := by
  induction h with
  | here hindex hn hsum => simp [collectMessages, hindex, hn, addU64_overflows hsum]
  | @later field fields hfield _ ih =>
    obtain ⟨key, value⟩ := field
    cases hindex : requestIndex key with
    | none =>
      rw [collectMessages, hindex]
      exact ih
    | some index =>
      obtain ⟨hn, hmessage⟩ := hfield index hindex
      obtain ⟨n, hn⟩ := Option.isSome_iff_exists.mp hn
      obtain ⟨message, hmessage⟩ := Option.isSome_iff_exists.mp hmessage
      rw [collectMessages, hindex]
      dsimp only
      rw [hn]
      dsimp only
      cases hadd : addU64 true offset n with
      | none => rfl
      | some id => simp [hmessage, ih]

/-- By the fields: without an overflow the loop goes on behind each of them. -/
theorem collectMessages_numbered (checks : Bool) {offset : UInt64}
    {fields : List (String × String)} (h : ¬ Overflows fromStr offset fields) :
    ∃ outcome, collectMessages fromStr checks offset fields = some outcome ∧
      ∀ messages, outcome = .ok messages →
        List.Forall₂ (Numbered fromStr offset) (fields.filter isRequest) messages := by
  induction fields with
  | nil =>
    refine ⟨.ok [], rfl, ?_⟩
    intro messages hmessages
    rw [← Except.ok.inj hmessages]
    exact .nil
  | cons field fields ih =>
    obtain ⟨key, value⟩ := field
    cases hindex : requestIndex key with
    | none =>
      have hno : isRequest (key, value) = false := by simp [isRequest, hindex]
      rw [collectMessages, hindex, List.filter_cons_of_neg (by simp [hno])]
      apply ih
      intro hover
      apply h
      refine .later (fun index hsome => ?_) hover
      rw [hindex] at hsome
      cases hsome
    | some index =>
      have hyes : isRequest (key, value) = true := by simp [isRequest, hindex]
      rw [collectMessages, hindex, List.filter_cons_of_pos hyes]
      dsimp only
      cases hn : parseU64 index with
      | none => exact ⟨_, rfl, fun messages hmessages => by cases hmessages⟩
      | some n =>
        have hfits : offset.toNat + n.toNat < 2 ^ 64 := by
          by_contra hsum
          exact h (.here hindex hn (Nat.le_of_not_lt hsum))
        dsimp only
        rw [addU64_fits hfits, Option.bind_some]
        cases hmessage : fromStr value with
        | none => exact ⟨_, rfl, fun messages hmessages => by cases hmessages⟩
        | some message =>
          have hreadable : Readable fromStr (key, value) := by
            intro index' hindex'
            obtain rfl := Option.some.inj (hindex.symm.trans hindex')
            simp [hn, hmessage]
          obtain ⟨outcome, houtcome, hnumbered⟩ := ih fun hover => h (.later hreadable hover)
          refine ⟨outcome.map fun messages => (offset + n, message) :: messages, ?_, ?_⟩
          · dsimp only
            rw [houtcome]
            rfl
          · intro messages hmessages
            obtain ⟨rest, hrest, rfl⟩ := exceptMap_eq_ok.mp hmessages
            refine .cons ⟨index, n, hindex, hn, ?_, hmessage⟩ (hnumbered rest hrest)
            rw [UInt64.toNat_add, Nat.mod_eq_of_lt hfits]

theorem not_numbers_of_overflows {body : Bytes} {text : String}
    {fields : ExtTreeMap String String} (htext : ofUtf8 body = some text)
    (hfields : formFields (split '&' text) ∅ = .ok fields)
    (hover : Overflows fromStr (formOffset fields) fields.toList) :
    ¬ NumbersRequests fromStr body (formMessages fromStr true body) := by
  have hnone : formMessages fromStr true body = none := by
    rw [formMessages, htext]
    dsimp only
    rw [hfields]
    dsimp only
    rw [collectMessages_overflows hover]
    rfl
  intro h
  exact h.ne_none hnone

/-- The requests of a form are numbered as they should be, in a build with overflow checks and
in one without, exactly when no sum that the loop comes to is too great. -/
theorem formMessages_numbers_iff (fromStr : String → Option Json) (body : Bytes) :
    (∀ checks, NumbersRequests fromStr body (formMessages fromStr checks body)) ↔
    ∀ text fields, ofUtf8 body = some text → formFields (split '&' text) ∅ = .ok fields →
      ¬ Overflows fromStr (formOffset fields) fields.toList := by
  constructor
  · intro h text fields htext hfields hover
    exact not_numbers_of_overflows htext hfields hover (h true)
  · intro h checks
    cases htext : ofUtf8 body with
    | none => simp [formMessages, htext, NumbersRequests]
    | some text =>
      cases hfields : formFields (split '&' text) ∅ with
      | error status => simp [formMessages, htext, hfields, NumbersRequests]
      | ok fields =>
        obtain ⟨outcome, houtcome, hnumbered⟩ := collectMessages_numbered checks
          (h text fields htext hfields)
        cases outcome with
        | error status => simp [formMessages, htext, hfields, houtcome, Except.map, NumbersRequests]
        | ok messages =>
          have hmessages : formMessages fromStr checks body =
              some (.ok (messages.mergeSort fun a b => decide (a.1 ≤ b.1))) := by
            simp [formMessages, htext, hfields, houtcome, Except.map]
          rw [hmessages]
          refine ⟨text, fields, htext, hfields, ?_, messages, List.mergeSort_perm _ _,
            hnumbered messages rfl⟩
          have hsorted : (messages.mergeSort fun a b => decide (a.1 ≤ b.1)).Pairwise
              fun a b => decide (a.1 ≤ b.1) = true := by
            apply List.pairwise_mergeSort
            · intro a b c hab hbc
              exact decide_eq_true (UInt64.le_trans (of_decide_eq_true hab) (of_decide_eq_true hbc))
            · intro a b
              simp only [Bool.or_eq_true, decide_eq_true_eq]
              exact UInt64.le_total a.1 b.1
          exact hsorted.imp fun h => of_decide_eq_true h

end Messages

/-- A parser for one text. -/
def onlyOne (s : String) : Option Json := if s = "1" then some (.number (.posInt 1)) else none

def greatForm : String := "ofs=18446744073709551615&req1___data__=1"

def greatFields : ExtTreeMap String String :=
  ((∅ : ExtTreeMap String String).insert "ofs" "18446744073709551615").insert "req1___data__" "1"

theorem greatForm_fields : formFields (split '&' greatForm) ∅ = .ok greatFields := by
  have hpairs : split '&' greatForm = ["ofs=18446744073709551615", "req1___data__=1"] := by decide
  have hofs : splitOnce '=' "ofs=18446744073709551615" = some ("ofs", "18446744073709551615") := by
    decide
  have hreq : splitOnce '=' "req1___data__=1" = some ("req1___data__", "1") := by decide
  have hplain : ∀ s ∈ ["ofs", "18446744073709551615", "req1___data__", "1"],
      decodeFormComponent s = .ok s := by
    intro s hs
    apply decodeFormComponent_plain
    revert s
    decide
  simp only [List.forall_mem_cons] at hplain
  obtain ⟨hofsKey, hofsValue, hreqKey, hreqValue, -⟩ := hplain
  simp only [hpairs, formFields, hofs, hreq, hofsKey, hofsValue, hreqKey, hreqValue]
  rfl

theorem greatFields_overflows : Overflows onlyOne (formOffset greatFields) greatFields.toList := by
  have hoffset : formOffset greatFields = 18446744073709551615 := by decide
  have hlist : greatFields.toList =
      [("ofs", "18446744073709551615"), ("req1___data__", "1")] := by decide
  have hofs : requestIndex "ofs" = none := by decide
  have hreq : requestIndex "req1___data__" = some "1" := by decide
  have hindex : parseU64 "1" = some 1 := by decide
  have hsum : 2 ^ 64 ≤ (18446744073709551615 : UInt64).toNat + (1 : UInt64).toNat := by decide
  rw [hoffset, hlist]
  refine .later (fun index hsome => ?_) (.here hreq hindex hsum)
  rw [hofs] at hsome
  cases hsome

/-- An offset of `u64::MAX` and an index of 1. -/
theorem formMessages_overflow : ∃ checks body,
    ¬ NumbersRequests onlyOne body (formMessages onlyOne checks body) := by
  have htext : ofUtf8 (textBytes greatForm) = some greatForm := ofUtf8_eq_some.mpr rfl
  exact ⟨true, textBytes greatForm,
    not_numbers_of_overflows htext greatForm_fields greatFields_overflows⟩

end FirebaseEmu.Firestore.Web
