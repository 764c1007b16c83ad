import FirebaseEmu.Config.Startup

namespace FirebaseEmu.Config
open Lib

/-- Arguments, and what they change on a command line. -/
structure Part where
  arguments : List (Option String)
  update : CommandLine → CommandLine

def Part.valued (name : String) (value : Option String) (update : CommandLine → CommandLine) :
    Part :=
  match value with
  | none => ⟨[], id⟩
  | some value => ⟨[some name, some value], update⟩

def Part.flag (name : String) (value : Bool) (update : CommandLine → CommandLine) : Part :=
  if value then ⟨[some name], update⟩ else ⟨[], id⟩

def portText (port : UInt16) : String := toString port.toNat

/-- The options of a command line, each at most once. -/
def CommandLine.parts (print : Json → String) (cli : CommandLine) : List Part :=
  let set (change : ConfigOverrides → ConfigOverrides) (result : CommandLine) :=
    result.override change
  [.valued "--config" cli.configRoot fun result => { result with configRoot := cli.configRoot },
    .valued "--data-dir" cli.dataDir fun result => { result with dataDir := cli.dataDir },
    .flag "--in-memory" cli.inMemory fun result => { result with inMemory := cli.inMemory },
    .valued "--project" cli.functions.project
      (set fun functions => { functions with project := cli.functions.project }),
    .valued "--host" cli.functions.host
      (set fun functions => { functions with host := cli.functions.host }),
    .valued "--functions-port" (cli.functions.functionsPort.map portText)
      (set fun functions => { functions with functionsPort := cli.functions.functionsPort }),
    .valued "--pubsub-port" (cli.functions.pubsubPort.map portText)
      (set fun functions => { functions with pubsubPort := cli.functions.pubsubPort }),
    .valued "--ui-port" (cli.uiPort.map portText)
      fun result => { result with uiPort := cli.uiPort },
    .valued "--functions-source" cli.functions.functionsSource
      (set fun functions => { functions with functionsSource := cli.functions.functionsSource }),
    .valued "--functions-codebase" cli.functions.functionsCodebase
      (set fun functions =>
        { functions with functionsCodebase := cli.functions.functionsCodebase }),
    .valued "--functions-runtime" cli.functions.functionsRuntime
      (set fun functions => { functions with functionsRuntime := cli.functions.functionsRuntime }),
    .valued "--runtime-config" (cli.functions.runtimeConfig.map print)
      (set fun functions => { functions with runtimeConfig := cli.functions.runtimeConfig }),
    .flag "--no-functions" cli.noFunctions
      fun result => { result with noFunctions := cli.noFunctions },
    .flag "--no-ui" cli.noUi fun result => { result with noUi := cli.noUi }]

def renderArguments (print : Json → String) (cli : CommandLine) : List (Option String) :=
  (cli.parts print).flatMap Part.arguments

theorem le_ofDigitChars (cs : List Char) (n : Nat) : n ≤ Nat.ofDigitChars 10 cs n := by
  induction cs generalizing n with
  | nil => exact le_refl n
  | cons c cs ih =>
    rw [Nat.ofDigitChars_cons]
    exact le_trans (by omega) (ih _)

theorem foldlM_pushDigit {cs : List Char} (hdigits : ∀ c ∈ cs, c.isDigit = true) {n : Nat}
    (h : Nat.ofDigitChars 10 cs n < 65536) :
    cs.foldlM pushDigit n = .ok (Nat.ofDigitChars 10 cs n) := by
  induction cs generalizing n with
  | nil => rfl
  | cons c cs ih =>
    rw [List.forall_mem_cons] at hdigits
    rw [Nat.ofDigitChars_cons] at h ⊢
    have hpush : pushDigit n c = .ok (10 * n + (c.toNat - '0'.toNat)) := by
      unfold pushDigit decimalDigit
      rw [if_pos hdigits.1]
      exact if_pos (lt_of_le_of_lt (le_ofDigitChars cs _) h)
    rw [List.foldlM_cons, hpush]
    exact ih hdigits.2 h

/-- The text of a port is read back as the port. -/
theorem parseU16_portText (port : UInt16) : parseU16 (portText port) = .ok port := by
  have hlist : (portText port).toList = Nat.toDigits 10 port.toNat := by
    rw [portText, Nat.toString_eq_ofList_toDigits, String.toList_ofList]
  have hdigits : ∀ c ∈ Nat.toDigits 10 port.toNat, c.isDigit = true := fun c hc => toDigits_digit hc
  have hvalue : Nat.ofDigitChars 10 (Nat.toDigits 10 port.toNat) 0 = port.toNat :=
    Nat.ofDigitChars_ten_toDigits
  have hfull : (portText port).isEmpty = false := by
    rw [Bool.eq_false_iff, ne_eq, String.isEmpty_iff, ← String.toList_inj, hlist]
    simp
  obtain ⟨c, cs, hcs⟩ := List.exists_cons_of_ne_nil
    (show Nat.toDigits 10 port.toNat ≠ [] by simp)
  have hunsigned : unsigned (Nat.toDigits 10 port.toNat) = c :: cs := by
    rw [hcs]
    refine if_neg ?_
    rintro rfl
    exact absurd (hdigits '+' (hcs ▸ List.mem_cons_self)) (by decide)
  unfold parseU16
  rw [hfull, if_neg Bool.false_ne_true, hlist, hunsigned]
  dsimp only
  rw [← hcs, foldlM_pushDigit hdigits (by rw [hvalue]; exact port.toNat_lt), hvalue]
  exact congrArg Except.ok UInt16.ofNat_toNat

def applyParts (parts : List Part) (result : CommandLine) : CommandLine :=
  parts.foldl (fun result part => part.update result) result

section Reads
variable {fromStr : String → Except String Json}

/-- The loop reads the arguments and makes the change. -/
def Part.Reads (fromStr : String → Except String Json) (part : Part) : Prop :=
  ∀ result rest, readArguments fromStr result (part.arguments ++ rest) =
    readArguments fromStr (part.update result) rest

theorem reads_valued {name : String} {value : Option String} {update : CommandLine → CommandLine}
    (h : ∀ text, value = some text → ∀ result, ∃ set,
      setting fromStr result name = .value set ∧ set text = .ok (update result)) :
    (Part.valued name value update).Reads fromStr := by
  intro result rest
  cases value with
  | none => rfl
  | some text =>
    obtain ⟨set, hset, htext⟩ := h text rfl result
    show readArguments fromStr result (some name :: some text :: rest) = _
    rw [readArguments.eq_def]
    dsimp only
    rw [hset]
    dsimp only
    rw [htext]
    rfl

theorem reads_flag {name : String} {value : Bool} {update : CommandLine → CommandLine}
    (h : value = true → ∀ result, setting fromStr result name = .flag (update result)) :
    (Part.flag name value update).Reads fromStr := by
  intro result rest
  cases value with
  | false => rfl
  | true =>
    show readArguments fromStr result (some name :: rest) = _
    rw [readArguments.eq_def]
    dsimp only
    rw [h rfl result]
    rfl

theorem reads_parts {parts : List Part} (h : ∀ part ∈ parts, part.Reads fromStr)
    (result : CommandLine) : readArguments fromStr result (parts.flatMap Part.arguments) =
      .ok (some (applyParts parts result)) := by
  induction parts generalizing result with
  | nil => rfl
  | cons part parts ih =>
    rw [List.forall_mem_cons] at h
    rw [List.flatMap_cons, h.1]
    exact ih h.2 _

theorem reads_of_mem {print : Json → String} {cli : CommandLine}
    (hprint : ∀ value, cli.functions.runtimeConfig = some value →
      fromStr (print value) = .ok value) {part : Part} (hm : part ∈ cli.parts print) :
    part.Reads fromStr := by
  have htext : ∀ {option : Option String} {text : String}, option = some text →
      some text = option := Eq.symm
  unfold CommandLine.parts at hm
  simp only [List.mem_cons, List.not_mem_nil, or_false] at hm
  rcases hm with rfl | rfl | rfl | rfl | rfl | rfl | rfl | rfl | rfl | rfl | rfl | rfl | rfl | rfl
  · exact reads_valued fun text hv result => ⟨_, rfl, by rw [← htext hv]⟩
  · exact reads_valued fun text hv result => ⟨_, rfl, by rw [← htext hv]⟩
  · exact reads_flag fun hv result => by rw [hv]; rfl
  · exact reads_valued fun text hv result => ⟨_, rfl, by rw [← htext hv]⟩
  · exact reads_valued fun text hv result => ⟨_, rfl, by rw [← htext hv]⟩
  · refine reads_valued fun text hv result => ⟨_, rfl, ?_⟩
    obtain ⟨port, hp, rfl⟩ := Option.map_eq_some_iff.mp hv
    rw [parseU16_portText, hp]
    rfl
  · refine reads_valued fun text hv result => ⟨_, rfl, ?_⟩
    obtain ⟨port, hp, rfl⟩ := Option.map_eq_some_iff.mp hv
    rw [parseU16_portText, hp]
    rfl
  · refine reads_valued fun text hv result => ⟨_, rfl, ?_⟩
    obtain ⟨port, hp, rfl⟩ := Option.map_eq_some_iff.mp hv
    rw [parseU16_portText, hp]
    rfl
  · exact reads_valued fun text hv result => ⟨_, rfl, by rw [← htext hv]⟩
  · exact reads_valued fun text hv result => ⟨_, rfl, by rw [← htext hv]⟩
  · exact reads_valued fun text hv result => ⟨_, rfl, by rw [← htext hv]⟩
  · refine reads_valued fun text hv result => ⟨_, rfl, ?_⟩
    obtain ⟨value, hvalue, rfl⟩ := Option.map_eq_some_iff.mp hv
    rw [hprint value hvalue, hvalue]
    rfl
  · exact reads_flag fun hv result => by rw [hv]; rfl
  · exact reads_flag fun hv result => by rw [hv]; rfl

end Reads

theorem applyParts_valued {name : String} {value : Option String}
    {update : CommandLine → CommandLine} {result : CommandLine} {parts : List Part}
    (h : value = none → update result = result) :
    applyParts (.valued name value update :: parts) result = applyParts parts (update result) := by
  cases value with
  | none => exact congrArg (applyParts parts) (h rfl).symm
  | some text => rfl

theorem applyParts_flag {name : String} {value : Bool} {update : CommandLine → CommandLine}
    {result : CommandLine} {parts : List Part} (h : value = false → update result = result) :
    applyParts (.flag name value update :: parts) result = applyParts parts (update result) := by
  cases value with
  | false => exact congrArg (applyParts parts) (h rfl).symm
  | true => rfl

/-- All the changes together make the command line. -/
theorem applyParts_default (print : Json → String) (cli : CommandLine) :
    applyParts (cli.parts print) .default = cli := by
  obtain ⟨configRoot, dataDir, inMemory, noFunctions, noUi, uiPort, functions⟩ := cli
  obtain ⟨project, host, functionsPort, pubsubPort, source, codebase, runtime, runtimeConfig⟩ :=
    functions
  have hport : ∀ {option : Option UInt16}, option.map portText = none → option = none :=
    Option.map_eq_none_iff.mp
  unfold CommandLine.parts
  dsimp only
  rw [applyParts_valued (by rintro rfl; rfl), applyParts_valued (by rintro rfl; rfl),
    applyParts_flag (by rintro rfl; rfl), applyParts_valued (by rintro rfl; rfl),
    applyParts_valued (by rintro rfl; rfl),
    applyParts_valued (by intro h; obtain rfl := hport h; rfl),
    applyParts_valued (by intro h; obtain rfl := hport h; rfl),
    applyParts_valued (by intro h; obtain rfl := hport h; rfl),
    applyParts_valued (by rintro rfl; rfl), applyParts_valued (by rintro rfl; rfl),
    applyParts_valued (by rintro rfl; rfl),
    applyParts_valued (by intro h; obtain rfl := Option.map_eq_none_iff.mp h; rfl),
    applyParts_flag (by rintro rfl; rfl), applyParts_flag (by rintro rfl; rfl)]
  rfl

theorem readArguments_valid {fromStr : String → Except String Json} {print : Json → String}
    {cli : CommandLine} (hprint : ∀ value, cli.functions.runtimeConfig = some value →
      fromStr (print value) = .ok value) :
    readArguments fromStr .default (renderArguments print cli) = .ok (some cli) := by
  unfold renderArguments
  rw [reads_parts (fun part hm => reads_of_mem hprint hm), applyParts_default]

theorem commandLine_ok {fromStr : String → Except String Json} {arguments : List (Option String)}
    {cli : CommandLine} (h : commandLine fromStr arguments = .ok (some cli)) :
    cli.dataDir = none ∨ cli.inMemory = false := by
  unfold commandLine at h
  obtain ⟨found, -, h⟩ := exceptBind_eq_ok.mp h
  cases found with
  | none => cases h
  | some result =>
    obtain ⟨⟨⟩, hvalid, h⟩ := exceptBind_eq_ok.mp h
    obtain rfl := Option.some.inj (Except.ok.inj h)
    unfold validateCommandLine at hvalid
    split at hvalid
    · cases hvalid
    · rename_i hboth
      rw [Bool.and_eq_true, not_and_or, Bool.not_eq_true, Bool.not_eq_true,
        Option.isSome_eq_false_iff, Option.isNone_iff_eq_none] at hboth
      exact hboth

/-- What the emulator understands on its command line can be written with each option once, in
whatever order and however often the options were given. It never keeps data in a directory and in
memory at once. -/
theorem commandLine_round_trip {fromStr : String → Except String Json} {print : Json → String}
    {arguments : List (Option String)} {cli : CommandLine}
    (h : commandLine fromStr arguments = .ok (some cli))
    (hprint : ∀ value, cli.functions.runtimeConfig = some value →
      fromStr (print value) = .ok value) :
    commandLine fromStr (renderArguments print cli) = .ok (some cli) ∧
      (cli.dataDir = none ∨ cli.inMemory = false) := by
  have hvalid := commandLine_ok h
  refine ⟨?_, hvalid⟩
  have hchecked : validateCommandLine cli = .ok () := by
    unfold validateCommandLine
    rw [if_neg]
    rcases hvalid with hnone | hfalse
    · simp [hnone]
    · simp [hfalse]
  unfold commandLine
  rw [readArguments_valid hprint]
  show (validateCommandLine cli >>= fun _ => _) = _
  rw [hchecked]
  rfl

theorem commandLine_round_trip_sample :
    commandLine (fun _ => .ok (.bool true)) (renderArguments (fun _ => "true")
      { CommandLine.default with
        dataDir := some "b", uiPort := some 40,
        functions := { ConfigOverrides.none with runtimeConfig := some (.bool true) } }) =
      .ok (some { CommandLine.default with
        dataDir := some "b", uiPort := some 40,
        functions := { ConfigOverrides.none with runtimeConfig := some (.bool true) } }) :=
  (commandLine_round_trip
    (show commandLine _ [some "--data-dir", some "a", some "--ui-port", some "+40",
      some "--runtime-config", some "true", some "--data-dir", some "b"] = .ok _ from rfl)
    (fun _ hv => congrArg Except.ok (Option.some.inj hv))).1

end FirebaseEmu.Config
