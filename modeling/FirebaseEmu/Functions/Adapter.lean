import FirebaseEmu.Lib.Entries
import FirebaseEmu.Lib.Json
import FirebaseEmu.Lib.Results
import FirebaseEmu.Lib.Text
import Mathlib

namespace FirebaseEmu.Functions.Adapter
open Lib

/-- What a condition of the adapter's language makes of a value. A missing one counts as null. -/
def truthy : Json → Bool
  | .null => false
  | .bool value => value
  | .number (.posInt n) => n != 0
  | .number (.negInt _ _) => true
  | .number (.float x _) => !x.eq (.ofInt 0)
  | .string text => !text.isEmpty
  | .array _ => true
  | .object _ => true

/-- `typeof value === 'object'`, of a value that is not null. -/
def isObject : Json → Bool
  | .array _ => true
  | .object _ => true
  | _ => false

/-- `===`. Objects and arrays are compared by identity, so parsed ones are never the same. -/
def strictEq : Option Json → Option Json → Bool
  | none, none => true
  | some .null, some .null => true
  | some (.bool a), some (.bool b) => a == b
  | some (.number a), some (.number b) =>
    (Json.number a).asF64.bind (fun x => (Json.number b).asF64.map x.eq) == some true
  | some (.string a), some (.string b) => a == b
  | _, _ => false

/-- `/^[a-zA-Z0-9_-]+$/`. -/
def validName (name : String) : Bool :=
  !name.isEmpty && name.toList.all fun c => c.isAlphanum || c == '_' || c == '-'

/-- `/^[a-zA-Z0-9_$.-]+$/`. -/
def validHandler (handler : String) : Bool :=
  !handler.isEmpty &&
    handler.toList.all fun c => c.isAlphanum || c == '_' || c == '$' || c == '.' || c == '-'

/-- `/^[a-z]+(?:-[a-z0-9]+)+$/`. -/
def validRegion (region : String) : Bool :=
  match split '-' region with
  | first :: rest =>
    !first.isEmpty && first.toList.all Char.isLower && !rest.isEmpty &&
      rest.all fun part => !part.isEmpty && part.toList.all fun c => c.isLower || c.isDigit
  | [] => false

/-- A value of the module that a codebase exports. `__trigger` is null on a function without
one. -/
inductive Export (η : Type) where
  | function (handler : η) (trigger : Json)
  | object (entries : List (String × Export η))
  | other

/-- An entry of the registry, under its name. -/
structure Item (η : Type) where
  fn : η
  name : String
  regions : Json
  trigger : Json

/-- The registry, in the order in which names came in. -/
abbrev Registry (η : Type) := List (Item η)

/-- The arguments of the process and what it finds in its source directory: `resolveHandler`
with the exported functions, and the parsed manifest. -/
structure Setup (η : Type) where
  project : String
  target : Option String
  stringify : Json → String
  resolve : String → Option η
  manifest : Option Json

def supportedEvents : List String :=
  ["providers/cloud.firestore/eventTypes/document.create",
    "providers/cloud.firestore/eventTypes/document.update",
    "providers/cloud.firestore/eventTypes/document.write",
    "providers/cloud.firestore/eventTypes/document.delete",
    "google.pubsub.topic.publish", "google.storage.object.finalize",
    "google.storage.object.delete"]

variable {η : Type}

/-- `registry.set`: a name that is there keeps its place. -/
def set (registry : Registry η) (item : Item η) : Registry η :=
  if registry.any fun old => old.name == item.name then
    registry.map fun old => if old.name == item.name then item else old
  else registry ++ [item]

def lookup (registry : Registry η) (name : String) : Option (Item η) :=
  registry.find? fun item => item.name == name

def eventType (trigger : Json) : Option Json :=
  ((trigger.get "eventTrigger").find? "eventType")

/-- The trigger is one that `discover` takes. -/
def supported (trigger : Json) : Bool :=
  truthy (trigger.get "httpsTrigger") ||
    supportedEvents.any fun event => strictEq (eventType trigger) (some (.string event))

def defaultRegions : Json := .array [.string "us-central1"]

def register (setup : Setup η) (registry : Registry η) (name : String) (handler : η)
    (trigger : Json) : Except String (Registry η) :=
  if !supported trigger then .error s!"Unsupported trigger {name}: {setup.stringify trigger}"
  else if !validName name then .error s!"Invalid export name: {name}"
  else
    let regions := trigger.get "regions"
    .ok (set registry ⟨handler, name, if truthy regions then regions else defaultRegions, trigger⟩)

mutual

def discoverEntry (setup : Setup η) (registry : Registry η) (name : String) :
    Export η → Except String (Registry η)
  | .function handler trigger =>
    if truthy trigger then register setup registry name handler trigger else .ok registry
  | .object entries => discover setup registry name entries
  | .other => .ok registry

/-- The loop over the entries of an object. The names below a name are joined with a dash. -/
def discover (setup : Setup η) (registry : Registry η) (pre : String) :
    List (String × Export η) → Except String (Registry η)
  | [] => .ok registry
  | (key, value) :: rest => do
    let name := if pre.isEmpty then key else pre ++ "-" ++ key
    let registry ← discoverEntry setup registry name value
    discover setup registry pre rest

end

def validRegions (spec : Json) : Except String Json :=
  let given := spec.get "regions"
  let region := spec.get "region"
  let regions := match given with
    | .null => if truthy region then Json.array [region] else defaultRegions
    | given => given
  match regions with
  | .array values =>
    if values.isEmpty || values.any fun region => !(region.asStr).any validRegion then
      .error "Manifest regions must be non-empty Firebase region names"
    else .ok regions
  | _ => .error "Manifest regions must be non-empty Firebase region names"

/-- The trigger types that no definition of the manifest has are looked up in the methods that
every object has, and those are called like definitions. -/
def inherited : String → Option (Except String Json)
  | "constructor" | "valueOf" => some (.ok (.object []))
  | "toString" | "toLocaleString" => some (.ok (.string "[object Object]"))
  | "hasOwnProperty" | "isPrototypeOf" | "propertyIsEnumerable" => some (.ok (.bool false))
  | "__lookupGetter__" | "__lookupSetter__" => some (.ok .null)
  | "__defineGetter__" | "__defineSetter__" =>
    some (.error "Object.prototype method called on incompatible receiver")
  | "__proto__" => some (.error "definitions[trigger.type] is not a function")
  | _ => none

def eventTrigger (eventType resource service : String) : Json :=
  .object [("eventType", .string eventType), ("resource", .string resource),
    ("service", .string service)]

def requiredString (type : String) (trigger : Json) (key : String) : Except String String :=
  match trigger.get key with
  | .string value =>
    if value.isEmpty then .error s!"Manifest {type} trigger requires {key}" else .ok value
  | _ => .error s!"Manifest {type} trigger requires {key}"

/-- The three definitions of event triggers, or the inherited ones. -/
def definition (setup : Setup η) (type : String) (trigger : Json) : Except String Json :=
  match type with
  | "pubsub" => do
    let topic ← requiredString type trigger "topic"
    return eventTrigger "google.pubsub.topic.publish"
      s!"projects/{setup.project}/topics/{topic}" "pubsub.googleapis.com"
  | "storage.finalize" => do
    let bucket ← requiredString type trigger "bucket"
    return eventTrigger "google.storage.object.finalize" s!"projects/_/buckets/{bucket}"
      "storage.googleapis.com"
  | "storage.delete" => do
    let bucket ← requiredString type trigger "bucket"
    return eventTrigger "google.storage.object.delete" s!"projects/_/buckets/{bucket}"
      "storage.googleapis.com"
  | type => (inherited type).getD (.error s!"Unsupported manifest trigger type: {type}")

def manifestTrigger (setup : Setup η) (spec : Json) : Except String Json :=
  let trigger := spec.get "trigger"
  match trigger.get "type" with
  | .string "http" => .ok (.object [("httpsTrigger", .object [])])
  | .string type =>
    (definition setup type trigger).map fun event => .object [("eventTrigger", event)]
  | _ => .error "Manifest function requires trigger.type"

/-- One function of the manifest. -/
def manifestFunction (setup : Setup η) (registry : Registry η) (spec : Json) :
    Except String (Registry η) :=
  match spec.get "name" with
  | .string name =>
    if !validName name then .error "Manifest function requires a valid name"
    else
      match spec.get "handler" with
      | .string handler =>
        if !validHandler handler then .error s!"Manifest {name} requires a valid handler"
        else
          match setup.resolve handler with
          | none => .error s!"Manifest handler not exported: {handler}"
          | some fn =>
            if registry.any fun old => old.name == name then
              .error s!"Duplicate function name: {name}"
            else do
              let regions ← validRegions spec
              let trigger ← manifestTrigger setup spec
              return set registry ⟨fn, name, regions, trigger⟩
      | _ => .error s!"Manifest {name} requires a valid handler"
  | _ => .error "Manifest function requires a valid name"

def loadManifest (setup : Setup η) (registry : Registry η) : Except String (Registry η) :=
  match setup.manifest with
  | none => .ok registry
  | some parsed =>
    match parsed.get "functions" with
    | .array specs => specs.foldlM (manifestFunction setup) registry
    | _ => .error "Functions manifest requires a functions array"

/-- What `--target` leaves of the registry. -/
def targeted (setup : Setup η) (registry : Registry η) : Registry η :=
  match setup.target with
  | some target => if target.isEmpty then registry else (lookup registry target).toList
  | none => registry

/-- The registry that the process serves, from what its codebase exports. -/
def load (setup : Setup η) (exports : List (String × Export η)) : Except String (Registry η) := do
  let discovered ← discover setup [] "" exports
  let loaded ← loadManifest setup discovered
  let registry := targeted setup loaded
  if registry.isEmpty then .error "No supported function exports found" else .ok registry

/-- What a handler does before the deadline. -/
inductive HandlerOutcome where
  | returned (value : Json)
  | threw (message : String)

/-- A call of a handler. -/
structure Invocation (η : Type) where
  handler : η
  data : Json
  context : Json

structure Response where
  status : Nat
  body : Json

def errorBody (message : String) : Json :=
  .object [("error", .object [("message", .string message)])]

def maxBodyBytes : Nat := 10 * 1024 * 1024

def firestoreTypes : String := "providers/cloud.firestore/eventTypes/"

/-- The handler gets the name of the event type that its library knows. -/
def renameType (context : Json) (type : String) : Json :=
  match context, stripPrefix type firestoreTypes with
  | .object entries, some action =>
    .object (insertKey "eventType" (.string ("google.firestore." ++ action)) entries)
  | context, _ => context

/-- The checks of `/__/events`. An event type that is not a text passes them when the trigger has
the same, and then it has no prefix to look at. -/
def receiveEvent (registry : Registry η) (size : Json → Nat) (body : Json) :
    Except Response (Invocation η) :=
  if maxBodyBytes < size body then .error ⟨413, errorBody "Request failed"⟩
  else
    match (body.get "name").asStr.bind (lookup registry) with
    | none => .error ⟨404, errorBody "Event function not found"⟩
    | some item =>
      if !truthy (item.trigger.get "eventTrigger") then
        .error ⟨404, errorBody "Event function not found"⟩
      else
        let event := body.get "event"
        let context := event.get "context"
        match event.find? "data" with
        | none => .error ⟨400, errorBody "Expected event.data and event.context"⟩
        | some data =>
          if !isObject event || !isObject context then
            .error ⟨400, errorBody "Expected event.data and event.context"⟩
          else if (context.get "eventId").asStr.isNone || (context.get "timestamp").asStr.isNone ||
              !strictEq (context.find? "eventType") (eventType item.trigger) then
            .error ⟨400, errorBody "Invalid event context"⟩
          else
            match (context.get "eventType").asStr with
            | some type => .ok ⟨item.fn, data, renameType context type⟩
            | none => .error ⟨500, errorBody "Request failed"⟩

theorem receiveEvent_error {registry : Registry η} {size : Json → Nat} {body : Json}
    {response : Response} (h : receiveEvent registry size body = .error response) :
    400 ≤ response.status := by
  unfold receiveEvent at h
  dsimp only at h
  repeat' split at h
  all_goals cases h
  all_goals simp

def respond : HandlerOutcome → Response
  | .returned value => ⟨200, .object [("result", value)]⟩
  | .threw message => ⟨500, errorBody (if message.isEmpty then "Handler failed" else message)⟩

/-- The function as the process announces it to the emulator. -/
structure Function where
  name : String
  regions : List String
  trigger : Json

/-- The emulator does not read an entry whose regions are no list of texts. -/
def Item.announced (item : Item η) : Option Function :=
  (item.regions.asArray.bind fun regions => regions.mapM Json.asStr).map fun regions =>
    ⟨item.name, regions, item.trigger⟩

def ready (registry : Registry η) : Option (List Function) := registry.mapM Item.announced

/-- What the checks let into a registry. The event trigger of an item without a supported type has
no type at all. -/
structure Item.Sound (item : Item η) : Prop where
  name : validName item.name = true
  trigger : supported item.trigger = true ∨
    ∀ event, eventType item.trigger ≠ some (.string event)

structure Registry.Sound (registry : Registry η) : Prop where
  names : (registry.map Item.name).Nodup
  items : ∀ item ∈ registry, item.Sound

theorem mem_set {registry : Registry η} {item old : Item η} (h : old ∈ set registry item) :
    old = item ∨ old ∈ registry := by
  unfold set at h
  split at h
  · obtain ⟨found, hm, rfl⟩ := List.mem_map.mp h
    split
    · exact .inl rfl
    · exact .inr hm
  · rcases List.mem_append.mp h with hm | hm
    · exact .inr hm
    · exact .inl (List.mem_singleton.mp hm)

theorem map_name_set (registry : Registry η) (item : Item η) :
    (set registry item).map Item.name =
      if item.name ∈ registry.map Item.name then registry.map Item.name
      else registry.map Item.name ++ [item.name] := by
  have hany : (registry.any fun old => old.name == item.name) = true ↔
      item.name ∈ registry.map Item.name := by
    simp [List.any_eq_true, List.mem_map]
  unfold set
  by_cases h : item.name ∈ registry.map Item.name
  · rw [if_pos (hany.mpr h), if_pos h, List.map_map]
    apply List.map_congr_left
    intro old _
    rw [Function.comp_apply]
    split
    · rename_i he
      exact (beq_iff_eq.mp he).symm
    · rfl
  · rw [if_neg (fun ht => h (hany.mp ht)), if_neg h, List.map_append]
    rfl

theorem Registry.Sound.set {registry : Registry η} (h : registry.Sound) {item : Item η}
    (hi : item.Sound) : Registry.Sound (Adapter.set registry item) where
  names := by
    rw [map_name_set]
    split
    · exact h.names
    · rename_i hnew
      exact h.names.append (List.nodup_singleton _) (by simpa [List.disjoint_singleton] using hnew)
  items old hm := by
    rcases mem_set hm with rfl | hm
    · exact hi
    · exact h.items old hm

variable {setup : Setup η}

theorem register_sound {registry registry' : Registry η} (h : registry.Sound) {name : String}
    {handler : η} {trigger : Json}
    (hr : register setup registry name handler trigger = .ok registry') : registry'.Sound := by
  unfold register at hr
  split at hr
  · cases hr
  rename_i hsupported
  split at hr
  · cases hr
  rename_i hname
  cases hr
  apply h.set
  exact ⟨by simpa using hname, .inl (by simpa using hsupported)⟩

mutual

theorem discoverEntry_sound {registry registry' : Registry η} (h : registry.Sound)
    {name : String} : ∀ {value : Export η},
    discoverEntry setup registry name value = .ok registry' → registry'.Sound
  | .function handler trigger, hd => by
    rw [discoverEntry] at hd
    split at hd
    · exact register_sound h hd
    · cases hd
      exact h
  | .object entries, hd => by
    rw [discoverEntry] at hd
    exact discover_sound h hd
  | .other, hd => by
    rw [discoverEntry] at hd
    cases hd
    exact h

theorem discover_sound {registry registry' : Registry η} (h : registry.Sound) {pre : String} :
    ∀ {entries : List (String × Export η)},
    discover setup registry pre entries = .ok registry' → registry'.Sound
  | [], hd => by
    rw [discover] at hd
    cases hd
    exact h
  | (key, value) :: rest, hd => by
    rw [discover] at hd
    obtain ⟨middle, hfirst, hrest⟩ := exceptBind_eq_ok.mp hd
    exact discover_sound (discoverEntry_sound h hfirst) hrest

end

theorem inherited_eventType {type : String} {event : Json} (h : inherited type = some (.ok event))
    (text : String) : event.find? "eventType" ≠ some (.string text) := by
  unfold inherited at h
  split at h <;> first | cases h; intro he; cases he | cases h

/-- The manifest's triggers are supported, or have no event type. -/
theorem manifestTrigger_sound {spec trigger : Json} (h : manifestTrigger setup spec = .ok trigger) :
    supported trigger = true ∨ ∀ event, eventType trigger ≠ some (.string event) := by
  have hevent : ∀ {type resource service : String}, type ∈ supportedEvents →
      supported (.object [("eventTrigger", eventTrigger type resource service)]) = true := by
    intro type resource service hm
    rw [supported, Bool.or_eq_true]
    right
    rw [List.any_eq_true]
    exact ⟨type, hm, by simp [eventType, eventTrigger, Json.get, Json.find?, strictEq, List.lookup]⟩
  unfold manifestTrigger at h
  dsimp only at h
  split at h
  · cases h
    exact .inl (by decide)
  · rename_i type _ _
    obtain ⟨event, hd, rfl⟩ := exceptMap_eq_ok.mp h
    unfold definition at hd
    split at hd
    · obtain ⟨topic, -, hp⟩ := exceptBind_eq_ok.mp hd
      cases hp
      exact .inl (hevent (by simp [supportedEvents]))
    · obtain ⟨bucket, -, hp⟩ := exceptBind_eq_ok.mp hd
      cases hp
      exact .inl (hevent (by simp [supportedEvents]))
    · obtain ⟨bucket, -, hp⟩ := exceptBind_eq_ok.mp hd
      cases hp
      exact .inl (hevent (by simp [supportedEvents]))
    · right
      intro text he
      cases hi : inherited type with
      | none =>
        rw [hi] at hd
        cases hd
      | some result =>
        rw [hi] at hd
        obtain rfl : result = .ok event := hd
        exact inherited_eventType hi text he
  · cases h

theorem manifestFunction_sound {registry registry' : Registry η} (h : registry.Sound) {spec : Json}
    (hm : manifestFunction setup registry spec = .ok registry') : registry'.Sound := by
  unfold manifestFunction at hm
  split at hm
  · split at hm
    · cases hm
    rename_i hname
    split at hm
    · split at hm
      · cases hm
      split at hm
      · cases hm
      split at hm
      · cases hm
      obtain ⟨regions, -, hm⟩ := exceptBind_eq_ok.mp hm
      obtain ⟨trigger, ht, hm⟩ := exceptBind_eq_ok.mp hm
      cases hm
      exact h.set ⟨by simpa using hname, manifestTrigger_sound ht⟩
    · cases hm
  · cases hm

theorem manifestFunctions_sound {specs : List Json} {registry registry' : Registry η}
    (h : registry.Sound) (hm : specs.foldlM (manifestFunction setup) registry = .ok registry') :
    registry'.Sound := by
  induction specs generalizing registry with
  | nil =>
    cases hm
    exact h
  | cons spec specs ih =>
    rw [List.foldlM_cons] at hm
    obtain ⟨middle, hfirst, hrest⟩ := exceptBind_eq_ok.mp hm
    exact ih (manifestFunction_sound h hfirst) hrest

theorem empty_sound : Registry.Sound ([] : Registry η) := ⟨.nil, fun _ hm => by cases hm⟩

theorem lookup_mem {registry : Registry η} {name : String} {item : Item η}
    (h : lookup registry name = some item) : item ∈ registry ∧ item.name = name :=
  ⟨List.mem_of_find?_eq_some h, by simpa using List.find?_some h⟩

theorem lookup_of_mem {registry : Registry η} (h : registry.Sound) {item : Item η}
    (hm : item ∈ registry) : lookup registry item.name = some item := by
  cases hf : lookup registry item.name with
  | none => simpa using List.find?_eq_none.mp hf item hm
  | some found =>
    obtain ⟨hfound, hname⟩ := lookup_mem hf
    rw [List.inj_on_of_nodup_map h.names hfound hm hname]

theorem lookup_sound {registry : Registry η} (h : registry.Sound) (target : String) :
    Registry.Sound (lookup registry target).toList := by
  cases hf : lookup registry target with
  | none => exact empty_sound
  | some item =>
    refine ⟨List.nodup_singleton _, fun other hm => ?_⟩
    rw [List.mem_singleton.mp hm]
    exact h.items item (lookup_mem hf).1

/-- The names in a registry that the process serves are valid and distinct, and its triggers are
those that the checks take. -/
theorem load_sound {exports : List (String × Export η)} {registry : Registry η}
    (h : load setup exports = .ok registry) : registry.Sound := by
  unfold load at h
  obtain ⟨discovered, hd, h⟩ := exceptBind_eq_ok.mp h
  obtain ⟨loaded, hl, h⟩ := exceptBind_eq_ok.mp h
  have hdiscovered : discovered.Sound := discover_sound empty_sound hd
  have hloaded : loaded.Sound := by
    unfold loadManifest at hl
    split at hl
    · cases hl
      exact hdiscovered
    · split at hl
      · exact manifestFunctions_sound hdiscovered hl
      · cases hl
  have htargeted : (targeted setup loaded).Sound := by
    unfold targeted
    split
    · split
      · exact hloaded
      · exact lookup_sound hloaded _
    · exact hloaded
  dsimp only at h
  split at h
  · cases h
  · cases h
    exact htargeted

end FirebaseEmu.Functions.Adapter
