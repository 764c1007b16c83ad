import FirebaseEmu.Functions.Workers
import Mathlib

namespace FirebaseEmu.Functions
open Lib

/-- A wildcard takes any segment, another segment only itself. -/
def takes (segment value : String) : Bool := (wildcardName segment).isSome || segment == value

/-- The pattern covers the path. -/
def Covers (pattern path : String) : Prop :=
  List.Forall₂ (fun segment value => takes segment value = true) (split '/' pattern)
    (split '/' path)

/-- What the wildcards of a pattern stand for in a path, in order. -/
def bindings (segments : List (String × String)) : List (String × String) :=
  segments.filterMap fun segment => (wildcardName segment.1).map fun name => (name, segment.2)

/-- The bindings as parameters: of a name that comes twice, the last one. -/
def parameters (params : List (String × Json)) (bound : List (String × String)) :
    List (String × Json) :=
  bound.foldl (fun params entry => insertKey entry.1 (.string entry.2) params) params

theorem wildcardLoop_eq (segments : List (String × String)) (params : List (String × Json)) :
    wildcardLoop segments params =
      some (if segments.all fun segment => takes segment.1 segment.2 then
        some (parameters params (bindings segments)) else none) := by
  induction segments generalizing params with
  | nil => simp [wildcardLoop, bindings, parameters]
  | cons segment rest ih =>
    obtain ⟨a, b⟩ := segment
    cases hname : wildcardName a with
    | none =>
      rw [wildcardLoop_literal hname]
      by_cases hab : a = b
      · subst hab
        have htakes : takes a a = true := by simp [takes]
        rw [if_neg (not_not_intro rfl), ih, List.all_cons, htakes, Bool.true_and]
        simp only [bindings, List.filterMap_cons, hname, Option.map_none]
      · have htakes : takes a b = false := by simp [takes, hname, hab]
        simp [hab, htakes]
    | some name =>
      have htakes : takes a b = true := by simp [takes, hname]
      rw [wildcardLoop_name hname, ih, List.all_cons, htakes, Bool.true_and]
      simp only [bindings, parameters, List.filterMap_cons, hname, Option.map_some,
        List.foldl_cons]

theorem covers_iff_zip {pattern path : String} : Covers pattern path ↔
    (split '/' pattern).length = (split '/' path).length ∧
      ∀ segment ∈ (split '/' pattern).zip (split '/' path),
        takes segment.1 segment.2 = true := by
  rw [Covers, List.forall₂_iff_zip]
  simp [Prod.forall]

/-- The parameters of a path under a pattern that covers it. -/
def captured (pattern path : String) : Json :=
  .object (parameters [] (bindings ((split '/' pattern).zip (split '/' path))))

/-- The code never panics, and returns parameters for exactly the paths that the pattern covers. -/
theorem wildcardParams_covers (pattern path : String) [Decidable (Covers pattern path)] :
    wildcardParams pattern path =
      some (if Covers pattern path then some (captured pattern path) else none) := by
  rw [wildcardParams]
  by_cases hlen : (split '/' pattern).length = (split '/' path).length
  · have hall : (((split '/' pattern).zip (split '/' path)).all fun segment =>
        takes segment.1 segment.2) = true ↔ Covers pattern path := by
      simp [covers_iff_zip, hlen]
    rw [if_neg (not_not_intro hlen), wildcardLoop_eq]
    by_cases hcovers : Covers pattern path
    · rw [if_pos (hall.mpr hcovers), if_pos hcovers]
      rfl
    · rw [if_neg (fun h => hcovers (hall.mp h)), if_neg hcovers]
      rfl
  · rw [if_pos hlen, if_neg (fun h => hlen (covers_iff_zip.mp h).1)]

end FirebaseEmu.Functions

namespace FirebaseEmu.Functions.Dispatch
open Lib
open Adapter (Function Registry Invocation HandlerOutcome)
open Firestore (Document TextFormats documentJson)

/-- The function is told of changes of one kind to the document at a path. -/
structure Watches (f : Function) (kind path : String) (type pattern : String) : Prop where
  typed : eventType f = some type
  kind : takesKind kind type = true
  located : ∃ place, resource f = some place ∧ secondPart "/documents/" place = some pattern
  covers : Covers pattern path

theorem Watches.unique {f : Function} {kind path type pattern type' pattern' : String}
    (h : Watches f kind path type pattern) (h' : Watches f kind path type' pattern') :
    type = type' ∧ pattern = pattern' := by
  obtain ⟨place, hplace, hpattern⟩ := h.located
  obtain ⟨place', hplace', hpattern'⟩ := h'.located
  obtain rfl := Option.some.inj (hplace.symm.trans hplace')
  exact ⟨Option.some.inj (h.typed.symm.trans h'.typed),
    Option.some.inj (hpattern.symm.trans hpattern')⟩

variable (formats : TextFormats)

theorem takesKind_empty (kind : String) : takesKind kind "" = false := by
  simp [takesKind, startsWith]

theorem second_nil {α : Type} [DecidableEq α] {sep : List α} (h : sep ≠ []) : second sep [] = none := by
  rw [second, find_nil h]
  rfl

/-- What the loop makes of one function. -/
theorem firestorePost_eq (id : Nat) (before after : Option Document) (document : Document)
    (path : String) (worker : Worker) (f : Function) :
    (∃ type pattern, Watches f (eventKind before.isSome after.isSome) path type pattern ∧
      firestorePost formats id before after document path worker f =
        some (some ⟨worker, f.name, firestoreData formats before after,
          context (.string (eventId id)) ((documentJson formats document).get "updateTime")
            (.string type) (.string document.name) (.string "firestore.googleapis.com")
            (captured pattern path)⟩)) ∨
    (∀ type pattern, ¬ Watches f (eventKind before.isSome after.isSome) path type pattern) ∧
      firestorePost formats id before after document path worker f = some none := by
  classical
  unfold firestorePost
  dsimp only
  cases htype : eventType f with
  | none =>
    right
    refine ⟨?_, by simp [takesKind_empty]⟩
    rintro type pattern ⟨htyped, -⟩
    rw [htype] at htyped
    cases htyped
  | some type =>
    rw [Option.getD_some]
    cases hkind : takesKind (eventKind before.isSome after.isSome) type with
    | false =>
      right
      refine ⟨?_, rfl⟩
      rintro type' pattern ⟨htyped, hkind', -⟩
      rw [htype] at htyped
      obtain rfl := Option.some.inj htyped
      rw [hkind] at hkind'
      cases hkind'
    | true =>
      simp only [Bool.not_true, Bool.false_eq_true, if_false]
      cases hsecond : secondPart "/documents/" ((resource f).getD "") with
      | none =>
        right
        refine ⟨?_, rfl⟩
        rintro type' pattern ⟨-, -, ⟨place, hplace, hpattern⟩, -⟩
        rw [hplace, Option.getD_some, hpattern] at hsecond
        cases hsecond
      | some pattern =>
        have hplace : ∃ place, resource f = some place ∧
            secondPart "/documents/" place = some pattern := by
          cases hresource : resource f with
          | none =>
            rw [hresource] at hsecond
            have hnil : secondPart "/documents/" "" = none := by
              rw [secondPart, String.toList_empty, second_nil (by decide)]
              rfl
            rw [Option.getD_none, hnil] at hsecond
            cases hsecond
          | some place => exact ⟨place, rfl, by rwa [hresource] at hsecond⟩
        dsimp only
        rw [wildcardParams_covers]
        by_cases hcovers : Covers pattern path
        · left
          refine ⟨type, pattern, ⟨htype, hkind, hplace, hcovers⟩, ?_⟩
          rw [if_pos hcovers]
          rfl
        · right
          refine ⟨?_, ?_⟩
          · rintro type' pattern' ⟨-, -, ⟨place, hp, hpattern⟩, hc⟩
            obtain ⟨place', hp', hpattern'⟩ := hplace
            rw [hp] at hp'
            obtain rfl := Option.some.inj hp'
            rw [hpattern] at hpattern'
            obtain rfl := Option.some.inj hpattern'
            exact hcovers hc
          · rw [if_neg hcovers]
            rfl

/-- The request that a watching function gets. -/
def watcherPost (formats : TextFormats) (id : Nat) (before after : Option Document)
    (document : Document) (path : String) (worker : Worker) (f : Function)
    (type pattern : String) : Post :=
  ⟨worker, f.name, firestoreData formats before after,
    context (.string (eventId id)) ((documentJson formats document).get "updateTime")
      (.string type) (.string document.name) (.string "firestore.googleapis.com")
      (captured pattern path)⟩

theorem mem_pairs {runtime : Runtime} {worker : Worker} {f : Function} :
    (worker, f) ∈ runtime.pairs ↔ worker ∈ runtime.workers ∧ f ∈ worker.functions := by
  simp only [Runtime.pairs, List.mem_flatMap, List.mem_map, Prod.mk.injEq]
  constructor
  · rintro ⟨w, hw, g, hg, rfl, rfl⟩
    exact ⟨hw, hg⟩
  · rintro ⟨hw, hf⟩
    exact ⟨worker, hw, f, hf, rfl, rfl⟩

theorem map_name_pairs (runtime : Runtime) :
    runtime.pairs.map (fun pair => pair.2.name) = runtime.workers.flatMap Worker.names := by
  simp only [Runtime.pairs, List.map_flatMap, List.map_map]
  rfl

theorem map_filterMap_sublist {α β κ : Type} {g : α → Option β} {key : α → κ} {key' : β → κ}
    (h : ∀ a b, g a = some b → key' b = key a) (l : List α) :
    ((l.filterMap g).map key').Sublist (l.map key) := by
  induction l with
  | nil => exact .slnil
  | cons a l ih =>
    cases hg : g a with
    | none =>
      rw [List.filterMap_cons_none hg]
      exact ih.cons _
    | some b =>
      rw [List.filterMap_cons_some hg, List.map_cons, List.map_cons, h a b hg]
      exact ih.cons_cons _

/-- A change of a document of the default database leads to one request for each function that
watches it. -/
theorem firestorePosts_eq (runtime : Runtime) (id : Nat) {before after : Option Document}
    {document : Document} (hdocument : (after <|> before) = some document) {path : String}
    (hname : document.name =
      s!"projects/{runtime.project}/databases/(default)/documents/" ++ path) :
    ∃ posts, firestorePosts formats runtime id before after = some posts ∧
      (posts.map Post.function).Sublist (runtime.workers.flatMap Worker.names) ∧
      ∀ post, post ∈ posts ↔ ∃ worker f type pattern, (worker, f) ∈ runtime.pairs ∧
        Watches f (eventKind before.isSome after.isSome) path type pattern ∧
        post = watcherPost formats id before after document path worker f type pattern := by
  let turn : Worker × Function → Option Post := fun pair =>
    (firestorePost formats id before after document path pair.1 pair.2).getD none
  have hturn : ∀ pair : Worker × Function,
      firestorePost formats id before after document path pair.1 pair.2 = some (turn pair) := by
    intro pair
    rcases firestorePost_eq formats id before after document path pair.1 pair.2 with
      ⟨type, pattern, -, h⟩ | ⟨-, h⟩
    · simp only [turn, h, Option.getD_some]
    · simp only [turn, h, Option.getD_some]
  have hmapM : runtime.pairs.mapM (fun pair =>
      firestorePost formats id before after document path pair.1 pair.2) =
        some (runtime.pairs.map turn) := by
    rw [mapM_eq_some, List.forall₂_map_right_iff, List.forall₂_same]
    exact fun pair _ => hturn pair
  have hposts : firestorePosts formats runtime id before after =
      some (runtime.pairs.filterMap turn) := by
    unfold firestorePosts
    rw [hdocument, Option.bind_eq_bind, Option.bind_some, hname, stripPrefix_append]
    dsimp only
    rw [hmapM, Option.bind_eq_bind, Option.bind_some, List.reduceOption, List.filterMap_map]
    rfl
  refine ⟨_, hposts, ?_, ?_⟩
  · rw [← map_name_pairs]
    apply map_filterMap_sublist
    intro pair post hp
    rcases firestorePost_eq formats id before after document path pair.1 pair.2 with
      ⟨type, pattern, -, h⟩ | ⟨-, h⟩
    · rw [hturn, hp] at h
      obtain rfl := Option.some.inj (Option.some.inj h)
      rfl
    · rw [hturn, hp] at h
      cases Option.some.inj h
  · intro post
    rw [List.mem_filterMap]
    constructor
    · rintro ⟨⟨worker, f⟩, hm, hp⟩
      rcases firestorePost_eq formats id before after document path worker f with
        ⟨type, pattern, hw, h⟩ | ⟨-, h⟩
      · rw [hturn (worker, f), hp] at h
        exact ⟨worker, f, type, pattern, hm, hw, Option.some.inj (Option.some.inj h)⟩
      · rw [hturn (worker, f), hp] at h
        cases Option.some.inj h
    · rintro ⟨worker, f, type, pattern, hm, hw, rfl⟩
      refine ⟨(worker, f), hm, ?_⟩
      rcases firestorePost_eq formats id before after document path worker f with
        ⟨type', pattern', hw', h⟩ | ⟨hno, -⟩
      · obtain ⟨rfl, rfl⟩ := hw.unique hw'
        rw [hturn (worker, f)] at h
        exact Option.some.inj h
      · exact absurd hw (hno type pattern)

theorem joined_eq_none {errors : List String} : joined errors = none ↔ errors = [] := by
  cases errors <;> simp [joined]

variable {η : Type}

/-- Where a change of a document leads: each attempt, and the answer to all of them. -/
structure Delivered (formats : TextFormats) (cluster : Cluster η) (workers : List Worker)
    (id : Nat) (before after : Option Document) (document : Document) (time : Firestore.Timestamp)
    (path : String) (attempts : List (Attempt η)) (error : Option String) : Prop where
  /-- The functions that watch the document are asked, each of them once. -/
  once : (attempts.map fun attempt => attempt.post.function).Nodup
  asked : ∀ name, (∃ attempt ∈ attempts, attempt.post.function = name) ↔
    ∃ worker ∈ workers, ∃ f ∈ worker.functions, f.name = name ∧
      ∃ type pattern, Watches f (eventKind before.isSome after.isSome) path type pattern
  /-- A call is one of the handler under that name, with the change and the parameters. -/
  called : ∀ attempt ∈ attempts, ∀ call outcome, attempt.call = some (call, outcome) →
    ∃ item f type pattern, f ∈ attempt.post.worker.functions ∧ f.name = attempt.post.function ∧
      Watches f (eventKind before.isSome after.isSome) path type pattern ∧
      Adapter.lookup (cluster.registry attempt.post.worker.base) f.name = some item ∧
      call = ⟨item.fn, firestoreData formats before after,
        context (.string (eventId id)) (.string (formats.timestamp time))
          (.string (heardType type)) (.string document.name)
          (.string "firestore.googleapis.com") (captured pattern path)⟩
  /-- No process turns a request down. -/
  silent : ∀ attempt ∈ attempts, attempt.call = none → ∃ error, attempt.answer = .error error
  /-- The dispatch succeeds when every handler has returned. -/
  succeeds : error = none ↔ ∀ attempt ∈ attempts, attempt.answer.succeeds = true
  returned : ∀ attempt ∈ attempts, attempt.answer.succeeds = true →
    ∃ call value, attempt.call = some (call, .returned value)

/-- A codebase with one function on the documents of a collection. -/
def sampleTrigger : Json :=
  .object [("eventTrigger", .object [
    ("eventType", .string "providers/cloud.firestore/eventTypes/document.write"),
    ("resource", .string "projects/demo-app/databases/(default)/documents/items/\x7bid\x7d")])]

def sampleProcess : Process Unit :=
  ⟨"default", "http://127.0.0.1:9000",
    ⟨"demo-app", none, fun _ => "", fun _ => none, none⟩, [("onItem", .function () sampleTrigger)]⟩

def sampleWorker : Worker :=
  ⟨"default", "http://127.0.0.1:9000", [⟨"onItem", ["us-central1"], sampleTrigger⟩]⟩

def sampleCluster : Cluster Unit :=
  ⟨fun _ => [⟨(), "onItem", Adapter.defaultRegions, sampleTrigger⟩], fun _ => 0, fun _ => "",
    fun _ _ => .returned .null, fun _ _ => none, fun _ _ => none⟩

def sampleItem : Document :=
  ⟨"projects/demo-app/databases/(default)/documents/items/one", [], some ⟨0, 0⟩, some ⟨0, 0⟩⟩

def sampleTexts : TextFormats := ⟨fun _ => "1970-01-01T00:00:00Z", fun _ => ""⟩

end FirebaseEmu.Functions.Dispatch
