import FirebaseEmu.Lib.Search
import FirebaseEmu.Lib.Utf8
import FirebaseEmu.Storage.Objects

namespace FirebaseEmu.Storage
open Lib

deriving instance DecidableEq for UploadMetadata, NamedMetadata

/-- Why a body is not parsed. The last two are a panic of a slice, and a loop that goes on. -/
inductive MultipartError where
  | refused (message : String)
  | outOfRange
  | unfinished
  deriving DecidableEq

/-- `bytes.get(start..stop)`. -/
def getRange (bytes : Bytes) (start stop : Nat) : Option Bytes :=
  if start ≤ stop ∧ stop ≤ bytes.length then some ((bytes.drop start).take (stop - start)) else none

/-- `&bytes[start..stop]`. -/
def slice (bytes : Bytes) (start stop : Nat) : Except MultipartError Bytes :=
  match getRange bytes start stop with
  | some part => .ok part
  | none => .error .outOfRange

/-- `ok_or` and `map_err`. -/
def orRefuse {α : Type} (result : Option α) (message : String) : Except MultipartError α :=
  match result with
  | some value => .ok value
  | none => .error (.refused message)

def crlf : Bytes := textBytes "\r\n"

def dashes : Bytes := textBytes "--"

def boundaryOf (contentType : String) : Option String :=
  ((((split ';' contentType).map trim).findSome? fun part => stripPrefix part "boundary=").map
    fun value => trimMatches (· == '"') value).filter fun value => !value.isEmpty

/-- One round of the loop: the part behind a marker with the place of the next marker, and
`none` at the closing one. -/
def multipartPart (body marker : Bytes) (cursor : Nat) :
    Except MultipartError (Option ((String × Bytes) × Nat)) := do
  let cursor := cursor + marker.length
  if getRange body cursor (cursor + 2) = some dashes then return none
  let cursor := if getRange body cursor (cursor + 2) = some crlf then cursor + 2 else cursor
  let headerEnd ← orRefuse (find (← slice body cursor body.length) (crlf ++ crlf))
    "multipart part headers are incomplete"
  let headerEnd := cursor + headerEnd
  let headers ← orRefuse (ofUtf8 (← slice body cursor headerEnd))
    "multipart part headers are not UTF-8"
  let contentStart := headerEnd + 4
  let contentEnd ← orRefuse (find (← slice body contentStart body.length) (crlf ++ marker))
    "multipart closing boundary is missing"
  let contentEnd := contentStart + contentEnd
  return some ((headers, ← slice body contentStart contentEnd), contentEnd + 2)

def multipartParts (body marker : Bytes) :
    Nat → Nat → Except MultipartError (List (String × Bytes))
  | 0, _ => .error .unfinished
  | rounds + 1, cursor => do
    match ← multipartPart body marker cursor with
    | none => return []
    | some (part, cursor) => return part :: (← multipartParts body marker rounds cursor)

def lineContentType (line : String) : Option String := do
  let (name, value) ← splitOnce ':' line
  if eqIgnoreAsciiCase name "content-type" then some (trim value) else none

def partContentType (headers : String) : Option String := (lines headers).findSome? lineContentType

/-- `parse_multipart`. What serde makes of a part is a parameter. -/
def parseMultipart (readMetadata : Bytes → Option NamedMetadata) (contentType : String)
    (body : Bytes) : Except MultipartError (NamedMetadata × Bytes × Option String) := do
  let boundary ← orRefuse (boundaryOf contentType) "multipart boundary is missing"
  let marker := textBytes ("--" ++ boundary)
  let cursor ← orRefuse (find body marker) "multipart boundary not found"
  match ← multipartParts body marker (body.length + 1) cursor with
  | (_, json) :: (headers, media) :: _ =>
    let metadata ← orRefuse (readMetadata json) "multipart metadata is invalid JSON"
    return (metadata, media, partContentType headers)
  | _ => .error (.refused "multipart upload requires metadata and media parts")

/-- A delimiter line, the headers, an empty line, the content and the end of its line. -/
def renderPart (boundary headers : String) (content : Bytes) : Bytes :=
  textBytes ("--" ++ boundary) ++ crlf ++ textBytes headers ++ crlf ++ crlf ++ content ++ crlf

/-- The standard rendering of metadata and media. Behind the closing delimiter anything may
follow. -/
def renderMultipart (boundary headers : String) (json : Bytes) (mediaHeaders : String)
    (media rest : Bytes) : Bytes :=
  renderPart boundary headers json ++ renderPart boundary mediaHeaders media ++
    textBytes ("--" ++ boundary) ++ dashes ++ rest

/-- The content type of a request, the boundary bare or in quotes. -/
def multipartType (boundary : String) (quoted : Bool) : String :=
  "multipart/related; boundary=" ++ if quoted then "\"" ++ boundary ++ "\"" else boundary

/-- A boundary that a content type can carry. -/
structure IsBoundary (boundary : String) : Prop where
  filled : boundary ≠ ""
  plain : ∀ c ∈ boundary.toList, c ≠ '\r' ∧ c ≠ '\n' ∧ c ≠ '"' ∧ c ≠ ';'
  trimmed : trim boundary = boundary

/-- Headers that an empty line ends, and nothing before it. -/
structure IsHeaders (headers : String) : Prop where
  solid : ¬ crlf ++ crlf <:+: textBytes headers
  open_ended : ¬ crlf <:+ textBytes headers

/-- The value of a `Content-Type` line. -/
def NamesType (line value : String) : Prop :=
  ∃ name, line = name ++ ":" ++ value ∧ ':' ∉ name.toList ∧
    eqIgnoreAsciiCase name "content-type" = true

/-- The content type that headers name: the trimmed value of their first such line. -/
inductive TypeNamed (headers : String) : Option String → Prop
  | named {before after : List String} {line value : String} :
    lines headers = before ++ line :: after → NamesType line value →
    (∀ other ∈ before, ∀ value, ¬ NamesType other value) → TypeNamed headers (some (trim value))
  | unnamed : (∀ line ∈ lines headers, ∀ value, ¬ NamesType line value) → TypeNamed headers none

theorem IsBoundary.unquoted {boundary : String} (h : IsBoundary boundary) :
    trimMatches (· == '"') boundary = boundary :=
  trimMatches_of_all_not fun c hc => by simpa using (h.plain c hc).2.2.1

/-- The value is what the content type has behind the equals sign. -/
theorem boundaryOf_append {value boundary : String} (hs : ';' ∉ value.toList)
    (ht : trim (" boundary=" ++ value) = "boundary=" ++ value)
    (hq : trimMatches (· == '"') value = boundary) (hne : boundary ≠ "") :
    boundaryOf ("multipart/related; boundary=" ++ value) = some boundary := by
  have hcut : "multipart/related; boundary=" ++ value =
      "multipart/related" ++ String.singleton ';' ++ (" boundary=" ++ value) := by
    rw [← String.append_assoc]
    rfl
  have hsecond : split ';' (" boundary=" ++ value) = [" boundary=" ++ value] := by
    refine split_of_not_mem ';' ?_
    rw [String.toList_append, List.mem_append, not_or]
    exact ⟨by decide, hs⟩
  have hfirst : (split ';' "multipart/related").map trim = ["multipart/related"] := by
    decide
  have hskip : stripPrefix "multipart/related" "boundary=" = none := by decide
  rw [boundaryOf, hcut, split_append, hsecond, List.map_append, hfirst, List.map_singleton, ht]
  simp only [List.singleton_append, List.findSome?_cons, hskip, stripPrefix_append,
    Option.map_some, hq]
  rw [Option.filter_some, if_pos (by simpa using hne)]

theorem boundaryOf_multipartType {boundary : String} (h : IsBoundary boundary) (quoted : Bool) :
    boundaryOf (multipartType boundary quoted) = some boundary := by
  have hsemi : ';' ∉ boundary.toList := fun hm => (h.plain _ hm).2.2.2 rfl
  have hkey : trim "boundary=" = "boundary=" := by decide
  -- a space before the name goes, and nothing else of the parameter
  have htrim : ∀ middle last : String, trim last = last → last ≠ "" →
      trim (" boundary=" ++ (middle ++ last)) = "boundary=" ++ (middle ++ last) := by
    intro middle last hlast hne
    have hkept : trim ("boundary=" ++ middle ++ last) = "boundary=" ++ middle ++ last :=
      trimMatches_between hkey hlast (by decide) hne middle
    have hfilled : "boundary=" ++ middle ++ last ≠ "" := by simp
    have hpad : trim (" " ++ ("boundary=" ++ middle ++ last) ++ "") =
        "boundary=" ++ middle ++ last :=
      trimMatches_padded hkept hfilled (by decide) (by decide)
    simpa [← String.append_assoc] using hpad
  cases quoted with
  | false =>
    have ht := htrim "" boundary h.trimmed h.filled
    rw [String.empty_append] at ht
    exact boundaryOf_append hsemi ht h.unquoted h.filled
  | true =>
    have hq : trimMatches (· == '"') ("\"" ++ boundary ++ "\"") = boundary :=
      trimMatches_padded h.unquoted h.filled (by decide) (by decide)
    have hclosed : ';' ∉ ("\"" ++ boundary ++ "\"").toList := by
      simp only [String.toList_append, List.mem_append, not_or]
      exact ⟨⟨by decide, hsemi⟩, by decide⟩
    exact boundaryOf_append hclosed (htrim ("\"" ++ boundary) "\"" (by decide) (by decide))
      hq h.filled

/-- A range lies where the text around it says. -/
theorem getRange_of_eq {bytes a b c : Bytes} {i j : Nat} (h : bytes = a ++ b ++ c)
    (hi : i = a.length) (hj : j = i + b.length) : getRange bytes i j = some b := by
  subst h hi hj
  have hin : a.length ≤ a.length + b.length ∧ a.length + b.length ≤ (a ++ b ++ c).length := by
    simp only [List.length_append]
    omega
  rw [getRange, if_pos hin, Nat.add_sub_cancel_left, List.append_assoc, List.drop_left,
    List.take_left]

theorem slice_of_eq {bytes a b c : Bytes} {i j : Nat} (h : bytes = a ++ b ++ c)
    (hi : i = a.length) (hj : j = i + b.length) : slice bytes i j = .ok b := by
  rw [slice, getRange_of_eq h hi hj]

theorem slice_end_of_eq {bytes a b : Bytes} {i : Nat} (h : bytes = a ++ b) (hi : i = a.length) :
    slice bytes i bytes.length = .ok b := by
  refine slice_of_eq (c := []) (by rw [List.append_nil]; exact h) hi ?_
  rw [h, List.length_append, hi]

theorem crlf_eq : crlf = [13, 10] := by decide

/-- The marker of a boundary without carriage returns has none. -/
theorem IsBoundary.marker {boundary : String} (h : IsBoundary boundary) :
    (13 : UInt8) ∉ textBytes ("--" ++ boundary) := by
  intro hm
  rw [textBytes_eq] at hm
  obtain ⟨c, hc, hcode⟩ := mem_encode_ascii (by decide) hm
  have hcr : c = '\r' := Char.toNat_inj.mp hcode
  rw [String.toList_append, List.mem_append, hcr] at hc
  rcases hc with hc | hc
  · exact absurd hc (by decide)
  · exact (h.plain _ hc).1 rfl

theorem IsBoundary.not_overlaps {boundary : String} (h : IsBoundary boundary) (content : Bytes) :
    ¬ Overlaps content (crlf ++ textBytes ("--" ++ boundary)) := by
  rw [crlf_eq]
  refine not_overlaps_of_head ?_ content
  intro hm
  rcases List.mem_cons.mp hm with he | hm
  · exact absurd he (by decide)
  · exact h.marker hm

/-- An empty line overlaps only what ends in a line end. -/
theorem IsHeaders.not_overlaps {headers : String} (h : IsHeaders headers) :
    ¬ Overlaps (textBytes headers) (crlf ++ crlf) := by
  rintro ⟨start, rest, hstart, hrest, hneedle, hsuffix, hp⟩
  have hopen := h.open_ended
  simp only [crlf_eq, List.cons_append, List.nil_append] at hneedle hp hopen
  rcases start with _ | ⟨a, _ | ⟨b, _ | ⟨c, start⟩⟩⟩
  · exact hstart rfl
  · simp only [List.cons_append, List.nil_append, List.cons.injEq] at hneedle
    rw [← hneedle.2] at hp
    exact absurd hp (by decide)
  · simp only [List.cons_append, List.nil_append, List.cons.injEq] at hneedle
    obtain ⟨rfl, rfl, -⟩ := hneedle
    exact hopen hsuffix
  · cases start with
    | nil =>
      simp only [List.cons_append, List.nil_append, List.cons.injEq] at hneedle
      rw [← hneedle.2.2.2] at hp
      exact absurd hp (by decide)
    | cons d start =>
      simp only [List.cons_append, List.cons.injEq, List.nil_eq, List.append_eq_nil_iff] at hneedle
      exact hrest hneedle.2.2.2.2.2

/-- A rendered part is read back, and the cursor stands at the next marker. -/
theorem multipartPart_render {boundary headers : String} {content : Bytes}
    (hb : IsBoundary boundary) (hh : IsHeaders headers)
    (hc : ¬ crlf ++ textBytes ("--" ++ boundary) <:+: content) (before after : Bytes) :
    multipartPart (before ++ renderPart boundary headers content ++
        textBytes ("--" ++ boundary) ++ after) (textBytes ("--" ++ boundary)) before.length =
      .ok (some ((headers, content),
        (before ++ renderPart boundary headers content).length)) := by
  generalize hbody : before ++ renderPart boundary headers content ++
    textBytes ("--" ++ boundary) ++ after = body
  generalize hm : textBytes ("--" ++ boundary) = marker at *
  have hcrlf : crlf.length = 2 := by rw [crlf_eq]; rfl
  generalize hbytes : textBytes headers = text at *
  have hflat : body = before ++ marker ++ crlf ++ text ++ crlf ++ crlf ++ content ++ crlf ++
      marker ++ after := by
    rw [← hbody, renderPart, hm, hbytes]
    simp only [List.append_assoc]
  -- the body, cut at each place where the cursor stands
  have hline : getRange body (before.length + marker.length) (before.length + marker.length + 2) =
      some crlf := by
    refine getRange_of_eq (a := before ++ marker)
      (c := text ++ crlf ++ crlf ++ content ++ crlf ++ marker ++ after) ?_ (by simp) (by rw [hcrlf])
    rw [hflat]
    simp only [List.append_assoc]
  have hafter : slice body (before.length + marker.length + 2) body.length =
      .ok (text ++ (crlf ++ crlf) ++ (content ++ crlf ++ marker ++ after)) := by
    refine slice_end_of_eq (a := before ++ marker ++ crlf) ?_ (by simp [hcrlf, Nat.add_assoc])
    rw [hflat]
    simp only [List.append_assoc]
  have hheaders : slice body (before.length + marker.length + 2)
      (before.length + marker.length + 2 + text.length) = .ok text := by
    refine slice_of_eq (a := before ++ marker ++ crlf)
      (c := crlf ++ crlf ++ content ++ crlf ++ marker ++ after) ?_
      (by simp [hcrlf, Nat.add_assoc]) rfl
    rw [hflat]
    simp only [List.append_assoc]
  have hrest : slice body (before.length + marker.length + 2 + text.length + 4) body.length =
      .ok (content ++ (crlf ++ marker) ++ after) := by
    refine slice_end_of_eq (a := before ++ marker ++ crlf ++ text ++ crlf ++ crlf) ?_
      (by simp [hcrlf]; omega)
    rw [hflat]
    simp only [List.append_assoc]
  have hcontent : slice body (before.length + marker.length + 2 + text.length + 4)
      (before.length + marker.length + 2 + text.length + 4 + content.length) = .ok content := by
    refine slice_of_eq (a := before ++ marker ++ crlf ++ text ++ crlf ++ crlf)
      (c := crlf ++ marker ++ after) ?_ (by simp [hcrlf]; omega) rfl
    rw [hflat]
    simp only [List.append_assoc]
  have hblank : find (text ++ (crlf ++ crlf) ++ (content ++ crlf ++ marker ++ after))
      (crlf ++ crlf) = some text.length := by
    subst hbytes
    exact (foundAt_append _ hh.solid hh.not_overlaps).find
  have hend : find (content ++ (crlf ++ marker) ++ after) (crlf ++ marker) =
      some content.length := by
    subst hm
    exact (foundAt_append _ hc (hb.not_overlaps content)).find
  have htext : ofUtf8 text = some headers := ofUtf8_eq_some.mpr hbytes
  have hplace : before.length + marker.length + 2 + text.length + 4 + content.length + 2 =
      (before ++ renderPart boundary headers content).length := by
    rw [renderPart, hm, hbytes]
    simp [hcrlf]
    omega
  have hopen : (some crlf : Option Bytes) ≠ some dashes := by decide
  rw [← hplace]
  simp only [multipartPart, hline, if_neg hopen, if_true, hafter, hblank, hheaders, htext, hrest,
    hend, hcontent, orRefuse, bind, Except.bind, pure, Except.pure]

/-- The loop ends at the closing marker. -/
theorem multipartPart_closing (before marker rest : Bytes) :
    multipartPart (before ++ marker ++ dashes ++ rest) marker before.length = .ok none := by
  have hline : getRange (before ++ marker ++ dashes ++ rest) (before.length + marker.length)
      (before.length + marker.length + 2) = some dashes :=
    getRange_of_eq rfl (by simp) (by rfl)
  simp only [multipartPart, hline, if_true]
  rfl

theorem renderPart_eq (boundary headers : String) (content : Bytes) :
    ∃ rest, renderPart boundary headers content = textBytes ("--" ++ boundary) ++ rest := by
  refine ⟨crlf ++ textBytes headers ++ crlf ++ crlf ++ content ++ crlf, ?_⟩
  rw [renderPart]
  simp only [List.append_assoc]

/-- The loop reads both parts of a rendering. -/
theorem multipartParts_render {boundary headers mediaHeaders : String} {json media : Bytes}
    (hb : IsBoundary boundary) (hh : IsHeaders headers) (hm : IsHeaders mediaHeaders)
    (hjson : ¬ crlf ++ textBytes ("--" ++ boundary) <:+: json)
    (hmedia : ¬ crlf ++ textBytes ("--" ++ boundary) <:+: media) (rest : Bytes) (rounds : Nat) :
    multipartParts (renderMultipart boundary headers json mediaHeaders media rest)
      (textBytes ("--" ++ boundary)) (rounds + 3) 0 =
      .ok [(headers, json), (mediaHeaders, media)] := by
  generalize hbody : renderMultipart boundary headers json mediaHeaders media rest = body
  have hfirst : multipartPart body (textBytes ("--" ++ boundary)) 0 =
      .ok (some ((headers, json), (renderPart boundary headers json).length)) := by
    obtain ⟨more, hmore⟩ := renderPart_eq boundary mediaHeaders media
    have h := multipartPart_render hb hh hjson []
      (more ++ textBytes ("--" ++ boundary) ++ dashes ++ rest)
    rw [← hbody, renderMultipart, hmore]
    simpa only [List.nil_append, List.append_assoc, List.length_nil] using h
  have hsecond : multipartPart body (textBytes ("--" ++ boundary))
      (renderPart boundary headers json).length = .ok (some ((mediaHeaders, media),
        (renderPart boundary headers json ++ renderPart boundary mediaHeaders media).length)) := by
    rw [← hbody, renderMultipart, List.append_assoc _ dashes rest]
    exact multipartPart_render hb hm hmedia _ _
  have hthird : multipartPart body (textBytes ("--" ++ boundary))
      (renderPart boundary headers json ++ renderPart boundary mediaHeaders media).length =
      .ok none := by
    rw [← hbody, renderMultipart]
    exact multipartPart_closing _ _ _
  simp only [multipartParts, hfirst, hsecond, hthird, bind, Except.bind, pure, Except.pure]

theorem lineContentType_eq_some {line text : String} :
    lineContentType line = some text ↔ ∃ value, NamesType line value ∧ text = trim value := by
  constructor
  · intro h
    obtain ⟨⟨name, value⟩, hsplit, htext⟩ := Option.bind_eq_some_iff.mp h
    obtain ⟨hline, hfree⟩ := splitOnce_eq_some.mp hsplit
    simp only at htext
    split at htext
    · rename_i hname
      cases htext
      exact ⟨value, ⟨name, hline, hfree, hname⟩, rfl⟩
    · cases htext
  · rintro ⟨value, ⟨name, hline, hfree, hname⟩, rfl⟩
    refine Option.bind_eq_some_iff.mpr ⟨(name, value), splitOnce_eq_some.mpr ⟨hline, hfree⟩, ?_⟩
    exact if_pos hname

/-- The content type read from headers is the one they name. -/
theorem partContentType_named (headers : String) :
    TypeNamed headers (partContentType headers) := by
  have hnone : ∀ {line : String}, lineContentType line = none → ∀ value, ¬ NamesType line value := by
    intro line hn value hv
    rw [lineContentType_eq_some.mpr ⟨value, hv, rfl⟩] at hn
    cases hn
  cases hp : partContentType headers with
  | none =>
    exact .unnamed fun line hm => hnone (List.findSome?_eq_none_iff.mp hp line hm)
  | some text =>
    obtain ⟨before, line, after, hlines, hline, hbefore⟩ := List.findSome?_eq_some_iff.mp hp
    obtain ⟨value, hvalue, rfl⟩ := lineContentType_eq_some.mp hline
    exact .named hlines hvalue fun other hm => hnone (hbefore other hm)

/-- A standard rendering is parsed into the metadata, exactly the media, and the content type
that the headers of the media name. -/
theorem multipart_keeps_media (readMetadata : Bytes → Option NamedMetadata)
    (boundary headers mediaHeaders : String) (json media rest : Bytes) (metadata : NamedMetadata)
    (quoted : Bool) (hb : IsBoundary boundary) (hh : IsHeaders headers)
    (hm : IsHeaders mediaHeaders) (hread : readMetadata json = some metadata)
    (hjson : ¬ crlf ++ textBytes ("--" ++ boundary) <:+: json)
    (hmedia : ¬ crlf ++ textBytes ("--" ++ boundary) <:+: media) :
    ∃ contentType, TypeNamed mediaHeaders contentType ∧
      parseMultipart readMetadata (multipartType boundary quoted)
          (renderMultipart boundary headers json mediaHeaders media rest) =
        .ok (metadata, media, contentType) := by
  refine ⟨partContentType mediaHeaders, partContentType_named mediaHeaders, ?_⟩
  generalize hbody : renderMultipart boundary headers json mediaHeaders media rest = body
  have hstart : find body (textBytes ("--" ++ boundary)) = some 0 := by
    obtain ⟨more, hmore⟩ := renderPart_eq boundary headers json
    rw [← hbody, renderMultipart, hmore]
    refine (FoundAt.zero ?_).find
    simp only [List.append_assoc]
    exact List.prefix_append _ _
  have hrounds : body.length + 1 = body.length - 2 + 3 := by
    rw [← hbody, renderMultipart, renderPart]
    simp only [List.length_append, crlf_eq, List.length_cons]
    omega
  have hparts : multipartParts body (textBytes ("--" ++ boundary)) (body.length + 1) 0 =
      .ok [(headers, json), (mediaHeaders, media)] := by
    rw [hrounds, ← hbody]
    exact multipartParts_render hb hh hm hjson hmedia rest _
  simp only [parseMultipart, boundaryOf_multipartType hb, hstart, hparts, hread, orRefuse, bind,
    Except.bind, pure, Except.pure]

/-- A reader of metadata that takes the empty object. -/
def emptyObjectOnly (json : Bytes) : Option NamedMetadata :=
  if json = textBytes "\x7b\x7d" then some ⟨⟨none, none, none, none, []⟩, none⟩ else none

theorem multipart_keeps_media_sample :
    ∃ contentType, TypeNamed "Content-Type: image/png" contentType ∧
      parseMultipart emptyObjectOnly (multipartType "edge" true)
          (renderMultipart "edge" "Content-Type: application/json" (textBytes "\x7b\x7d")
            "Content-Type: image/png" [0, 255, 13, 10] crlf) =
        .ok (⟨⟨none, none, none, none, []⟩, none⟩, [0, 255, 13, 10], contentType) :=
  multipart_keeps_media emptyObjectOnly "edge" "Content-Type: application/json"
    "Content-Type: image/png" (textBytes "\x7b\x7d") [0, 255, 13, 10] crlf _ true
    ⟨by decide, by simp, by decide⟩ ⟨by decide, by decide⟩
    ⟨by decide, by decide⟩ (by decide) (by decide)
    (by decide)

/-- A boundary must not be empty, and a bare one must not end in a tab. -/
theorem multipart_boundary_refused :
    parseMultipart emptyObjectOnly (multipartType "" false)
        (renderMultipart "" "Content-Type: application/json" (textBytes "\x7b\x7d")
          "Content-Type: image/png" [0, 255] []) =
      .error (.refused "multipart boundary is missing") ∧
    parseMultipart emptyObjectOnly (multipartType "edge\t" false)
        (renderMultipart "edge\t" "Content-Type: application/json" (textBytes "\x7b\x7d")
          "Content-Type: image/png" [0, 255] []) =
      .error (.refused "multipart part headers are incomplete") ∧
    emptyObjectOnly (textBytes "\x7b\x7d") ≠ none := by
  decide

end FirebaseEmu.Storage
