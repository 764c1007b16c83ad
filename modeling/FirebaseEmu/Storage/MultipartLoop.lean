import FirebaseEmu.Storage.Multipart

namespace FirebaseEmu.Storage
open Lib

theorem slice_eq {bytes : Bytes} {start stop : Nat} (hstart : start ≤ stop)
    (hstop : stop ≤ bytes.length) :
    slice bytes start stop = .ok ((bytes.drop start).take (stop - start)) := by
  rw [slice, getRange, if_pos ⟨hstart, hstop⟩]

/-- What is found behind a place in the body ends within the body. -/
theorem find_drop_le {body needle : Bytes} {start found : Nat} (hs : start ≤ body.length)
    (hn : needle ≠ []) (hf : find (body.drop start) needle = some found) :
    start + found + needle.length ≤ body.length := by
  have hle := (find_eq_some hf).le_length hn
  rw [List.length_drop] at hle
  omega

/-- What one round can do when the marker at the cursor lies in the body: it ends the loop, it
refuses, or it takes a part of the body and moves on to a later marker. -/
inductive Round (body marker : Bytes) (cursor : Nat) :
    Except MultipartError (Option ((String × Bytes) × Nat)) → Prop where
  | closed : Round body marker cursor (.ok none)
  | refused {message : String} : Round body marker cursor (.error (.refused message))
  | part {headers : String} {content : Bytes} {next : Nat} (advances : cursor < next)
      (bounded : next + marker.length ≤ body.length) (within : content <:+: body) :
    Round body marker cursor (.ok (some ((headers, content), next)))

theorem Round.orRefuse {body marker : Bytes} {cursor : Nat} {α : Type} {result : Option α}
    {message : String}
    {next : α → Except MultipartError (Option ((String × Bytes) × Nat))}
    (h : ∀ value, result = some value → Round body marker cursor (next value)) :
    Round body marker cursor (orRefuse result message >>= next) := by
  cases result with
  | none => exact .refused
  | some value => exact h value rfl

theorem Round.slice {body marker : Bytes} {cursor start stop : Nat}
    {next : Bytes → Except MultipartError (Option ((String × Bytes) × Nat))}
    (hstart : start ≤ stop) (hstop : stop ≤ body.length)
    (h : Round body marker cursor (next ((body.drop start).take (stop - start)))) :
    Round body marker cursor (slice body start stop >>= next) := by
  rw [slice_eq hstart hstop]
  exact h

/-- The rest of the body is sliced at a place within it. -/
theorem Round.rest {body marker : Bytes} {cursor start : Nat}
    {next : Bytes → Except MultipartError (Option ((String × Bytes) × Nat))}
    (hstart : start ≤ body.length) (h : Round body marker cursor (next (body.drop start))) :
    Round body marker cursor (Storage.slice body start body.length >>= next) := by
  apply Round.slice hstart (Nat.le_refl _)
  rw [← List.length_drop, List.take_length]
  exact h

/-- The line end behind a marker is skipped only where the body has it. -/
theorem skip_le {body : Bytes} {line : Nat} (h : line ≤ body.length) :
    (if getRange body line (line + 2) = some crlf then line + 2 else line) ≤ body.length ∧
      line ≤ if getRange body line (line + 2) = some crlf then line + 2 else line := by
  split
  · rename_i hget
    unfold getRange at hget
    split at hget
    · rename_i hin
      exact ⟨hin.2, Nat.le_add_right _ _⟩
    · cases hget
  · exact ⟨h, Nat.le_refl _⟩

theorem multipartPart_round {body marker : Bytes} {cursor : Nat}
    (h : cursor + marker.length ≤ body.length) :
    Round body marker cursor (multipartPart body marker cursor) := by
  have hcrlf : crlf.length = 2 := by rw [crlf_eq]; rfl
  have hblank : crlf ++ crlf ≠ [] := by rw [crlf_eq]; simp
  have hmarker : crlf ++ marker ≠ [] := by rw [crlf_eq]; simp
  unfold multipartPart
  dsimp only
  obtain ⟨hin, hle⟩ := skip_le h
  generalize (if getRange body (cursor + marker.length) (cursor + marker.length + 2) = some crlf
    then cursor + marker.length + 2 else cursor + marker.length) = place at hin hle
  split
  · exact .closed
  · apply Round.rest hin
    apply Round.orRefuse
    intro found hf
    have hend := find_drop_le hin hblank hf
    rw [List.length_append, hcrlf] at hend
    apply Round.slice (Nat.le_add_right _ _) (by omega)
    apply Round.orRefuse
    intro headers _
    have hstart : place + found + 4 ≤ body.length := by omega
    apply Round.rest hstart
    apply Round.orRefuse
    intro size hc
    have hstop := find_drop_le hstart hmarker hc
    rw [List.length_append, hcrlf] at hstop
    apply Round.slice (Nat.le_add_right _ _) (by omega)
    apply Round.part
    · omega
    · omega
    · exact (List.take_prefix _ _).isInfix.trans (List.drop_suffix _ _).isInfix

/-- The places where the cursor stands when a round begins. -/
inductive CursorAt (body marker : Bytes) : Nat → Prop
  | first {cursor : Nat} : find body marker = some cursor → CursorAt body marker cursor
  | next {cursor after : Nat} {part : String × Bytes} : CursorAt body marker cursor →
    multipartPart body marker cursor = .ok (some (part, after)) → CursorAt body marker after

theorem CursorAt.bounded {body marker : Bytes} (hm : marker ≠ []) {cursor : Nat}
    (h : CursorAt body marker cursor) : cursor + marker.length ≤ body.length := by
  induction h with
  | first hf => exact (find_eq_some hf).le_length hm
  | next _ hr ih =>
    have hround := multipartPart_round ih
    rw [hr] at hround
    cases hround with
    | part _ bounded _ => exact bounded

/-- The loop ends within as many rounds as the body has bytes behind the cursor, with a refusal or
with parts of the body. -/
theorem multipartParts_ends {body marker : Bytes} {cursor : Nat}
    (h : cursor + marker.length ≤ body.length) (rounds : Nat)
    (hr : body.length < rounds + cursor) :
    (∃ message, multipartParts body marker rounds cursor = .error (.refused message)) ∨
      ∃ parts, multipartParts body marker rounds cursor = .ok parts ∧
        ∀ part ∈ parts, part.2 <:+: body := by
  induction rounds generalizing cursor with
  | zero => omega
  | succ rounds ih =>
    have hround := multipartPart_round h
    generalize hp : multipartPart body marker cursor = outcome at hround
    rw [multipartParts, hp]
    cases hround with
    | closed => exact .inr ⟨[], rfl, by simp⟩
    | refused => exact .inl ⟨_, rfl⟩
    | @part headers content next advances bounded within =>
      rcases ih bounded (by omega) with ⟨message, hrest⟩ | ⟨parts, hrest, hall⟩
      · left
        exact ⟨message, by simp only [bind, Except.bind, hrest]⟩
      · right
        refine ⟨(headers, content) :: parts, ?_, ?_⟩
        · simp only [bind, Except.bind, hrest, pure, Except.pure]
        · rw [List.forall_mem_cons]
          exact ⟨within, hall⟩

/-- A loop that has ended ends the same way when it is given more rounds. -/
theorem multipartParts_more {body marker : Bytes} {rounds cursor : Nat}
    (h : multipartParts body marker rounds cursor ≠ .error .unfinished) (more : Nat) :
    multipartParts body marker (rounds + more) cursor =
      multipartParts body marker rounds cursor := by
  induction rounds generalizing cursor with
  | zero => exact absurd rfl h
  | succ rounds ih =>
    rw [Nat.add_right_comm, multipartParts, multipartParts]
    rw [multipartParts] at h
    cases hp : multipartPart body marker cursor with
    | error _ => rfl
    | ok outcome =>
      cases outcome with
      | none => rfl
      | some found =>
        obtain ⟨part, next⟩ := found
        have hrest : multipartParts body marker rounds next ≠ .error .unfinished := by
          intro hu
          apply h
          simp only [hp, hu, bind, Except.bind]
        simp only [bind, Except.bind, ih hrest]

theorem marker_ne_nil (boundary : String) : textBytes ("--" ++ boundary) ≠ [] := by
  intro h
  rw [textBytes_eq, encode_eq_nil, String.toList_append] at h
  simp at h

/-- What holds of each round of the loop over a body. -/
structure LoopSafe (body marker : Bytes) : Prop where
  /-- The marker at the cursor, and what the cursor moves behind it, lies in the body. -/
  bounded : ∀ cursor, CursorAt body marker cursor → cursor + marker.length ≤ body.length
  /-- Every slice of a round is in range. -/
  inRange : ∀ cursor, CursorAt body marker cursor →
    multipartPart body marker cursor ≠ .error .outOfRange
  /-- Each part moves the cursor on. -/
  advances : ∀ cursor part next, CursorAt body marker cursor →
    multipartPart body marker cursor = .ok (some (part, next)) → cursor < next
  /-- The loop ends: beyond the number of bytes of the body, the number of rounds is no matter. -/
  ends : ∀ cursor, find body marker = some cursor → ∀ rounds, body.length < rounds →
    multipartParts body marker rounds cursor ≠ .error .unfinished ∧
      multipartParts body marker rounds cursor =
        multipartParts body marker (body.length + 1) cursor

theorem loop_safe {body marker : Bytes} (hm : marker ≠ []) : LoopSafe body marker := by
  refine { bounded := ?_, inRange := ?_, advances := ?_, ends := ?_ }
  · intro cursor hc
    exact hc.bounded hm
  · intro cursor hc hr
    have hround := multipartPart_round (hc.bounded hm)
    rw [hr] at hround
    cases hround
  · intro cursor part next hc hr
    have hround := multipartPart_round (hc.bounded hm)
    rw [hr] at hround
    cases hround with
    | part advances _ _ => exact advances
  · intro cursor hf rounds hr
    have hin := (CursorAt.first hf).bounded hm
    have hends : ∀ rounds, body.length < rounds →
        multipartParts body marker rounds cursor ≠ .error .unfinished := by
      intro rounds hr hu
      rcases multipartParts_ends hin rounds (by omega) with
        ⟨message, h⟩ | ⟨parts, h, -⟩
      · rw [h] at hu
        cases hu
      · rw [h] at hu
        cases hu
    obtain ⟨more, rfl⟩ := Nat.exists_eq_add_of_le (Nat.succ_le_of_lt hr)
    exact ⟨hends _ hr, multipartParts_more (hends _ (Nat.lt_succ_self _)) more⟩

/-- Whatever the content type and the body are, no slice is out of range, the loop ends, and the
answer is a refusal or metadata with media that is a contiguous part of the body. -/
theorem multipart_loop_safe (readMetadata : Bytes → Option NamedMetadata) (contentType : String)
    (body : Bytes) :
    (∀ boundary, boundaryOf contentType = some boundary →
      LoopSafe body (textBytes ("--" ++ boundary))) ∧
    ((∃ message, parseMultipart readMetadata contentType body = .error (.refused message)) ∨
      ∃ metadata media mediaType,
        parseMultipart readMetadata contentType body = .ok (metadata, media, mediaType) ∧
        media <:+: body ∧ ∃ json, json <:+: body ∧ readMetadata json = some metadata) := by
  refine ⟨fun boundary _ => loop_safe (marker_ne_nil boundary), ?_⟩
  unfold parseMultipart
  cases boundaryOf contentType with
  | none => exact .inl ⟨_, rfl⟩
  | some boundary =>
    generalize hm : textBytes ("--" ++ boundary) = marker
    have hne : marker ≠ [] := by
      rw [← hm]
      exact marker_ne_nil boundary
    cases hf : find body marker with
    | none =>
      left
      refine ⟨"multipart boundary not found", ?_⟩
      simp only [orRefuse, bind, Except.bind, hm, hf]
    | some cursor =>
      have hin := (CursorAt.first hf).bounded hne
      simp only [orRefuse, bind, Except.bind, hm, hf]
      rcases multipartParts_ends hin (body.length + 1) (by omega) with
        ⟨message, hloop⟩ | ⟨parts, hloop, hall⟩
      · left
        exact ⟨message, by rw [hloop]⟩
      · rw [hloop]
        rcases parts with _ | ⟨⟨headers, json⟩, _ | ⟨⟨mediaHeaders, media⟩, rest⟩⟩
        · exact .inl ⟨_, rfl⟩
        · exact .inl ⟨_, rfl⟩
        · cases hread : readMetadata json with
          | none =>
            left
            refine ⟨"multipart metadata is invalid JSON", ?_⟩
            simp only [hread]
          | some metadata =>
            right
            refine ⟨metadata, media, partContentType mediaHeaders, ?_, ?_, json, ?_, hread⟩
            · simp only [hread]
              rfl
            · exact hall (mediaHeaders, media) (by simp)
            · exact hall (headers, json) (by simp)

end FirebaseEmu.Storage
