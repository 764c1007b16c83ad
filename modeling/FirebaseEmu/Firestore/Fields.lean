import FirebaseEmu.Firestore.Names

namespace FirebaseEmu.Firestore
open Lib

def Fields.insert (key : String) (value : Value) : Fields → Fields
  | [] => [(key, value)]
  | (k, v) :: rest =>
    if key < k then (key, value) :: (k, v) :: rest
    else if key = k then (key, value) :: rest
    else (k, v) :: Fields.insert key value rest

def Fields.remove (key : String) (fields : Fields) : Fields :=
  fields.filter (fun entry => entry.1 != key)

/-- The character loop of `fieldPath`; '\x60' is the backtick that quotes a segment. -/
def fieldPathLoop : List Char → List String → List Char → Bool → Bool →
    Except Status (List String)
  | [], parts, part, quoted, escape =>
    if quoted || escape || part.isEmpty then .error (invalidArgument "invalid field path")
    else .ok (parts ++ [String.ofList part])
  | ch :: chs, parts, part, quoted, escape =>
    if escape then fieldPathLoop chs parts (part ++ [ch]) quoted false
    else if ch == '\\' && quoted then fieldPathLoop chs parts part quoted true
    else if ch == '\x60' then fieldPathLoop chs parts part (!quoted) escape
    else if ch == '.' && !quoted then
      if part.isEmpty then .error (invalidArgument "empty field path")
      else fieldPathLoop chs (parts ++ [String.ofList part]) [] quoted escape
    else fieldPathLoop chs parts (part ++ [ch]) quoted escape

theorem fieldPathLoop_nil (parts : List String) (part : List Char) (quoted escape : Bool) :
    fieldPathLoop [] parts part quoted escape =
      if quoted || escape || part.isEmpty then .error (invalidArgument "invalid field path")
      else .ok (parts ++ [String.ofList part]) := rfl

theorem fieldPathLoop_cons (ch : Char) (chs : List Char) (parts : List String) (part : List Char)
    (quoted escape : Bool) :
    fieldPathLoop (ch :: chs) parts part quoted escape =
      if escape then fieldPathLoop chs parts (part ++ [ch]) quoted false
      else if ch == '\\' && quoted then fieldPathLoop chs parts part quoted true
      else if ch == '\x60' then fieldPathLoop chs parts part (!quoted) escape
      else if ch == '.' && !quoted then
        if part.isEmpty then .error (invalidArgument "empty field path")
        else fieldPathLoop chs (parts ++ [String.ofList part]) [] quoted escape
      else fieldPathLoop chs parts (part ++ [ch]) quoted escape := rfl

def fieldPath (path : String) : Except Status (List String) :=
  fieldPathLoop path.toList [] [] false false

/-- `fieldPath` never returns the empty path, on which the source would panic. -/
def nestedGet (fields : Fields) : List String → Option Value
  | [] => none
  | [part] => fields.lookup part
  | part :: rest =>
    match fields.lookup part with
    | some (.mapValue inner) => nestedGet inner rest
    | _ => none

def nestedSet (fields : Fields) : List String → Option Value → Fields
  | [], _ => fields
  | [part], some value => fields.insert part value
  | [part], none => fields.remove part
  | part :: rest, value =>
    match fields.lookup part with
    | some (.mapValue inner) => fields.insert part (.mapValue (nestedSet inner rest value))
    -- A deletion creates nothing; a value replaces what is not a map by a fresh one.
    | _ => if value.isNone then fields else fields.insert part (.mapValue (nestedSet [] rest value))

def overlapping : List (List String) → Bool
  | [] => false
  | a :: rest => rest.any (fun b => b.isPrefixOf a || a.isPrefixOf b) || overlapping rest

def mergeDocument (existing : Option Document) (incoming : Document)
    (mask : Option DocumentMask) : Except Status Document :=
  match mask with
  | none => .ok incoming
  | some mask => do
    let paths ← mask.fieldPaths.mapM fieldPath
    if overlapping paths then throw (invalidArgument "overlapping update mask paths")
    let fields := (existing.map Document.fields).getD []
    pure { incoming with
      fields := paths.foldl
        (fun fields path => nestedSet fields path (nestedGet incoming.fields path)) fields }

def fieldValue (doc : Document) (path : String) : Option Value :=
  if path == "__name__" then some (.referenceValue doc.name)
  else match fieldPath path with
    | .ok parts => nestedGet doc.fields parts
    | .error _ => none

example : (fieldPath "a.\x60b.\\\x60\x60").toOption = some ["a", "b.\x60"] := by decide

theorem mergeDocument_name {existing : Option Document} {incoming document : Document}
    {mask : Option DocumentMask} (h : mergeDocument existing incoming mask = .ok document) :
    document.name = incoming.name := by
  unfold mergeDocument at h
  cases mask with
  | none => cases h; rfl
  | some mask =>
    simp only [bind, Except.bind, pure, Except.pure] at h
    split at h
    · cases h
    · split at h
      · cases h
      · cases h; rfl

end FirebaseEmu.Firestore
