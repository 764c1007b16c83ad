import FirebaseEmu.Storage.Objects

namespace FirebaseEmu.Storage
open Lib

structure ListQuery where
  pre : Option String
  delimiter : Option String
  maxResults : Option Nat
  pageToken : Option String

/-- `find(delimiter)`: the text up to and with the first delimiter. -/
def upTo (delimiter : List Char) : List Char → Option (List Char)
  | [] => if delimiter.isPrefixOf [] then some delimiter else none
  | c :: cs =>
    if delimiter.isPrefixOf (c :: cs) then some delimiter
    else (upTo delimiter cs).map (c :: ·)

/-- The common prefix that stands for an object in a listing with a delimiter. -/
def commonPrefix (pre : String) (delimiter : Option String) (name : String) : Option String :=
  delimiter.bind fun delimiter =>
    (upTo delimiter.toList (name.toList.drop pre.toList.length)).map fun cut =>
      String.ofList (name.toList.take pre.toList.length ++ cut)

/-- The entries of a listing: an object under its name, or a common prefix. -/
def listEntries (pre : String) (delimiter : Option String) (matching : List StoredObject) :
    List (String × Option StoredObject) :=
  let items := matching.filter fun object => (commonPrefix pre delimiter object.name).isNone
  let prefixes := (matching.filterMap fun object => commonPrefix pre delimiter object.name).eraseDups
  let listed : List (String × Option StoredObject) := items.map fun object =>
    (object.name, some object)
  (listed ++ prefixes.map fun text => (text, none)).mergeSort fun a b => decide (a.1 ≤ b.1)

def listJson (render : StoredObject → Json) (entries : List (String × Option StoredObject))
    (nextPageToken : Option String) : Json :=
  .object ([("items", .array ((entries.filterMap Prod.snd).map render)),
    ("kind", .string "storage#objects")] ++ optional "nextPageToken" nextPageToken ++
    [("prefixes", .array ((entries.filter fun entry => entry.2.isNone).map fun entry =>
      .string entry.1))])

variable {μ : Type} (codec : StorageCodec μ)

/-- `list_response`, with the JSON of an object as a parameter. -/
def listReply (render : StoredObject → Json) (matching : List StoredObject) (query : ListQuery) :
    Reply :=
  let delimiter := query.delimiter.filter fun value => !value.isEmpty
  match (match query.pageToken with
    | some token => codec.decodePageToken token
    | none => some 0) with
  | none => .failed 400 "invalid page token"
  | some offset =>
    let limit := max 1 (min 1000 (query.maxResults.getD 1000))
    let entries := listEntries (query.pre.getD "") delimiter matching
    let token := if offset + limit < entries.length then
      some (codec.encodePageToken (offset + limit)) else none
    .listing (listJson render ((entries.drop offset).take limit) token)

def listResponse (matching : List StoredObject) (query : ListQuery) : Reply :=
  listReply codec objectJson matching query

end FirebaseEmu.Storage
