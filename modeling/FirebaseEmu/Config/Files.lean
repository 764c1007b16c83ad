import FirebaseEmu.Lib.Json
import FirebaseEmu.Lib.Text

namespace FirebaseEmu.Config
open Lib

/-- A path: whether it starts at the root, and the components on it. -/
structure Path where
  absolute : Bool
  components : List String
  deriving DecidableEq

namespace Path

/-- The components of a text. Empty ones count for nothing, nor does `.` except at the start. -/
def ofString (text : String) : Path :=
  let absolute := startsWith text "/"
  let components := (split '/' text).filter fun part => part != ""
  match components with
  | [] => ⟨absolute, []⟩
  | first :: rest =>
    let rest := rest.filter fun part => part != "."
    if absolute && first == "." then ⟨absolute, rest⟩ else ⟨absolute, first :: rest⟩

def join (path other : Path) : Path :=
  if other.absolute then other
  else ⟨path.absolute, path.components ++ other.components.filter fun part => part != "."⟩

def startsWith (path root : Path) : Bool :=
  path.absolute == root.absolute && root.components.isPrefixOf path.components

/-- `path.file_name()`. -/
def fileName (path : Path) : Option String :=
  path.components.getLast?.filter fun part => part != "." && part != ".."

def parent (path : Path) : Option Path :=
  if path.components.isEmpty then none else some ⟨path.absolute, path.components.dropLast⟩

def display (path : Path) : String :=
  (if path.absolute then "/" else "") ++ "/".intercalate path.components

/-- The path of a file in a directory. -/
def child (path : Path) (name : String) : Path := path.join (ofString name)

end Path

inductive ReadError where
  | notFound
  | failed (error : String)

/-- The files of the machine, and the parser of their JSON. -/
structure Files where
  currentDir : Except String Path
  canonicalize : Path → Except String Path
  isFile : Path → Bool
  read : Path → Except ReadError String
  fromStr : String → Except String Json

namespace Files
variable (files : Files)

def readOptionalJson (path : Path) : Except String (Option Json) :=
  match files.read path with
  | .ok raw => ((files.fromStr raw).mapError (s!"malformed {path.display}: " ++ ·)).map some
  | .error .notFound => .ok none
  | .error (.failed error) => .error error

end Files

end FirebaseEmu.Config
