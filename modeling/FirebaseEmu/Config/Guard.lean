import FirebaseEmu.Lib.IpAddress
import FirebaseEmu.Lib.Json
import FirebaseEmu.Lib.Text

namespace FirebaseEmu.Config
open Lib

/-- What the guards see of a request. A header that is there but is no visible text has no text. -/
structure Request where
  host : Option (Option String)
  origin : Option (Option String)
  authority : Option String

structure Uri where
  scheme : Option String
  host : Option String
  path : String
  query : Option String

/-- The parsers of the HTTP library: the host of an authority, and the parts of a URI. -/
structure UriParser where
  authority : String → Option String
  uri : String → Option Uri

inductive Body where
  | text (text : String)
  | json (value : Json)

structure Response where
  status : Nat
  headers : List (String × String)
  body : Body

def loopbackName (host : String) : Bool :=
  let host := String.ofList ((host.toList.dropWhile (· == '[')).rdropWhile (· == ']'))
  eqIgnoreAsciiCase host "localhost" || (IpAddr.parse host).any IpAddr.isLoopback

section
variable (parser : UriParser)

def hasLoopbackAuthority (request : Request) : Bool :=
  ((request.host.join <|> request.authority).bind parser.authority).any loopbackName

def isLoopbackOrigin (value : String) : Bool :=
  match parser.uri value with
  | none => false
  | some uri =>
    if !(uri.scheme == some "http" || uri.scheme == some "https") || uri.path != "/" ||
        uri.query.isSome then false
    else uri.host.any loopbackName

def hasSafeBrowserOrigin (request : Request) : Bool :=
  match request.origin with
  | none => true
  | some value => value.any (isLoopbackOrigin parser)

def forbidden : Response :=
  ⟨403, [("content-type", "text/plain; charset=utf-8"), ("cache-control", "no-store"),
    ("x-content-type-options", "nosniff")],
    .text "emulator requests require a loopback Host and browser Origin"⟩

/-- `require_loopback_request`, with what runs behind it on the state. -/
def requireLoopbackRequest {σ : Type} (next : Request → σ → Response × σ) (request : Request)
    (state : σ) : Response × σ :=
  if !hasLoopbackAuthority parser request || !hasSafeBrowserOrigin parser request then
    (forbidden, state)
  else next request state

def secureConsoleResponse (response : Response) : Response :=
  { response with
    headers := response.headers.filter (fun header =>
        !(["content-security-policy", "x-content-type-options", "cache-control"].contains header.1)) ++
      [("content-security-policy", "default-src 'self'; script-src 'self'; style-src 'self' 'unsafe-inline'; img-src 'self'; connect-src 'self'; object-src 'none'; base-uri 'none'; frame-ancestors 'none'"),
        ("x-content-type-options", "nosniff"), ("cache-control", "no-store")] }

def apiError (status : Nat) (message : String) : Response :=
  ⟨status, [("content-type", "application/json")], .json (.object [("error", .string message)])⟩

def consoleBoundary {σ : Type} (next : Request → σ → Response × σ) (request : Request)
    (state : σ) : Response × σ :=
  if !hasLoopbackAuthority parser request then
    (secureConsoleResponse (apiError 403 "console requires a loopback Host"), state)
  else
    let expected := "http://" ++ (request.host.join.getD "")
    if request.origin.any fun origin => origin != some expected then
      (secureConsoleResponse (apiError 403 "console requires the same origin"), state)
    else
      let (response, state) := next request state
      (secureConsoleResponse response, state)

end

/-- A client of the machine itself that asks for an address and is not a browser. -/
def Request.toHost (host : String) : Request := ⟨some (some host), none, none⟩

theorem toDigits_digit {n : Nat} {c : Char} (h : c ∈ Nat.toDigits 10 n) : c.isDigit = true :=
  Nat.isDigit_of_mem_toDigits (by decide) (by decide) h

end FirebaseEmu.Config
