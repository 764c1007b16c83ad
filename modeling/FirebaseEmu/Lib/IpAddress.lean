import FirebaseEmu.Lib.Decimal
import Mathlib.Data.List.TakeDrop

namespace FirebaseEmu.Lib

structure Ipv4Addr where
  a : UInt8
  b : UInt8
  c : UInt8
  d : UInt8
  deriving DecidableEq

/-- Eight groups of 16 bits. -/
structure Ipv6Addr where
  groups : List UInt16
  eight : groups.length = 8
  deriving DecidableEq

inductive IpAddr where
  | v4 (addr : Ipv4Addr)
  | v6 (addr : Ipv6Addr)
  deriving DecidableEq

structure SocketAddr where
  ip : IpAddr
  port : UInt16
  deriving DecidableEq

def Ipv4Addr.localhost : Ipv4Addr := ⟨127, 0, 0, 1⟩

def Ipv6Addr.localhost : Ipv6Addr := ⟨[0, 0, 0, 0, 0, 0, 0, 1], rfl⟩

namespace IpAddr

/-- `IpAddr::is_loopback`. -/
def isLoopback : IpAddr → Bool
  | .v4 addr => addr.a == 127
  | .v6 addr => addr == .localhost

/-- `IpAddr::is_unspecified`. -/
def isUnspecified : IpAddr → Bool
  | .v4 addr => addr == ⟨0, 0, 0, 0⟩
  | .v6 addr => addr.groups.all (· == 0)

end IpAddr

/-! The parser of `IpAddr::from_str`. -/

def decimalDigit (c : Char) : Option Nat := if c.isDigit then some (c.toNat - 48) else none

/-- A number of at most so many digits, below a bound. -/
def readNumber (digit : Char → Option Nat) (radix maxDigits : Nat) (allowZeroPrefix : Bool)
    (bound : Nat) (cs : List Char) : Option (Nat × List Char) :=
  let digits := cs.takeWhile fun c => (digit c).isSome
  let n := digits.foldl (fun n c => radix * n + (digit c).getD 0) 0
  if digits.isEmpty || decide (maxDigits < digits.length) then none
  else if !allowZeroPrefix && digits.head? == some '0' && decide (1 < digits.length) then none
  else if n < bound then some (n, cs.dropWhile fun c => (digit c).isSome)
  else none

/-- There is a separator before all parts but the first. -/
def readSeparator (sep : Char) (index : Nat) (cs : List Char) : Option (List Char) :=
  if index = 0 then some cs
  else
    match cs with
    | c :: cs => if c = sep then some cs else none
    | [] => none

def readOctet (index : Nat) (cs : List Char) : Option (Nat × List Char) :=
  (readSeparator '.' index cs).bind (readNumber decimalDigit 10 3 false 256)

def readIpv4 (cs : List Char) : Option (Ipv4Addr × List Char) := do
  let (a, cs) ← readOctet 0 cs
  let (b, cs) ← readOctet 1 cs
  let (c, cs) ← readOctet 2 cs
  let (d, cs) ← readOctet 3 cs
  return (⟨UInt8.ofNat a, UInt8.ofNat b, UInt8.ofNat c, UInt8.ofNat d⟩, cs)

/-- Groups from one index on, at most so many, and whether they end with an IPv4 address. -/
def readGroups (index : Nat) : Nat → List Char → List UInt16 × Bool × List Char
  | 0, cs => ([], false, cs)
  | more + 1, cs =>
    match if more = 0 then none else (readSeparator ':' index cs).bind readIpv4 with
    | some (addr, cs) =>
      ([addr.a.toUInt16 * 256 + addr.b.toUInt16, addr.c.toUInt16 * 256 + addr.d.toUInt16], true,
        cs)
    | none =>
      match (readSeparator ':' index cs).bind (readNumber hexDigit 16 4 true 65536) with
      | some (group, cs) =>
        let (groups, ipv4, cs) := readGroups (index + 1) more cs
        (UInt16.ofNat group :: groups, ipv4, cs)
      | none => ([], false, cs)

def Ipv6Addr.ofGroups (groups : List UInt16) : Option Ipv6Addr :=
  if h : groups.length = 8 then some ⟨groups, h⟩ else none

/-- The groups, or those before `::` and those behind it with zeros between. -/
def readIpv6 (cs : List Char) : Option (Ipv6Addr × List Char) :=
  match readGroups 0 8 cs with
  | (head, ipv4, rest) =>
    if head.length = 8 then (Ipv6Addr.ofGroups head).map (·, rest)
    else if ipv4 then none
    else
      match rest with
      | ':' :: ':' :: rest =>
        let (tail, _, rest) := readGroups 0 (7 - head.length) rest
        let zeros := List.replicate (8 - head.length - tail.length) 0
        (Ipv6Addr.ofGroups (head ++ zeros ++ tail)).map (·, rest)
      | _ => none

def IpAddr.parse (s : String) : Option IpAddr :=
  let found := match readIpv4 s.toList with
    | some (addr, rest) => some (IpAddr.v4 addr, rest)
    | none => (readIpv6 s.toList).map fun (addr, rest) => (IpAddr.v6 addr, rest)
  match found with
  | some (addr, []) => some addr
  | _ => none

namespace Ipv4Addr

def display (addr : Ipv4Addr) : String :=
  s!"{addr.a.toNat}.{addr.b.toNat}.{addr.c.toNat}.{addr.d.toNat}"

end Ipv4Addr

namespace Ipv6Addr

def hex (group : UInt16) : String := String.ofList (Nat.toDigits 16 group.toNat)

def displayGroups (groups : List UInt16) : String := ":".intercalate (groups.map hex)

/-- The first of the longest runs of zeros, as its start and its length. -/
def longestZeros (groups : List UInt16) : Nat × Nat :=
  let (_, _, longest) := groups.foldl
    (fun (i, current, longest) group =>
      if group = 0 then
        let current := if current.2 = 0 then (i, 1) else (current.1, current.2 + 1)
        (i + 1, current, if longest.2 < current.2 then current else longest)
      else (i + 1, (0, 0), longest))
    ((0, (0, 0), (0, 0)) : Nat × (Nat × Nat) × Nat × Nat)
  longest

/-- An address that is an IPv4 one. -/
def toIpv4Mapped (addr : Ipv6Addr) : Option Ipv4Addr :=
  match addr.groups with
  | [0, 0, 0, 0, 0, 65535, x, y] =>
    some ⟨(x / 256).toUInt8, x.toUInt8, (y / 256).toUInt8, y.toUInt8⟩
  | _ => none

def display (addr : Ipv6Addr) : String :=
  match addr.toIpv4Mapped with
  | some mapped => "::ffff:" ++ mapped.display
  | none =>
    let (start, len) := longestZeros addr.groups
    if 1 < len then
      displayGroups (addr.groups.take start) ++ "::" ++ displayGroups (addr.groups.drop (start + len))
    else displayGroups addr.groups

end Ipv6Addr

def IpAddr.display : IpAddr → String
  | .v4 addr => addr.display
  | .v6 addr => addr.display

def SocketAddr.display (addr : SocketAddr) : String :=
  match addr.ip with
  | .v4 ip => s!"{ip.display}:{addr.port.toNat}"
  | .v6 ip => s!"[{ip.display}]:{addr.port.toNat}"

end FirebaseEmu.Lib
