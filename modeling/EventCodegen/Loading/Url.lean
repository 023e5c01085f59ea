import EventCodegen.Text.Case
import EventCodegen.Json.Parser

/-! Which texts are addresses that a request can be sent to: those with a scheme and a host. A host in
brackets has to be an address of version six or of a later version. -/
namespace EventCodegen.Url

/-- What is found out about a text as an address. -/
inductive Verdict
  | usable
  | incomplete
  | malformed
deriving DecidableEq, Repr

def isLetter (c : Char) : Bool := ('a' ≤ c && c ≤ 'z') || ('A' ≤ c && c ≤ 'Z')

def isSchemeChar (c : Char) : Bool :=
  isLetter c || Json.isDigit c || c == '+' || c == '-' || c == '.'

/-- What is left of a text without spaces and controls at its beginning, and without tabs and line
ends anywhere. -/
def cleaned (s : List Char) : List Char :=
  (s.dropWhile (fun c => c.toNat ≤ 0x20)).filter (fun c => c != '\t' && c != '\r' && c != '\n')

/-- The scheme before the first colon, if it is one, and the rest. -/
def splitScheme (s : List Char) : List Char × List Char :=
  let scheme := s.takeWhile (· != ':')
  match s.dropWhile (· != ':'), scheme with
  | ':' :: rest, first :: _ =>
    if isLetter first && scheme.all isSchemeChar then (scheme, rest) else ([], s)
  | _, _ => ([], s)

/-- The host with all that belongs to it: what follows two slashes. -/
def authority : List Char → List Char
  | '/' :: '/' :: rest => rest.takeWhile (fun c => c != '/' && c != '?' && c != '#')
  | _ => []

/-- A group of an address of version six. -/
def isGroup (s : List Char) : Bool :=
  !s.isEmpty && s.length ≤ 4 && s.all (fun c => (Json.hexValue? c).isSome)

/-- A part of an address of version four. -/
def isOctet (s : List Char) : Bool :=
  !s.isEmpty && s.length ≤ 3 && s.all Json.isDigit && (s.head? != some '0' || s == ['0']) &&
    Json.digitsValue s ≤ 255

def isVersionFour (s : List Char) : Bool :=
  let octets := s.splitOn '.'
  octets.length == 4 && octets.all isOctet

/-- The groups of an address; an address of version four at its end counts as two. -/
def groups (s : List Char) : Option (List (List Char)) :=
  let parts := s.splitOn ':'
  match parts.getLast? with
  | some last =>
    if '.' ∈ last then
      if isVersionFour last then some (parts.dropLast ++ [['0'], ['0']]) else none
    else some parts
  | none => none

/-- Eight groups, or fewer with two colons in a row at one place. -/
def areGroups (parts : List (List Char)) : Bool :=
  let inner := (parts.drop 1).dropLast
  let startsWell := parts.head? != some [] || inner.head? == some []
  let endsWell := parts.getLast? != some [] || inner.getLast? == some []
  let present := parts.filter (!·.isEmpty)
  match inner.count [] with
  | 0 => parts.length == 8 && parts.all isGroup
  | 1 => startsWell && endsWell && present.length ≤ 7 && present.all isGroup
  | _ => false

/-- An address of version six, perhaps with a zone after a percent sign. -/
def isVersionSix (s : List Char) : Bool :=
  let zoneOk := match s.dropWhile (· != '%') with
    | [] => true
    | _ :: zone => !zone.isEmpty && !zone.contains '%'
  zoneOk && match groups (s.takeWhile (· != '%')) with
    | some parts => areGroups parts
    | none => false

/-- An address of a version to come: `v`, its number, a point and more. -/
def isLaterVersion : List Char → Bool
  | 'v' :: rest =>
    let number := rest.takeWhile (fun c => (Json.hexValue? c).isSome)
    match rest.dropWhile (fun c => (Json.hexValue? c).isSome) with
    | '.' :: _ :: _ => !number.isEmpty
    | _ => false
  | _ => false

/-- What stands between the first bracket that opens and the next one that closes. -/
def bracketed (s : List Char) : List Char :=
  ((s.dropWhile (· != '[')).drop 1).takeWhile (· != ']')

/-- Whether the brackets of a host are in order. -/
def bracketsOk (host : List Char) : Bool :=
  match host.contains '[', host.contains ']' with
  | false, false => true
  | true, true => isLaterVersion (bracketed host) || isVersionSix (bracketed host)
  | _, _ => false

/-- Characters that normalisation turns into one that ends a host. -/
def disguised : List Nat :=
  [0x2047, 0x2048, 0x2049, 0x2100, 0x2101, 0x2105, 0x2106, 0x2A74, 0xFE13, 0xFE16, 0xFE55,
   0xFE56, 0xFE5F, 0xFE6B, 0xFF03, 0xFF0F, 0xFF1A, 0xFF1F, 0xFF20]

/-- Judges a text as an address. -/
def verdict (s : String) : Verdict :=
  let (scheme, rest) := splitScheme (cleaned s.toList)
  let host := authority rest
  if !bracketsOk host || host.any (fun c => disguised.contains c.toNat) then .malformed
  else if scheme.isEmpty || host.isEmpty then .incomplete
  else .usable

end EventCodegen.Url
