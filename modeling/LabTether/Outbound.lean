import LabTether.CommandLine

/-!
The outbound policy (`internal/securityruntime/outbound_hosts.go`): the check of a host before a
request is built, and the check of each resolved address before it is dialled. An address is its
bytes, as in `net.IP`. Parsing address literals and address blocks is a parameter; the allowlist
is the list of patterns after `parseAllowedHostPatterns`.
-/
namespace LabTether.Outbound

open GoStrings Commands

/-- `net.IP`; the empty list is the nil address. -/
abbrev IP := List UInt8

def v4InV6Prefix : List UInt8 := List.replicate 10 0 ++ [0xff, 0xff]

variable (ip : IP)

def to4 : Option (List UInt8) :=
  if ip.length = 4 then some ip
  else if ip.length = 16 ∧ ip.take 12 = v4InV6Prefix then some (ip.drop 12)
  else none

def byteAt (bytes : List UInt8) (i : ℕ) : ℕ := (bytes.getD i 0).toNat

def isUnspecified : Bool :=
  to4 ip = some [0, 0, 0, 0] || ip = List.replicate 16 0

def isLoopback : Bool :=
  match to4 ip with
  | some v4 => byteAt v4 0 = 127
  | none => ip = List.replicate 15 0 ++ [1]

def isMulticast : Bool :=
  match to4 ip with
  | some v4 => 224 ≤ byteAt v4 0 && byteAt v4 0 < 240
  | none => ip.length = 16 && byteAt ip 0 = 0xff

def isBroadcast : Bool := to4 ip = some [255, 255, 255, 255]

def isLinkLocalUnicast : Bool :=
  match to4 ip with
  | some v4 => byteAt v4 0 = 169 && byteAt v4 1 = 254
  | none => ip.length = 16 && byteAt ip 0 = 0xfe && 0x80 ≤ byteAt ip 1 && byteAt ip 1 < 0xc0

def isPrivate : Bool :=
  match to4 ip with
  | some v4 => byteAt v4 0 = 10 || (byteAt v4 0 = 172 && 16 ≤ byteAt v4 1 && byteAt v4 1 < 32) ||
      (byteAt v4 0 = 192 && byteAt v4 1 = 168)
  | none => ip.length = 16 && (byteAt ip 0 = 0xfc || byteAt ip 0 = 0xfd)

section

/-- The overrides of a request, and the allowlist when it is enforced. -/
structure Policy where
  allowlist : Option (List Text)
  (allowPrivate allowLoopback allowLinkLocal : Bool)

inductive OutboundError
  | hostRequired
  | notAllowlisted
  | loopbackHost
  | linkLocalHost
  | privateHost
  | resolve
  | didNotResolve
  | invalidAddress
  | unspecifiedAddress
  | multicastAddress
  | loopbackAddress
  | linkLocalAddress
  | privateAddress
deriving DecidableEq

/-- The case tables, and the parsers of address literals and address blocks. -/
structure Parsers where
  tables : CaseTables
  parseIP : Text → Option IP
  parseCIDR : Text → Option (IP → Bool)

variable (P : Parsers) (policy : Policy)

def validateResolvedOutboundIP (ip : IP) : Except OutboundError Unit :=
  if ip = [] then .error .invalidAddress
  else if isUnspecified ip then .error .unspecifiedAddress
  else if isMulticast ip || isBroadcast ip then .error .multicastAddress
  else if isLoopback ip && !policy.allowLoopback then .error .loopbackAddress
  else if isLinkLocalUnicast ip && !policy.allowLinkLocal then .error .linkLocalAddress
  else if isPrivate ip && !policy.allowPrivate then .error .privateAddress
  else .ok ()

/-- `strings.TrimPrefix` for one character. -/
def dropLeading (c : Char) (t : Text) : Text := if t.head? = some c then t.tail else t

def normalizeHostname (value : Text) : Text :=
  let host := trimSpaceList (lower P.tables value)
  trimSuffix ['.'] (trimSuffix [']'] (dropLeading '[' host))

def privateHostnameSuffixes : List Text :=
  [".local", ".lan", ".home", ".internal", ".home.arpa"].map String.toList

variable (host : Text)

def isLikelyPrivateHostname : Bool :=
  host ≠ [] && ('.' ∉ host || privateHostnameSuffixes.any fun suffix => suffix <:+ host)

def hostMatchesPattern (pattern : Text) : Bool :=
  let host := normalizeHostname P host
  if host = [] ∨ pattern = [] then false
  else if '/' ∈ pattern then
    match P.parseIP host, P.parseCIDR pattern with
    | some ip, some contains => contains ip
    | _, _ => false
  else if "*.".toList <+: pattern then
    let suffix := pattern.drop 2
    if suffix = [] then false else ('.' :: suffix) <:+ host
  else equalFold P.tables host pattern

/-- What a lookup gives: an error, or a list of addresses. -/
abbrev Answer := Except Unit (List IP)

/-- The three findings about a host. -/
structure Risk where
  (loopback private_ linkLocal : Bool)

/-- One round of the loop over the addresses. -/
def Risk.note (risk : Risk) (ip : IP) : Risk :=
  if ip = [] then risk
  else if isLoopback ip then { risk with loopback := true }
  else if isLinkLocalUnicast ip then { risk with linkLocal := true }
  else if isPrivate ip then { risk with private_ := true }
  else risk

variable (answer : Answer)

/-- The host is normalized a second time here, and may vanish. -/
def resolvedHostRisk : Option Risk :=
  if normalizeHostname P host = [] then none
  else
    match answer with
    | .error _ => none
    | .ok [] => none
    | .ok addrs => some (addrs.foldl Risk.note ⟨false, false, false⟩)

def hostRiskProfile : Risk :=
  match P.parseIP host with
  | some ip =>
    if isLoopback ip then ⟨true, false, false⟩
    else if isLinkLocalUnicast ip then ⟨false, false, true⟩
    else ⟨false, isPrivate ip, false⟩
  | none =>
    if equalFold P.tables host "localhost".toList then ⟨true, false, false⟩
    else
      match resolvedHostRisk P host answer with
      | some risk => risk
      | none => ⟨false, isLikelyPrivateHostname host, false⟩

def validateResolvedOutboundHost : Except OutboundError Unit :=
  match P.parseIP host with
  | some ip => validateResolvedOutboundIP policy ip
  | none =>
    match answer with
    | .error _ => .error .resolve
    | .ok [] => .error .didNotResolve
    | .ok addrs => addrs.forM (validateResolvedOutboundIP policy)

/-- The allowlist admits the host, or is not enforced. -/
def listed (normalized : Text) : Bool :=
  match policy.allowlist with
  | none => true
  | some patterns => patterns.any (hostMatchesPattern P normalized)

/-- `validateOutboundHostWithPolicy`; both of its lookups get the given answer. -/
def validateOutboundHostWithPolicy : Except OutboundError Unit :=
  let normalized := normalizeHostname P host
  if normalized = [] then .error .hostRequired
  else if !listed P policy normalized then .error .notAllowlisted
  else
    let risk := hostRiskProfile P normalized answer
    if risk.loopback then
      if policy.allowLoopback then .ok () else .error .loopbackHost
    else if risk.linkLocal then
      if policy.allowLinkLocal then .ok () else .error .linkLocalHost
    else if risk.private_ then
      if policy.allowPrivate then .ok () else .error .privateHost
    else validateResolvedOutboundHost P policy normalized answer

end

end LabTether.Outbound
