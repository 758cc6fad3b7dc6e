/-
Where the server may send requests to.

Two clients of the server follow addresses that users write.  The one that calls webhooks
looks an address up in a table of reserved networks, which the deployment may allow in
part; the one that fetches link previews asks for the class of the address.

What a deployment allows is read from a list of texts, in the second half.  The letters that
`strings.ToLower` makes small are a parameter.
-/
import Memos.Lib.Netip
import Memos.Api.ContentModeration

namespace Memos.Outbound

open Netip Utf8

/-! ### Webhooks -/

/-- `127.0.0.0/8` and the like. -/
def network4 (a b c d : UInt8) (bits : Nat) : Network := .v4 (.ofNat 32 (value [a, b, c, d])) bits

/-- A network of version 6 by the first and the last group of its address, such as `fc00::/7`. -/
def network6 (first last bits : Nat) : Network := .v6 (.ofNat 128 (first * 2 ^ 112 + last)) bits

def reservedNetworks : List Network :=
  [network4 127 0 0 0 8, network4 10 0 0 0 8, network4 172 16 0 0 12, network4 192 168 0 0 16,
    network4 169 254 0 0 16, network6 0 1 128, network6 0xfc00 0 7, network6 0xfe80 0 10]

structure PrivateDestinationPolicy where
  hostnames : List (List Char)
  prefixes : List Network

structure Destinations where
  AllowPrivateIPs : Bool
  configuredPrivateDestinations : Option PrivateDestinationPolicy
  toLower : Char → Char

def isReservedIP (ip : IP) : Bool :=
  match (AddrFromSlice ip).map Addr.Unmap with
  | none => false
  | some addr => reservedNetworks.any fun network => network.Contains addr

def isHostnameRune (label : List Char) (i : Nat) (r : Char) : Bool :=
  'a' ≤ r && r ≤ 'z' || '0' ≤ r && r ≤ '9'
    || r = '-' && 0 < i && decide (i < byteLength label - 1)

def checkLabel (label : List Char) : Except String Unit :=
  if label.isEmpty || 63 < byteLength label then
    .error "hostname labels must contain between 1 and 63 characters"
  else if label.zipIdx.all fun (r, i) => isHostnameRune label i r then .ok ()
  else .error "hostname contains an invalid character"

def trimDot (hostname : List Char) : List Char :=
  if hostname.getLast? = some '.' then hostname.dropLast else hostname

def normalizeHostname (d : Destinations) (hostname : List Char) : Except String (List Char) :=
  let hostname := (trimDot hostname).map d.toLower
  if hostname.isEmpty || 253 < byteLength hostname then
    .error "hostname must contain between 1 and 253 characters"
  else do
    (hostname.splitOn '.').forM checkLabel
    return hostname

def isPrivateDestinationAllowed (d : Destinations) (hostname : List Char) (ip : IP) : Bool :=
  if d.AllowPrivateIPs then true
  else
    match d.configuredPrivateDestinations with
    | none => false
    | some policy =>
        if (normalizeHostname d hostname).toOption.any (policy.hostnames.contains ·) then true
        else
          match (AddrFromSlice ip).map Addr.Unmap with
          | none => false
          | some addr => policy.prefixes.any fun network => network.Contains addr

def isBlockedDestination (d : Destinations) (hostname : List Char) (ip : IP) : Bool :=
  isReservedIP ip && !isPrivateDestinationAllowed d hostname ip

/-! ### Link previews -/

def isInternalIP (ip : IP) : Bool :=
  ip.IsLoopback || ip.IsPrivate || ip.IsLinkLocalUnicast || ip.IsUnspecified

end Memos.Outbound

/-
The private destinations that a deployment allows.

The allowlist is a list of texts, each an address, a network or the name of a host.  They
are read one by one into a policy, and the policy takes the place of the one before it only
after all of them have been read.
-/

namespace Memos.Outbound

open Netip Api

inductive AllowlistError where
  /-- `webhook: private destination allowlist contains an empty entry` -/
  | emptyEntry
  /-- `webhook: invalid private destination allowlist entry %q: %s` -/
  | invalidEntry (rawEntry : List Char) (reason : String)
deriving DecidableEq

/-- `netip.PrefixFrom(addr, bits).Masked()`. -/
def maskedPrefix : Addr → Nat → Network
  | .v4 a, bits => .v4 (a &&& (BitVec.allOnes 32 <<< (32 - bits))) bits
  | .v6 a, bits => .v6 (a &&& (BitVec.allOnes 128 <<< (128 - bits))) bits

/-- `netip.PrefixFrom(addr, addr.BitLen())`. -/
def singlePrefix : Addr → Network
  | .v4 a => .v4 a 32
  | .v6 a => .v6 a 128

def Is4In6 : Addr → Bool
  | .v4 _ => false
  | .v6 a => decide (a >>> 32 = 0xffff#128)

def normalizePrefix (addr : Addr) (bits : Nat) : Except String Network :=
  if Is4In6 addr then
    if bits < 96 then .error "IPv4-mapped IPv6 prefix must have at least 96 prefix bits"
    else .ok (maskedPrefix addr.Unmap (bits - 96))
  else .ok (maskedPrefix addr bits)

def addEntry (d : Destinations) (policy : PrivateDestinationPolicy) (rawEntry : List Char) :
    Except AllowlistError PrivateDestinationPolicy :=
  let entry := trimSpace rawEntry
  if entry = [] then .error .emptyEntry
  else
    match ParseAddr entry with
    | .ok (addr, zone) =>
        if zone ≠ [] then .error (.invalidEntry rawEntry "scoped IP addresses are not supported")
        else .ok { policy with prefixes := policy.prefixes ++ [singlePrefix addr.Unmap] }
    | .error _ =>
        match ParsePrefix entry with
        | .ok (addr, bits) =>
            match normalizePrefix addr bits with
            | .error err => .error (.invalidEntry rawEntry err)
            | .ok normalized => .ok { policy with prefixes := policy.prefixes ++ [normalized] }
        | .error err =>
            if '/' ∈ entry then .error (.invalidEntry rawEntry err)
            else
              match normalizeHostname d entry with
              | .error err => .error (.invalidEntry rawEntry err)
              | .ok hostname => .ok { policy with hostnames := policy.hostnames ++ [hostname] }

def readEntries (d : Destinations) (policy : PrivateDestinationPolicy) :
    List (List Char) → Except AllowlistError PrivateDestinationPolicy
  | [] => .ok policy
  | rawEntry :: entries => do
      let policy ← addEntry d policy rawEntry
      readEntries d policy entries

def ConfigurePrivateDestinationAllowlist (d : Destinations) (entries : List (List Char)) :
    Destinations × Except AllowlistError Unit :=
  match readEntries d ⟨[], []⟩ entries with
  | .error err => (d, .error err)
  | .ok policy => ({ d with configuredPrivateDestinations := some policy }, .ok ())

def configureAll (d : Destinations) (calls : List (List (List Char))) : Destinations :=
  calls.foldl (fun d entries => (ConfigurePrivateDestinationAllowlist d entries).1) d

end Memos.Outbound
