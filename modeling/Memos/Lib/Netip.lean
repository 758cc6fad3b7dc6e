/-
Addresses of the Internet protocol.

An address comes in two forms: as its bytes, four or sixteen of them, where an address of
four bytes may be written in sixteen; and as a number with its version, where an address
that is written so can be told from the one it stands for.  The classes of addresses are
defined on bytes, networks contain numbers.

A network contains an address when the two agree in as many leading bits as the network
has, which is a division of numbers.
-/
import Mathlib.Data.List.Induction
import Mathlib.Tactic.Ring
import Mathlib.Tactic.Positivity.Basic

namespace Netip

/-! ### Bytes -/

abbrev IP := List UInt8

def IP.byte (ip : IP) (i : Nat) : UInt8 := ip.getD i 0

def IP.isMapped (ip : IP) : Bool :=
  decide (ip.length = 16) && (ip.take 10).all (fun b => decide (b = 0))
    && decide (ip.byte 10 = 0xff) && decide (ip.byte 11 = 0xff)

def IP.To4 (ip : IP) : Option IP :=
  if ip.length = 4 then some ip else if ip.isMapped then some (ip.drop 12) else none

/-- An address of version 4 in sixteen bytes. -/
def IPv4 (a b c d : UInt8) : IP := [0, 0, 0, 0, 0, 0, 0, 0, 0, 0, 0xff, 0xff, a, b, c, d]

def IPv4zero : IP := IPv4 0 0 0 0

def IPv6unspecified : IP := List.replicate 16 0

def IPv6loopback : IP := List.replicate 15 0 ++ [1]

/-- An address of version 4 is the same in both forms. -/
def IP.Equal (ip x : IP) : Bool :=
  if ip.length = x.length then decide (ip = x)
  else if ip.length = 4 && x.length = 16 then x.isMapped && decide (ip = x.drop 12)
  else if ip.length = 16 && x.length = 4 then ip.isMapped && decide (ip.drop 12 = x)
  else false

def IP.IsUnspecified (ip : IP) : Bool := ip.Equal IPv4zero || ip.Equal IPv6unspecified

def IP.IsLoopback (ip : IP) : Bool :=
  match ip.To4 with
  | some ip4 => decide (ip4.byte 0 = 127)
  | none => ip.Equal IPv6loopback

def IP.IsPrivate (ip : IP) : Bool :=
  match ip.To4 with
  | some ip4 =>
      decide (ip4.byte 0 = 10) || decide (ip4.byte 0 = 172) && decide (ip4.byte 1 &&& 0xf0 = 16)
        || decide (ip4.byte 0 = 192) && decide (ip4.byte 1 = 168)
  | none => decide (ip.length = 16) && decide (ip.byte 0 &&& 0xfe = 0xfc)

def IP.IsLinkLocalUnicast (ip : IP) : Bool :=
  match ip.To4 with
  | some ip4 => decide (ip4.byte 0 = 169) && decide (ip4.byte 1 = 254)
  | none =>
      decide (ip.length = 16) && decide (ip.byte 0 = 0xfe) && decide (ip.byte 1 &&& 0xc0 = 0x80)

/-! ### Numbers -/

inductive Addr where
  | v4 (bits : BitVec 32)
  | v6 (bits : BitVec 128)
deriving DecidableEq

/-- The number that bytes write, the first one most significant. -/
def value (bytes : List UInt8) : Nat := bytes.foldl (fun n b => n * 256 + b.toNat) 0

def AddrFromSlice (ip : IP) : Option Addr :=
  if ip.length = 4 then some (.v4 (.ofNat 32 (value ip)))
  else if ip.length = 16 then some (.v6 (.ofNat 128 (value ip)))
  else none

/-- An address of version 4 that is written in version 6. -/
def Addr.Unmap : Addr → Addr
  | .v4 a => .v4 a
  | .v6 a => if a >>> 32 = 0xffff#128 then .v4 (a.setWidth 32) else .v6 a

/-! ### Networks -/

/-- A network of each version, with how many leading bits count. -/
inductive Network where
  | v4 (base : BitVec 32) (bits : Nat)
  | v6 (base : BitVec 128) (bits : Nat)

def Network.Contains : Network → Addr → Bool
  | .v4 base bits, .v4 a => decide ((a ^^^ base) >>> (32 - bits) = 0#32)
  | .v6 base bits, .v6 a => decide ((a ^^^ base) &&& (BitVec.allOnes 128 <<< (128 - bits)) = 0#128)
  | _, _ => false

section Bits

variable {w : Nat}

theorem xor_ushiftRight_eq_zero_iff (a b : BitVec w) (k : Nat) :
    (a ^^^ b) >>> k = 0#w ↔ a.toNat / 2 ^ k = b.toNat / 2 ^ k := by
  rw [BitVec.ushiftRight_xor_distrib, BitVec.xor_eq_zero_iff, ← BitVec.toNat_inj,
    BitVec.toNat_ushiftRight, BitVec.toNat_ushiftRight, Nat.shiftRight_eq_div_pow,
    Nat.shiftRight_eq_div_pow]

/-- A mask of leading bits leaves what a shift leaves. -/
theorem and_mask_eq_zero_iff (a : BitVec w) (k : Nat) :
    a &&& (BitVec.allOnes w <<< k) = 0#w ↔ a >>> k = 0#w := by
  constructor
  · intro h
    refine BitVec.eq_of_getLsbD_eq fun i _ => ?_
    by_cases inside : k + i < w
    · have bit := congrArg (fun x : BitVec w => x.getLsbD (k + i)) h
      simpa [inside] using bit
    · rw [BitVec.getLsbD_ushiftRight, BitVec.getLsbD_of_ge a (k + i) (by omega),
        BitVec.getLsbD_zero]
  · intro h
    refine BitVec.eq_of_getLsbD_eq fun i hi => ?_
    by_cases high : k ≤ i
    · have bit := congrArg (fun x : BitVec w => x.getLsbD (i - k)) h
      have bit : a.getLsbD i = false := by
        simpa [Nat.add_sub_cancel' high] using bit
      rw [BitVec.getLsbD_and, bit, Bool.false_and, BitVec.getLsbD_zero]
    · rw [BitVec.getLsbD_and, BitVec.getLsbD_shiftLeft, decide_eq_true (by omega : i < k)]
      simp

end Bits

theorem contains_v4 (base a : BitVec 32) (bits : Nat) :
    (Network.v4 base bits).Contains (.v4 a) = true ↔
      a.toNat / 2 ^ (32 - bits) = base.toNat / 2 ^ (32 - bits) := by
  unfold Network.Contains
  rw [decide_eq_true_iff, xor_ushiftRight_eq_zero_iff]

theorem contains_v6 (base a : BitVec 128) (bits : Nat) :
    (Network.v6 base bits).Contains (.v6 a) = true ↔
      a.toNat / 2 ^ (128 - bits) = base.toNat / 2 ^ (128 - bits) := by
  unfold Network.Contains
  rw [decide_eq_true_iff, and_mask_eq_zero_iff, xor_ushiftRight_eq_zero_iff]

/-! ### The number of an address -/

theorem value_append (front back : List UInt8) :
    value (front ++ back) = value front * 256 ^ back.length + value back := by
  induction back using List.reverseRecOn with
  | nil => simp [value]
  | append_singleton back b ih =>
      unfold value at ih ⊢
      rw [← List.append_assoc, List.foldl_append, ih, List.foldl_append, List.length_append]
      simp only [List.foldl_cons, List.foldl_nil, List.length_singleton, pow_succ]
      ring

theorem value_lt (bytes : List UInt8) : value bytes < 256 ^ bytes.length := by
  induction bytes using List.reverseRecOn with
  | nil => decide
  | append_singleton bytes b ih =>
      rw [value_append, List.length_append, List.length_singleton, pow_succ]
      have last : value [b] = b.toNat := by simp [value]
      have := b.toNat_lt
      omega

theorem value_append_div (front back : List UInt8) :
    value (front ++ back) / 256 ^ back.length = value front := by
  rw [value_append, Nat.mul_comm, Nat.mul_add_div (by positivity), Nat.div_eq_of_lt (value_lt back),
    Nat.add_zero]

theorem value_inj {xs ys : List UInt8} (len : xs.length = ys.length) (h : value xs = value ys) :
    xs = ys := by
  induction xs using List.reverseRecOn generalizing ys with
  | nil => exact (List.length_eq_zero_iff.mp len.symm).symm
  | append_singleton xs b ih =>
      induction ys using List.reverseRecOn with
      | nil => simp at len
      | append_singleton ys c _ =>
          rw [List.length_append, List.length_append, List.length_singleton, List.length_singleton,
            Nat.add_right_cancel_iff] at len
          rw [value_append, value_append] at h
          have last : ∀ b : UInt8, value [b] = b.toNat := fun b => by simp [value]
          rw [last, last, List.length_singleton, pow_one, List.length_singleton, pow_one] at h
          have hb := b.toNat_lt
          have hc := c.toNat_lt
          rw [ih len (by omega), UInt8.toNat_inj.mp (by omega : b.toNat = c.toNat)]

theorem IP.To4_length {ip ip4 : IP} (h : ip.To4 = some ip4) : ip4.length = 4 := by
  unfold IP.To4 at h
  by_cases four : ip.length = 4
  · rw [if_pos four, Option.some.injEq] at h
    rw [← h]
    exact four
  · rw [if_neg four] at h
    by_cases mapped : ip.isMapped = true
    · rw [if_pos mapped, Option.some.injEq] at h
      unfold IP.isMapped at mapped
      simp only [Bool.and_eq_true, decide_eq_true_eq] at mapped
      rw [← h, List.length_drop, mapped.1.1.1]
    · rw [if_neg mapped] at h
      cases h

def mappedFront : List UInt8 := [0, 0, 0, 0, 0, 0, 0, 0, 0, 0, 0xff, 0xff]

theorem isMapped_iff {ip : IP} (len : ip.length = 16) :
    ip.isMapped = true ↔ ip.take 12 = mappedFront := by
  match ip, len with
  | [a, b, c, d, e, f, g, h, i, j, k, l, m, n, o, p], _ =>
    simp [IP.isMapped, IP.byte, mappedFront, and_assoc]

/-- What there is left of an address when it is read as a number. -/
def IP.unmapped (ip : IP) : Addr :=
  match ip.To4 with
  | some ip4 => .v4 (.ofNat 32 (value ip4))
  | none => .v6 (.ofNat 128 (value ip))

theorem unmap_addrFromSlice {ip : IP} (len : ip.length = 4 ∨ ip.length = 16) :
    (AddrFromSlice ip).map Addr.Unmap = some ip.unmapped := by
  unfold AddrFromSlice IP.unmapped IP.To4
  rcases len with four | sixteen
  · rw [if_pos four, if_pos four]
    rfl
  · have few : ip.length ≠ 4 := by omega
    rw [if_neg few, if_pos sixteen, if_neg few, Option.map_some]
    unfold Addr.Unmap
    dsimp only
    have split : ip.take 12 ++ ip.drop 12 = ip := List.take_append_drop 12 ip
    have back : (ip.drop 12).length = 4 := by rw [List.length_drop, sixteen]
    have front : (ip.take 12).length = 12 := by rw [List.length_take, sixteen]; rfl
    have bound : value ip < 2 ^ 128 := by
      have := value_lt ip
      rw [sixteen] at this
      exact this.trans_eq (by norm_num)
    have high : BitVec.ofNat 128 (value ip) >>> 32 = 0xffff#128 ↔ ip.isMapped = true := by
      have quotient : value ip / 2 ^ 32 = value (ip.take 12) := by
        have := value_append_div (ip.take 12) (ip.drop 12)
        rw [split, back] at this
        exact this
      rw [isMapped_iff sixteen, ← BitVec.toNat_inj, BitVec.toNat_ushiftRight, BitVec.toNat_ofNat,
        Nat.mod_eq_of_lt bound, Nat.shiftRight_eq_div_pow, quotient]
      constructor
      · intro same
        exact value_inj front (same.trans (by decide))
      · intro same
        rw [same]
        decide
    by_cases mapped : ip.isMapped = true
    · rw [if_pos (high.mpr mapped), if_pos mapped]
      refine congrArg (fun a => some (Addr.v4 a)) (BitVec.eq_of_toNat_eq ?_)
      have sum : value ip = value (ip.take 12) * 2 ^ 32 + value (ip.drop 12) := by
        have := value_append (ip.take 12) (ip.drop 12)
        rw [split, back] at this
        exact this
      rw [BitVec.toNat_setWidth, BitVec.toNat_ofNat, BitVec.toNat_ofNat, Nat.mod_eq_of_lt bound, sum]
      omega
    · rw [if_neg fun h => mapped (high.mp h), if_neg mapped]

theorem equal_sixteen {ip x : IP} (sixteen : x.length = 16) :
    ip.Equal x = true ↔ ip = x ∨ x.isMapped = true ∧ ip = x.drop 12 := by
  have back : (x.drop 12).length = 4 := by rw [List.length_drop, sixteen]
  unfold IP.Equal
  by_cases same : ip.length = x.length
  · rw [if_pos same, decide_eq_true_iff, or_iff_left]
    rintro ⟨-, rfl⟩
    omega
  · have different : ip ≠ x := fun h => same (congrArg List.length h)
    rw [if_neg same, or_iff_right different]
    by_cases four : ip.length = 4
    · simp [four, sixteen]
    · have short : ip ≠ x.drop 12 := fun h => four ((congrArg List.length h).trans back)
      simp [four, sixteen, short]

/-- The unspecified addresses, in all their forms. -/
theorem isUnspecified_iff {ip : IP} :
    ip.IsUnspecified = true ↔ ip = [0, 0, 0, 0] ∨ ip = IPv4zero ∨ ip = IPv6unspecified := by
  have zero : IPv4zero.isMapped = true := by decide
  have unspecified : IPv6unspecified.isMapped = false := by decide
  have back : IPv4zero.drop 12 = [0, 0, 0, 0] := rfl
  unfold IP.IsUnspecified
  rw [Bool.or_eq_true_iff, equal_sixteen rfl, equal_sixteen rfl, zero, unspecified, back]
  simp only [true_and, Bool.false_eq_true, false_and, or_false]
  rw [or_comm (a := ip = IPv4zero), or_assoc]

end Netip

/-
Addresses and networks of the Internet protocol as text.

An address of version 4 is four decimal numbers with dots between them, one of version 6
is eight groups of hexadecimal digits with colons, where two colons stand for as many
groups of zeros as are missing and the last two groups may be written as an address of
version 4.  An address of version 6 may name a zone.  A network is an address, a slash and
the number of leading bits that count.
-/

namespace Netip

def isDecimalDigit (c : Char) : Bool := '0' ≤ c && c ≤ '9'

def isHexadecimalDigit (c : Char) : Bool :=
  isDecimalDigit c || 'a' ≤ c && c ≤ 'f' || 'A' ≤ c && c ≤ 'F'

def digitValue (c : Char) : Nat :=
  if c ≤ '9' then c.toNat - '0'.toNat
  else if 'a' ≤ c then c.toNat - 'a'.toNat + 10
  else c.toNat - 'A'.toNat + 10

/-! ### Version 4 -/

/-- The loop over the characters, with the octet so far, how many digits it has and the
octets before it. -/
def parseIPv4From (octet digits : Nat) (fields : List UInt8) :
    List Char → Except String (List UInt8)
  | [] => if fields.length < 3 then .error "IPv4 address too short" else .ok (fields ++ [.ofNat octet])
  | c :: s =>
      if isDecimalDigit c then
        if digits = 1 ∧ octet = 0 then .error "IPv4 field has octet with leading zero"
        else if 255 < octet * 10 + digitValue c then .error "IPv4 field has value >255"
        else parseIPv4From (octet * 10 + digitValue c) (digits + 1) fields s
      else if c = '.' then
        if digits = 0 ∨ s.isEmpty then .error "IPv4 field must have at least one digit"
        else if fields.length = 3 then .error "IPv4 address too long"
        else parseIPv4From 0 0 (fields ++ [.ofNat octet]) s
      else .error "unexpected character"

def parseIPv4Fields (s : List Char) : Except String (List UInt8) := parseIPv4From 0 0 [] s

/-! ### Version 6 -/

def groupBytes (digits : List Char) : List UInt8 :=
  let acc := digits.foldl (fun acc c => acc * 16 + digitValue c) 0
  [.ofNat (acc / 256), .ofNat acc]

/-- The loop over the groups there is room for: what is left of the text, the bytes and where
among them the ellipsis stands. -/
def parseGroups : Nat → List Char → List UInt8 → Option Nat →
    Except String (List Char × List UInt8 × Option Nat)
  | 0, s, ip, ellipsis => .ok (s, ip, ellipsis)
  | room + 1, s, ip, ellipsis =>
      let digits := s.takeWhile isHexadecimalDigit
      let rest := s.dropWhile isHexadecimalDigit
      if 4 < digits.length then .error "each group must have 4 or less digits"
      else if digits.isEmpty then .error "each colon-separated field must have at least one digit"
      else
        match rest with
        | [] => .ok ([], ip ++ groupBytes digits, ellipsis)
        | '.' :: _ =>
            if ellipsis.isNone ∧ ip.length ≠ 12 then
              .error "embedded IPv4 address must replace the final 2 fields of the address"
            else if 16 < ip.length + 4 then
              .error "too many hex fields to fit an embedded IPv4 at the end of the address"
            else (parseIPv4Fields s).map fun fields => ([], ip ++ fields, ellipsis)
        | [':'] => .error "colon must be followed by more characters"
        | ':' :: ':' :: s =>
            if ellipsis.isSome then .error "multiple :: in address"
            else if s.isEmpty then .ok ([], ip ++ groupBytes digits, some (ip.length + 2))
            else parseGroups room s (ip ++ groupBytes digits) (some (ip.length + 2))
        | ':' :: s => parseGroups room s (ip ++ groupBytes digits) ellipsis
        | _ => .error "unexpected character, want colon"

/-- The zeros that the ellipsis stands for. -/
def expand (ip : List UInt8) (ellipsis : Option Nat) : Except String (List UInt8) :=
  if ip.length < 16 then
    match ellipsis with
    | none => .error "address string too short"
    | some place => .ok (ip.take place ++ List.replicate (16 - ip.length) 0 ++ ip.drop place)
  else if ellipsis.isSome then .error "the :: must expand to at least one field of zeros"
  else .ok ip

def parseIPv6Bytes (s : List Char) : Except String (List UInt8) :=
  match s with
  | [':', ':'] => .ok (List.replicate 16 0)
  | _ => do
      let (rest, ip, ellipsis) ←
        match s with
        | ':' :: ':' :: s => parseGroups 8 s [] (some 0)
        | _ => parseGroups 8 s [] none
      if !rest.isEmpty then .error "trailing garbage after address" else expand ip ellipsis

/-- An address and its zone, which is empty when it has none. -/
def parseIPv6 (s : List Char) : Except String (Addr × List Char) :=
  let zone := (s.dropWhile (· ≠ '%')).tail
  if '%' ∈ s ∧ zone = [] then .error "zone must be a non-empty string"
  else (parseIPv6Bytes (s.takeWhile (· ≠ '%'))).map fun ip => (.v6 (.ofNat 128 (value ip)), zone)

def ParseAddr (s : List Char) : Except String (Addr × List Char) :=
  match s.find? fun c => c = '.' || c = ':' || c = '%' with
  | some '.' => (parseIPv4Fields s).map fun fields => (.v4 (.ofNat 32 (value fields)), [])
  | some ':' => parseIPv6 s
  | some _ => .error "missing IPv6 address"
  | none => .error "unable to parse IP"

/-! ### Networks -/

def Addr.BitLen : Addr → Nat
  | .v4 _ => 32
  | .v6 _ => 128

/-- `strconv.Atoi` of what has no sign. -/
def Atoi (digits : List Char) : Option Nat :=
  if digits = [] ∨ digits.any (fun c => !isDecimalDigit c) then none
  else
    let n := digits.foldl (fun n c => n * 10 + digitValue c) 0
    if n < 2 ^ 63 then some n else none

/-- The address before the last slash, and the bits after it. -/
def ParsePrefix (s : List Char) : Except String (Addr × Nat) :=
  if '/' ∉ s then .error "no '/'"
  else do
    let bitsStr := (s.reverse.takeWhile (· ≠ '/')).reverse
    let (ip, zone) ← ParseAddr ((s.reverse.dropWhile (· ≠ '/')).tail.reverse)
    if zone ≠ [] then .error "IPv6 zones cannot be present in a prefix"
    else if 1 < bitsStr.length ∧ bitsStr.head?.any (fun c => c < '1' || '9' < c) then
      .error "bad bits after slash"
    else
      match Atoi bitsStr with
      | none => .error "bad bits after slash"
      | some bits =>
          if ip.BitLen < bits then .error "prefix length out of range" else .ok (ip, bits)

theorem ParsePrefix_bits {s : List Char} {a : Addr} {bits : Nat} (h : ParsePrefix s = .ok (a, bits)) :
    bits ≤ a.BitLen := by
  unfold ParsePrefix at h
  by_cases slash : '/' ∉ s
  · rw [if_pos slash] at h
    cases h
  rw [if_neg slash] at h
  cases parsed : ParseAddr ((s.reverse.dropWhile (· ≠ '/')).tail.reverse) with
  | error message =>
      rw [parsed] at h
      cases h
  | ok found =>
      obtain ⟨ip, zone⟩ := found
      rw [parsed] at h
      simp only [bind, Except.bind] at h
      split at h
      · cases h
      · split at h
        · cases h
        · split at h
          · cases h
          · split at h
            · cases h
            · rename_i fits
              cases h
              exact Nat.le_of_not_lt fits

end Netip
