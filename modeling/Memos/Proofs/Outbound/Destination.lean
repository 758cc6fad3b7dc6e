/-
Which destinations the two clients refuse.

The table of reserved networks holds the loopback, private and link-local addresses, in
every form they have.  It leaves out the unspecified address, which the other client
refuses too, and so the two agree on every address but that one.
-/
import Memos.Outbound.Allowlist

namespace Memos.Outbound

open Netip

/-! ### The table -/

theorem isReservedIP_eq {ip : IP} (len : ip.length = 4 ∨ ip.length = 16) :
    isReservedIP ip = reservedNetworks.any fun network => network.Contains ip.unmapped := by
  rw [isReservedIP, unmap_addrFromSlice len]

/-! ### Leading bits -/

theorem high_four (b : UInt8) : b &&& 0xf0 = 16 ↔ b.toNat / 16 = 1 := by
  have masked : ∀ n < 256, n &&& 240 = 16 ↔ n / 16 = 1 := by decide +kernel
  rw [← UInt8.toNat_inj, UInt8.toNat_and]
  exact masked _ b.toNat_lt

theorem high_seven (b : UInt8) : b &&& 0xfe = 0xfc ↔ b.toNat / 2 = 126 := by
  have masked : ∀ n < 256, n &&& 254 = 252 ↔ n / 2 = 126 := by decide +kernel
  rw [← UInt8.toNat_inj, UInt8.toNat_and]
  exact masked _ b.toNat_lt

theorem high_two (b : UInt8) : b &&& 0xc0 = 0x80 ↔ b.toNat / 64 = 2 := by
  have masked : ∀ n < 256, n &&& 192 = 128 ↔ n / 64 = 2 := by decide +kernel
  rw [← UInt8.toNat_inj, UInt8.toNat_and]
  exact masked _ b.toNat_lt

theorem value_singleton (a : UInt8) : value [a] = a.toNat := by simp [value]

theorem value_pair (a b : UInt8) : value [a, b] = a.toNat * 256 + b.toNat := by simp [value]

theorem contains_network4 {ip4 : IP} (four : ip4.length = 4) (p q r s : UInt8) (bits : Nat) :
    (network4 p q r s bits).Contains (.v4 (.ofNat 32 (value ip4))) = true ↔
      value ip4 / 2 ^ (32 - bits) = value [p, q, r, s] / 2 ^ (32 - bits) := by
  have bound : ∀ {ip4 : IP}, ip4.length = 4 → value ip4 < 2 ^ 32 := by
    intro ip4 four
    have := value_lt ip4
    rw [four] at this
    exact this
  rw [network4, contains_v4, BitVec.toNat_ofNat, BitVec.toNat_ofNat, Nat.mod_eq_of_lt (bound four),
    Nat.mod_eq_of_lt (bound rfl)]

theorem contains_network6 {ip : IP} (sixteen : ip.length = 16) {first last : Nat}
    (small : first * 2 ^ 112 + last < 2 ^ 128) (bits : Nat) :
    (network6 first last bits).Contains (.v6 (.ofNat 128 (value ip))) = true ↔
      value ip / 2 ^ (128 - bits) = (first * 2 ^ 112 + last) / 2 ^ (128 - bits) := by
  have bound : value ip < 2 ^ 128 := by
    have := value_lt ip
    rw [sixteen] at this
    exact this.trans_eq (by decide)
  rw [network6, contains_v6, BitVec.toNat_ofNat, BitVec.toNat_ofNat, Nat.mod_eq_of_lt bound,
    Nat.mod_eq_of_lt small]

/-! ### The classes of four bytes and of sixteen -/

/-- Four bytes are reserved by their first two. -/
theorem reserved_four (a b c d : UInt8) :
    (reservedNetworks.any fun network =>
      network.Contains (.v4 (.ofNat 32 (value [a, b, c, d])))) = true ↔
      a = 127 ∨ a = 10 ∨ a = 172 ∧ b &&& 0xf0 = 16 ∨ a = 192 ∧ b = 168 ∨ a = 169 ∧ b = 254 := by
  have one : ∀ a b c d : UInt8, value [a, b, c, d] / 2 ^ 24 = a.toNat := by
    intro a b c d
    have front := value_append_div [a] [b, c, d]
    have power : 256 ^ [b, c, d].length = 2 ^ 24 := by norm_num
    rw [value_singleton, power] at front
    exact front
  have two : ∀ a b c d : UInt8, value [a, b, c, d] / 2 ^ 16 = a.toNat * 256 + b.toNat := by
    intro a b c d
    have front := value_append_div [a, b] [c, d]
    have power : 256 ^ [c, d].length = 2 ^ 16 := by norm_num
    rw [value_pair, power] at front
    exact front
  have byte : ∀ p, (network4 p 0 0 0 8).Contains (.v4 (.ofNat 32 (value [a, b, c, d]))) = true ↔
      a = p := by
    intro p
    rw [contains_network4 rfl, one, one, UInt8.toNat_inj]
  have bytes : ∀ p q, (network4 p q 0 0 16).Contains (.v4 (.ofNat 32 (value [a, b, c, d]))) = true ↔
      a = p ∧ b = q := by
    intro p q
    rw [contains_network4 rfl, two, two, ← UInt8.toNat_inj, ← UInt8.toNat_inj (a := b)]
    have := b.toNat_lt
    have := q.toNat_lt
    omega
  have nibble : (network4 172 16 0 0 12).Contains (.v4 (.ofNat 32 (value [a, b, c, d]))) = true ↔
      a = 172 ∧ b &&& 0xf0 = 16 := by
    have twelve : ∀ a b c d : UInt8,
        value [a, b, c, d] / 2 ^ (32 - 12) = (a.toNat * 256 + b.toNat) / 2 ^ 4 := by
      intro a b c d
      rw [← two a b c d, Nat.div_div_eq_div_mul, ← pow_add]
    rw [contains_network4 rfl, twelve, twelve, high_four, ← UInt8.toNat_inj]
    have := b.toNat_lt
    have first : (172 : UInt8).toNat = 172 := rfl
    have second : (16 : UInt8).toNat = 16 := rfl
    omega
  unfold reservedNetworks
  simp only [List.any_cons, List.any_nil, Bool.or_false, Bool.or_eq_true, byte, bytes, nibble]
  simp only [network6, Network.Contains, Bool.false_eq_true, or_false]

theorem reserved_sixteen {ip : IP} (sixteen : ip.length = 16) :
    (reservedNetworks.any fun network =>
      network.Contains (.v6 (.ofNat 128 (value ip)))) = true ↔
      ip = IPv6loopback ∨ ip.byte 0 &&& 0xfe = 0xfc
        ∨ ip.byte 0 = 0xfe ∧ ip.byte 1 &&& 0xc0 = 0x80 := by
  obtain ⟨a, rest, rfl⟩ := List.exists_cons_of_ne_nil
    (List.ne_nil_of_length_pos (by omega : 0 < ip.length))
  obtain ⟨b, rest, rfl⟩ := List.exists_cons_of_ne_nil
    (List.ne_nil_of_length_pos (by rw [List.length_cons] at sixteen; omega : 0 < rest.length))
  have len : rest.length = 14 := by simpa using sixteen
  have two : value (a :: b :: rest) / 2 ^ 112 = a.toNat * 256 + b.toNat := by
    have := value_append_div [a, b] rest
    rw [len, value_pair] at this
    exact this
  have leading : ∀ k, value (a :: b :: rest) / 2 ^ (112 + k) = (a.toNat * 256 + b.toNat) / 2 ^ k := by
    intro k
    rw [pow_add, ← Nat.div_div_eq_div_mul, two]
  have loopback : (network6 0 1 128).Contains (.v6 (.ofNat 128 (value (a :: b :: rest)))) = true ↔
      a :: b :: rest = IPv6loopback := by
    rw [contains_network6 sixteen (by decide), Nat.sub_self, pow_zero, Nat.div_one, Nat.div_one]
    constructor
    · intro same
      exact value_inj sixteen (same.trans (by decide))
    · intro same
      rw [same]
      decide
  have unique : (network6 0xfc00 0 7).Contains (.v6 (.ofNat 128 (value (a :: b :: rest)))) = true ↔
      a &&& 0xfe = 0xfc := by
    rw [contains_network6 sixteen (by decide), high_seven]
    have := leading 9
    have := b.toNat_lt
    omega
  have link : (network6 0xfe80 0 10).Contains (.v6 (.ofNat 128 (value (a :: b :: rest)))) = true ↔
      a = 0xfe ∧ b &&& 0xc0 = 0x80 := by
    rw [contains_network6 sixteen (by decide), high_two, ← UInt8.toNat_inj]
    have first : (0xfe : UInt8).toNat = 254 := rfl
    have := leading 6
    have := b.toNat_lt
    omega
  unfold reservedNetworks
  simp only [List.any_cons, List.any_nil, Bool.or_false, Bool.or_eq_true, loopback, unique, link]
  simp only [network4, Network.Contains, Bool.false_eq_true, false_or]
  rfl

/-! ### The two guards -/

/-- The table holds the loopback, private and link-local addresses and no others. -/
theorem isReservedIP_iff {ip : IP} (len : ip.length = 4 ∨ ip.length = 16) :
    isReservedIP ip = true ↔
      ip.IsLoopback = true ∨ ip.IsPrivate = true ∨ ip.IsLinkLocalUnicast = true := by
  rw [isReservedIP_eq len, IP.unmapped, IP.IsLoopback, IP.IsPrivate, IP.IsLinkLocalUnicast]
  cases four : ip.To4 with
  | some ip4 =>
      match ip4, IP.To4_length four with
      | [a, b, c, d], _ =>
        dsimp only
        rw [reserved_four]
        simp only [IP.byte, List.getD_cons_zero, List.getD_cons_succ, Bool.or_eq_true,
          Bool.and_eq_true, decide_eq_true_eq, or_assoc]
  | none =>
      have sixteen : ip.length = 16 := by
        refine len.resolve_left fun short => ?_
        rw [IP.To4, if_pos short] at four
        cases four
      have loopback : ip.Equal IPv6loopback = true ↔ ip = IPv6loopback := by
        rw [equal_sixteen rfl]
        simp [(by decide : IPv6loopback.isMapped = false)]
      dsimp only
      rw [reserved_sixteen sixteen, loopback]
      simp only [sixteen, decide_true, Bool.true_and, Bool.and_eq_true, decide_eq_true_eq]

theorem not_reserved_of_unspecified {ip : IP} (h : ip.IsUnspecified = true) :
    isReservedIP ip = false := by
  rcases isUnspecified_iff.mp h with rfl | rfl | rfl
  · decide +kernel
  · decide +kernel
  · decide +kernel

theorem isInternalIP_iff {ip : IP} (len : ip.length = 4 ∨ ip.length = 16) :
    isInternalIP ip = true ↔ isReservedIP ip = true ∨ ip.IsUnspecified = true := by
  rw [isReservedIP_iff len]
  unfold isInternalIP
  simp only [Bool.or_eq_true, or_assoc]

def Destinations.AllowsNone (d : Destinations) : Prop :=
  d.AllowPrivateIPs = false ∧
    ∀ policy, d.configuredPrivateDestinations = some policy →
      policy.hostnames = [] ∧ policy.prefixes = []

theorem isPrivateDestinationAllowed_eq {d : Destinations} (none : d.AllowsNone)
    (hostname : List Char) (ip : IP) : isPrivateDestinationAllowed d hostname ip = false := by
  obtain ⟨guarded, empty⟩ := none
  unfold isPrivateDestinationAllowed
  rw [guarded]
  cases configured : d.configuredPrivateDestinations with
  | none => rfl
  | some policy =>
      obtain ⟨hostnames, prefixes⟩ := empty policy configured
      dsimp only
      rw [hostnames, prefixes]
      cases normalizeHostname d hostname with
      | error _ => cases (AddrFromSlice ip).map Addr.Unmap with | none => rfl | some addr => rfl
      | ok name => cases (AddrFromSlice ip).map Addr.Unmap with | none => rfl | some addr => rfl

/-- **The guard of the webhooks blocks what the guard of the link previews blocks, but for
the unspecified address.** -/
theorem isBlockedDestination_iff {d : Destinations} (none : d.AllowsNone) (hostname : List Char)
    {ip : IP} (len : ip.length = 4 ∨ ip.length = 16) :
    (isInternalIP ip = true → isBlockedDestination d hostname ip = true) ↔
      ip.IsUnspecified = false := by
  rw [isBlockedDestination, isPrivateDestinationAllowed_eq none, Bool.not_false, Bool.and_true,
    isInternalIP_iff len, ← Bool.not_eq_true]
  constructor
  · intro guarded unspecified
    have reserved := guarded (.inr unspecified)
    rw [not_reserved_of_unspecified unspecified] at reserved
    cases reserved
  · rintro specified (reserved | unspecified)
    · exact reserved
    · exact absurd unspecified specified

def guardedDestinations : Destinations := ⟨false, some ⟨[], []⟩, Char.toLower⟩

theorem guardedDestinations_allowsNone : guardedDestinations.AllowsNone := by
  refine ⟨rfl, fun policy configured => ?_⟩
  obtain rfl := Option.some.inj configured
  exact ⟨rfl, rfl⟩

theorem isBlockedDestination_iff_metadata :
    isBlockedDestination guardedDestinations "metadata".toList (IPv4 169 254 169 254) = true :=
  (isBlockedDestination_iff guardedDestinations_allowsNone "metadata".toList (.inr rfl)).mpr
    (by decide) (by decide)

theorem unspecified_not_blocked : ¬∀ (d : Destinations), d.AllowsNone →
    ∀ (hostname : List Char) (ip : IP), ip.length = 4 ∨ ip.length = 16 →
      isInternalIP ip = true → isBlockedDestination d hostname ip = true := by
  intro agree
  have blocked := agree guardedDestinations guardedDestinations_allowsNone "0.0.0.0".toList
    [0, 0, 0, 0] (.inl rfl) (by decide)
  rw [isBlockedDestination, not_reserved_of_unspecified (by decide), Bool.false_and] at blocked
  cases blocked

end Memos.Outbound
