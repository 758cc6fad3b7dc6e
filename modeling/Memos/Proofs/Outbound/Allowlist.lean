/-
What an allowlist allows.

An address has one number of 128 bits, in which an address of version 4 is written in
version 6, so the two forms of such an address have the same one.  What an entry covers is
said about these numbers; the policy holds entries of version 4 in their plain form and
takes every address to its plain form first, and both come to the same.
-/
import Memos.Outbound.Allowlist

namespace Memos.Outbound

open Netip Api

/-! ### Numbers of addresses -/

def Wide : Addr → Nat
  | .v4 a => 0xffff * 2 ^ 32 + a.toNat
  | .v6 a => a.toNat

/-- The address is one of version 4, in either form. -/
def IsVersion4 (a : Addr) : Prop := Wide a / 2 ^ 32 = 0xffff

/-- How many leading bits of the number count. -/
def wideBits : Addr → Nat → Nat
  | .v4 _, bits => bits + 96
  | .v6 _, bits => bits

theorem unmap_cases (x : Addr) :
    (∃ a, x.Unmap = .v4 a ∧ IsVersion4 x ∧ Wide x = 0xffff * 2 ^ 32 + a.toNat) ∨
      ∃ a, x = .v6 a ∧ x.Unmap = .v6 a ∧ ¬IsVersion4 x := by
  cases x with
  | v4 a =>
      refine .inl ⟨a, rfl, ?_, rfl⟩
      have := a.isLt
      unfold IsVersion4 Wide
      dsimp only
      omega
  | v6 a =>
      have high : a >>> 32 = 0xffff#128 ↔ a.toNat / 2 ^ 32 = 0xffff := by
        rw [← BitVec.toNat_inj, BitVec.toNat_ushiftRight, Nat.shiftRight_eq_div_pow]
        rfl
      by_cases mapped : a >>> 32 = 0xffff#128
      · refine .inl ⟨a.setWidth 32, if_pos mapped, high.mp mapped, ?_⟩
        have quotient := high.mp mapped
        rw [BitVec.toNat_setWidth]
        unfold Wide
        dsimp only
        omega
      · exact .inr ⟨a, rfl, if_neg mapped, fun four => mapped (high.mpr four)⟩

theorem is4In6_iff (x : Addr) : Is4In6 x = true ↔ (∃ a, x = .v6 a) ∧ IsVersion4 x := by
  cases x with
  | v4 a => simp [Is4In6]
  | v6 a =>
      unfold Is4In6 IsVersion4 Wide
      rw [decide_eq_true_iff, ← BitVec.toNat_inj, BitVec.toNat_ushiftRight, Nat.shiftRight_eq_div_pow]
      simp

/-! ### Networks -/

theorem masked_div {w : Nat} (a : BitVec w) (k : Nat) :
    (a &&& (BitVec.allOnes w <<< k)).toNat / 2 ^ k = a.toNat / 2 ^ k := by
  rw [← Nat.shiftRight_eq_div_pow, ← Nat.shiftRight_eq_div_pow, ← BitVec.toNat_ushiftRight,
    ← BitVec.toNat_ushiftRight, BitVec.toNat_inj]
  refine BitVec.eq_of_getLsbD_eq fun i hi => ?_
  rw [BitVec.getLsbD_ushiftRight, BitVec.getLsbD_ushiftRight, BitVec.getLsbD_and,
    BitVec.getLsbD_shiftLeft]
  by_cases inside : k + i < w
  · simp [inside]
    omega
  · rw [BitVec.getLsbD_of_ge a (k + i) (by omega), Bool.false_and]

/-- The same number before the leading bits of two changes nothing. -/
theorem add_div_eq_iff {a b bits : Nat} (small : bits ≤ 32) :
    (0xffff * 2 ^ 32 + a) / 2 ^ (32 - bits) = (0xffff * 2 ^ 32 + b) / 2 ^ (32 - bits) ↔
      a / 2 ^ (32 - bits) = b / 2 ^ (32 - bits) := by
  have split : 0xffff * 2 ^ 32 = 2 ^ (32 - bits) * (0xffff * 2 ^ bits) := by
    rw [← Nat.mul_assoc, Nat.mul_comm (2 ^ (32 - bits)), Nat.mul_assoc, ← pow_add,
      Nat.sub_add_cancel small]
  rw [split, Nat.mul_add_div (by positivity), Nat.mul_add_div (by positivity), Nat.add_left_cancel_iff]

theorem masked_v4 (base a : BitVec 32) {bits : Nat} (small : bits ≤ 32) :
    (maskedPrefix (.v4 base) bits).Contains (.v4 a) = true ↔
      (0xffff * 2 ^ 32 + base.toNat) / 2 ^ (32 - bits) =
        (0xffff * 2 ^ 32 + a.toNat) / 2 ^ (32 - bits) := by
  rw [maskedPrefix, contains_v4, masked_div, add_div_eq_iff small, eq_comm]

theorem masked_v6 (base a : BitVec 128) (bits : Nat) :
    (maskedPrefix (.v6 base) bits).Contains (.v6 a) = true ↔
      base.toNat / 2 ^ (128 - bits) = a.toNat / 2 ^ (128 - bits) := by
  rw [maskedPrefix, contains_v6, masked_div, eq_comm]

/-! ### Entries -/

inductive Entry where
  | address (addr : Addr)
  | network (addr : Addr) (bits : Nat)
  | host (name : List Char)

/-- Two names without case and without one dot at their end. -/
def SameHost (toLower : Char → Char) (name hostname : List Char) : Prop :=
  (trimDot name).map toLower = (trimDot hostname).map toLower

/-- The entry is for the host or for the address. -/
def Entry.Covers (toLower : Char → Char) (hostname : List Char) (a : Addr) : Entry → Prop
  | .address x => Wide x = Wide a
  | .network x bits => (IsVersion4 x ↔ IsVersion4 a) ∧
      Wide x / 2 ^ (128 - wideBits x bits) = Wide a / 2 ^ (128 - wideBits x bits)
  | .host name => SameHost toLower name hostname

/-- The label of a host name in small letters. -/
structure IsLabel (label : List Char) : Prop where
  nonempty : label ≠ []
  few : Utf8.byteLength label ≤ 63
  ascii : ∀ c ∈ label, 'a' ≤ c ∧ c ≤ 'z' ∨ '0' ≤ c ∧ c ≤ '9' ∨ c = '-'
  inner : label.head? ≠ some '-' ∧ label.getLast? ≠ some '-'

/-- The name of a host, without case and without one dot at its end. -/
structure IsHostname (toLower : Char → Char) (name : List Char) : Prop where
  nonempty : trimDot name ≠ []
  few : Utf8.byteLength ((trimDot name).map toLower) ≤ 253
  labels : ∀ label ∈ ((trimDot name).map toLower).splitOn '.', IsLabel label

/-- A text is read as an address, else as a network, else as the name of a host. -/
inductive Denotes (toLower : Char → Char) (text : List Char) : Entry → Prop
  | address {a : Addr} (parsed : ParseAddr text = .ok (a, [])) : Denotes toLower text (.address a)
  | network {err : String} {a : Addr} {bits : Nat} (other : ParseAddr text = .error err)
      (parsed : ParsePrefix text = .ok (a, bits)) : Denotes toLower text (.network a bits)
  | host {err err' : String} (other : ParseAddr text = .error err)
      (other' : ParsePrefix text = .error err') (no_slash : '/' ∉ text) (name : IsHostname toLower text) :
      Denotes toLower text (.host text)

/-- A network of addresses of version 4 that is written in version 6 has all of the bits that
say so. -/
def Entry.Whole : Entry → Prop
  | .network (.v6 x) bits => IsVersion4 (.v6 x) → 96 ≤ bits
  | _ => True

/-! ### Names -/

theorem isHostnameRune_iff {label : List Char} (i : Nat) (r : Char) :
    isHostnameRune label i r = true ↔ ('a' ≤ r ∧ r ≤ 'z') ∨ ('0' ≤ r ∧ r ≤ '9') ∨
      r = '-' ∧ 0 < i ∧ i < Utf8.byteLength label - 1 := by
  unfold isHostnameRune
  simp only [Bool.or_eq_true, Bool.and_eq_true, decide_eq_true_eq, or_assoc, and_assoc]

theorem checkLabel_iff (label : List Char) : checkLabel label = .ok () ↔ IsLabel label := by
  have ascii_size : (∀ c ∈ label, 'a' ≤ c ∧ c ≤ 'z' ∨ '0' ≤ c ∧ c ≤ '9' ∨ c = '-') →
      Utf8.byteLength label = label.length := by
    intro ascii
    refine Utf8.byteLength_of_ascii fun c hc => ?_
    rcases ascii c hc with letter | digit | rfl
    · exact Utf8.utf8Size_of_le letter.2
    · exact Utf8.utf8Size_of_le (UInt32.le_trans digit.2 (by decide))
    · rfl
  unfold checkLabel
  by_cases size : (label.isEmpty || decide (63 < Utf8.byteLength label)) = true
  · rw [if_pos size]
    refine iff_of_false (fun h => nomatch h) fun h => ?_
    rw [Bool.or_eq_true, List.isEmpty_iff, decide_eq_true_eq] at size
    exact size.elim h.nonempty (Nat.not_lt.mpr h.few)
  · rw [if_neg size]
    rw [Bool.or_eq_true, List.isEmpty_iff, decide_eq_true_eq, not_or, Nat.not_lt] at size
    split
    next all =>
      refine iff_of_true rfl ?_
      rw [List.all_eq_true] at all
      have rune : ∀ i (inside : i < label.length), _ :=
        fun i inside => (isHostnameRune_iff i label[i]).mp
          (all (label[i], i) (List.mk_mem_zipIdx_iff_getElem?.mpr (List.getElem?_eq_getElem inside)))
      have ascii : ∀ c ∈ label, 'a' ≤ c ∧ c ≤ 'z' ∨ '0' ≤ c ∧ c ≤ '9' ∨ c = '-' := by
        intro c hc
        obtain ⟨i, inside, rfl⟩ := List.getElem_of_mem hc
        exact (rune i inside).imp_right (.imp_right And.left)
      refine ⟨size.1, size.2, ascii, ?_, ?_⟩
      · intro head
        rw [List.head?_eq_getElem?, List.getElem?_eq_some_iff] at head
        obtain ⟨inside, dash⟩ := head
        rcases rune 0 inside with letter | digit | inner
        · rw [dash] at letter
          exact absurd letter.1 (by decide)
        · rw [dash] at digit
          exact absurd digit.1 (by decide)
        · exact absurd inner.2.1 (Nat.lt_irrefl 0)
      · intro last
        rw [List.getLast?_eq_getElem?, List.getElem?_eq_some_iff] at last
        obtain ⟨inside, dash⟩ := last
        rcases rune _ inside with letter | digit | inner
        · rw [dash] at letter
          exact absurd letter.1 (by decide)
        · rw [dash] at digit
          exact absurd digit.1 (by decide)
        · rw [ascii_size ascii] at inner
          exact absurd inner.2.2 (Nat.lt_irrefl _)
    next all =>
      refine iff_of_false (fun h => nomatch h) fun h => all ?_
      rw [List.all_eq_true]
      rintro ⟨c, i⟩ mem
      obtain ⟨inside, rfl⟩ := List.getElem?_eq_some_iff.mp (List.mk_mem_zipIdx_iff_getElem?.mp mem)
      refine (isHostnameRune_iff i label[i]).mpr ?_
      refine (h.ascii _ (List.getElem_mem inside)).imp_right (.imp_right fun dash => ⟨dash, ?_, ?_⟩)
      · refine Nat.pos_of_ne_zero fun first => h.inner.1 ?_
        subst first
        rw [List.head?_eq_getElem?, List.getElem?_eq_getElem inside, dash]
      · rw [ascii_size h.ascii]
        refine Nat.lt_of_le_of_ne (by omega) fun last => h.inner.2 ?_
        subst last
        rw [List.getLast?_eq_getElem?, List.getElem?_eq_getElem inside, dash]

theorem forM_ok_iff {α : Type} (check : α → Except String Unit) (items : List α) :
    items.forM check = .ok () ↔ ∀ item ∈ items, check item = .ok () := by
  induction items with
  | nil => simp [pure, Except.pure]
  | cons item items ih =>
      have step : (item :: items).forM check = check item >>= fun _ => items.forM check := rfl
      rw [step, List.forall_mem_cons, ← ih]
      cases first : check item with
      | error err => simp [bind, Except.bind]
      | ok => simp [bind, Except.bind]

variable {d : Destinations}

theorem normalizeHostname_iff {name hostname : List Char} :
    normalizeHostname d name = .ok hostname ↔
      IsHostname d.toLower name ∧ hostname = (trimDot name).map d.toLower := by
  have labels : (((trimDot name).map d.toLower).splitOn '.').forM checkLabel = .ok () ↔
      ∀ label ∈ ((trimDot name).map d.toLower).splitOn '.', IsLabel label := by
    rw [forM_ok_iff]
    exact forall₂_congr fun label _ => checkLabel_iff label
  unfold normalizeHostname
  dsimp only
  by_cases size : (((trimDot name).map d.toLower).isEmpty ||
      decide (253 < Utf8.byteLength ((trimDot name).map d.toLower))) = true
  · rw [if_pos size]
    refine iff_of_false (fun h => nomatch h) fun h => ?_
    rw [Bool.or_eq_true, List.isEmpty_iff, List.map_eq_nil_iff, decide_eq_true_eq] at size
    exact size.elim h.1.nonempty (Nat.not_lt.mpr h.1.few)
  · rw [if_neg size]
    rw [Bool.or_eq_true, List.isEmpty_iff, List.map_eq_nil_iff, decide_eq_true_eq, not_or,
      Nat.not_lt] at size
    cases checked : (((trimDot name).map d.toLower).splitOn '.').forM checkLabel with
    | error err =>
        refine iff_of_false (fun h => nomatch h) fun h => ?_
        rw [labels.mpr h.1.labels] at checked
        cases checked
    | ok =>
        have all := labels.mp checked
        simp only [bind, Except.bind, pure, Except.pure, Except.ok.injEq]
        constructor
        · intro same
          exact ⟨⟨size.1, size.2, all⟩, same.symm⟩
        · intro h
          exact h.2.symm

theorem IsHostname.of_same {name hostname : List Char} (h : IsHostname d.toLower name)
    (same : SameHost d.toLower name hostname) : IsHostname d.toLower hostname := by
  unfold SameHost at same
  have nonempty : (trimDot hostname).map d.toLower ≠ [] := by
    rw [← same, Ne, List.map_eq_nil_iff]
    exact h.nonempty
  rw [Ne, List.map_eq_nil_iff] at nonempty
  exact ⟨nonempty, same ▸ h.few, same ▸ h.labels⟩

/-! ### The policy of the entries -/

def PrivateDestinationPolicy.add (toLower : Char → Char) (policy : PrivateDestinationPolicy) :
    Entry → PrivateDestinationPolicy
  | .address a => { policy with prefixes := policy.prefixes ++ [singlePrefix a.Unmap] }
  | .network a bits =>
      { policy with prefixes := policy.prefixes ++
          [maskedPrefix a.Unmap (if Is4In6 a then bits - 96 else bits)] }
  | .host name => { policy with hostnames := policy.hostnames ++ [(trimDot name).map toLower] }

theorem whole_iff {a : Addr} {bits : Nat} :
    (Entry.network a bits).Whole ↔ (Is4In6 a = true → 96 ≤ bits) := by
  cases a with
  | v4 x => simp [Entry.Whole, Is4In6]
  | v6 x =>
      rw [is4In6_iff]
      simp [Entry.Whole]

/-- Without the bits of version 4, an address that is not written in version 6 is plain. -/
theorem unmap_of_not_is4In6 {a : Addr} (h : ¬Is4In6 a = true) : a.Unmap = a := by
  rcases unmap_cases a with ⟨x, plain, four, -⟩ | ⟨x, rfl, plain, -⟩
  · cases a with
    | v4 x => rfl
    | v6 x => exact absurd ((is4In6_iff _).mpr ⟨⟨x, rfl⟩, four⟩) h
  · exact plain

theorem normalizePrefix_iff {a : Addr} {bits : Nat} {network : Network} :
    normalizePrefix a bits = .ok network ↔ (Entry.network a bits).Whole ∧
      network = maskedPrefix a.Unmap (if Is4In6 a then bits - 96 else bits) := by
  unfold normalizePrefix
  rw [whole_iff]
  by_cases mapped : Is4In6 a = true
  · rw [if_pos mapped, if_pos mapped]
    by_cases short : bits < 96
    · rw [if_pos short]
      exact iff_of_false (fun h => nomatch h) fun h => Nat.not_lt.mpr (h.1 mapped) short
    · rw [if_neg short, Except.ok.injEq, eq_comm, iff_and_self]
      exact fun _ _ => Nat.not_lt.mp short
  · rw [if_neg mapped, if_neg mapped, unmap_of_not_is4In6 mapped, Except.ok.injEq, eq_comm,
      iff_and_self]
    exact fun _ h => absurd h mapped

theorem Denotes.text_ne {text : List Char} {entry : Entry} (h : Denotes d.toLower text entry) : text ≠ [] := by
  rintro rfl
  cases h with
  | address parsed => cases parsed
  | network other parsed => cases parsed
  | host _ _ _ name => exact name.nonempty rfl

theorem addEntry_of_denotes {policy : PrivateDestinationPolicy} {rawEntry : List Char} {entry : Entry}
    (denotes : Denotes d.toLower (trimSpace rawEntry) entry) (whole : entry.Whole) :
    addEntry d policy rawEntry = .ok (policy.add d.toLower entry) := by
  unfold addEntry
  dsimp only
  rw [if_neg denotes.text_ne]
  cases denotes with
  | address parsed =>
      rw [parsed]
      exact if_neg (not_not.mpr rfl)
  | network other parsed =>
      rw [other, parsed]
      dsimp only
      rw [normalizePrefix_iff.mpr ⟨whole, rfl⟩]
      rfl
  | host other other' no_slash name =>
      rw [other, other']
      dsimp only
      rw [if_neg no_slash, normalizeHostname_iff.mpr ⟨name, rfl⟩]
      rfl

theorem denotes_of_addEntry {policy policy' : PrivateDestinationPolicy} {rawEntry : List Char}
    (h : addEntry d policy rawEntry = .ok policy') :
    ∃ entry, Denotes d.toLower (trimSpace rawEntry) entry ∧ entry.Whole ∧ policy' = policy.add d.toLower entry := by
  unfold addEntry at h
  dsimp only at h
  generalize trimSpace rawEntry = text at h ⊢
  by_cases empty : text = []
  · rw [if_pos empty] at h
    cases h
  rw [if_neg empty] at h
  cases addr : ParseAddr text with
  | ok found =>
      obtain ⟨a, zone⟩ := found
      rw [addr] at h
      dsimp only at h
      by_cases zoned : zone ≠ []
      · rw [if_pos zoned] at h
        cases h
      · rw [if_neg zoned] at h
        rw [not_not] at zoned
        subst zoned
        exact ⟨.address a, .address addr, trivial, (Except.ok.inj h).symm⟩
  | error err =>
      rw [addr] at h
      dsimp only at h
      cases parsed : ParsePrefix text with
      | ok found =>
          obtain ⟨a, bits⟩ := found
          rw [parsed] at h
          dsimp only at h
          cases normal : normalizePrefix a bits with
          | error err' =>
              rw [normal] at h
              cases h
          | ok network =>
              rw [normal] at h
              obtain ⟨whole, rfl⟩ := normalizePrefix_iff.mp normal
              exact ⟨.network a bits, .network addr parsed, whole, (Except.ok.inj h).symm⟩
      | error err' =>
          rw [parsed] at h
          dsimp only at h
          by_cases slash : '/' ∈ text
          · rw [if_pos slash] at h
            cases h
          · rw [if_neg slash] at h
            cases named : normalizeHostname d text with
            | error err'' =>
                rw [named] at h
                cases h
            | ok hostname =>
                rw [named] at h
                obtain ⟨name, rfl⟩ := normalizeHostname_iff.mp named
                exact ⟨.host text, .host addr parsed slash name, trivial, (Except.ok.inj h).symm⟩

/-! ### What a policy allows -/

/-- The policy is for the host or for the address. -/
def PrivateDestinationPolicy.Allows (d : Destinations) (policy : PrivateDestinationPolicy)
    (hostname : List Char) (a : Addr) : Prop :=
  (∃ name, normalizeHostname d hostname = .ok name ∧ name ∈ policy.hostnames) ∨
    ∃ network ∈ policy.prefixes, network.Contains a.Unmap = true

theorem single_contains_iff (x a : Addr) :
    (singlePrefix x.Unmap).Contains a.Unmap = true ↔ Wide x = Wide a := by
  rcases unmap_cases x with ⟨y, plain, four, wide⟩ | ⟨y, same, plain, six⟩
  · rcases unmap_cases a with ⟨b, plain', -, wide'⟩ | ⟨b, -, plain', six'⟩
    · rw [plain, plain', singlePrefix, contains_v4, Nat.sub_self, pow_zero, Nat.div_one, Nat.div_one,
        wide, wide']
      omega
    · rw [plain, plain']
      refine iff_of_false (by simp [singlePrefix, Network.Contains]) fun same => six' ?_
      unfold IsVersion4 at four ⊢
      rw [← same]
      exact four
  · rcases unmap_cases a with ⟨b, plain', four', -⟩ | ⟨b, same', plain', -⟩
    · rw [plain, plain']
      refine iff_of_false (by simp [singlePrefix, Network.Contains]) fun same => six ?_
      unfold IsVersion4 at four' ⊢
      rw [same]
      exact four'
    · rw [plain, plain', singlePrefix, contains_v6, Nat.sub_self, pow_zero, Nat.div_one, Nat.div_one,
        same, same', Wide, Wide, eq_comm]

theorem network_contains_iff {x : Addr} {bits : Nat} (fits : bits ≤ x.BitLen)
    (whole : (Entry.network x bits).Whole) (a : Addr) :
    (maskedPrefix x.Unmap (if Is4In6 x then bits - 96 else bits)).Contains a.Unmap = true ↔
      (IsVersion4 x ↔ IsVersion4 a) ∧
        Wide x / 2 ^ (128 - wideBits x bits) = Wide a / 2 ^ (128 - wideBits x bits) := by
  rcases unmap_cases x with ⟨y, plain, four, wide⟩ | ⟨y, same, plain, six⟩
  · -- Of version 4, in either form.
    have rest : (if Is4In6 x then bits - 96 else bits) ≤ 32 ∧
        32 - (if Is4In6 x then bits - 96 else bits) = 128 - wideBits x bits := by
      cases x with
      | v4 x =>
          have small : bits ≤ 32 := fits
          simp only [Is4In6, wideBits, Bool.false_eq_true, if_false]
          omega
      | v6 x =>
          have small : bits ≤ 128 := fits
          have long : 96 ≤ bits := whole four
          rw [if_pos ((is4In6_iff _).mpr ⟨⟨x, rfl⟩, four⟩)]
          simp only [wideBits]
          omega
    rcases unmap_cases a with ⟨b, plain', four', wide'⟩ | ⟨b, -, plain', six'⟩
    · rw [plain, plain', masked_v4 y b rest.1, rest.2, ← wide, ← wide']
      exact (and_iff_right (iff_of_true four four')).symm
    · rw [plain, plain']
      refine iff_of_false (by simp [maskedPrefix, Network.Contains]) fun h => ?_
      exact six' (h.1.mp four)
  · have none : ¬Is4In6 x = true := fun h => six ((is4In6_iff x).mp h).2
    rw [if_neg none]
    rcases unmap_cases a with ⟨b, plain', four', -⟩ | ⟨b, same', plain', six'⟩
    · rw [plain, plain']
      refine iff_of_false (by simp [maskedPrefix, Network.Contains]) fun h => ?_
      exact six (h.1.mpr four')
    · rw [plain, plain', masked_v6, same, same']
      rw [same] at six
      rw [same'] at six'
      exact (and_iff_right (iff_of_false six six')).symm

theorem allows_add {policy : PrivateDestinationPolicy} {text : List Char} {entry : Entry}
    (denotes : Denotes d.toLower text entry) (whole : entry.Whole) (hostname : List Char) (a : Addr) :
    (policy.add d.toLower entry).Allows d hostname a ↔
      policy.Allows d hostname a ∨ entry.Covers d.toLower hostname a := by
  unfold PrivateDestinationPolicy.Allows
  cases denotes with
  | address parsed =>
      simp only [PrivateDestinationPolicy.add, Entry.Covers, List.mem_append, List.mem_singleton,
        or_and_right, exists_or, exists_eq_left, single_contains_iff, or_assoc]
  | network other parsed =>
      simp only [PrivateDestinationPolicy.add, Entry.Covers, List.mem_append, List.mem_singleton,
        or_and_right, exists_or, exists_eq_left, or_assoc,
        network_contains_iff (ParsePrefix_bits parsed) whole]
  | host other other' no_slash name =>
      have same : (∃ hostname', normalizeHostname d hostname = .ok hostname' ∧
          hostname' = (trimDot text).map d.toLower) ↔ SameHost d.toLower text hostname := by
        constructor
        · rintro ⟨_, named, rfl⟩
          exact (normalizeHostname_iff.mp named).2
        · intro same
          exact ⟨_, normalizeHostname_iff.mpr ⟨name.of_same same, same⟩, rfl⟩
      simp only [PrivateDestinationPolicy.add, Entry.Covers, List.mem_append, List.mem_singleton,
        and_or_left, exists_or, same]
      exact or_right_comm

/-! ### Calls -/

theorem Denotes.unique {text : List Char} {entry entry' : Entry} (h : Denotes d.toLower text entry)
    (h' : Denotes d.toLower text entry') : entry = entry' := by
  cases h with
  | address parsed =>
      cases h' with
      | address parsed' =>
          rw [parsed, Except.ok.injEq, Prod.mk.injEq] at parsed'
          rw [parsed'.1]
      | network other' => rw [parsed] at other'; cases other'
      | host other' => rw [parsed] at other'; cases other'
  | network other parsed =>
      cases h' with
      | address parsed' => rw [other] at parsed'; cases parsed'
      | network _ parsed' =>
          rw [parsed, Except.ok.injEq, Prod.mk.injEq] at parsed'
          rw [parsed'.1, parsed'.2]
      | host _ other' => rw [parsed] at other'; cases other'
  | host other other₂ =>
      cases h' with
      | address parsed' => rw [other] at parsed'; cases parsed'
      | network _ parsed' => rw [other₂] at parsed'; cases parsed'
      | host => rfl

/-- Every entry is an address without a zone, a network or the name of a host. -/
def Acceptable (toLower : Char → Char) (entries : List (List Char)) : Prop :=
  ∀ rawEntry ∈ entries, ∃ entry, Denotes toLower (trimSpace rawEntry) entry ∧ entry.Whole

/-- Some entry is for the host or for the address. -/
def CoveredBy (toLower : Char → Char) (entries : List (List Char)) (hostname : List Char) (a : Addr) :
    Prop :=
  ∃ rawEntry ∈ entries, ∃ entry, Denotes toLower (trimSpace rawEntry) entry ∧ entry.Covers toLower hostname a

theorem exists_readEntries {entries : List (List Char)} (acceptable : Acceptable d.toLower entries)
    (policy : PrivateDestinationPolicy) :
    ∃ policy', readEntries d policy entries = .ok policy' ∧
      ∀ hostname a, policy'.Allows d hostname a ↔
        policy.Allows d hostname a ∨ CoveredBy d.toLower entries hostname a := by
  induction entries generalizing policy with
  | nil =>
      refine ⟨policy, rfl, fun hostname a => (or_iff_left ?_).symm⟩
      rintro ⟨rawEntry, mem, -⟩
      cases mem
  | cons rawEntry entries ih =>
      obtain ⟨entry, denotes, whole⟩ := acceptable rawEntry List.mem_cons_self
      obtain ⟨policy', read, allows⟩ :=
        ih (fun other mem => acceptable other (List.mem_cons_of_mem _ mem)) (policy.add d.toLower entry)
      refine ⟨policy', ?_, fun hostname a => ?_⟩
      · rw [readEntries, addEntry_of_denotes denotes whole]
        exact read
      · have first : (∃ other, Denotes d.toLower (trimSpace rawEntry) other ∧ other.Covers d.toLower hostname a) ↔
            entry.Covers d.toLower hostname a := by
          constructor
          · rintro ⟨other, denotes', covers⟩
            exact denotes'.unique denotes ▸ covers
          · exact fun covers => ⟨entry, denotes, covers⟩
        rw [allows, allows_add denotes whole, or_assoc]
        unfold CoveredBy
        rw [List.exists_mem_cons_iff, first]

theorem acceptable_of_readEntries {entries : List (List Char)}
    {policy policy' : PrivateDestinationPolicy} (h : readEntries d policy entries = .ok policy') :
    Acceptable d.toLower entries := by
  induction entries generalizing policy with
  | nil => exact fun rawEntry mem => nomatch mem
  | cons rawEntry entries ih =>
      rw [readEntries] at h
      cases added : addEntry d policy rawEntry with
      | error err =>
          rw [added] at h
          cases h
      | ok next =>
          rw [added] at h
          intro other mem
          rcases List.mem_cons.mp mem with rfl | mem
          · obtain ⟨entry, denotes, whole, -⟩ := denotes_of_addEntry added
            exact ⟨entry, denotes, whole⟩
          · exact ih h other mem

theorem configure_cases (d : Destinations) (entries : List (List Char)) :
    (Acceptable d.toLower entries ∧ ∃ policy,
      ConfigurePrivateDestinationAllowlist d entries =
        ({ d with configuredPrivateDestinations := some policy }, .ok ()) ∧
      ∀ hostname a, policy.Allows d hostname a ↔ CoveredBy d.toLower entries hostname a) ∨
    (¬Acceptable d.toLower entries ∧ ∃ err,
      ConfigurePrivateDestinationAllowlist d entries = (d, .error err)) := by
  unfold ConfigurePrivateDestinationAllowlist
  cases read : readEntries d ⟨[], []⟩ entries with
  | error err =>
      refine .inr ⟨fun acceptable => ?_, err, rfl⟩
      obtain ⟨policy, read', -⟩ := exists_readEntries acceptable ⟨[], []⟩
      rw [read] at read'
      cases read'
  | ok policy =>
      have acceptable := acceptable_of_readEntries read
      obtain ⟨policy', read', allows⟩ := exists_readEntries acceptable ⟨[], []⟩
      rw [read, Except.ok.injEq] at read'
      subst read'
      refine .inl ⟨acceptable, policy, rfl, fun hostname a => ?_⟩
      rw [allows]
      refine or_iff_right ?_
      rintro (⟨_, -, mem⟩ | ⟨_, mem, -⟩)
      · cases mem
      · cases mem

/-- The entries of the last call that was accepted. -/
def InForce (toLower : Char → Char) (calls : List (List (List Char))) (entries : List (List Char)) :
    Prop :=
  ∃ before after, calls = before ++ entries :: after ∧ Acceptable toLower entries ∧
    ∀ later ∈ after, ¬Acceptable toLower later

theorem inForce_cons {toLower : Char → Char} {call : List (List Char)}
    {calls : List (List (List Char))} {entries : List (List Char)} :
    InForce toLower (call :: calls) entries ↔ InForce toLower calls entries ∨
      Acceptable toLower call ∧ (∀ later ∈ calls, ¬Acceptable toLower later) ∧ entries = call := by
  constructor
  · rintro ⟨before, after, split, acceptable, last⟩
    cases before with
    | nil =>
        obtain ⟨rfl, rfl⟩ := List.cons.inj split
        exact .inr ⟨acceptable, last, rfl⟩
    | cons first before =>
        exact .inl ⟨before, after, (List.cons.inj split).2, acceptable, last⟩
  · rintro (⟨before, after, rfl, acceptable, last⟩ | ⟨acceptable, last, rfl⟩)
    · exact ⟨call :: before, after, rfl, acceptable, last⟩
    · exact ⟨[], calls, rfl, acceptable, last⟩

def Destinations.Allows (d : Destinations) (hostname : List Char) (a : Addr) : Prop :=
  ∃ policy, d.configuredPrivateDestinations = some policy ∧ policy.Allows d hostname a

/-- After calls, what is allowed is what the last accepted one covers, or what was allowed
before when there is none. -/
theorem configureAll_spec (d : Destinations) (calls : List (List (List Char))) :
    (configureAll d calls).AllowPrivateIPs = d.AllowPrivateIPs ∧
    (configureAll d calls).toLower = d.toLower ∧
    ∀ hostname a, (configureAll d calls).Allows hostname a ↔
      (∃ entries, InForce d.toLower calls entries ∧ CoveredBy d.toLower entries hostname a) ∨
      (∀ call ∈ calls, ¬Acceptable d.toLower call) ∧ d.Allows hostname a := by
  induction calls generalizing d with
  | nil =>
      refine ⟨rfl, rfl, fun hostname a => ?_⟩
      have none : ¬∃ entries, InForce d.toLower [] entries ∧ CoveredBy d.toLower entries hostname a := by
        rintro ⟨entries, ⟨before, after, split, -⟩, -⟩
        exact List.append_ne_nil_of_right_ne_nil before (List.cons_ne_nil _ _) split.symm
      rw [or_iff_right none, and_iff_right fun call mem => nomatch mem]
      rfl
  | cons call calls ih =>
      have next : configureAll d (call :: calls) =
          configureAll (ConfigurePrivateDestinationAllowlist d call).1 calls := rfl
      rcases configure_cases d call with ⟨acceptable, policy, result, allows⟩ | ⟨refused, err, result⟩
      · obtain ⟨override, letters, rest⟩ := ih { d with configuredPrivateDestinations := some policy }
        rw [next, result]
        refine ⟨override, letters, fun hostname a => ?_⟩
        have now : ({ d with configuredPrivateDestinations := some policy } : Destinations).Allows
            hostname a ↔ CoveredBy d.toLower call hostname a := by
          rw [← allows hostname a]
          constructor
          · rintro ⟨policy', same, allowed⟩
            rw [← Option.some.inj same] at allowed
            exact allowed
          · exact fun allowed => ⟨policy, rfl, allowed⟩
        rw [rest, now]
        dsimp only
        constructor
        · rintro (⟨entries, force, covered⟩ | ⟨none, covered⟩)
          · exact .inl ⟨entries, inForce_cons.mpr (.inl force), covered⟩
          · exact .inl ⟨call, inForce_cons.mpr (.inr ⟨acceptable, none, rfl⟩), covered⟩
        · rintro (⟨entries, force, covered⟩ | ⟨none, -⟩)
          · rcases inForce_cons.mp force with force | ⟨-, none, rfl⟩
            · exact .inl ⟨entries, force, covered⟩
            · exact .inr ⟨none, covered⟩
          · exact absurd acceptable (none call List.mem_cons_self)
      · obtain ⟨override, letters, rest⟩ := ih d
        rw [next, result]
        refine ⟨override, letters, fun hostname a => ?_⟩
        rw [rest, List.forall_mem_cons, and_iff_right refused]
        have same : ∀ entries, InForce d.toLower (call :: calls) entries ↔
            InForce d.toLower calls entries := by
          intro entries
          rw [inForce_cons, or_iff_left]
          exact fun h => refused h.1
        simp only [same]

/-! ### Destinations -/

theorem isPrivateDestinationAllowed_iff {ip : IP} {a : Addr} (off : d.AllowPrivateIPs = false)
    (slice : AddrFromSlice ip = some a) (hostname : List Char) :
    isPrivateDestinationAllowed d hostname ip = true ↔ d.Allows hostname a := by
  unfold isPrivateDestinationAllowed Destinations.Allows
  rw [off, slice, Option.map_some]
  cases d.configuredPrivateDestinations with
  | none => simp
  | some policy =>
      have named : (normalizeHostname d hostname).toOption.any (policy.hostnames.contains ·) = true ↔
          ∃ name, normalizeHostname d hostname = .ok name ∧ name ∈ policy.hostnames := by
        cases normalizeHostname d hostname with
        | error err => simp [Except.toOption]
        | ok name => simp [Except.toOption]
      dsimp only
      rw [if_neg Bool.false_ne_true]
      unfold PrivateDestinationPolicy.Allows
      simp only [Option.some.injEq, exists_eq_left', ← named]
      by_cases known : (normalizeHostname d hostname).toOption.any (policy.hostnames.contains ·) = true
      · rw [if_pos known]
        exact iff_of_true rfl (.inl known)
      · rw [if_neg known, or_iff_right known, List.any_eq_true]

/-- Two forms of one address have one plain form. -/
theorem unmap_eq_of_wide {a b : Addr} (h : Wide a = Wide b) : a.Unmap = b.Unmap := by
  rcases unmap_cases a with ⟨x, plain, four, wide⟩ | ⟨x, same, plain, six⟩
  · rcases unmap_cases b with ⟨y, plain', -, wide'⟩ | ⟨y, -, -, six'⟩
    · rw [plain, plain']
      exact congrArg Addr.v4 (BitVec.eq_of_toNat_eq (by omega))
    · unfold IsVersion4 at four six'
      exact absurd (h ▸ four) six'
  · rcases unmap_cases b with ⟨y, -, four', -⟩ | ⟨y, same', plain', -⟩
    · unfold IsVersion4 at four' six
      exact absurd (h ▸ four') six
    · rw [same, same', Wide, Wide] at h
      rw [plain, plain']
      exact congrArg Addr.v6 (BitVec.eq_of_toNat_eq h)

/-- **The allowlist in force is the last one that was accepted, and it allows what its entries
cover.**

For every sequence of calls from the start: the next call is accepted exactly if every entry
is an address without a zone, a network or the name of a host, where a network of addresses
of version 4 that is written in version 6 has to have all of the bits that say so; if it is
refused nothing changes.  A reserved destination is let through exactly if an entry of the
last accepted call covers it, and the two forms of an address are treated alike. -/
theorem allowlist_correct (d : Destinations) (off : d.AllowPrivateIPs = false)
    (fresh : d.configuredPrivateDestinations = none) (calls : List (List (List Char))) :
    (∀ entries, (ConfigurePrivateDestinationAllowlist (configureAll d calls) entries).2 = .ok () ↔
      Acceptable d.toLower entries) ∧
    (∀ entries, ¬Acceptable d.toLower entries →
      (ConfigurePrivateDestinationAllowlist (configureAll d calls) entries).1 =
        configureAll d calls) ∧
    (∀ hostname ip a, AddrFromSlice ip = some a → isReservedIP ip = true →
      (isBlockedDestination (configureAll d calls) hostname ip = false ↔
        ∃ entries, InForce d.toLower calls entries ∧ CoveredBy d.toLower entries hostname a)) ∧
    ∀ hostname ip ip' a a', AddrFromSlice ip = some a → AddrFromSlice ip' = some a' →
      Wide a = Wide a' → isBlockedDestination (configureAll d calls) hostname ip =
        isBlockedDestination (configureAll d calls) hostname ip' := by
  obtain ⟨override, letters, allows⟩ := configureAll_spec d calls
  refine ⟨fun entries => ?_, fun entries refused => ?_, ?_, ?_⟩
  · rw [← letters]
    rcases configure_cases (configureAll d calls) entries with
      ⟨acceptable, policy, result, -⟩ | ⟨refused, err, result⟩
    · rw [result]
      exact iff_of_true rfl acceptable
    · rw [result]
      exact iff_of_false (fun h => nomatch h) refused
  · rw [← letters] at refused
    rcases configure_cases (configureAll d calls) entries with
      ⟨acceptable, -⟩ | ⟨-, err, result⟩
    · exact absurd acceptable refused
    · rw [result]
  · intro hostname ip a slice reserved
    have none : ¬d.Allows hostname a := by
      rintro ⟨policy, configured, -⟩
      rw [fresh] at configured
      cases configured
    unfold isBlockedDestination
    rw [reserved, Bool.true_and, Bool.not_eq_false',
      isPrivateDestinationAllowed_iff (override.trans off) slice, allows, or_iff_left]
    exact fun h => none h.2
  · intro hostname ip ip' a a' slice slice' same
    unfold isBlockedDestination isReservedIP isPrivateDestinationAllowed
    rw [slice, slice', Option.map_some, Option.map_some, unmap_eq_of_wide same]

def unconfiguredDestinations : Destinations := ⟨false, none, Char.toLower⟩

def tenNetwork : List (List Char) := ["::ffff:10.0.0.0/104".toList]

theorem allowlist_correct_tenNetwork :
    isBlockedDestination (configureAll unconfiguredDestinations [tenNetwork]) "intranet".toList
        (IPv4 10 1 2 3) = false ↔
      ∃ entries, InForce Char.toLower [tenNetwork] entries ∧
        CoveredBy Char.toLower entries "intranet".toList (.v6 (.ofNat 128 (value (IPv4 10 1 2 3)))) :=
  (allowlist_correct unconfiguredDestinations rfl rfl [tenNetwork]).2.2.1 "intranet".toList
    (IPv4 10 1 2 3) _ rfl (by decide +kernel)

/-- A network of version 6 that has all addresses of version 4 and as many others. -/
theorem wide_mapped_network_refused : ¬∀ (d : Destinations) (entries : List (List Char)),
    (∀ rawEntry ∈ entries, ∃ entry, Denotes d.toLower (trimSpace rawEntry) entry) →
      (ConfigurePrivateDestinationAllowlist d entries).2 = .ok () := by
  intro accepted
  have other : ParseAddr (trimSpace "::ffff:0:0/95".toList) =
      .error "unexpected character, want colon" := by decide +kernel
  have denotes : Denotes Char.toLower (trimSpace "::ffff:0:0/95".toList)
      (.network (.v6 (.ofNat 128 (0xffff * 2 ^ 32))) 95) := .network other (by decide +kernel)
  have done := accepted unconfiguredDestinations ["::ffff:0:0/95".toList] fun rawEntry mem => by
    rw [List.mem_singleton.mp mem]
    exact ⟨_, denotes⟩
  revert done
  decide +kernel

end Memos.Outbound
