/-
Escaping bytes by percent signs.

The bytes of one kind are kept, and any other is written as a percent sign and its two
hexadecimal digits.  When the percent sign is not kept itself, the bytes are read back as
they were, and a byte that is neither kept nor a percent sign nor a digit does not occur.
-/
import Mathlib.Tactic.Common

namespace Percent

def hexDigit (n : Nat) : UInt8 := UInt8.ofNat (if n < 10 then 0x30 + n else 0x37 + n)

def hexValue (b : UInt8) : Option Nat :=
  let n := b.toNat
  if 0x30 ≤ n ∧ n ≤ 0x39 then some (n - 0x30)
  else if 0x41 ≤ n ∧ n ≤ 0x46 then some (n - 0x37)
  else if 0x61 ≤ n ∧ n ≤ 0x66 then some (n - 0x57)
  else none

def escapeByte (keep : UInt8 → Bool) (b : UInt8) : List UInt8 :=
  if keep b then [b] else [0x25, hexDigit (b.toNat / 16), hexDigit (b.toNat % 16)]

def escape (keep : UInt8 → Bool) (s : List UInt8) : List UInt8 := s.flatMap (escapeByte keep)

/-- None for a percent sign without its two digits. -/
def unescape : List UInt8 → Option (List UInt8)
  | [] => some []
  | b :: s =>
    if b = 0x25 then
      match s with
      | high :: low :: s =>
        match hexValue high, hexValue low with
        | some h, some l => (unescape s).map (UInt8.ofNat (16 * h + l) :: ·)
        | _, _ => none
      | _ => none
    else (unescape s).map (b :: ·)

variable {keep : UInt8 → Bool} {b : UInt8} {s : List UInt8}

theorem hexValue_hexDigit : ∀ n < 16, hexValue (hexDigit n) = some n := by decide

theorem unescape_plain (other : b ≠ 0x25) : unescape (b :: s) = (unescape s).map (b :: ·) := by
  rw [unescape.eq_def]
  exact if_neg other

theorem unescape_percent {high low : UInt8} {h l : Nat} (upper : hexValue high = some h)
    (lower : hexValue low = some l) :
    unescape (0x25 :: high :: low :: s) = (unescape s).map (UInt8.ofNat (16 * h + l) :: ·) := by
  rw [unescape.eq_def]
  dsimp only
  rw [if_pos rfl, upper, lower]

theorem unescape_escapeByte (percent : keep 0x25 = false) (b : UInt8) (s : List UInt8) :
    unescape (escapeByte keep b ++ s) = (unescape s).map (b :: ·) := by
  unfold escapeByte
  split_ifs with kept
  · have other : b ≠ 0x25 := by
      intro same
      rw [same, percent] at kept
      cases kept
    exact unescape_plain other
  · have lt := b.toNat_lt
    have digits : 16 * (b.toNat / 16) + b.toNat % 16 = b.toNat := Nat.div_add_mod _ _
    have read := @unescape_percent s _ _ _ _ (hexValue_hexDigit (b.toNat / 16) (by omega))
      (hexValue_hexDigit (b.toNat % 16) (by omega))
    rw [digits, UInt8.ofNat_toNat] at read
    exact read

theorem unescape_escape (percent : keep 0x25 = false) (s : List UInt8) :
    unescape (escape keep s) = some s := by
  induction s with
  | nil => rfl
  | cons b s ih =>
      rw [escape, List.flatMap_cons, unescape_escapeByte percent, ← escape, ih]
      rfl

theorem hexDigit_range : ∀ n < 16, (0x30 ≤ hexDigit n ∧ hexDigit n ≤ 0x39) ∨
    (0x41 ≤ hexDigit n ∧ hexDigit n ≤ 0x46) := by decide

/-- What an escaped text is made of. -/
theorem mem_escape (mem : b ∈ escape keep s) :
    keep b = true ∨ b = 0x25 ∨ (0x30 ≤ b ∧ b ≤ 0x39) ∨ (0x41 ≤ b ∧ b ≤ 0x46) := by
  obtain ⟨a, -, here⟩ := List.mem_flatMap.mp mem
  have lt := a.toNat_lt
  unfold escapeByte at here
  split_ifs at here with kept
  · rw [List.mem_singleton] at here
    exact .inl (here ▸ kept)
  · right
    rw [List.mem_cons, List.mem_cons, List.mem_singleton] at here
    obtain rfl | rfl | rfl := here
    · exact .inl rfl
    · exact .inr (hexDigit_range _ (by omega))
    · exact .inr (hexDigit_range _ (by omega))

end Percent
