/-
Base 128 varints and base64, and that reading undoes writing.

A number is written seven bits at a time, lowest first, with the high bit of each
byte but the last set.  Bytes are written as text three at a time, each group of
three as four characters of a 64-letter alphabet, the last group padded with `=`.
Both readers here are total: a malformed input is `none`.

What a user of the library needs is the pair of round trips.  The varint one leaves
whatever follows the number in place, so that fields can be read one after another;
its fuel is the number of bytes at hand, which is always enough.
-/
import Mathlib.Data.List.Basic

namespace Wire

/-! ### Varints -/

def varint (n : Nat) : List UInt8 :=
  if n < 128 then [UInt8.ofNat n]
  else UInt8.ofNat (n % 128 + 128) :: varint (n / 128)
termination_by n

/-- Reads one varint and returns it with the bytes after it. -/
def readVarint : List UInt8 → Option (Nat × List UInt8)
  | [] => none
  | b :: rest =>
      if b.toNat < 128 then some (b.toNat, rest)
      else do
        let (high, after) ← readVarint rest
        return (b.toNat - 128 + 128 * high, after)

theorem readVarint_varint (n : Nat) (after : List UInt8) :
    readVarint (varint n ++ after) = some (n, after) := by
  induction n using Nat.strongRecOn with
  | ind n ih =>
      rw [varint]
      by_cases small : n < 128
      · rw [if_pos small]
        have low : (UInt8.ofNat n).toNat = n := by rw [UInt8.toNat_ofNat']; omega
        simp [readVarint, low, small]
      · rw [if_neg small]
        have low : (UInt8.ofNat (n % 128 + 128)).toNat = n % 128 + 128 := by
          rw [UInt8.toNat_ofNat']; omega
        have high := ih (n / 128) (by omega)
        simp only [List.cons_append, readVarint, low, high]
        rw [if_neg (by omega)]
        simp only [Option.bind_eq_bind, Option.bind_some, Option.pure_def, Option.some.injEq,
          Prod.mk.injEq, and_true]
        omega

theorem varint_ne_nil (n : Nat) : varint n ≠ [] := by
  rw [varint]
  by_cases small : n < 128
  · rw [if_pos small]; simp
  · rw [if_neg small]; simp

/-! ### Base64

A sextet is a number below 64.  The alphabet is written as arithmetic on code points,
which keeps the round trip of one character a matter of inequalities.
-/

/-- The letter of a sextet: `A`–`Z`, `a`–`z`, `0`–`9`, `+`, `/`. -/
def letter (v : Nat) : Char :=
  if v < 26 then Char.ofNat (v + 65)
  else if v < 52 then Char.ofNat (v + 71)
  else if v < 62 then Char.ofNat (v - 4)
  else if v < 63 then '+'
  else '/'

/-- The sextet of a letter, and nothing for a character outside the alphabet. -/
def sextet (c : Char) : Option Nat :=
  if 65 ≤ c.toNat ∧ c.toNat ≤ 90 then some (c.toNat - 65)
  else if 97 ≤ c.toNat ∧ c.toNat ≤ 122 then some (c.toNat - 71)
  else if 48 ≤ c.toNat ∧ c.toNat ≤ 57 then some (c.toNat + 4)
  else if c = '+' then some 62
  else if c = '/' then some 63
  else none

theorem sextet_letter : ∀ v : Fin 64, sextet (letter v) = some v.val := by decide

theorem letter_ne_pad : ∀ v : Fin 64, letter v ≠ '=' := by decide

/-- Four characters for each group of three bytes. -/
def encode : List UInt8 → List Char
  | [] => []
  | [a] => [letter (a.toNat / 4), letter (a.toNat % 4 * 16), '=', '=']
  | [a, b] =>
      [letter (a.toNat / 4), letter (a.toNat % 4 * 16 + b.toNat / 16),
        letter (b.toNat % 16 * 4), '=']
  | a :: b :: c :: rest =>
      letter (a.toNat / 4) :: letter (a.toNat % 4 * 16 + b.toNat / 16)
        :: letter (b.toNat % 16 * 4 + c.toNat / 64) :: letter (c.toNat % 64) :: encode rest

/-- The bytes of a base64 text; padding is read in the last group only. -/
def decode : List Char → Option (List UInt8)
  | [] => some []
  | w :: x :: y :: z :: rest => do
      let first ← sextet w
      let second ← sextet x
      let a := UInt8.ofNat (first * 4 + second / 16)
      if y = '=' then
        if z = '=' ∧ rest = [] then return [a] else none
      else
        let third ← sextet y
        let b := UInt8.ofNat (second % 16 * 16 + third / 4)
        if z = '=' then
          if rest = [] then return [a, b] else none
        else
          let fourth ← sextet z
          let c := UInt8.ofNat (third % 4 * 64 + fourth)
          let others ← decode rest
          return a :: b :: c :: others
  | _ => none

private theorem sextet_letter_of_lt {v : Nat} (hv : v < 64) : sextet (letter v) = some v :=
  sextet_letter ⟨v, hv⟩

private theorem letter_ne_pad_of_lt {v : Nat} (hv : v < 64) : letter v ≠ '=' :=
  letter_ne_pad ⟨v, hv⟩

private theorem byte_eq {x : UInt8} {n : Nat} (h : n = x.toNat) : UInt8.ofNat n = x := by
  rw [h, UInt8.ofNat_toNat]

theorem decode_encode (bytes : List UInt8) : decode (encode bytes) = some bytes := by
  induction bytes using encode.induct with
  | case1 => rfl
  | case2 a =>
      have ha := a.toNat_lt
      have first := sextet_letter_of_lt (v := a.toNat / 4) (by omega)
      have second := sextet_letter_of_lt (v := a.toNat % 4 * 16) (by omega)
      simp only [encode, decode, first, second, Option.bind_eq_bind, Option.bind_some, if_true,
        and_self, Option.pure_def]
      rw [byte_eq (x := a) (by omega)]
  | case3 a b =>
      have ha := a.toNat_lt
      have hb := b.toNat_lt
      have first := sextet_letter_of_lt (v := a.toNat / 4) (by omega)
      have second := sextet_letter_of_lt (v := a.toNat % 4 * 16 + b.toNat / 16) (by omega)
      have third := sextet_letter_of_lt (v := b.toNat % 16 * 4) (by omega)
      have unpadded := letter_ne_pad_of_lt (v := b.toNat % 16 * 4) (by omega)
      simp only [encode, decode, first, second, third, unpadded, Option.bind_eq_bind,
        Option.bind_some, if_true, if_false, Option.pure_def]
      rw [byte_eq (x := a) (by omega), byte_eq (x := b) (by omega)]
  | case4 a b c rest ih =>
      have ha := a.toNat_lt
      have hb := b.toNat_lt
      have hc := c.toNat_lt
      have first := sextet_letter_of_lt (v := a.toNat / 4) (by omega)
      have second := sextet_letter_of_lt (v := a.toNat % 4 * 16 + b.toNat / 16) (by omega)
      have third := sextet_letter_of_lt (v := b.toNat % 16 * 4 + c.toNat / 64) (by omega)
      have fourth := sextet_letter_of_lt (v := c.toNat % 64) (by omega)
      have unpadded := letter_ne_pad_of_lt (v := b.toNat % 16 * 4 + c.toNat / 64) (by omega)
      have unpadded' := letter_ne_pad_of_lt (v := c.toNat % 64) (by omega)
      simp only [encode, decode, first, second, third, fourth, unpadded, unpadded', ih,
        Option.bind_eq_bind, Option.bind_some, if_false, Option.pure_def]
      rw [byte_eq (x := a) (by omega), byte_eq (x := b) (by omega), byte_eq (x := c) (by omega)]

theorem encode_eq_nil {bytes : List UInt8} : encode bytes = [] ↔ bytes = [] := by
  cases bytes using encode.fun_cases <;> simp [encode]

end Wire
