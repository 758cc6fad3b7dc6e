/-
The ids in resource names.
-/
import Mathlib.Tactic.Common

namespace Memos.Base

def isAlphanumeric (c : Char) : Bool :=
  ('a' ≤ c && c ≤ 'z') || ('A' ≤ c && c ≤ 'Z') || ('0' ≤ c && c ≤ '9')

/-- `UIDMatcher`: letters, digits and inner dashes, at most thirty-six of them. -/
def UIDMatcher : List Char → Bool
  | [] => false
  | first :: rest =>
      isAlphanumeric first &&
        match rest.reverse with
        | [] => true
        | last :: middle =>
            isAlphanumeric last && decide (middle.length ≤ 34)
              && middle.all fun c => isAlphanumeric c || c == '-'

end Memos.Base

/-
The format of user names.

The server checks the bytes of a name and the web client its code units; a character is the
number of either.
-/

namespace Memos.Base

/-- The maximum number of ASCII characters in a writable username. -/
def MaxUsernameLength : Nat := 36

def isASCIILetter (char : Nat) : Bool :=
  'A'.toNat ≤ char && char ≤ 'Z'.toNat || 'a'.toNat ≤ char && char ≤ 'z'.toNat

def isASCIIDigit (char : Nat) : Bool := '0'.toNat ≤ char && char ≤ '9'.toNat

def isASCIIAlphanumeric (char : Nat) : Bool := isASCIILetter char || isASCIIDigit char

def IsUsernameCharacter (char : Nat) : Bool := isASCIIAlphanumeric char || char = '-'.toNat

def IsValidUsername (username : List Nat) : Bool :=
  !(username.length = 0 || MaxUsernameLength < username.length
      || !username.head?.any isASCIIAlphanumeric || !username.getLast?.any isASCIIAlphanumeric)
    && username.all IsUsernameCharacter

/-- ASCII characters other than letters, digits, white space and controls. -/
def ASCIIPunctuation (char : Nat) : Prop :=
  '!'.toNat ≤ char ∧ char ≤ '~'.toNat ∧ isASCIIAlphanumeric char = false

instance (char : Nat) : Decidable (ASCIIPunctuation char) := inferInstanceAs (Decidable (_ ∧ _ ∧ _))

/-- What a user name is: letters, digits and hyphens, not too many, no hyphen at an end. -/
structure Username (name : List Nat) : Prop where
  some : name ≠ []
  short : name.length ≤ MaxUsernameLength
  characters : ∀ c ∈ name, IsUsernameCharacter c = true
  first : ∀ c ∈ name.head?, isASCIIAlphanumeric c = true
  last : ∀ c ∈ name.getLast?, isASCIIAlphanumeric c = true

theorem isValidUsername_iff {name : List Nat} : IsValidUsername name = true ↔ Username name := by
  cases name with
  | nil => exact ⟨fun valid => absurd valid (by decide), fun name => absurd rfl name.some⟩
  | cons c rest =>
      obtain ⟨d, last⟩ : ∃ d, (c :: rest).getLast? = some d :=
        ⟨_, List.getLast?_eq_some_getLast (List.cons_ne_nil c rest)⟩
      unfold IsValidUsername
      rw [last]
      simp only [List.head?_cons, Option.any_some, Bool.and_eq_true, Bool.not_eq_true',
        Bool.or_eq_false_iff, decide_eq_false_iff_not, List.length_cons, Nat.not_lt, Bool.not_eq_false',
        List.all_eq_true]
      constructor
      · rintro ⟨⟨⟨⟨-, short⟩, first⟩, final⟩, all⟩
        refine ⟨List.cons_ne_nil c rest, short, all, ?_, ?_⟩
        · rintro e ⟨⟩
          exact first
        · rintro e mem
          rw [last] at mem
          cases mem
          exact final
      · intro name
        exact ⟨⟨⟨⟨Nat.succ_ne_zero _, name.short⟩, name.first c rfl⟩, name.last d last⟩, name.characters⟩

theorem lt_of_isUsernameCharacter {char : Nat} (is : IsUsernameCharacter char = true) : char < 128 := by
  unfold IsUsernameCharacter isASCIIAlphanumeric isASCIILetter isASCIIDigit at is
  simp at is
  omega

end Memos.Base
