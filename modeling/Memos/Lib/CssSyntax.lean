/-
Escapes in the tokens of a style sheet.

A backslash begins an escape, unless it is part of one itself.  Before a line break it takes
the break away, before a hexadecimal digit it takes up to six of them and one white space, and
before any other character it stands for that.  CR LF is one line break and one white space.
-/
import Mathlib.Data.List.Basic

namespace CssSyntax

def isHexDigit (c : Char) : Bool := "0123456789abcdefABCDEF".toList.contains c

def digitValue (c : Char) : Nat :=
  if c.toNat ≤ '9'.toNat then c.toNat - '0'.toNat
  else if c.toNat ≤ 'F'.toNat then c.toNat - 'A'.toNat + 10
  else c.toNat - 'a'.toNat + 10

def hexValue (digits : List Char) : Nat := digits.foldl (fun n c => 16 * n + digitValue c) 0

/-- The replacement character for zero, for a surrogate and for what is too large. -/
def codePoint (n : Nat) : Char :=
  if n = 0 ∨ (0xd800 ≤ n ∧ n ≤ 0xdfff) ∨ 0x10ffff < n then '\ufffd' else Char.ofNat n

/-- What is left after a line break, if there is one. -/
def afterBreak : List Char → Option (List Char)
  | [] => none
  | c :: rest =>
      if c = '\r' then some (if rest.head? = some '\n' then rest.tail else rest)
      else if c = '\n' ∨ c = '\x0c' then some rest
      else none

/-- What is left after one white space, which need not be there. -/
def afterWhitespace (s : List Char) : List Char :=
  match afterBreak s with
  | some rest => rest
  | none => if s.head? = some ' ' ∨ s.head? = some '\t' then s.tail else s

/-- The digits of an escape, of which there are at most six. -/
def escapeDigits (s : List Char) : List Char := (s.take 6).takeWhile isHexDigit

/-- What an escape stands for and what is left after it, from behind the backslash. -/
def escape (s : List Char) : List Char × List Char :=
  match afterBreak s with
  | some rest => ([], rest)
  | none =>
      match s with
      | [] => ([], [])
      | d :: rest =>
          if isHexDigit d then
            ([codePoint (hexValue (escapeDigits s))], afterWhitespace (s.drop (escapeDigits s).length))
          else ([d], rest)

section Rest

variable {s rest : List Char} {c : Char}

theorem afterBreak_spec (found : afterBreak s = some rest) :
    ∃ c, c ≠ '\\' ∧ (s = c :: rest ∨ s = c :: '\n' :: rest) := by
  cases s with
  | nil => cases found
  | cons c s =>
      rw [afterBreak] at found
      split at found
      next return' =>
        refine ⟨c, by rw [return']; decide, ?_⟩
        injection found with found
        split at found
        next next' =>
          obtain ⟨more, same⟩ := List.head?_eq_some_iff.mp next'
          rw [same, List.tail_cons] at found
          rw [same, found]
          exact .inr rfl
        · rw [found]
          exact .inl rfl
      · split at found
        next break' =>
          injection found with found
          refine ⟨c, ?_, .inl (by rw [found])⟩
          rcases break' with rfl | rfl
          · decide
          · decide
        · cases found

theorem afterWhitespace_spec (s : List Char) :
    ∃ white, s = white ++ afterWhitespace s ∧ '\\' ∉ white := by
  unfold afterWhitespace
  split
  next rest found =>
    obtain ⟨c, other, rfl | rfl⟩ := afterBreak_spec found
    · exact ⟨[c], rfl, by simp [other.symm]⟩
    · exact ⟨[c, '\n'], rfl, by simp [other.symm]⟩
  · split
    next white =>
      rcases white with white | white
      · obtain ⟨more, rfl⟩ := List.head?_eq_some_iff.mp white
        exact ⟨[' '], rfl, by decide⟩
      · obtain ⟨more, rfl⟩ := List.head?_eq_some_iff.mp white
        exact ⟨['\t'], rfl, by decide⟩
    · exact ⟨[], rfl, List.not_mem_nil⟩

theorem isHexDigit_of_mem (mem : c ∈ escapeDigits s) : isHexDigit c = true :=
  List.all_eq_true.mp List.all_takeWhile c mem

theorem escapeDigits_append (s : List Char) :
    escapeDigits s ++ s.drop (escapeDigits s).length = s :=
  List.prefix_iff_eq_append.mp ((List.takeWhile_prefix _).trans (List.take_prefix 6 s))

theorem escapeDigits_cons (hex : isHexDigit c = true) (s : List Char) :
    ∃ more, escapeDigits (c :: s) = c :: more ∧ '\\' ∉ more := by
  refine ⟨(s.take 5).takeWhile isHexDigit, ?_, fun mem => ?_⟩
  · rw [escapeDigits, List.take_succ_cons, List.takeWhile_cons_of_pos hex]
  · have backslash := List.all_eq_true.mp List.all_takeWhile _ mem
    exact absurd backslash (by decide)

/-- An escape takes the first character behind the backslash, and after it no backslash. -/
theorem escape_spec (s : List Char) : ∃ taken, s.tail = taken ++ (escape s).2 ∧ '\\' ∉ taken := by
  unfold escape
  split
  next rest found =>
    obtain ⟨c, -, rfl | rfl⟩ := afterBreak_spec found
    · exact ⟨[], rfl, List.not_mem_nil⟩
    · exact ⟨['\n'], rfl, by decide⟩
  · split
    · exact ⟨[], rfl, List.not_mem_nil⟩
    next d rest _ =>
      split
      next hex =>
        obtain ⟨more, digits, free⟩ := escapeDigits_cons hex rest
        have whole := escapeDigits_append (d :: rest)
        obtain ⟨white, same, free'⟩ := afterWhitespace_spec ((d :: rest).drop (escapeDigits (d :: rest)).length)
        refine ⟨more ++ white, ?_, ?_⟩
        · rw [List.append_assoc]
          dsimp only
          rw [← same]
          rw [digits] at whole ⊢
          exact (List.cons.inj whole).2.symm
        · rw [List.mem_append, not_or]
          exact ⟨free, free'⟩
      · exact ⟨[], rfl, List.not_mem_nil⟩

theorem length_escape_le (s : List Char) : (escape s).2.length ≤ s.length := by
  obtain ⟨taken, same, -⟩ := escape_spec s
  have sum := congrArg List.length same
  rw [List.length_tail, List.length_append] at sum
  omega

end Rest

def text : List Char → List Char
  | [] => []
  | c :: s =>
      if c = '\\' then
        have := length_escape_le s
        (escape s).1 ++ text (escape s).2
      else c :: text s
termination_by s => s.length

/-- A backslash that is not escaped itself, and what follows it. -/
inductive Escaped : List Char → List Char → Prop
  | here (s : List Char) : Escaped ('\\' :: s) s
  | plain {c : Char} {s rest : List Char} (other : c ≠ '\\') (later : Escaped s rest) :
      Escaped (c :: s) rest
  | skip {c : Char} {s rest : List Char} (later : Escaped s rest) : Escaped ('\\' :: c :: s) rest

theorem escaped_plain {c : Char} {s rest : List Char} (other : c ≠ '\\') :
    Escaped (c :: s) rest ↔ Escaped s rest := by
  constructor
  · intro h
    cases h with
    | here => exact absurd rfl other
    | plain _ later => exact later
    | skip => exact absurd rfl other
  · exact .plain other

theorem escaped_append {taken s rest : List Char} (free : '\\' ∉ taken) :
    Escaped (taken ++ s) rest ↔ Escaped s rest := by
  induction taken with
  | nil => exact Iff.rfl
  | cons c taken ih =>
      rw [List.mem_cons, not_or] at free
      rw [List.cons_append, escaped_plain (Ne.symm free.1), ih free.2]

/-- The backslashes of a text that begins with an escape: the first one, and those after it. -/
theorem escaped_cons {s rest : List Char} :
    Escaped ('\\' :: s) rest ↔ rest = s ∨ Escaped (escape s).2 rest := by
  obtain ⟨taken, same, free⟩ := escape_spec s
  rw [← @escaped_append taken (escape s).2 rest free, ← same]
  constructor
  · intro h
    cases h with
    | here => exact .inl rfl
    | plain other => exact absurd rfl other
    | skip later => exact .inr later
  · rintro (rfl | later)
    · exact .here _
    · cases s with
      | nil => cases later
      | cons c s => exact .skip later

end CssSyntax
