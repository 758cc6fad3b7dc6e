/-
Where the decoder of the style packs agrees with the browser.

An escape is decoded as the specification says, except for the line breaks that are not one
line feed or one carriage return: a form feed is copied, and of CR LF only the first character
goes.  In each of these cases the decoder writes one character more and is then where the
browser is, so the difference is never made up for.
-/
import Memos.StylePack.Css

namespace Memos.StylePack

open CssSyntax

/-- What follows the backslash is decoded alike. -/
structure Plain (s : List Char) : Prop where
  noFormFeed : s.head? ≠ some '\x0c'
  noReturn : ¬['\r', '\n'] <+: s
  digits : ¬∃ digits rest, s = digits ++ '\r' :: '\n' :: rest ∧ digits ≠ [] ∧ digits.length ≤ 6 ∧
    ∀ c ∈ digits, isHexDigit c = true

section Escapes

variable {s digits rest : List Char} {c : Char}

theorem rune_eq (n : Nat) : (if n = 0 ∨ n > 0x10ffff then '\ufffd' else rune n) = codePoint n := by
  unfold codePoint rune
  by_cases none : n = 0 ∨ n > 0x10ffff
  · rw [if_pos none, if_pos (none.imp_right .inr)]
  · rw [not_or] at none
    rw [if_neg (not_or.mpr none)]
    by_cases surrogate : 0xd800 ≤ n ∧ n ≤ 0xdfff
    · have invalid : ¬n.isValidChar := by
        unfold Nat.isValidChar
        omega
      rw [if_neg invalid, if_pos (.inr (.inl surrogate))]
    · have valid : n.isValidChar := by
        unfold Nat.isValidChar
        omega
      rw [if_pos valid, if_neg]
      omega

/-- The digits in front of something that is none are all of them, when they are few enough. -/
theorem escapeDigits_of_append (few : digits.length ≤ 6) (hex : ∀ c ∈ digits, isHexDigit c = true)
    (other : isHexDigit c = false) : escapeDigits (digits ++ c :: rest) = digits := by
  unfold escapeDigits
  rw [List.take_append, List.takeWhile_append_of_pos (by
    intro d mem
    exact hex d (List.mem_of_mem_take mem)), List.take_of_length_le few]
  cases 6 - digits.length with
  | zero => simp
  | succ n => rw [List.take_succ_cons, List.takeWhile_cons_of_neg (by rw [other]; decide), List.append_nil]

theorem afterBreak_return : afterBreak ('\r' :: rest) =
    some (if rest.head? = some '\n' then rest.tail else rest) := by
  rw [afterBreak, if_pos rfl]

theorem afterWhitespace_eq (noReturn : ¬['\r', '\n'] <+: s) :
    afterWhitespace s = if s.head?.any (containsRune " \t\r\n\x0c") then s.tail else s := by
  unfold afterWhitespace
  cases s with
  | nil => rfl
  | cons c rest =>
      by_cases return' : c = '\r'
      · rw [return'] at noReturn ⊢
        have single : rest.head? ≠ some '\n' := by
          intro next
          obtain ⟨more, rfl⟩ := List.head?_eq_some_iff.mp next
          exact noReturn ⟨more, rfl⟩
        rw [afterBreak_return, if_neg single]
        rfl
      · rw [afterBreak, if_neg return']
        by_cases other : c = '\n' ∨ c = '\x0c'
        · rw [if_pos other]
          rcases other with rfl | rfl
          · rfl
          · rfl
        · rw [if_neg other]
          dsimp only
          rw [not_or] at other
          by_cases blank : c = ' ' ∨ c = '\t'
          · rcases blank with rfl | rfl
            · rfl
            · rfl
          · have blank' : ¬((c :: rest).head? = some ' ' ∨ (c :: rest).head? = some '\t') := by
              simpa using blank
            rw [if_neg blank', if_neg]
            rw [not_or] at blank
            simp [containsRune, return', other, blank]

theorem cssEscape_digits (hex : isHexDigit c = true) : cssEscape (c :: rest) =
    ([codePoint (hexValue (escapeDigits (c :: rest)))],
      let after := (c :: rest).drop (escapeDigits (c :: rest)).length
      if after.head?.any (containsRune " \t\r\n\x0c") then after.tail else after) := by
  have noBreak : ¬(c = '\n' ∨ c = '\r') := by
    rintro (rfl | rfl)
    · exact absurd hex (by decide)
    · exact absurd hex (by decide)
  obtain ⟨more, digits, -⟩ := escapeDigits_cons hex rest
  have some' : escapeDigits (c :: rest) ≠ [] := by
    rw [digits]
    exact List.cons_ne_nil _ _
  unfold cssEscape
  dsimp only
  rw [if_neg noBreak]
  show (if escapeDigits (c :: rest) ≠ [] then _ else _) = _
  rw [if_pos some', rune_eq]
  rfl

theorem escape_digits (hex : isHexDigit c = true) : escape (c :: rest) =
    ([codePoint (hexValue (escapeDigits (c :: rest)))],
      afterWhitespace ((c :: rest).drop (escapeDigits (c :: rest)).length)) := by
  have noBreak : afterBreak (c :: rest) = none := by
    rw [afterBreak, if_neg, if_neg]
    · rintro (rfl | rfl)
      · exact absurd hex (by decide)
      · exact absurd hex (by decide)
    · rintro rfl
      exact absurd hex (by decide)
  unfold escape
  rw [noBreak]
  dsimp only
  rw [if_pos hex]

theorem escape_other (other : isHexDigit c = false) (noBreak : afterBreak (c :: rest) = none) :
    escape (c :: rest) = ([c], rest) := by
  unfold escape
  rw [noBreak]
  dsimp only
  rw [if_neg (by rw [other]; decide)]

theorem cssEscape_other (other : isHexDigit c = false) (noBreak : ¬(c = '\n' ∨ c = '\r')) :
    cssEscape (c :: rest) = ([c], rest) := by
  unfold cssEscape
  dsimp only
  rw [if_neg noBreak]
  have none : ((c :: rest).take 6).takeWhile (containsRune "0123456789abcdefABCDEF") = [] := by
    rw [List.take_succ_cons]
    exact List.takeWhile_cons_of_neg (by rw [show containsRune _ c = false from other]; decide)
  rw [none, if_neg (fun some' => some' rfl)]

theorem cssText_plain (other : c ≠ '\\') : cssText (c :: s) = c :: cssText s := by
  rw [cssText, if_pos other]

theorem cssText_escape : cssText ('\\' :: s) = (cssEscape s).1 ++ cssText (cssEscape s).2 := by
  rw [cssText, if_neg (fun other => other rfl)]

theorem text_plain (other : c ≠ '\\') : text (c :: s) = c :: text s := by
  rw [text, if_neg other]

theorem text_escape : text ('\\' :: s) = (escape s).1 ++ text (escape s).2 := by
  rw [text, if_pos rfl]

theorem cssEscape_eq (plain : Plain s) : cssEscape s = escape s := by
  cases s with
  | nil => rfl
  | cons c rest =>
      by_cases hex : isHexDigit c = true
      · rw [cssEscape_digits hex, escape_digits hex]
        have noReturn : ¬['\r', '\n'] <+: (c :: rest).drop (escapeDigits (c :: rest)).length := by
          rintro ⟨more, same⟩
          refine plain.digits ⟨escapeDigits (c :: rest), more, ?_, ?_, ?_, ?_⟩
          · have whole := escapeDigits_append (c :: rest)
            rw [← same] at whole
            exact whole.symm
          · obtain ⟨more, digits, -⟩ := escapeDigits_cons hex rest
            rw [digits]
            exact List.cons_ne_nil _ _
          · exact Nat.le_trans (List.takeWhile_prefix _).length_le (List.length_take_le 6 _)
          · exact fun d mem => isHexDigit_of_mem mem
        rw [afterWhitespace_eq noReturn]
      · rw [Bool.not_eq_true] at hex
        by_cases return' : c = '\r'
        · have single : rest.head? ≠ some '\n' := by
            intro next
            obtain ⟨more, rfl⟩ := List.head?_eq_some_iff.mp next
            exact plain.noReturn ⟨more, by rw [return']; rfl⟩
          rw [return', escape, afterBreak_return, if_neg single]
          rfl
        · by_cases feed : c = '\n'
          · rw [feed]
            rfl
          · have noFormFeed : c ≠ '\x0c' := by
              rintro rfl
              exact plain.noFormFeed rfl
            rw [cssEscape_other hex (not_or.mpr ⟨feed, return'⟩), escape_other hex]
            rw [afterBreak, if_neg return', if_neg (not_or.mpr ⟨feed, noFormFeed⟩)]

/-- Any other one writes a character more, and goes on at the same place. -/
theorem cssEscape_late (other : ¬Plain s) : ∃ e,
    (cssEscape s).1 ++ cssText (cssEscape s).2 = (escape s).1 ++ e :: cssText (escape s).2 := by
  by_cases feed : s.head? = some '\x0c'
  · obtain ⟨rest, rfl⟩ := List.head?_eq_some_iff.mp feed
    exact ⟨'\x0c', rfl⟩
  · by_cases return' : ['\r', '\n'] <+: s
    · obtain ⟨rest, rfl⟩ := return'
      exact ⟨'\n', cssText_plain (by decide)⟩
    · obtain ⟨digits, rest, rfl, some', few, hex⟩ : ∃ digits rest, s = digits ++ '\r' :: '\n' :: rest ∧
          digits ≠ [] ∧ digits.length ≤ 6 ∧ ∀ c ∈ digits, isHexDigit c = true := by
        by_contra none
        exact other ⟨feed, return', none⟩
      have all : escapeDigits (digits ++ '\r' :: '\n' :: rest) = digits :=
        escapeDigits_of_append few hex (by decide)
      obtain ⟨c, more, rfl⟩ := List.exists_cons_of_ne_nil some'
      rw [List.cons_append] at all ⊢
      have first : isHexDigit c = true := hex c List.mem_cons_self
      rw [cssEscape_digits first, escape_digits first, all, ← List.cons_append, List.drop_left]
      exact ⟨'\n', congrArg (_ :: ·) (cssText_plain (by decide))⟩

end Escapes

/-! ### A whole token -/

theorem length_text_le (s : List Char) : (text s).length ≤ (cssText s).length := by
  induction s using text.induct with
  | case1 =>
      refine Nat.le_of_eq ?_
      rw [text, cssText]
  | case2 s _ ih =>
      rw [text_escape, cssText_escape]
      by_cases plain : Plain s
      · rw [cssEscape_eq plain, List.length_append, List.length_append]
        omega
      · obtain ⟨e, late⟩ := cssEscape_late plain
        rw [late, List.length_append, List.length_append, List.length_cons]
        omega
  | case3 c s other ih =>
      rw [text_plain other, cssText_plain other, List.length_cons, List.length_cons]
      omega

/-- A token is decoded as by the browser exactly when no backslash in it, of those that are not
escaped themselves, is followed by a form feed, by CR LF, or by up to six digits and CR LF. -/
theorem cssText_eq_iff (s : List Char) :
    cssText s = text s ↔ ∀ rest, Escaped s rest → Plain rest := by
  induction s using text.induct with
  | case1 =>
      refine iff_of_true (by rw [text, cssText]) fun rest escaped => ?_
      cases escaped
  | case2 s _ ih =>
      rw [text_escape, cssText_escape]
      by_cases plain : Plain s
      · rw [cssEscape_eq plain, List.append_cancel_left_eq, ih]
        constructor
        · intro all rest escaped
          rcases escaped_cons.mp escaped with rfl | later
          · exact plain
          · exact all rest later
        · exact fun all rest later => all rest (escaped_cons.mpr (.inr later))
      · refine iff_of_false (fun same => ?_) fun all => plain (all s (.here s))
        obtain ⟨e, late⟩ := cssEscape_late plain
        have lengths := congrArg List.length same
        have le := length_text_le (escape s).2
        rw [late, List.length_append, List.length_append, List.length_cons] at lengths
        omega
  | case3 c s other ih =>
      rw [text_plain other, cssText_plain other, List.cons_inj_right, ih]
      constructor
      · exact fun all rest escaped => all rest ((escaped_plain other).mp escaped)
      · exact fun all rest escaped => all rest ((escaped_plain other).mpr escaped)

/-- In each of these a line break is left where the browser sees none. -/
theorem line_breaks_left :
    cssText ['\\', '\x0c'] ≠ text ['\\', '\x0c'] ∧
    cssText ['u', '\\', '\r', '\n', 'r', 'l'] ≠ text ['u', '\\', '\r', '\n', 'r', 'l'] ∧
    cssText ['\\', '7', '5', '\r', '\n', 'r', 'l'] ≠ text ['\\', '7', '5', '\r', '\n', 'r', 'l'] := by
  decide +kernel

end Memos.StylePack
