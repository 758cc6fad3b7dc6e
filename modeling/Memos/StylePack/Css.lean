/-
The text of a token of a style pack.

Before a decision is made about a token its escapes are decoded.  The decoder goes through the
bytes of the token; a byte that belongs to a character outside ASCII is copied like any other,
so the token is taken here as its characters.
-/
import Memos.Lib.CssSyntax

namespace Memos.StylePack

def containsRune (set : String) (r : Char) : Bool := set.toList.contains r

/-- `WriteRune`, which writes the replacement character for what is no character. -/
def rune (n : Nat) : Char := if n.isValidChar then Char.ofNat n else '\ufffd'

/-- What is written for an escape, and where the loop goes on, from behind the backslash. -/
def cssEscape : List Char → List Char × List Char
  | [] => ([], [])
  | c :: rest =>
      if c = '\n' ∨ c = '\r' then ([], rest)
      else
        let digits := ((c :: rest).take 6).takeWhile (containsRune "0123456789abcdefABCDEF")
        if digits ≠ [] then
          let n := CssSyntax.hexValue digits
          let after := (c :: rest).drop digits.length
          ([if n = 0 ∨ n > 0x10ffff then '\ufffd' else rune n],
            if after.head?.any (containsRune " \t\r\n\x0c") then after.tail else after)
        else ([c], rest)

theorem length_ite_tail_le {p : Prop} [Decidable p] (l : List Char) :
    (if p then l.tail else l).length ≤ l.length := by
  split
  · rw [List.length_tail]
    exact Nat.sub_le _ _
  · exact Nat.le_refl _

theorem length_cssEscape_le (s : List Char) : (cssEscape s).2.length ≤ s.length := by
  unfold cssEscape
  split
  · exact Nat.le_refl _
  · split
    · exact Nat.le_succ _
    · dsimp only
      split
      · refine Nat.le_trans (length_ite_tail_le _) ?_
        rw [List.length_drop]
        exact Nat.sub_le _ _
      · exact Nat.le_succ _

def cssText : List Char → List Char
  | [] => []
  | c :: s =>
      if c ≠ '\\' then c :: cssText s
      else
        have := length_cssEscape_le s
        (cssEscape s).1 ++ cssText (cssEscape s).2
termination_by s => s.length

end Memos.StylePack
