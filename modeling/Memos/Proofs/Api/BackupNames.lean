/-
The paths of a backup.

A path is read as its components, the names between the slashes.  What `backupComponent`
leaves of a name is one component: it has no slash, it is not empty, and it does not start
with a dot, so no path leaves the directory the archive is unpacked in.

The components of a path say which memo or attachment it is for, as far as
`backupComponent` keeps names apart.  The name of an attachment's file has its own uid, its
id and its filename with hyphens between; two of them are the same only where one uid goes on
with a hyphen and the id of the other.
-/
import Memos.Api.Backup

namespace Memos.Api.Backup

open Store Access

/-! ### Components -/

def components (path : String) : List (List Char) := path.toList.splitOn '/'

def Harmless (r : Char) : Prop := isControl r = false ∧ r ≠ '/' ∧ r ≠ '\\' ∧ r ≠ ':'

instance (r : Char) : Decidable (Harmless r) := inferInstanceAs (Decidable (_ ∧ _))

/-- A name of something in a directory.  It starts with no dot, so that it names neither the
directory itself nor the one above. -/
structure PlainName (name : List Char) : Prop where
  nonempty : name ≠ []
  harmless : ∀ r ∈ name, Harmless r
  visible : name.head? ≠ some '.'

theorem harmless_of_all {name : List Char} (all : (name.all fun r => decide (Harmless r)) = true) :
    ∀ r ∈ name, Harmless r := fun r h => of_decide_eq_true (List.all_eq_true.mp all r h)

theorem PlainName.of_all {name : List Char} (nonempty : name ≠ [])
    (all : (name.all fun r => decide (Harmless r)) = true) (visible : name.head? ≠ some '.') :
    PlainName name := ⟨nonempty, harmless_of_all all, visible⟩

/-- A path to something below the directory it is read in. -/
def Relative (path : String) : Prop := ∀ name ∈ components path, PlainName name

theorem PlainName.append {name rest : List Char} (plain : PlainName name)
    (harmless : ∀ r ∈ rest, Harmless r) : PlainName (name ++ rest) where
  nonempty := List.append_ne_nil_of_left_ne_nil plain.nonempty _
  harmless r h := (List.mem_append.mp h).elim (plain.harmless r) (harmless r)
  visible := by
    obtain ⟨c, more, rfl⟩ := List.exists_cons_of_ne_nil plain.nonempty
    exact plain.visible

theorem PlainName.slash {name : List Char} (plain : PlainName name) : '/' ∉ name :=
  fun h => (plain.harmless _ h).2.1 rfl

theorem components_of_join {path : String} {names : List (List Char)}
    (joined : path.toList = ['/'].intercalate names) (plain : ∀ name ∈ names, PlainName name)
    (some : names ≠ []) : components path = names := by
  unfold components
  rw [joined]
  exact List.splitOn_intercalate '/' (fun name h => (plain name h).slash) some

theorem eq_of_append_separator {sep : Char} {x y rest rest' : List Char} (hx : sep ∉ x) (hy : sep ∉ y)
    (same : x ++ sep :: rest = y ++ sep :: rest') : x = y := by
  have heads := congrArg (List.splitOn sep) same
  rw [List.splitOn_append_cons_self_of_not_mem hx, List.splitOn_append_cons_self_of_not_mem hy] at heads
  exact (List.cons.inj heads).1

/-! ### What is left of a name -/

theorem mem_replaceDots {r : Char} (value : List Char) (h : r ∈ replaceDots value) :
    r = '_' ∨ r ∈ value := by
  fun_induction replaceDots value with
  | case1 rest ih =>
      rcases List.mem_cons.mp h with here | later
      · exact .inl here
      · exact (ih later).imp_right fun h => .tail _ (.tail _ h)
  | case2 c rest _ ih =>
      rcases List.mem_cons.mp h with rfl | later
      · exact .inr (.head _)
      · exact (ih later).imp_right (.tail _)
  | case3 => exact .inr h

theorem trimDots_start (value : List Char) :
    trimDots value <+: value.dropWhile fun r => r == '.' || r == ' ' := by
  unfold trimDots
  rw [← List.reverse_suffix, List.reverse_reverse]
  exact List.dropWhile_suffix _

theorem mem_trimDots {r : Char} {value : List Char} (h : r ∈ trimDots value) : r ∈ value :=
  (List.dropWhile_suffix _).subset ((trimDots_start value).subset h)

theorem trimDots_visible (value : List Char) (n : Nat) :
    ((trimDots value).take n).head? ≠ some '.' := by
  intro dot
  have before : (trimDots value).take n <+: value.dropWhile fun r => r == '.' || r == ' ' :=
    (List.take_prefix n _).trans (trimDots_start value)
  obtain ⟨rest, split⟩ := before
  have first := List.head?_dropWhile_not (fun r => r == '.' || r == ' ') value
  rw [← split, List.head?_append, dot, Option.some_or] at first
  exact absurd first (by decide)

theorem backupComponent_plain (value : String) : PlainName (backupComponent value).toList where
  nonempty := by
    unfold backupComponent
    dsimp only
    split
    · decide
    · rw [String.toList_ofList]
      assumption
  harmless r := by
    unfold backupComponent
    dsimp only
    split
    · exact harmless_of_all (by decide) r
    · rw [String.toList_ofList]
      intro h
      rcases mem_replaceDots _ (mem_trimDots (List.mem_of_mem_take h)) with rfl | h
      · decide
      · obtain ⟨c, -, rfl⟩ := List.mem_map.mp h
        split
        · decide
        · rename_i kept
          simpa [Harmless, not_or, and_assoc] using kept
  visible := by
    unfold backupComponent
    dsimp only
    split
    · decide
    · rw [String.toList_ofList]
      exact trimDots_visible _ _

/-! ### Numerals -/

theorem harmless_of_isDigit {r : Char} (digit : r.isDigit = true) : Harmless r := by
  have above : 48 ≤ r.toNat ∧ r.toNat ≤ 57 := by
    simpa [Char.isDigit, UInt32.le_iff_toNat_le] using digit
  refine ⟨?_, ?_, ?_, ?_⟩
  · simp only [isControl, Bool.or_eq_false_iff, Bool.and_eq_false_iff, decide_eq_false_iff_not]
    omega
  all_goals
    rintro rfl
    revert above
    decide

theorem plain_of_digits {digits : List Char} (some : digits ≠ [])
    (all : ∀ r ∈ digits, r.isDigit = true) : PlainName digits where
  nonempty := some
  harmless r h := harmless_of_isDigit (all r h)
  visible h := absurd (all _ (List.mem_of_head? h)) (by decide)

theorem digits_toDigits (n : Nat) : ∀ r ∈ Nat.toDigits 10 n, r.isDigit = true :=
  fun _ h => Nat.isDigit_of_mem_toDigits (by decide) (by decide) h

theorem toDigits_inj {n m : Nat} (same : Nat.toDigits 10 n = Nat.toDigits 10 m) : n = m := by
  rw [← Nat.ofDigitChars_ten_toDigits (n := n), same, Nat.ofDigitChars_ten_toDigits]

theorem toList_toString_nat (n : Nat) : (toString n).toList = Nat.toDigits 10 n := Nat.toList_repr

theorem plain_toString_nat (n : Nat) : PlainName (toString n).toList := by
  rw [toList_toString_nat]
  exact plain_of_digits Nat.toDigits_ne_nil (digits_toDigits n)

theorem toList_toString_int (n : Nat) : (toString (n : Int)).toList = Nat.toDigits 10 n :=
  Nat.toList_repr

theorem harmless_toString_int (i : Int) : ∀ r ∈ (toString i).toList, Harmless r := by
  cases i with
  | ofNat n =>
      intro r h
      rw [Int.ofNat_eq_natCast, toList_toString_int] at h
      exact harmless_of_isDigit (digits_toDigits n r h)
  | negSucc n =>
      intro r h
      rw [show toString (Int.negSucc n) = "-" ++ Nat.repr (n + 1) from rfl, String.toList_append,
        Nat.repr_eq_ofList_toDigits] at h
      rcases List.mem_append.mp h with sign | digit
      · rw [List.mem_singleton.mp sign]
        decide
      · rw [String.toList_ofList] at digit
        exact harmless_of_isDigit (digits_toDigits _ r digit)

theorem plain_zeroPad (width n : Nat) : PlainName (zeroPad width n).toList := by
  unfold zeroPad
  rw [String.toList_ofList]
  refine plain_of_digits (List.append_ne_nil_of_right_ne_nil _ Nat.toDigits_ne_nil) fun r h => ?_
  rcases List.mem_append.mp h with zero | digit
  · rw [List.eq_of_mem_replicate zero]
    decide
  · exact digits_toDigits n r digit

/-! ### Paths -/

def attachmentName (a : AttachmentRow) : List Char :=
  (backupComponent a.uid).toList ++ '-' :: ((toString a.id).toList
    ++ '-' :: (backupComponent a.filename).toList)

theorem plain_attachmentName (a : AttachmentRow) : PlainName (attachmentName a) := by
  refine (backupComponent_plain a.uid).append fun r h => ?_
  simp only [List.mem_cons, List.mem_append] at h
  obtain rfl | digit | rfl | file := h
  · decide
  · exact harmless_toString_int a.id r digit
  · decide
  · exact (backupComponent_plain a.filename).harmless r file

def attachmentComponents (memo : MemoRow) (a : AttachmentRow) : List (List Char) :=
  ["attachments".toList, (backupComponent memo.uid).toList, attachmentName a]

theorem plain_attachmentComponents (memo : MemoRow) (a : AttachmentRow) :
    ∀ name ∈ attachmentComponents memo a, PlainName name := by
  unfold attachmentComponents
  simp only [List.forall_mem_cons]
  exact ⟨.of_all (by decide) (by decide) (by decide), backupComponent_plain memo.uid,
    plain_attachmentName a, List.forall_mem_nil _⟩

theorem toList_attachmentPath (memo : MemoRow) (a : AttachmentRow) :
    (attachmentPath memo a).toList = ['/'].intercalate (attachmentComponents memo a) := by
  unfold attachmentPath attachmentComponents attachmentName
  simp only [String.toList_append, List.intercalate]
  simp

theorem components_attachmentPath (memo : MemoRow) (a : AttachmentRow) :
    components (attachmentPath memo a) = attachmentComponents memo a :=
  components_of_join (toList_attachmentPath memo a) (plain_attachmentComponents memo a) nofun

def memoComponents (memo : MemoRow) : Option String → List (List Char)
  | none =>
      let (year, month) := civilMonth (memo.createdTs / 86400)
      ["memos".toList, ((if year < 0 then "-" else "") ++ zeroPad 4 year.natAbs).toList,
        (zeroPad 2 month).toList, (backupComponent memo.uid ++ ".md").toList]
  | some parent =>
      ["comments".toList, (backupComponent parent).toList, (backupComponent memo.uid ++ ".md").toList]

theorem plain_memoFile (memo : MemoRow) : PlainName (backupComponent memo.uid ++ ".md").toList := by
  rw [String.toList_append]
  exact (backupComponent_plain memo.uid).append (harmless_of_all (by decide))

theorem plain_year (year : Int) :
    PlainName ((if year < 0 then "-" else "") ++ zeroPad 4 year.natAbs).toList := by
  rw [String.toList_append]
  split
  · have sign : PlainName "-".toList := .of_all (by decide) (by decide) (by decide)
    exact sign.append (plain_zeroPad 4 _).harmless
  · exact plain_zeroPad 4 _

theorem plain_memoComponents (memo : MemoRow) (parent : Option String) :
    ∀ name ∈ memoComponents memo parent, PlainName name := by
  cases parent with
  | none =>
      unfold memoComponents
      simp only [List.forall_mem_cons]
      exact ⟨.of_all (by decide) (by decide) (by decide), plain_year _, plain_zeroPad 2 _,
        plain_memoFile memo, List.forall_mem_nil _⟩
  | some parent =>
      unfold memoComponents
      simp only [List.forall_mem_cons]
      exact ⟨.of_all (by decide) (by decide) (by decide), backupComponent_plain parent,
        plain_memoFile memo, List.forall_mem_nil _⟩

theorem components_memoPath (memo : MemoRow) (parent : Option String) :
    components (memoPath memo parent) = memoComponents memo parent := by
  cases parent with
  | none =>
      refine components_of_join ?_ (plain_memoComponents memo none) (List.cons_ne_nil _ _)
      simp [memoPath, memoComponents, formatMonth, List.intercalate]
  | some parent =>
      refine components_of_join ?_ (plain_memoComponents memo (some parent)) (List.cons_ne_nil _ _)
      simp [memoPath, memoComponents, List.intercalate]

def skipPath (n : Nat) : String := "skipped/" ++ toString n ++ ".json"

def skipComponents (n : Nat) : List (List Char) :=
  ["skipped".toList, (toString n).toList ++ ".json".toList]

theorem plain_skipComponents (n : Nat) : ∀ name ∈ skipComponents n, PlainName name := by
  unfold skipComponents
  simp only [List.forall_mem_cons]
  exact ⟨.of_all (by decide) (by decide) (by decide),
    (plain_toString_nat n).append (harmless_of_all (by decide)), List.forall_mem_nil _⟩

theorem components_skipPath (n : Nat) : components (skipPath n) = skipComponents n := by
  refine components_of_join ?_ (plain_skipComponents n) (List.cons_ne_nil _ _)
  simp [skipPath, skipComponents, List.intercalate]

/-! ### Paths that are the same -/

theorem getLast_memoComponents (memo : MemoRow) (parent : Option String) :
    (memoComponents memo parent).getLast? = some (backupComponent memo.uid ++ ".md").toList := by
  cases parent with
  | none | some parent =>
      unfold memoComponents
      simp only [List.getLast?_cons_cons, List.getLast?_singleton]

theorem component_of_memoPath {memo memo' : MemoRow} {parent parent' : Option String}
    (same : memoPath memo parent = memoPath memo' parent') :
    backupComponent memo.uid = backupComponent memo'.uid := by
  have names := components_memoPath memo parent
  rw [same, components_memoPath] at names
  have files := getLast_memoComponents memo parent
  rw [← names, getLast_memoComponents] at files
  have files := Option.some.inj files
  rw [String.toList_append, String.toList_append] at files
  exact (String.toList_inj.mp (List.append_cancel_right files)).symm

theorem skipPath_inj {n m : Nat} (same : skipPath n = skipPath m) : n = m := by
  have names := congrArg components same
  rw [components_skipPath, components_skipPath] at names
  have names := List.append_cancel_right (List.cons.inj (List.cons.inj names).2).1
  rw [toList_toString_nat, toList_toString_nat] at names
  exact toDigits_inj names

/-- The uid of the second goes on, after that of the first, with a hyphen and the id of the first. -/
def Continues (a b : AttachmentRow) : Prop :=
  (backupComponent a.uid).toList ++ '-' :: (toString a.id).toList <+: (backupComponent b.uid).toList

instance (a b : AttachmentRow) : Decidable (Continues a b) :=
  inferInstanceAs (Decidable (_ <+: _))

/-- Where a text has its first hyphen, when it is taken apart in two ways. -/
theorem digits_or_continued {digits digits' file file' more : List Char} (h : '-' ∉ digits)
    (h' : '-' ∉ digits')
    (same : '-' :: (digits ++ '-' :: file) = more ++ '-' :: (digits' ++ '-' :: file')) :
    digits = digits' ∨ '-' :: digits <+: more := by
  cases more with
  | nil => exact .inl (eq_of_append_separator h h' (List.cons.inj same).2)
  | cons c more =>
      obtain ⟨rfl, tails⟩ := List.cons.inj same
      right
      rcases List.append_eq_append_iff.mp tails with ⟨rest, rfl, -⟩ | ⟨rest, rfl, rest_eq⟩
      · exact ⟨rest, rfl⟩
      · cases rest with
        | nil => exact ⟨[], by simp⟩
        | cons c rest =>
            obtain ⟨rfl, -⟩ := List.cons.inj rest_eq
            exact absurd (List.mem_append.mpr (.inr (.head _))) h

/-- Two attachments have one name only where the uid of one continues the other. -/
theorem id_of_attachmentName {a b : AttachmentRow} (ha : 0 < a.id) (hb : 0 < b.id)
    (apart : ¬Continues a b) (apart' : ¬Continues b a) (same : attachmentName a = attachmentName b) :
    a.id = b.id := by
  obtain ⟨n, hn⟩ := Int.eq_ofNat_of_zero_le ha.le
  obtain ⟨m, hm⟩ := Int.eq_ofNat_of_zero_le hb.le
  have hyphen : ∀ n, '-' ∉ Nat.toDigits 10 n :=
    fun n h => absurd (digits_toDigits n _ h) (by decide)
  unfold attachmentName at same
  unfold Continues at apart apart'
  rw [hn, toList_toString_int] at same apart
  rw [hm, toList_toString_int] at same apart'
  have digits : Nat.toDigits 10 n = Nat.toDigits 10 m := by
    rcases List.append_eq_append_iff.mp same with ⟨more, longer, rest⟩ | ⟨more, longer, rest⟩
    · refine (digits_or_continued (hyphen n) (hyphen m) rest).resolve_right ?_
      rintro ⟨tail, rfl⟩
      exact apart ⟨tail, by rw [longer, List.append_assoc]⟩
    · refine ((digits_or_continued (hyphen m) (hyphen n) rest).resolve_right ?_).symm
      rintro ⟨tail, rfl⟩
      exact apart' ⟨tail, by rw [longer, List.append_assoc]⟩
  rw [hn, hm, toDigits_inj digits]

end Memos.Api.Backup
