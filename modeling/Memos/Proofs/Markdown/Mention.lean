/-
What the scanners for mentions find.

A scanner jumps over the characters after an introducer whether they are a user name or not.
That loses nothing, since no introducer is among them, and the one after them has a username
character on its left.  The mentions are said on the parts of a run, not on its offsets, so
that they can be followed from one coding of a text to another.
-/
import Memos.Markdown.Mention
import Memos.Lib.Scan
import Mathlib.Data.List.Sort

namespace Memos.Markdown

open Base

variable {α : Type} {code : α → Nat} {escapesAt : List α → Nat → Bool} {source before name after : List α}
  {sign : α} {flag : Bool} {pos : Nat} {m : MentionMatch α}

/-! ### Mentions -/

/-- `name` is mentioned between `before` and `after`: it is all that is there of user names. -/
structure MentionIn (code : α → Nat) (flag : Bool) (before : List α) (sign : α) (name after : List α) :
    Prop where
  introducer : code sign = '@'.toNat
  start : before = [] → flag = true
  left : ∀ c ∈ before.getLast?, IsUsernameCharacter (code c) = false
  run : ∀ c ∈ name, IsUsernameCharacter (code c) = true
  maximal : ∀ c ∈ after.head?, IsUsernameCharacter (code c) = false
  valid : Username (name.map code)

/-- A match that is a mention in the run. -/
def Mention (code : α → Nat) (flag : Bool) (source : List α) (m : MentionMatch α) : Prop :=
  ∃ before sign after, source = before ++ sign :: (m.username ++ after) ∧
    MentionIn code flag before sign m.username after ∧
    m.start = before.length ∧ m.stop = before.length + 1 + m.username.length

/-- What stands at a position is escaped: an escape starts before it that is not escaped. -/
def Escaped (escape : Nat → Prop) : Nat → Prop
  | 0 => False
  | pos + 1 => escape pos ∧ ¬Escaped escape pos

/-- A backslash, and ASCII punctuation after it. -/
def EscapeStart (source : List UInt8) (pos : Nat) : Prop :=
  (∃ char, source[pos]? = some char ∧ char.toNat = '\\'.toNat) ∧
    ∃ char, source[pos + 1]? = some char ∧ ASCIIPunctuation char.toNat

/-! ### The parts of a run and its offsets -/

theorem hasMentionLeftBoundary_iff :
    hasMentionLeftBoundary code (before ++ sign :: after) flag before.length = true ↔
      (before = [] → flag = true) ∧ ∀ c ∈ before.getLast?, IsUsernameCharacter (code c) = false := by
  unfold hasMentionLeftBoundary
  cases before using List.reverseRecOn with
  | nil => simp
  | append_singleton before c => simp

/-- What the scanner tests where it meets an introducer. -/
structure Found (code : α → Nat) (flag : Bool) (source : List α) (m : MentionMatch α) : Prop where
  introducer : ∃ sign, source[m.start]? = some sign ∧ code sign = '@'.toNat
  boundary : hasMentionLeftBoundary code source flag m.start = true
  username : m.username = (source.drop (m.start + 1)).takeWhile fun c => IsUsernameCharacter (code c)
  valid : IsValidUsername (m.username.map code) = true
  stop : m.stop = m.start + 1 + m.username.length

theorem mention_iff_found : Mention code flag source m ↔ Found code flag source m := by
  constructor
  · rintro ⟨before, sign, after, rfl, is, start, stop⟩
    refine ⟨⟨sign, ?_, is.introducer⟩, ?_, ?_, isValidUsername_iff.mpr is.valid, start ▸ stop⟩
    · rw [start, List.getElem?_append_right (Nat.le_refl _), Nat.sub_self]
      rfl
    · rw [start]
      exact hasMentionLeftBoundary_iff.mpr ⟨is.start, is.left⟩
    · rw [start, List.drop_append, List.drop_of_length_le (Nat.le_succ _), Nat.add_sub_cancel_left]
      exact (Span.takeWhile_eq is.run is.maximal).symm
  · intro found
    obtain ⟨sign, there, isSign⟩ := found.introducer
    obtain ⟨inside, rfl⟩ := List.getElem?_eq_some_iff.mp there
    have parts : source = source.take m.start ++ source[m.start] :: source.drop (m.start + 1) := by
      rw [← List.drop_eq_getElem_cons inside, List.take_append_drop]
    have length : (source.take m.start).length = m.start := List.length_take_of_le (Nat.le_of_lt inside)
    have bounded : hasMentionLeftBoundary code
        (source.take m.start ++ source[m.start] :: source.drop (m.start + 1)) flag
        (source.take m.start).length = true := by
      rw [← parts, length]
      exact found.boundary
    obtain ⟨start, left⟩ := hasMentionLeftBoundary_iff.mp bounded
    refine ⟨source.take m.start, source[m.start],
      (source.drop (m.start + 1)).dropWhile fun c => IsUsernameCharacter (code c), ?_, ?_, ?_, ?_⟩
    · rw [found.username, List.takeWhile_append_dropWhile]
      exact parts
    · refine ⟨isSign, start, left, ?_, Span.head?_dropWhile, isValidUsername_iff.mp found.valid⟩
      rw [found.username]
      intro c mem
      exact List.mem_takeWhile_imp (p := fun c => IsUsernameCharacter (code c)) mem
    · rw [length]
    · rw [length]
      exact found.stop

theorem Found.unique {m' : MentionMatch α} (found : Found code flag source m)
    (found' : Found code flag source m') (same : m.start = m'.start) : m = m' := by
  have name : m.username = m'.username := by rw [found.username, found'.username, same]
  exact MentionMatch.ext same (by rw [found.stop, found'.stop, same, name]) name

/-! ### The scan -/

/-- What the escapes of a scanner have to do with its text: an escape starts with a character
that is no introducer and is in no user name. -/
structure Escapes (code : α → Nat) (escapesAt : List α → Nat → Bool) (source : List α)
    (escape : Nat → Prop) : Prop where
  iff : ∀ pos, escapesAt source pos = true ↔ escape pos
  other : ∀ pos, escape pos → ∀ c, source[pos]? = some c →
    code c ≠ '@'.toNat ∧ IsUsernameCharacter (code c) = false

variable {escape : Nat → Prop}

/-- The characters of a name, and what follows it, are not escaped. -/
theorem not_escaped_of_run (escapes : Escapes code escapesAt source escape) {sign : α}
    (there : source[pos]? = some sign) (introducer : code sign = '@'.toNat) {i : Nat}
    (run : i ≤ ((source.drop (pos + 1)).takeWhile fun c => IsUsernameCharacter (code c)).length) :
    ¬Escaped escape (pos + 1 + i) := by
  intro escaped
  cases i with
  | zero => exact (escapes.other pos escaped.1 sign there).1 introducer
  | succ i =>
      obtain ⟨c, is, char⟩ := Span.getElem?_of_lt run
      rw [List.getElem?_drop] at is
      rw [(escapes.other (pos + 1 + i) escaped.1 c is).2] at char
      cases char

theorem not_found_of_run (pos : Nat) (later : pos < m.start)
    (run : m.start < pos + 1 +
      ((source.drop (pos + 1)).takeWhile fun c => IsUsernameCharacter (code c)).length) :
    ¬Found code flag source m := by
  intro found
  obtain ⟨i, start⟩ : ∃ i, m.start = pos + 1 + i := ⟨m.start - (pos + 1), by omega⟩
  rw [start, Nat.add_lt_add_iff_left] at run
  obtain ⟨sign, there, introducer⟩ := found.introducer
  obtain ⟨c, is, char⟩ := Span.getElem?_of_lt run
  rw [List.getElem?_drop, ← start, there, Option.some_inj] at is
  rw [← is, introducer] at char
  exact absurd char (by decide)

/-- What is found from a position on is found from an earlier one, if nothing is there before. -/
theorem mem_iff_of_skip {next : Nat} {matches' : List (MentionMatch α)} {Q : MentionMatch α → Prop}
    (mem : ∀ m, m ∈ matches' ↔ next ≤ m.start ∧ Q m) (le : pos ≤ next)
    (none : ∀ m, pos ≤ m.start → m.start < next → ¬Q m) (m : MentionMatch α) :
    m ∈ matches' ↔ pos ≤ m.start ∧ Q m := by
  rw [mem]
  constructor
  · rintro ⟨later, is⟩
    exact ⟨Nat.le_trans le later, is⟩
  · rintro ⟨later, is⟩
    refine ⟨?_, is⟩
    by_contra before
    exact none m later (Nat.lt_of_not_le before) is

theorem introducer_iff {char : α} :
    ¬(decide (code char ≠ '@'.toNat) || !hasMentionLeftBoundary code source flag pos) = true ↔
      code char = '@'.toNat ∧ hasMentionLeftBoundary code source flag pos = true := by
  simp

theorem findMentionMatchesFrom_spec (flag : Bool) (escapes : Escapes code escapesAt source escape)
    (clear : ¬Escaped escape pos) :
    (findMentionMatchesFrom code escapesAt source flag pos).Pairwise (fun m m' => m.stop ≤ m'.start) ∧
      ∀ m, m ∈ findMentionMatchesFrom code escapesAt source flag pos ↔
        pos ≤ m.start ∧ ¬Escaped escape m.start ∧ Found code flag source m := by
  fun_induction findMentionMatchesFrom code escapesAt source flag pos with
  | case1 pos outside =>
      refine ⟨.nil, fun m => ⟨fun mem => absurd mem List.not_mem_nil, ?_⟩⟩
      rintro ⟨later, -, found⟩
      obtain ⟨sign, there, -⟩ := found.introducer
      have inside := (List.getElem?_eq_some_iff.mp there).1
      have outside := List.getElem?_eq_none_iff.mp outside
      omega
  | case2 pos char inside escape' ih =>
      have starts := (escapes.iff pos).mp escape'
      obtain ⟨sorted, mem⟩ := ih fun escaped => escaped.2 ⟨starts, clear⟩
      refine ⟨sorted, mem_iff_of_skip mem (Nat.le_add_right pos 2) ?_⟩
      rintro m later before ⟨plain, found⟩
      rcases (by omega : m.start = pos ∨ m.start = pos + 1) with here | next
      · obtain ⟨sign, there, introducer⟩ := found.introducer
        rw [here] at there
        exact (escapes.other pos starts sign there).1 introducer
      · rw [next] at plain
        exact plain ⟨starts, clear⟩
  | case3 pos char inside plain other ih =>
      obtain ⟨sorted, mem⟩ := ih fun escaped => plain ((escapes.iff pos).mpr escaped.1)
      refine ⟨sorted, mem_iff_of_skip mem (Nat.le_succ pos) ?_⟩
      rintro m later before ⟨-, found⟩
      have here : m.start = pos := by omega
      obtain ⟨sign, there, introducer⟩ := found.introducer
      have boundary := found.boundary
      rw [here, inside, Option.some_inj] at there
      rw [here] at boundary
      rw [there, introducer, boundary] at other
      simp at other
  | case4 pos char inside plain introducer username stop next valid ih =>
      obtain ⟨isSign, boundary⟩ := introducer_iff.mp introducer
      have jump : next = pos + 1 + username.length := ite_eq_right_iff.mpr Eq.symm
      obtain ⟨sorted, mem⟩ := ih (jump ▸ not_escaped_of_run escapes inside isSign (Nat.le_refl _))
      have first : Found code flag source ⟨pos, stop, username⟩ :=
        ⟨⟨char, inside, isSign⟩, boundary, rfl, valid, rfl⟩
      refine ⟨List.pairwise_cons.mpr ⟨fun m later => ?_, sorted⟩, fun m => ?_⟩
      · have after := ((mem m).mp later).1
        rwa [jump] at after
      · rw [List.mem_cons]
        constructor
        · rintro (rfl | later)
          · exact ⟨Nat.le_refl pos, clear, first⟩
          · obtain ⟨after, is⟩ := (mem m).mp later
            exact ⟨by omega, is⟩
        · rintro ⟨later, clear', found⟩
          by_cases here : m.start = pos
          · exact .inl (found.unique first here)
          · refine .inr ((mem m).mpr ⟨?_, clear', found⟩)
            by_contra before
            exact not_found_of_run pos (by omega) (jump ▸ by omega) found
  | case5 pos char inside plain introducer username stop next invalid ih =>
      obtain ⟨isSign, -⟩ := introducer_iff.mp introducer
      have jump : next = pos + 1 + username.length := ite_eq_right_iff.mpr Eq.symm
      obtain ⟨sorted, mem⟩ := ih (jump ▸ not_escaped_of_run escapes inside isSign (Nat.le_refl _))
      refine ⟨sorted, mem_iff_of_skip mem (by omega) ?_⟩
      rintro m later before ⟨-, found⟩
      by_cases here : m.start = pos
      · have valid := found.valid
        rw [found.username, here] at valid
        exact invalid valid
      · exact not_found_of_run pos (by omega) (jump ▸ by omega) found

theorem not_escaped : ¬Escaped (fun _ => False) pos := by
  cases pos with
  | zero => exact id
  | succ pos => exact fun escaped => escaped.1

theorem noEscapes_eq (source : List α) (pos : Nat) : noEscapes source pos = false := rfl

/-- A scanner that knows no escapes finds all mentions. -/
theorem findMentionMatchesFrom_plain (code : α → Nat) (source : List α) (flag : Bool)
    (none : ∀ pos, escapesAt source pos = false) :
    (findMentionMatchesFrom code escapesAt source flag 0).Pairwise (fun m m' => m.start < m'.start) ∧
      ∀ m, m ∈ findMentionMatchesFrom code escapesAt source flag 0 ↔ Mention code flag source m := by
  have escapes : Escapes code escapesAt source fun _ => False :=
    ⟨fun pos => by simp [none], fun _ is => is.elim⟩
  obtain ⟨sorted, mem⟩ := findMentionMatchesFrom_spec flag escapes not_escaped
  refine ⟨sorted.imp_of_mem fun {m m'} here _ before => ?_, fun m => (mem m).trans ?_⟩
  · have stop := ((mem m).mp here).2.2.stop
    omega
  · rw [mention_iff_found]
    exact ⟨fun is => is.2.2, fun is => ⟨Nat.zero_le _, not_escaped, is⟩⟩

theorem Mention.start_lt (is : Mention code flag source m) : m.start < source.length := by
  obtain ⟨before, sign, after, rfl, -, start, -⟩ := is
  rw [start]
  simp

theorem escapes_table (table : PunctTable) {source : List UInt8} :
    Escapes UInt8.toNat table.escapesAt source (EscapeStart source) := by
  refine ⟨fun pos => ?_, ?_⟩
  · unfold PunctTable.escapesAt EscapeStart
    simp [Option.any_eq_true, table.punctuation]
  · rintro pos ⟨⟨char, there, backslash⟩, -⟩ c there'
    rw [there, Option.some_inj] at there'
    rw [← there', backslash]
    decide

theorem escapesAt_plain (table : PunctTable) {text : List Char} (plain : '\\' ∉ text) (pos : Nat) :
    table.escapesAt (Coding.utf8.encode text) pos = false := by
  by_contra escape
  obtain ⟨⟨char, there, backslash⟩, -⟩ := ((escapes_table table).iff pos).mp (Bool.not_eq_false _ ▸ escape)
  obtain ⟨c, mem, same⟩ := Coding.mem_of_mem_encode (e := Coding.utf8) (List.mem_of_getElem? there)
    (show char.toNat < 128 by rw [backslash]; decide)
  have isBackslash : c = '\\' := Char.toNat_inj.mp (same.trans backslash)
  exact plain (isBackslash ▸ mem)

/-! ### One text in two codings -/

section Coding

variable {e : Coding α} {text b a : List Char} {c : Char}

def MentionMatch.encode (e : Coding α) (text : List Char) (m : MentionMatch Char) : MentionMatch α where
  start := (e.encode (text.take m.start)).length
  stop := (e.encode (text.take m.stop)).length
  username := e.encode m.username

theorem encode_of_parts (m : MentionMatch Char) (start : m.start = b.length)
    (stop : m.stop = b.length + 1 + m.username.length) :
    m.encode e (b ++ c :: (m.username ++ a)) =
      ⟨(e.encode b).length, (e.encode (b ++ c :: m.username)).length, e.encode m.username⟩ := by
  have front : (b ++ c :: (m.username ++ a)).take m.stop = b ++ c :: m.username := by
    have parts : b ++ c :: (m.username ++ a) = (b ++ c :: m.username) ++ a := by simp
    have length : m.stop = (b ++ c :: m.username).length := by
      rw [stop]
      simp
      omega
    rw [parts, length, List.take_left]
  unfold MentionMatch.encode
  rw [front, start, List.take_left]

theorem mention_encode {m : MentionMatch α} :
    Mention e.code flag (e.encode text) m ↔
      ∃ m', Mention Char.toNat flag text m' ∧ m = m'.encode e text := by
  have ascii : ∀ n, IsUsernameCharacter n = true → n < 128 := fun n => lt_of_isUsernameCharacter
  constructor
  · rintro ⟨before, sign, after, parts, is, start, stop⟩
    obtain ⟨b, c, a, rfl, same, unit, rfl, rest⟩ := Coding.exists_split parts (by rw [is.introducer]; decide)
    obtain ⟨name, a, rfl, whole, rfl, codes⟩ :=
      Coding.exists_run rest fun u mem => ascii _ (is.run u mem)
    refine ⟨⟨b.length, b.length + 1 + name.length, name⟩, ⟨b, c, a, rfl, ?_, rfl, rfl⟩, ?_⟩
    · refine ⟨by rw [same, is.introducer], fun none => is.start (Coding.encode_eq_nil.mpr none),
        (Coding.getLast?_encode ascii).mp is.left, fun c mem => ?_, (Coding.head?_encode ascii).mp is.maximal, ?_⟩
      · have char : c.toNat ∈ m.username.map e.code := codes ▸ List.mem_map_of_mem mem
        obtain ⟨u, mem, code⟩ := List.mem_map.mp char
        rw [← code]
        exact is.run u mem
      · rw [codes]
        exact is.valid
    · refine Eq.trans ?_ (encode_of_parts ⟨b.length, b.length + 1 + name.length, name⟩ rfl rfl).symm
      refine MentionMatch.ext start ?_ whole.symm
      rw [stop, ← whole]
      simp [unit]
      omega
  · rintro ⟨m', ⟨b, c, a, rfl, is, start, stop⟩, rfl⟩
    have small : ∀ c ∈ m'.username, c.toNat < 128 := fun c mem => ascii _ (is.run c mem)
    obtain ⟨u, unit, code⟩ := e.ascii c (by rw [is.introducer]; decide)
    have codes := Coding.encode_ascii (e := e) small
    rw [encode_of_parts m' start stop]
    refine ⟨e.encode b, u, e.encode a, by simp [unit], ?_, rfl, by simp [unit]; omega⟩
    refine ⟨by rw [code, is.introducer], fun none => is.start (Coding.encode_eq_nil.mp none),
      (Coding.getLast?_encode ascii).mpr is.left, fun u mem => ?_, (Coding.head?_encode ascii).mpr is.maximal, ?_⟩
    · have char : e.code u ∈ m'.username.map Char.toNat := codes ▸ List.mem_map_of_mem mem
      obtain ⟨c, mem, same⟩ := List.mem_map.mp char
      rw [← same]
      exact is.run c mem
    · show Username ((e.encode m'.username).map e.code)
      rw [codes]
      exact is.valid

theorem findMentionMatchesFrom_encode (e : Coding α) (text : List Char) (flag : Bool)
    (none : ∀ pos, escapesAt (e.encode text) pos = false) :
    findMentionMatchesFrom e.code escapesAt (e.encode text) flag 0 =
      (findMentionMatchesFrom Char.toNat noEscapes text flag 0).map (MentionMatch.encode e text) := by
  obtain ⟨sorted, mem⟩ := findMentionMatchesFrom_plain e.code (e.encode text) flag none
  obtain ⟨sorted', mem'⟩ := findMentionMatchesFrom_plain Char.toNat text flag (noEscapes_eq text)
  have later : ((findMentionMatchesFrom Char.toNat noEscapes text flag 0).map
      (MentionMatch.encode e text)).Pairwise fun m m' => m.start < m'.start := by
    refine List.pairwise_map.mpr (sorted'.imp_of_mem fun {m m'} here _ before => ?_)
    exact Coding.length_encode_take_lt before ((mem' m).mp here).start_lt
  have irrefl : Std.Irrefl fun m m' : MentionMatch α => m.start < m'.start := ⟨fun _ => Nat.lt_irrefl _⟩
  have antisymm : Std.Antisymm fun m m' : MentionMatch α => m.start < m'.start :=
    ⟨fun _ _ before after => absurd before (Nat.lt_asymm after)⟩
  refine sorted.eq_of_mem_iff later fun m => ?_
  rw [mem, mention_encode, List.mem_map]
  constructor
  · rintro ⟨m', is, same⟩
    exact ⟨m', (mem' m').mpr is, same.symm⟩
  · rintro ⟨m', is, same⟩
    exact ⟨m', (mem' m').mp is, same.symm⟩

/-- One mention in the bytes and in the code units of a text. -/
def SameMention (text : List Char) (m : MentionMatch UInt8) (m' : MentionMatch UInt16) : Prop :=
  ∃ before name after, text = before ++ '@' :: (name ++ after) ∧
    m = ⟨(Coding.utf8.encode before).length, (Coding.utf8.encode (before ++ '@' :: name)).length,
      Coding.utf8.encode name⟩ ∧
    m' = ⟨(Coding.utf16.encode before).length, (Coding.utf16.encode (before ++ '@' :: name)).length,
      Coding.utf16.encode name⟩

end Coding

/-- The server finds the unescaped mentions of a run in their order, and where there are no
backslashes the web client finds the same. -/
theorem FindMentionMatches_spec (table : PunctTable) (source : List UInt8) (flag : Bool) :
    (FindMentionMatches table source flag).Pairwise (fun m m' => m.stop ≤ m'.start) ∧
      (∀ m, m ∈ FindMentionMatches table source flag ↔
        Mention UInt8.toNat flag source m ∧ ¬Escaped (EscapeStart source) m.start) ∧
      ∀ text, source = Coding.utf8.encode text → '\\' ∉ text →
        List.Forall₂ (SameMention text) (FindMentionMatches table source flag)
          (findMentionMatches (Coding.utf16.encode text) flag) := by
  refine ⟨?_, ?_, ?_⟩
  · exact (findMentionMatchesFrom_spec flag (escapes_table table) id).1
  · intro m
    refine ((findMentionMatchesFrom_spec flag (escapes_table table) id).2 m).trans ?_
    rw [mention_iff_found]
    exact ⟨fun is => ⟨is.2.2, is.2.1⟩, fun is => ⟨Nat.zero_le _, is.2, is.1⟩⟩
  · rintro text rfl plain
    unfold FindMentionMatches findMentionMatches
    have server := findMentionMatchesFrom_encode Coding.utf8 text flag (escapesAt_plain table plain)
    have web := findMentionMatchesFrom_encode Coding.utf16 text flag (noEscapes_eq (Coding.utf16.encode text))
    have mem := (findMentionMatchesFrom_plain Char.toNat text flag (noEscapes_eq text)).2
    refine server ▸ web ▸ ?_
    rw [List.forall₂_map_left_iff, List.forall₂_map_right_iff, List.forall₂_same]
    intro m here
    obtain ⟨before, sign, after, parts, is, start, stop⟩ := (mem m).mp here
    have isSign : sign = '@' := Char.toNat_inj.mp is.introducer
    rw [isSign] at parts
    refine ⟨before, m.username, after, parts, ?_, ?_⟩
    · rw [parts]
      exact encode_of_parts m start stop
    · rw [parts]
      exact encode_of_parts m start stop

def asciiPunct : PunctTable where
  isPunct char := decide (ASCIIPunctuation char.toNat)
  punctuation _ := decide_eq_true_iff

theorem FindMentionMatches_spec_accent :
    '\\' ∉ "né (@al)".toList ∧
      List.Forall₂ (SameMention "né (@al)".toList)
        (FindMentionMatches asciiPunct (Coding.utf8.encode "né (@al)".toList) true)
        (findMentionMatches (Coding.utf16.encode "né (@al)".toList) true) :=
  ⟨by decide, (FindMentionMatches_spec asciiPunct _ true).2.2 _ rfl (by decide)⟩

end Memos.Markdown
