/-
Text addressed by bytes.

A scanner over bytes that only ever stops between code points can be followed on the
code points themselves: an offset is the number of bytes before it, and a slice from an
offset drops the code points that fill it.
-/
import Mathlib.Data.List.Induction

namespace Utf8

def byteLength : List Char → Nat
  | [] => 0
  | c :: s => c.utf8Size + byteLength s

/-- `s[:n]`, for an offset between two code points. -/
def takeBytes : Nat → List Char → List Char
  | _, [] => []
  | n, c :: s => if n = 0 then [] else c :: takeBytes (n - c.utf8Size) s

/-- `s[n:]`, for an offset between two code points. -/
def dropBytes : Nat → List Char → List Char
  | _, [] => []
  | n, c :: s => if n = 0 then c :: s else dropBytes (n - c.utf8Size) s

@[simp] theorem byteLength_nil : byteLength [] = 0 := rfl

@[simp] theorem byteLength_cons (c : Char) (s : List Char) :
    byteLength (c :: s) = c.utf8Size + byteLength s := rfl

@[simp] theorem byteLength_append (s r : List Char) :
    byteLength (s ++ r) = byteLength s + byteLength r := by
  induction s with
  | nil => simp
  | cons c s ih => simp [ih, Nat.add_assoc]

theorem byteLength_pos {s : List Char} (h : s ≠ []) : 0 < byteLength s := by
  cases s with
  | nil => exact absurd rfl h
  | cons c s =>
      have := c.utf8Size_pos
      rw [byteLength_cons]
      omega

theorem length_le_byteLength (s : List Char) : s.length ≤ byteLength s := by
  induction s with
  | nil => exact Nat.le_refl 0
  | cons c s ih =>
      have := c.utf8Size_pos
      rw [List.length_cons, byteLength_cons]
      omega

@[simp] theorem dropBytes_zero (s : List Char) : dropBytes 0 s = s := by
  cases s with
  | nil => rfl
  | cons c s => simp [dropBytes]

@[simp] theorem takeBytes_zero (s : List Char) : takeBytes 0 s = [] := by
  cases s with
  | nil => rfl
  | cons c s => simp [takeBytes]

@[simp] theorem dropBytes_byteLength (s r : List Char) : dropBytes (byteLength s) (s ++ r) = r := by
  induction s with
  | nil => simp
  | cons c s ih =>
      have := c.utf8Size_pos
      rw [List.cons_append, dropBytes, byteLength_cons, if_neg (by omega), Nat.add_sub_cancel_left]
      exact ih

@[simp] theorem takeBytes_byteLength (s r : List Char) : takeBytes (byteLength s) (s ++ r) = s := by
  induction s with
  | nil => simp
  | cons c s ih =>
      have := c.utf8Size_pos
      rw [List.cons_append, takeBytes, byteLength_cons, if_neg (by omega), Nat.add_sub_cancel_left, ih]

theorem length_dropBytes_le (n : Nat) (s : List Char) : (dropBytes n s).length ≤ s.length := by
  induction s generalizing n with
  | nil => exact Nat.le_refl _
  | cons c s ih =>
      rw [dropBytes]
      split
      · exact Nat.le_refl _
      · exact Nat.le_succ_of_le (ih _)

theorem length_dropBytes_lt {n : Nat} (h : 0 < n) (c : Char) (s : List Char) :
    (dropBytes n (c :: s)).length < (c :: s).length := by
  rw [dropBytes, if_neg (by omega)]
  exact Nat.lt_succ_of_le (length_dropBytes_le _ s)

theorem utf8ByteSize_ofList (s : List Char) : (String.ofList s).utf8ByteSize = byteLength s := by
  induction s with
  | nil => rfl
  | cons c s ih =>
      have split : String.ofList (c :: s) = String.singleton c ++ String.ofList s := by
        rw [← String.toList_inj]
        simp
      rw [split, String.utf8ByteSize_append, String.utf8ByteSize_singleton, ih, byteLength_cons]

/-! ### ASCII -/

theorem byteLength_of_ascii {w : List Char} (h : ∀ c ∈ w, c.utf8Size = 1) :
    byteLength w = w.length := by
  induction w with
  | nil => rfl
  | cons c w ih =>
      rw [byteLength_cons, List.length_cons, h c (by simp), ih fun c hc => h c (by simp [hc])]
      omega

theorem utf8Size_of_le {c : Char} (h : c ≤ 'z') : c.utf8Size = 1 := by
  rw [Char.utf8Size]
  have small : c.val ≤ 127 := UInt32.le_trans h (by decide)
  exact if_pos small

end Utf8

/-
Strings of UTF-16 code units.

A pair of surrogates is one code point.  A surrogate that is not in a pair is none; where
the string is turned into Unicode text it becomes the replacement character.
-/

namespace Utf16

abbrev Units := List UInt16

def isHigh (u : UInt16) : Bool := 0xd800 ≤ u.toNat && u.toNat ≤ 0xdbff

def isLow (u : UInt16) : Bool := 0xdc00 ≤ u.toNat && u.toNat ≤ 0xdfff

def isSurrogate (u : UInt16) : Bool := isHigh u || isLow u

def pair (high low : UInt16) : Char :=
  Char.ofNat (0x10000 + (high.toNat - 0xd800) * 0x400 + (low.toNat - 0xdc00))

/-- The text, one code point after the other. -/
def decode : Units → List Char
  | [] => []
  | [u] => if isSurrogate u then ['\ufffd'] else [Char.ofNat u.toNat]
  | u :: v :: rest =>
      if isHigh u && isLow v then pair u v :: decode rest
      else (if isSurrogate u then '\ufffd' else Char.ofNat u.toNat) :: decode (v :: rest)

def encodeChar (c : Char) : Units :=
  if c.toNat < 0x10000 then [UInt16.ofNat c.toNat]
  else
    [UInt16.ofNat (0xd800 + (c.toNat - 0x10000) / 0x400),
      UInt16.ofNat (0xdc00 + (c.toNat - 0x10000) % 0x400)]

def encode (text : List Char) : Units := text.flatMap encodeChar

theorem decode_cons {u : UInt16} (plain : isSurrogate u = false) (rest : Units) :
    decode (u :: rest) = Char.ofNat u.toNat :: decode rest := by
  have notHigh : isHigh u = false := (Bool.or_eq_false_iff.mp plain).1
  cases rest with
  | nil =>
      show (if isSurrogate u then ['\ufffd'] else [Char.ofNat u.toNat]) = _
      rw [plain, if_neg Bool.false_ne_true]
      rfl
  | cons v rest =>
      rw [decode, notHigh, Bool.false_and, if_neg Bool.false_ne_true, plain,
        if_neg Bool.false_ne_true]

/-- Without surrogates each unit is a code point. -/
theorem decode_plain {units : Units} (plain : ∀ u ∈ units, isSurrogate u = false) :
    decode units = units.map fun u => Char.ofNat u.toNat := by
  induction units with
  | nil => rfl
  | cons u units ih =>
      rw [decode_cons (plain u List.mem_cons_self), List.map_cons,
        ih fun v mem => plain v (List.mem_cons_of_mem u mem)]

/-- A code point is a unit that starts no pair, or a pair. -/
theorem encodeChar_cases (c : Char) :
    (∃ u, encodeChar c = [u] ∧ isHigh u = false) ∨
      ∃ high low, encodeChar c = [high, low] ∧ isHigh high = true ∧ isLow low = true := by
  have bounds : c.toNat < 0xd800 ∨ 0xdfff < c.toNat ∧ c.toNat < 0x110000 := c.valid
  unfold encodeChar
  split_ifs with small
  · refine .inl ⟨_, rfl, ?_⟩
    unfold isHigh
    rw [UInt16.toNat_ofNat_of_lt' small]
    simp only [Bool.and_eq_false_iff, decide_eq_false_iff_not]
    omega
  · refine .inr ⟨_, _, rfl, ?_, ?_⟩
    · unfold isHigh
      rw [UInt16.toNat_ofNat_of_lt' (by show _ < 65536; omega)]
      simp only [Bool.and_eq_true, decide_eq_true_eq]
      omega
    · unfold isLow
      rw [UInt16.toNat_ofNat_of_lt' (by show _ < 65536; omega)]
      simp only [Bool.and_eq_true, decide_eq_true_eq]
      omega

theorem decode_encodeChar (c : Char) (rest : Units) :
    decode (encodeChar c ++ rest) = c :: decode rest := by
  have valid : c.toNat.isValidChar := c.valid
  have bounds : c.toNat < 0xd800 ∨ 0xdfff < c.toNat ∧ c.toNat < 0x110000 := valid
  unfold encodeChar
  split_ifs with small
  · have same : (UInt16.ofNat c.toNat).toNat = c.toNat := UInt16.toNat_ofNat_of_lt' small
    have plain : isSurrogate (UInt16.ofNat c.toNat) = false := by
      unfold isSurrogate isHigh isLow
      rw [same]
      simp only [Bool.or_eq_false_iff, Bool.and_eq_false_iff, decide_eq_false_iff_not]
      omega
    rw [List.singleton_append, decode_cons plain, same, Char.ofNat_toNat]
  · have high : (UInt16.ofNat (0xd800 + (c.toNat - 0x10000) / 0x400)).toNat
        = 0xd800 + (c.toNat - 0x10000) / 0x400 := UInt16.toNat_ofNat_of_lt' (by
          show _ < 65536
          omega)
    have low : (UInt16.ofNat (0xdc00 + (c.toNat - 0x10000) % 0x400)).toNat
        = 0xdc00 + (c.toNat - 0x10000) % 0x400 := UInt16.toNat_ofNat_of_lt' (by
          show _ < 65536
          omega)
    have isPair : (isHigh (UInt16.ofNat (0xd800 + (c.toNat - 0x10000) / 0x400))
        && isLow (UInt16.ofNat (0xdc00 + (c.toNat - 0x10000) % 0x400))) = true := by
      unfold isHigh isLow
      rw [high, low]
      simp only [Bool.and_eq_true, decide_eq_true_eq]
      omega
    rw [List.cons_append, List.singleton_append, decode, if_pos isPair]
    unfold pair
    rw [high, low]
    have whole : 0x10000 + (0xd800 + (c.toNat - 0x10000) / 0x400 - 0xd800) * 0x400
        + (0xdc00 + (c.toNat - 0x10000) % 0x400 - 0xdc00) = c.toNat := by
      omega
    rw [whole, Char.ofNat_toNat]

theorem decode_encode (text : List Char) : decode (encode text) = text := by
  induction text with
  | nil => rfl
  | cons c text ih =>
      unfold encode at ih ⊢
      rw [List.flatMap_cons, decode_encodeChar, ih]

theorem encode_plain {text : List Char} (small : ∀ c ∈ text, c.toNat < 0xd800) :
    ∀ u ∈ encode text, isSurrogate u = false := by
  intro u mem
  obtain ⟨c, there, mem⟩ := List.mem_flatMap.mp mem
  have bound := small c there
  unfold encodeChar at mem
  rw [if_pos (by omega), List.mem_singleton] at mem
  have same : u.toNat = c.toNat := by
    rw [mem]
    exact UInt16.toNat_ofNat_of_lt' (by
      show _ < 65536
      omega)
  unfold isSurrogate isHigh isLow
  simp only [Bool.or_eq_false_iff, Bool.and_eq_false_iff, decide_eq_false_iff_not]
  omega

theorem encode_injective {text text' : List Char} (same : encode text = encode text') :
    text = text' := by
  rw [← decode_encode text, same, decode_encode]

end Utf16

/-
Codings of text that agree with ASCII.

A coding writes each character as code units.  An ASCII character is one unit, which has its
number, and a unit of any other character has a number beyond ASCII.  So what is found in the
units by looking at ASCII alone is there in the text, and the units before and after it are the
text before and after it.
-/

structure Coding (α : Type) where
  code : α → Nat
  encodeChar : Char → List α
  ascii : ∀ c, c.toNat < 128 → ∃ u, encodeChar c = [u] ∧ code u = c.toNat
  other : ∀ c, 128 ≤ c.toNat → encodeChar c ≠ [] ∧ ∀ u ∈ encodeChar c, 128 ≤ code u

namespace Coding

variable {α : Type} {e : Coding α} {text : List Char} {before after run : List α} {u : α}

def encode (e : Coding α) (text : List Char) : List α := text.flatMap e.encodeChar

@[simp] theorem encode_nil : e.encode [] = [] := rfl

@[simp] theorem encode_cons (c : Char) (text : List Char) :
    e.encode (c :: text) = e.encodeChar c ++ e.encode text := rfl

@[simp] theorem encode_append (text rest : List Char) :
    e.encode (text ++ rest) = e.encode text ++ e.encode rest :=
  List.flatMap_append

theorem encodeChar_ne_nil (c : Char) : e.encodeChar c ≠ [] := by
  by_cases small : c.toNat < 128
  · obtain ⟨u, is, -⟩ := e.ascii c small
    rw [is]
    exact List.cons_ne_nil u []
  · exact (e.other c (Nat.le_of_not_lt small)).1

@[simp] theorem encode_eq_nil : e.encode text = [] ↔ text = [] := by
  cases text with
  | nil => exact ⟨fun _ => rfl, fun _ => rfl⟩
  | cons c text => simp [encodeChar_ne_nil]

/-- Later places in the text are later in the units. -/
theorem length_encode_take_lt {i j : Nat} (lt : i < j) (inside : i < text.length) :
    (e.encode (text.take i)).length < (e.encode (text.take j)).length := by
  obtain ⟨k, rfl⟩ : ∃ k, j = i + (k + 1) := ⟨j - i - 1, by omega⟩
  rw [List.take_add, encode_append, List.length_append, List.drop_eq_getElem_cons inside,
    List.take_succ_cons, encode_cons, List.length_append]
  have some := List.length_pos_iff.mpr (encodeChar_ne_nil (e := e) text[i])
  omega

/-- A unit that is ASCII is a character of its own. -/
theorem exists_split (split : e.encode text = before ++ u :: after) (small : e.code u < 128) :
    ∃ b c a, text = b ++ c :: a ∧ c.toNat = e.code u ∧ e.encodeChar c = [u] ∧
      e.encode b = before ∧ e.encode a = after := by
  induction text generalizing before with
  | nil =>
      rw [encode_nil] at split
      exact absurd split.symm (by simp)
  | cons c text ih =>
      rw [encode_cons] at split
      -- The unit is of the first character, or of the text after it.
      rcases List.append_eq_append_iff.mp split with ⟨more, rfl, rest⟩ | ⟨own, is, rest⟩
      · obtain ⟨b, d, a, rfl, same, unit, front, back⟩ := ih rest
        exact ⟨c :: b, d, a, rfl, same, unit, by rw [encode_cons, front], back⟩
      · cases own with
        | nil =>
            rw [List.append_nil] at is
            rw [← List.nil_append (u :: after)] at rest
            obtain ⟨b, d, a, rfl, same, unit, front, back⟩ := ih rest.symm
            refine ⟨c :: b, d, a, rfl, same, unit, ?_, back⟩
            rw [encode_cons, front, is, List.append_nil]
        | cons v own =>
            rw [List.cons_append, List.cons.injEq] at rest
            obtain ⟨rfl, rest⟩ := rest
            have mem : u ∈ e.encodeChar c := by
              rw [is]
              exact List.mem_append_right before List.mem_cons_self
            by_cases ascii : c.toNat < 128
            · obtain ⟨v, single, code⟩ := e.ascii c ascii
              rw [single] at is mem
              have isV := List.mem_singleton.mp mem
              have none : before = [] ∧ own = [] := by
                have count := congrArg List.length is
                simp only [List.length_append, List.length_cons, List.length_nil] at count
                exact ⟨List.eq_nil_of_length_eq_zero (by omega),
                  List.eq_nil_of_length_eq_zero (by omega)⟩
              obtain ⟨rfl, rfl⟩ := none
              refine ⟨[], c, text, rfl, ?_, ?_, rfl, rest.symm⟩
              · rw [isV, code]
              · rw [single, isV]
            · exact absurd ((e.other c (Nat.le_of_not_lt ascii)).2 u mem) (by omega)

theorem mem_of_mem_encode (mem : u ∈ e.encode text) (small : e.code u < 128) :
    ∃ c ∈ text, c.toNat = e.code u := by
  obtain ⟨before, after, parts⟩ := List.append_of_mem mem
  obtain ⟨b, c, a, rfl, same, -⟩ := exists_split parts small
  exact ⟨c, List.mem_append_right b List.mem_cons_self, same⟩

/-- A run of units that are ASCII is a run of characters. -/
theorem exists_run (split : e.encode text = run ++ after) (small : ∀ u ∈ run, e.code u < 128) :
    ∃ r a, text = r ++ a ∧ e.encode r = run ∧ e.encode a = after ∧
      r.map Char.toNat = run.map e.code := by
  induction run generalizing text with
  | nil => exact ⟨[], text, rfl, rfl, split, rfl⟩
  | cons u run ih =>
      have split : e.encode text = [] ++ u :: (run ++ after) := split
      obtain ⟨b, c, a, rfl, same, unit, front, back⟩ := exists_split split (small u List.mem_cons_self)
      rw [encode_eq_nil.mp front, List.nil_append]
      obtain ⟨r, a, rfl, is, back, codes⟩ := ih back fun v mem => small v (List.mem_cons_of_mem u mem)
      refine ⟨c :: r, a, rfl, ?_, back, ?_⟩
      · rw [encode_cons, unit, is]
        rfl
      · rw [List.map_cons, List.map_cons, same, codes]

theorem encode_ascii (small : ∀ c ∈ text, c.toNat < 128) :
    (e.encode text).map e.code = text.map Char.toNat := by
  induction text with
  | nil => rfl
  | cons c text ih =>
      obtain ⟨u, is, code⟩ := e.ascii c (small c List.mem_cons_self)
      rw [encode_cons, is, List.map_append, ih fun d mem => small d (List.mem_cons_of_mem c mem)]
      exact congrArg (· :: text.map Char.toNat) code

/-! ### The ends -/

/-- The first and the last unit of a character: it is ASCII where the character is. -/
theorem exists_ends (c : Char) :
    (∃ u rest, e.encodeChar c = u :: rest ∧ (e.code u = c.toNat ∨ 128 ≤ e.code u ∧ 128 ≤ c.toNat)) ∧
      ∃ front u, e.encodeChar c = front ++ [u] ∧ (e.code u = c.toNat ∨ 128 ≤ e.code u ∧ 128 ≤ c.toNat) := by
  by_cases small : c.toNat < 128
  · obtain ⟨u, is, code⟩ := e.ascii c small
    exact ⟨⟨u, [], is, .inl code⟩, [], u, is, .inl code⟩
  · have large := Nat.le_of_not_lt small
    obtain ⟨some, all⟩ := e.other c large
    refine ⟨?_, ?_⟩
    · obtain ⟨u, rest, is⟩ := List.exists_cons_of_ne_nil some
      exact ⟨u, rest, is, .inr ⟨all u (by simp [is]), large⟩⟩
    · have is := (List.dropLast_concat_getLast some).symm
      exact ⟨_, _, is, .inr ⟨all _ (List.getLast_mem some), large⟩⟩

variable {p : Nat → Bool}

theorem same_of_ascii (ascii : ∀ n, p n = true → n < 128) {n n' : Nat}
    (same : n = n' ∨ 128 ≤ n ∧ 128 ≤ n') : p n = false ↔ p n' = false := by
  rcases same with rfl | ⟨large, large'⟩
  · rfl
  · have none : ∀ k, 128 ≤ k → p k = false := by
      intro k large
      by_contra is
      have small := ascii k (Bool.not_eq_false _ ▸ is)
      omega
    rw [none n large, none n' large']

theorem head?_encode (ascii : ∀ n, p n = true → n < 128) :
    (∀ u ∈ (e.encode text).head?, p (e.code u) = false) ↔ ∀ c ∈ text.head?, p c.toNat = false := by
  cases text with
  | nil => simp
  | cons c text =>
      obtain ⟨⟨u, rest, is, same⟩, -⟩ := exists_ends (e := e) c
      simpa [is] using same_of_ascii ascii same

theorem getLast?_encode (ascii : ∀ n, p n = true → n < 128) :
    (∀ u ∈ (e.encode text).getLast?, p (e.code u) = false) ↔ ∀ c ∈ text.getLast?, p c.toNat = false := by
  cases text using List.reverseRecOn with
  | nil => simp
  | append_singleton text c =>
      obtain ⟨-, front, u, is, same⟩ := exists_ends (e := e) c
      simpa [is] using same_of_ascii ascii same

/-! ### Places in the text and in the units -/

/-- The place in the units of a place in the text. -/
def offset (e : Coding α) (text : List Char) (i : Nat) : Nat := (e.encode (text.take i)).length

@[simp] theorem offset_zero : e.offset text 0 = 0 := rfl

@[simp] theorem offset_length : e.offset text text.length = (e.encode text).length := by
  unfold offset
  rw [List.take_length]

theorem offset_cons (c : Char) (text : List Char) (i : Nat) :
    e.offset (c :: text) (i + 1) = (e.encodeChar c).length + e.offset text i := by
  unfold offset
  rw [List.take_succ_cons, encode_cons, List.length_append]

theorem offset_append_left (text rest : List Char) :
    e.offset (text ++ rest) text.length = (e.encode text).length := by
  unfold offset
  rw [List.take_left]

theorem offset_lt {i j : Nat} (lt : i < j) (inside : i < text.length) : e.offset text i < e.offset text j :=
  length_encode_take_lt lt inside

theorem offset_le {i j : Nat} (le : i ≤ j) : e.offset text i ≤ e.offset text j := by
  obtain ⟨k, rfl⟩ := Nat.exists_eq_add_of_le le
  unfold offset
  rw [List.take_add, encode_append, List.length_append]
  exact Nat.le_add_right _ _

theorem offset_lt_iff {i j : Nat} (inside : j ≤ text.length) : e.offset text i < e.offset text j ↔ i < j := by
  constructor
  · intro lt
    by_contra le
    have back : e.offset text j ≤ e.offset text i := offset_le (Nat.le_of_not_lt le)
    omega
  · exact fun lt => offset_lt lt (Nat.lt_of_lt_of_le lt inside)

theorem drop_offset (i : Nat) : (e.encode text).drop (e.offset text i) = e.encode (text.drop i) := by
  have parts : e.encode text = e.encode (text.take i) ++ e.encode (text.drop i) := by
    rw [← encode_append, List.take_append_drop]
  unfold offset
  rw [parts, List.drop_left]

theorem take_offset (i : Nat) : (e.encode text).take (e.offset text i) = e.encode (text.take i) := by
  have parts : e.encode text = e.encode (text.take i) ++ e.encode (text.drop i) := by
    rw [← encode_append, List.take_append_drop]
  unfold offset
  rw [parts, List.take_left]

theorem offset_add (i j : Nat) : e.offset text (i + j) = e.offset text i + e.offset (text.drop i) j := by
  unfold offset
  rw [List.take_add, encode_append, List.length_append]

theorem length_encode_ascii (small : ∀ c ∈ text, c.toNat < 128) : (e.encode text).length = text.length := by
  have same := congrArg List.length (encode_ascii (e := e) small)
  rwa [List.length_map, List.length_map] at same

theorem offset_succ_add {i : Nat} {c : Char} (there : text[i]? = some c) :
    e.offset text (i + 1) = e.offset text i + (e.encodeChar c).length := by
  obtain ⟨inside, rfl⟩ := List.getElem?_eq_some_iff.mp there
  rw [offset_add, List.drop_eq_getElem_cons inside, offset_cons]
  rfl

theorem exists_first {i : Nat} {c : Char} (there : text[i]? = some c) :
    ∃ u, (e.encode text)[e.offset text i]? = some u ∧
      (e.code u = c.toNat ∨ 128 ≤ e.code u ∧ 128 ≤ c.toNat) := by
  obtain ⟨inside, rfl⟩ := List.getElem?_eq_some_iff.mp there
  obtain ⟨⟨u, rest, is, same⟩, -⟩ := exists_ends (e := e) text[i]
  refine ⟨u, ?_, same⟩
  have head : ((e.encode text).drop (e.offset text i))[0]? = some u := by
    rw [drop_offset, List.drop_eq_getElem_cons inside, encode_cons, is]
    rfl
  rwa [List.getElem?_drop, Nat.add_zero] at head

theorem exists_last {i : Nat} {c : Char} (there : text[i]? = some c) :
    ∃ m u, e.offset text (i + 1) = m + 1 ∧ (e.encode text)[m]? = some u ∧
      (e.code u = c.toNat ∧ m = e.offset text i ∨ 128 ≤ e.code u ∧ 128 ≤ c.toNat) := by
  obtain ⟨inside, rfl⟩ := List.getElem?_eq_some_iff.mp there
  have whole := offset_succ_add (e := e) there
  have units : (e.encode text).drop (e.offset text i) = e.encodeChar text[i] ++ e.encode (text.drop (i + 1)) := by
    rw [drop_offset, List.drop_eq_getElem_cons inside, encode_cons]
  obtain ⟨-, front, u, is, same⟩ := exists_ends (e := e) text[i]
  rw [is] at whole units
  have at' : (e.encode text)[e.offset text i + front.length]? = some u := by
    rw [← List.getElem?_drop, units]
    simp
  refine ⟨e.offset text i + front.length, u, ?_, at', ?_⟩
  · rw [whole, List.length_append]
    rfl
  · rcases same with same | large
    · by_cases small : text[i].toNat < 128
      · obtain ⟨v, single, -⟩ := e.ascii text[i] small
        rw [single] at is
        have count := congrArg List.length is
        rw [List.length_append, List.length_singleton, List.length_singleton] at count
        exact .inl ⟨same, by omega⟩
      · exact .inr ⟨by omega, Nat.le_of_not_lt small⟩
    · exact .inr large

theorem offset_succ {i : Nat} {c : Char} (there : text[i]? = some c) (small : c.toNat < 128) :
    e.offset text (i + 1) = e.offset text i + 1 ∧
      ∃ u, e.encodeChar c = [u] ∧ (e.encode text)[e.offset text i]? = some u ∧ e.code u = c.toNat := by
  obtain ⟨inside, rfl⟩ := List.getElem?_eq_some_iff.mp there
  obtain ⟨u, is, code⟩ := e.ascii text[i] small
  constructor
  · rw [offset_succ_add there, is, List.length_singleton]
  · refine ⟨u, is, ?_, code⟩
    have head : ((e.encode text).drop (e.offset text i))[0]? = some u := by
      rw [drop_offset, List.drop_eq_getElem_cons inside, encode_cons, is]
      rfl
    rwa [List.getElem?_drop, Nat.add_zero] at head

/-- The first character of a kind is at the first unit of it. -/
theorem findIdx?_encode (ascii : ∀ n, p n = true → n < 128) (text : List Char) :
    ((e.encode text).findIdx? fun u => p (e.code u)) =
      (text.findIdx? fun c => p c.toNat).map (e.offset text) := by
  induction text with
  | nil => rfl
  | cons c text ih =>
      rw [encode_cons, List.findIdx?_append, ih, List.findIdx?_cons]
      by_cases small : c.toNat < 128
      · obtain ⟨u, is, code⟩ := e.ascii c small
        rw [is, List.findIdx?_singleton, code]
        split
        · rfl
        · rw [Option.none_or, Option.map_map, Option.map_map]
          congr 1
          funext i
          show e.offset text i + _ = e.offset (c :: text) (i + 1)
          rw [offset_cons, is, Nat.add_comm]
      · obtain ⟨-, large⟩ := e.other c (Nat.le_of_not_lt small)
        have none : ∀ n, 128 ≤ n → p n = false := by
          intro n large
          by_contra is
          have small := ascii n (Bool.not_eq_false _ ▸ is)
          omega
        have front : ((e.encodeChar c).findIdx? fun u => p (e.code u)) = .none :=
          List.findIdx?_eq_none_iff.mpr fun u mem => none _ (large u mem)
        rw [front, none _ (Nat.le_of_not_lt small), if_neg Bool.false_ne_true, Option.none_or, Option.map_map,
          Option.map_map]
        congr 1
        funext i
        show e.offset text i + _ = e.offset (c :: text) (i + 1)
        rw [offset_cons, Nat.add_comm]

/-! ### UTF-8 and UTF-16 -/

def utf8 : Coding UInt8 where
  code := UInt8.toNat
  encodeChar := String.utf8EncodeChar
  ascii c small := by
    refine ⟨UInt8.ofNat c.toNat, if_pos (Nat.le_of_lt_succ small), ?_⟩
    exact UInt8.toNat_ofNat_of_lt' (Nat.lt_trans small (by decide))
  other c large := by
    have large : 128 ≤ c.val.toNat := large
    unfold String.utf8EncodeChar
    dsimp only
    split_ifs <;> simp <;> omega

def utf16 : Coding UInt16 where
  code := UInt16.toNat
  encodeChar := Utf16.encodeChar
  ascii c small := by
    have small' : c.toNat < 65536 := Nat.lt_trans small (by decide)
    exact ⟨UInt16.ofNat c.toNat, if_pos small', UInt16.toNat_ofNat_of_lt' small'⟩
  other c large := by
    have valid : c.toNat < 0xd800 ∨ 0xdfff < c.toNat ∧ c.toNat < 0x110000 := c.valid
    unfold Utf16.encodeChar
    split_ifs with small
    · simp
      omega
    · simp
      omega

end Coding
