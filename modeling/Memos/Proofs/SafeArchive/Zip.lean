/-
What an accepted archive has in it.

The sum of the sizes is kept by taking what is left of the limit, so it is enough that every
entry fits into what is left: the sum stays below the limit, and neither the sum nor the
difference goes around.

A name that passes has the segments of a path, with one exception.  Of all names the check of
the standard library lets the single dot through, which stands for the directory itself.
-/
import Memos.SafeArchive.Zip
import Memos.Lib.Fallible
import Mathlib.Data.List.Nodup
import Mathlib.Algebra.BigOperators.Group.List.Basic
import Mathlib.Algebra.GroupWithZero.Nat

namespace Memos.SafeArchive

/-! ### Names -/

/-- A path from the directory of the archive to something below it, wherever it is read. -/
structure SafeName (n : ByteString) : Prop where
  segments : ∀ segment ∈ n.splitOn (byte '/'),
    segment ≠ [] ∧ segment ≠ [byte '.'] ∧ segment ≠ [byte '.', byte '.']
  relative : n.head? ≠ some (byte '/')
  portable : byte '\\' ∉ n ∧ byte ':' ∉ n ∧ 0 ∉ n

section Names

variable {n : ByteString}

theorem validPath_iff (other : n ≠ [byte '.']) (valid : ValidPath n = true) :
    ∀ segment ∈ n.splitOn (byte '/'),
      segment ≠ [] ∧ segment ≠ [byte '.'] ∧ segment ≠ [byte '.', byte '.'] := by
  intro segment mem
  unfold ValidPath at valid
  rw [decide_eq_false other, Bool.false_or, Bool.and_eq_true, List.all_eq_true] at valid
  have all := valid.2 segment mem
  rw [Bool.and_eq_true, Bool.and_eq_true, decide_eq_true_eq, decide_eq_true_eq,
    decide_eq_true_eq] at all
  exact ⟨all.1.1, all.1.2, all.2⟩

theorem not_safeName_dot : ¬SafeName [byte '.'] :=
  fun safe => (safe.segments [byte '.'] (by decide)).2.1 rfl

theorem safeName_iff (passes : isUnsafe n = false) : SafeName n ↔ n ≠ [byte '.'] := by
  constructor
  · rintro safe rfl
    exact not_safeName_dot safe
  · intro other
    simp only [isUnsafe, Bool.or_eq_false_iff, decide_eq_false_iff_not, Bool.not_eq_false'] at passes
    obtain ⟨⟨⟨⟨⟨⟨-, letters⟩, relative⟩, -⟩, -⟩, -⟩, valid⟩ := passes
    rw [List.any_eq_false] at letters
    refine ⟨validPath_iff other valid, relative, ?_, ?_, ?_⟩
    · exact fun mem => letters _ mem (by simp)
    · exact fun mem => letters _ mem (by simp)
    · exact fun mem => letters _ mem (by simp)

end Names

/-! ### One entry -/

/-- The modes that no file has. -/
def specialModes : List UInt32 := [ModeSymlink, ModeDevice, ModeNamedPipe, ModeSocket]

theorem and_eq_zero_of_or {mode a b : UInt32} (none : mode &&& (a ||| b) = 0) :
    mode &&& a = 0 ∧ mode &&& b = 0 := by
  have parts : mode &&& (a ||| b) = (mode &&& a) ||| (mode &&& b) := by
    rw [← UInt32.toBitVec_inj, UInt32.toBitVec_and, UInt32.toBitVec_or, UInt32.toBitVec_or,
      UInt32.toBitVec_and, UInt32.toBitVec_and, BitVec.and_or_distrib_left]
  rw [parts, UInt32.or_eq_zero_iff] at none
  exact none

structure Passes (f : File) : Prop where
  unsafe' : isUnsafe (trimSuffix f.name) = false
  ordinary : ∀ special ∈ specialModes, f.Mode &&& special = 0

section Entries

variable {limits : Limits} {s t : Accepting} {f : File}

theorem readEntry_ok (ok : readEntry limits s f = .ok t) :
    Passes f ∧ (f.IsDir = true ∧ t = s ∨
      f.IsDir = false ∧ trimSuffix f.name ∉ s.files.map Prod.fst ∧
        f.uncompressedSize64 ≤ limits.fileBytes ∧
        f.uncompressedSize64 ≤ limits.totalBytes - s.total ∧
        t = ⟨s.total + f.uncompressedSize64, s.files ++ [(trimSuffix f.name, f)]⟩) := by
  unfold readEntry at ok
  dsimp only at ok
  split at ok
  · cases ok
  split at ok
  · cases ok
  next passes =>
  split at ok
  · cases ok
  next ordinary =>
  have modes : ∀ special ∈ specialModes, f.Mode &&& special = 0 := by
    rw [not_not] at ordinary
    obtain ⟨ordinary, socket⟩ := and_eq_zero_of_or ordinary
    obtain ⟨ordinary, pipe⟩ := and_eq_zero_of_or ordinary
    obtain ⟨link, device⟩ := and_eq_zero_of_or ordinary
    simp [specialModes, link, device, pipe, socket]
  refine ⟨⟨Bool.eq_false_iff.mpr passes, modes⟩, ?_⟩
  split at ok
  next directory =>
    injection ok with ok
    exact .inl ⟨directory, ok.symm⟩
  next file =>
  split at ok
  · cases ok
  next unknown =>
  split at ok
  · cases ok
  next fits =>
  rw [not_or, gt_iff_lt, gt_iff_lt, UInt64.not_lt, UInt64.not_lt] at fits
  injection ok with ok
  exact .inr ⟨Bool.eq_false_iff.mpr file, unknown, fits.1, fits.2, ok.symm⟩

/-! ### The loop -/

def exactSize (files : List (ByteString × File)) : Nat :=
  (files.map fun entry => entry.2.uncompressedSize64.toNat).sum

/-- What holds in front of every entry. -/
structure Inv (limits : Limits) (s : Accepting) : Prop where
  distinct : (s.files.map Prod.fst).Nodup
  sizes : ∀ entry ∈ s.files, entry.2.uncompressedSize64 ≤ limits.fileBytes
  bounded : s.total ≤ limits.totalBytes
  exact' : s.total.toNat = exactSize s.files
  known : ∀ entry ∈ s.files, Passes entry.2 ∧ entry.1 = trimSuffix entry.2.name

theorem inv_start : Inv limits ⟨0, []⟩ := by
  refine ⟨List.nodup_nil, ?_, UInt64.zero_le, rfl, ?_⟩
  · intro entry mem
    cases mem
  · intro entry mem
    cases mem

/-- What is left of the limit is enough for the size: nothing goes around. -/
theorem toNat_add_of_le_sub {total limit size : UInt64} (bounded : total ≤ limit)
    (fits : size ≤ limit - total) :
    (total + size).toNat = total.toNat + size.toNat ∧ total + size ≤ limit := by
  rw [UInt64.le_iff_toNat_le] at bounded fits
  rw [UInt64.toNat_sub_of_le _ _ (UInt64.le_iff_toNat_le.mpr bounded)] at fits
  have small := limit.toNat_lt
  have sum : (total + size).toNat = total.toNat + size.toNat := by
    rw [UInt64.toNat_add, Nat.mod_eq_of_lt (by omega)]
  refine ⟨sum, ?_⟩
  rw [UInt64.le_iff_toNat_le, sum]
  omega

theorem Inv.step (inv : Inv limits s) (ok : readEntry limits s f = .ok t) : Inv limits t := by
  obtain ⟨passes, ⟨-, rfl⟩ | ⟨-, unknown, small, fits, rfl⟩⟩ := readEntry_ok ok
  · exact inv
  · obtain ⟨sum, bounded⟩ := toNat_add_of_le_sub inv.bounded fits
    refine ⟨?_, ?_, bounded, ?_, ?_⟩
    · rw [List.map_append, List.map_singleton, List.nodup_append]
      refine ⟨inv.distinct, List.nodup_singleton _, ?_⟩
      intro n known m new same
      rw [List.mem_singleton.mp new] at same
      rw [same] at known
      exact unknown known
    · intro entry mem
      rcases List.mem_append.mp mem with mem | mem
      · exact inv.sizes entry mem
      · rw [List.mem_singleton.mp mem]
        exact small
    · rw [sum, inv.exact']
      simp [exactSize]
    · intro entry mem
      rcases List.mem_append.mp mem with mem | mem
      · exact inv.known entry mem
      · rw [List.mem_singleton.mp mem]
        exact ⟨passes, rfl⟩

end Entries
theorem readEntries_inv {limits : Limits} {entries : List File} {s : Accepting}
    (ok : readEntries limits entries = .ok s) : Inv limits s := by
  induction entries using List.reverseRecOn generalizing s with
  | nil =>
      injection ok with ok
      rw [← ok]
      exact inv_start
  | append_singleton entries f ih =>
      rw [readEntries, List.foldlM_append] at ok
      obtain ⟨before, first, last⟩ := Fallible.bind_ok.mp ok
      obtain ⟨after, last, done⟩ := Fallible.bind_ok.mp last
      injection done with done
      rw [← done]
      exact (ih first).step last

theorem readEntries_mem {limits : Limits} {entries : List File} {s : Accepting}
    (ok : readEntries limits entries = .ok s) :
    (∀ f ∈ entries, Passes f) ∧
      ∀ entry, entry ∈ s.files ↔ ∃ f ∈ entries, f.IsDir = false ∧ entry = (trimSuffix f.name, f) := by
  induction entries using List.reverseRecOn generalizing s with
  | nil =>
      injection ok with ok
      rw [← ok]
      simp
  | append_singleton entries f ih =>
      rw [readEntries, List.foldlM_append] at ok
      obtain ⟨before, first, last⟩ := Fallible.bind_ok.mp ok
      obtain ⟨after, last, done⟩ := Fallible.bind_ok.mp last
      injection done with done
      rw [← done]
      obtain ⟨all, files⟩ := ih first
      obtain ⟨passes, result⟩ := readEntry_ok last
      refine ⟨?_, fun entry => ?_⟩
      · intro g mem
        rcases List.mem_append.mp mem with mem | mem
        · exact all g mem
        · rw [List.mem_singleton.mp mem]
          exact passes
      · rcases result with ⟨directory, rfl⟩ | ⟨file, -, -, -, rfl⟩
        · rw [files]
          simp [directory, or_and_right, exists_or]
        · rw [List.mem_append, files]
          simp [file, or_and_right, exists_or]

/-! ### The result -/

/-- What is promised of the files of an accepted archive. -/
structure Accepted (limits : Limits) (files : List (ByteString × File)) : Prop where
  distinct : (files.map Prod.fst).Nodup
  safe : ∀ entry ∈ files, SafeName entry.1
  sizes : ∀ entry ∈ files, entry.2.uncompressedSize64 ≤ limits.fileBytes
  sum : exactSize files ≤ limits.totalBytes.toNat
  ordinary : ∀ entry ∈ files, ∀ special ∈ specialModes, entry.2.Mode &&& special = 0

theorem readEntries_of_read {entries : List File} {limits : Limits} {files : List (ByteString × File)}
    (ok : Read (.ok entries) limits = .ok files) :
    ∃ s, readEntries limits entries = .ok s ∧ s.files = files := by
  unfold Read at ok
  dsimp only at ok
  split at ok
  · cases ok
  · cases read : readEntries limits entries with
    | error e =>
        rw [read] at ok
        cases ok
    | ok s =>
        rw [read] at ok
        injection ok with ok
        exact ⟨s, rfl, ok⟩

theorem bytes_spec {f : File} {limit : Int64} {b : ByteString} (ok : Bytes f limit = .ok b) :
    (b.length : Int) ≤ limit.toInt ∧ b.length = f.uncompressedSize64.toNat := by
  unfold Bytes at ok
  obtain ⟨r, -, ok⟩ := Fallible.bind_ok.mp ok
  obtain ⟨b', -, ok⟩ := Fallible.bind_ok.mp ok
  split at ok
  · cases ok
  next fits =>
    rw [not_or, not_not] at fits
    injection ok with ok
    rw [← ok]
    exact ⟨Int.not_lt.mp fits.1, fits.2⟩

/-- An accepted archive is what is promised exactly when no file in it is called `.`; the sum in
the loop is the exact one throughout, and what is read of an entry is as long as declared. -/
theorem read_iff (entries : List File) (limits : Limits) (files : List (ByteString × File))
    (ok : Read (.ok entries) limits = .ok files) :
    (Accepted limits files ↔ ∀ f ∈ entries, f.IsDir = false → trimSuffix f.name ≠ [byte '.']) ∧
    (∀ front back s, entries = front ++ back → readEntries limits front = .ok s →
      s.total.toNat = exactSize s.files ∧ s.total ≤ limits.totalBytes) ∧
    ∀ f limit b, Bytes f limit = .ok b →
      (b.length : Int) ≤ limit.toInt ∧ b.length = f.uncompressedSize64.toNat := by
  obtain ⟨s, read, rfl⟩ := readEntries_of_read ok
  have inv := readEntries_inv read
  obtain ⟨passes, mem⟩ := readEntries_mem read
  refine ⟨⟨fun accepted f known file => ?_, fun named => ?_⟩, ?_, fun f limit b => bytes_spec⟩
  · exact (safeName_iff (passes f known).unsafe').mp
      (accepted.safe _ ((mem _).mpr ⟨f, known, file, rfl⟩))
  · refine ⟨inv.distinct, ?_, inv.sizes, ?_, fun entry known => (inv.known entry known).1.ordinary⟩
    · intro entry there
      obtain ⟨f, known, file, rfl⟩ := (mem entry).mp there
      exact (safeName_iff (passes f known).unsafe').mpr (named f known file)
    · rw [← inv.exact', ← UInt64.le_iff_toNat_le]
      exact inv.bounded
  · intro front back s' _ first
    have inv' := readEntries_inv first
    exact ⟨inv'.exact', inv'.bounded⟩

/-! ### The single dot -/

def article (name : String) : File where
  name := name.toUTF8.toList
  attributes := 0
  uncompressedSize64 := 3
  opened := .ok ⟨[1, 2, 3], none⟩

def importLimits : Limits := ⟨5000, (256 : UInt64) <<< 20, (20 : UInt64) <<< 20⟩

theorem read_of_isOk {entries : List File} {limits : Limits}
    (ok : (Read (.ok entries) limits).toBool = true) : ∃ files, Read (.ok entries) limits = .ok files := by
  cases read : Read (.ok entries) limits with
  | error e =>
      rw [read] at ok
      cases ok
  | ok files => exact ⟨files, rfl⟩

theorem read_iff_article : ∃ files,
    Read (.ok [article "posts/", article "posts/a.md"]) importLimits = .ok files ∧
      Accepted importLimits files := by
  obtain ⟨files, ok⟩ := read_of_isOk
    (show (Read (.ok [article "posts/", article "posts/a.md"]) importLimits).toBool = true by
      decide +kernel)
  refine ⟨files, ok, (read_iff _ importLimits files ok).1.mpr ?_⟩
  decide +kernel

theorem dot_accepted : ∃ files, Read (.ok [article "."]) importLimits = .ok files ∧
    ([byte '.'], article ".") ∈ files ∧ ¬Accepted importLimits files := by
  obtain ⟨files, ok⟩ := read_of_isOk
    (show (Read (.ok [article "."]) importLimits).toBool = true by decide +kernel)
  obtain ⟨s, read, rfl⟩ := readEntries_of_read ok
  have there : ([byte '.'], article ".") ∈ s.files :=
    ((readEntries_mem read).2 _).mpr ⟨_, List.mem_singleton_self _, by decide +kernel, by
      rw [show trimSuffix (article ".").name = [byte '.'] by decide +kernel]⟩
  exact ⟨s.files, ok, there, fun accepted => not_safeName_dot (accepted.safe _ there)⟩

end Memos.SafeArchive
