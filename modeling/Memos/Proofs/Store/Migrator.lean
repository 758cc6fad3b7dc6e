/-
Scripts in the order of their paths.

Paths are compared as texts and versions as numbers.  Two numbers of equally many digits
are in the same order both ways, and so are two paths if that is so of their major, minor
and patch numbers.  Nothing else follows from the order of paths: a directory `0.100`
comes before `0.99`.
-/
import Memos.Store.Migrator
import Mathlib.Tactic.Linarith

namespace Memos.Store

/-! ### Numbers of equally many digits -/

section Digits

theorem numeral_cons (c : Char) (digits : Text) :
    numeral (c :: digits) = 10 ^ digits.length * (c.toNat - '0'.toNat) + numeral digits := by
  unfold numeral
  rw [Nat.ofDigitChars_cons, Nat.ofDigitChars_eq_ofDigitChars_zero, Nat.mul_zero, Nat.zero_add]

theorem digit_range {c : Char} (digit : c.isDigit = true) : 48 ≤ c.toNat ∧ c.toNat ≤ 57 := by
  unfold Char.isDigit at digit
  rw [Bool.and_eq_true, decide_eq_true_eq, decide_eq_true_eq] at digit
  exact ⟨digit.1, digit.2⟩

theorem numeral_bound {digits : Text} (all : ∀ c ∈ digits, c.isDigit = true) :
    numeral digits < 10 ^ digits.length := by
  induction digits with
  | nil => decide
  | cons c digits ih =>
      have rest := ih fun d hd => all d (List.mem_cons_of_mem c hd)
      have here := (digit_range (all c List.mem_cons_self)).2
      have value : c.toNat - '0'.toNat ≤ 9 := by
        show c.toNat - 48 ≤ 9
        omega
      rw [numeral_cons, List.length_cons, pow_succ]
      nlinarith [Nat.mul_le_mul_left (10 ^ digits.length) value]

/-- Of two numbers with equally many digits, the one that is written first is less. -/
theorem numeral_lt_of_lt {a b : Text} (len : a.length = b.length)
    (digitsA : ∀ c ∈ a, c.isDigit = true) (digitsB : ∀ c ∈ b, c.isDigit = true) (less : a < b) :
    numeral a < numeral b := by
  induction a generalizing b with
  | nil =>
      rw [List.eq_nil_of_length_eq_zero len.symm] at less
      exact absurd less (List.lt_irrefl [])
  | cons c a ih =>
      cases b with
      | nil => cases len
      | cons d b =>
          have lens : a.length = b.length := Nat.succ.inj len
          have restA : ∀ c ∈ a, c.isDigit = true := fun x hx => digitsA x (List.mem_cons_of_mem c hx)
          have restB : ∀ c ∈ b, c.isDigit = true := fun x hx => digitsB x (List.mem_cons_of_mem d hx)
          rw [numeral_cons, numeral_cons, ← lens]
          rcases List.cons_lt_cons_iff.mp less with first | ⟨rfl, rest⟩
          · have low := (digit_range (digitsA c List.mem_cons_self)).1
            have ahead : c.toNat - '0'.toNat + 1 ≤ d.toNat - '0'.toNat := by
              have first : c.toNat < d.toNat := first
              show c.toNat - 48 + 1 ≤ d.toNat - 48
              omega
            have bound := numeral_bound restA
            have far := Nat.mul_le_mul_left (10 ^ a.length) ahead
            rw [Nat.mul_add, Nat.mul_one] at far
            omega
          · have further := ih lens restA restB rest
            omega

end Digits

/-! ### Texts in parts -/

theorem cons_le_cons_iff {x y : Char} {a b : Text} : x :: a ≤ y :: b ↔ x < y ∨ x = y ∧ a ≤ b := by
  rw [le_iff_lt_or_eq, le_iff_lt_or_eq, List.cons.injEq]
  show x :: a < y :: b ∨ _ ↔ _
  rw [List.cons_lt_cons_iff]
  constructor
  · rintro ((first | ⟨same, less⟩) | ⟨same, rest⟩)
    · exact .inl first
    · exact .inr ⟨same, .inl less⟩
    · exact .inr ⟨same, .inr rest⟩
  · rintro (first | ⟨same, less | rest⟩)
    · exact .inl (.inl first)
    · exact .inl (.inr ⟨same, less⟩)
    · exact .inr ⟨same, rest⟩

/-- Texts that begin with parts of one length are compared by these first. -/
theorem lt_or_of_append_le {a b c d : Text} (len : a.length = b.length) (h : a ++ c ≤ b ++ d) :
    a < b ∨ a = b ∧ c ≤ d := by
  induction a generalizing b with
  | nil =>
      rw [List.eq_nil_of_length_eq_zero len.symm] at h ⊢
      exact .inr ⟨rfl, h⟩
  | cons x a ih =>
      cases b with
      | nil => cases len
      | cons y b =>
          rcases cons_le_cons_iff.mp h with first | ⟨rfl, rest⟩
          · exact .inl (List.cons_lt_cons_iff.mpr (.inl first))
          · rcases ih (Nat.succ.inj len) rest with less | ⟨rfl, after⟩
            · exact .inl (List.cons_lt_cons_iff.mpr (.inr ⟨rfl, less⟩))
            · exact .inr ⟨rfl, after⟩

theorem le_of_cons_le {x : Char} {a b : Text} (h : x :: a ≤ x :: b) : a ≤ b := by
  rcases cons_le_cons_iff.mp h with less | ⟨-, rest⟩
  · exact absurd less (lt_irrefl x)
  · exact rest

theorem digits_of_toDigits {n : Nat} : ∀ c ∈ Nat.toDigits 10 n, c.isDigit = true :=
  fun _ member => Nat.isDigit_of_mem_toDigits (by decide) (by decide) member

/-! ### Names with numbers -/

/-- The file is `<major>.<minor>/<patch>__<description>`, with numbers of any length. -/
structure MigrationFile.Named (file : MigrationFile) (major minor : Nat) (patch : Text) : Prop where
  directory : file.directory = Nat.toDigits 10 major ++ '.' :: Nat.toDigits 10 minor
  name : ∃ description, file.name = patch ++ '_' :: '_' :: description
  nonempty : patch ≠ []
  digits : ∀ c ∈ patch, c.isDigit = true
  fits : numeral patch < 9223372036854775807

theorem splitFileName_append {patch : Text} (digits : ∀ c ∈ patch, c.isDigit = true)
    (description : Text) :
    splitFileName (patch ++ '_' :: '_' :: description) = (patch, some description) := by
  induction patch with
  | nil => rfl
  | cons c patch ih =>
      have digit := digits c List.mem_cons_self
      have rest := ih fun d hd => digits d (List.mem_cons_of_mem c hd)
      rw [List.cons_append, splitFileName, rest]
      intro _ mark
      rw [mark] at digit
      exact absurd digit (by decide)

theorem Atoi_of_digits {patch : Text} (nonempty : patch ≠ [])
    (digits : ∀ c ∈ patch, c.isDigit = true) (fits : numeral patch < 9223372036854775808) :
    Atoi patch = some (numeral patch) := by
  cases patch with
  | nil => exact absurd rfl nonempty
  | cons c rest =>
      have digit := digits c List.mem_cons_self
      have all : (c :: rest).all Char.isDigit = true := List.all_eq_true.mpr digits
      have unsigned : ∀ sign : Char, sign.isDigit = false → c ≠ sign := by
        rintro sign none rfl
        rw [digit] at none
        cases none
      unfold Atoi
      split
      rename_i negative ds parts
      split at parts
      · rename_i same
        injection same with first
        exact absurd first (unsigned '-' (by decide))
      · rename_i same
        injection same with first
        exact absurd first (unsigned '+' (by decide))
      · injection parts with positive whole
        rw [← positive, ← whole, all]
        simp only [reduceCtorEq, Bool.not_true, decide_false, Bool.or_false, Bool.false_eq_true,
          if_false]
        exact if_pos fits

section Versions

variable {m : MigrationFiles} {file : MigrationFile} {major minor : Nat} {patch : Text}

/-- Every version is read before the greatest is known. -/
theorem version_of_fold {latest : Except String Text} {files : List MigrationFile}
    {start target : Text}
    (h : files.foldlM (fun current file => do
        let version ← MigrationFiles.getSchemaVersionOfMigrateScript latest file
        return if m.IsVersionGreaterThan version current then version else current) start
      = .ok target) {file : MigrationFile} (member : file ∈ files) :
    ∃ version, MigrationFiles.getSchemaVersionOfMigrateScript latest file = .ok version := by
  induction files generalizing start with
  | nil => cases member
  | cons first files ih =>
      rw [List.foldlM_cons] at h
      cases version : MigrationFiles.getSchemaVersionOfMigrateScript latest first with
      | error e =>
          rw [version] at h
          cases h
      | ok v =>
          rw [version] at h
          rcases List.mem_cons.mp member with rfl | later
          · exact ⟨v, version⟩
          · exact ih h later

/-- No script has the name of the latest schema: its version would be asked for to find it. -/
theorem notLatest_of_current {target : Text} (current : m.GetCurrentSchemaVersion = .ok target)
    (member : file ∈ m.files) : LatestSchemaFileName.isSuffixOf file.name = false := by
  cases latest : LatestSchemaFileName.isSuffixOf file.name with
  | false => rfl
  | true =>
      have never : ∀ depth v, m.currentSchemaVersionWithin depth ≠ .ok v := by
        intro depth
        induction depth with
        | zero => exact fun v h => nomatch h
        | succ depth ih =>
            intro v h
            obtain ⟨u, version⟩ := version_of_fold h member
            unfold MigrationFiles.getSchemaVersionOfMigrateScript at version
            rw [if_pos latest] at version
            exact ih u version
      exact absurd current (never 2 target)

theorem schemaVersionOf_of_named (named : file.Named major minor patch)
    (plain : LatestSchemaFileName.isSuffixOf file.name = false) :
    m.schemaVersionOf file = .ok (Nat.toDigits 10 major ++ '.' :: Nat.toDigits 10 minor
      ++ '.' :: Nat.toDigits 10 (numeral patch + 1)) := by
  obtain ⟨description, name⟩ := named.name
  have fits := named.fits
  unfold MigrationFiles.schemaVersionOf MigrationFiles.getSchemaVersionOfMigrateScript
  rw [if_neg (by rw [plain]; exact Bool.false_ne_true), name,
    splitFileName_append named.digits description,
    Atoi_of_digits named.nonempty named.digits (by omega), named.directory]
  have small : ((numeral patch : Int) + 1).bmod 18446744073709551616 = .ofNat (numeral patch + 1) := by
    rw [Int.bmod_eq_of_le (by omega) (by omega)]
    rfl
  show Except.ok (_ ++ '.' :: decimal (((numeral patch : Int) + 1).bmod 18446744073709551616)) = _
  rw [small]
  rfl

end Versions

/-! ### The order of versions -/

/-- The numbers of a version are compared one after the other. -/
def Earlier (v w : Nat × Nat × Nat) : Prop :=
  v.1 < w.1 ∨ v.1 = w.1 ∧ (v.2.1 < w.2.1 ∨ v.2.1 = w.2.1 ∧ v.2.2 < w.2.2)

instance (v w : Nat × Nat × Nat) : Decidable (Earlier v w) :=
  inferInstanceAs (Decidable (_ ∨ _))

def versionText (v : Nat × Nat × Nat) : Text :=
  'v' :: (Nat.toDigits 10 v.1 ++ '.' :: Nat.toDigits 10 v.2.1 ++ '.' :: Nat.toDigits 10 v.2.2)

/-- What the comparison of versions is documented to do. -/
structure Semver (compare : Text → Text → Int) : Prop where
  numbers : ∀ v w, 0 < compare (versionText v) (versionText w) ↔ Earlier w v
  antisymm : ∀ v w, compare v w = -compare w v
  trans : ∀ u v w, 0 ≤ compare u v → 0 ≤ compare v w → 0 ≤ compare u w

/-- Paths with equally many digits are in the order of their versions. -/
theorem not_earlier_of_path_le {f g : MigrationFile} {major minor major' minor' : Nat}
    {patch patch' : Text} (named : f.Named major minor patch) (named' : g.Named major' minor' patch')
    (majors : (Nat.toDigits 10 major).length = (Nat.toDigits 10 major').length)
    (minors : (Nat.toDigits 10 minor).length = (Nat.toDigits 10 minor').length)
    (patches : patch.length = patch'.length) (h : f.path ≤ g.path) :
    ¬Earlier (major', minor', numeral patch' + 1) (major, minor, numeral patch + 1) := by
  have number : ∀ n, numeral (Nat.toDigits 10 n) = n := fun _ => Nat.ofDigitChars_ten_toDigits
  obtain ⟨description, name⟩ := named.name
  obtain ⟨description', name'⟩ := named'.name
  unfold MigrationFile.path at h
  rw [named.directory, named'.directory, name, name', List.append_assoc, List.append_assoc] at h
  unfold Earlier
  dsimp only
  rcases lt_or_of_append_le majors h with less | ⟨same, h⟩
  · have less := numeral_lt_of_lt majors digits_of_toDigits digits_of_toDigits less
    rw [number, number] at less
    omega
  · have majorSame := congrArg numeral same
    rw [number, number] at majorSame
    have h := le_of_cons_le h
    rcases lt_or_of_append_le minors h with less | ⟨same, h⟩
    · have less := numeral_lt_of_lt minors digits_of_toDigits digits_of_toDigits less
      rw [number, number] at less
      omega
    · have minorSame := congrArg numeral same
      rw [number, number] at minorSame
      have h := le_of_cons_le h
      rcases lt_or_of_append_le patches h with less | ⟨same, -⟩
      · have less := numeral_lt_of_lt patches named.digits named'.digits less
        omega
      · rw [same]
        omega

/-! ### The scripts that are selected -/

section Selection

variable {m : MigrationFiles} {spaceAvatarExists : Bool} {current target : Text}

/-- Whether a script is executed on the way from one version to another. -/
def MigrationFiles.applies (m : MigrationFiles) (spaceAvatarExists : Bool) (current target : Text)
    (file : MigrationFile) : Bool :=
  match m.schemaVersionOf file with
  | .ok version =>
      m.shouldApplyMigration version current target && !(spaceAvatarExists && isSpaceAvatar file)
  | .error _ => false

def MigrationFiles.selected (m : MigrationFiles) (spaceAvatarExists : Bool) (current target : Text) :
    List MigrationFile :=
  m.sortedFiles.filter (m.applies spaceAvatarExists current target)

theorem schemaVersionOf_ok {file : MigrationFile} (known : m.GetCurrentSchemaVersion = .ok target)
    (member : file ∈ m.files) : ∃ version, m.schemaVersionOf file = .ok version := by
  obtain ⟨version, read⟩ := version_of_fold known member
  refine ⟨version, ?_⟩
  have plain := notLatest_of_current known member
  unfold MigrationFiles.schemaVersionOf MigrationFiles.getSchemaVersionOfMigrateScript at *
  rw [plain] at read ⊢
  exact read

theorem migrationsBetween_eq (versions : ∀ file ∈ m.files, ∃ version, m.schemaVersionOf file = .ok version) :
    m.migrationsBetween spaceAvatarExists current target
      = (m.selected spaceAvatarExists current target).map .ok := by
  have known : ∀ file ∈ m.sortedFiles, ∃ version, m.schemaVersionOf file = .ok version :=
    fun file member => versions file ((List.mem_insertionSort _).mp member)
  unfold MigrationFiles.migrationsBetween MigrationFiles.selected
  revert known
  generalize m.sortedFiles = sorted
  intro known
  induction sorted with
  | nil => rfl
  | cons file sorted ih =>
      obtain ⟨v, version⟩ := known file List.mem_cons_self
      have rest := ih fun f hf => known f (List.mem_cons_of_mem file hf)
      have here : m.applies spaceAvatarExists current target file
          = (m.shouldApplyMigration v current target
            && !(spaceAvatarExists && MigrationFiles.isSpaceAvatar file)) := by
        unfold MigrationFiles.applies
        rw [version]
      rw [List.filterMap_cons, List.filter_cons, version, here, rest]
      dsimp only
      cases m.shouldApplyMigration v current target with
      | false => rfl
      | true =>
          cases spaceAvatarExists && MigrationFiles.isSpaceAvatar file with
          | true => rfl
          | false => rfl

theorem mem_selected {file : MigrationFile} : file ∈ m.selected spaceAvatarExists current target ↔
    file ∈ m.files ∧ m.applies spaceAvatarExists current target file = true := by
  unfold MigrationFiles.selected MigrationFiles.sortedFiles
  rw [List.mem_filter, List.mem_insertionSort]

theorem nodup_selected : (m.selected spaceAvatarExists current target).Nodup := by
  have sorted : m.sortedFiles.Nodup := (List.perm_insertionSort _ m.files).nodup_iff.mpr m.distinct
  exact sorted.filter _

theorem pairwise_selected :
    (m.selected spaceAvatarExists current target).Pairwise fun f g => f.path ≤ g.path := by
  have total : Std.Total fun f g : MigrationFile => f.path ≤ g.path :=
    ⟨fun f g => le_total f.path g.path⟩
  have trans : IsTrans MigrationFile fun f g => f.path ≤ g.path := ⟨fun _ _ _ => le_trans⟩
  exact (List.pairwise_insertionSort _ m.files).filter _

theorem ordered_selected (semver : Semver m.compare)
    (plain : ∀ file ∈ m.files, LatestSchemaFileName.isSuffixOf file.name = false) :
    (m.selected spaceAvatarExists current target).Pairwise fun f g =>
      ∀ major minor patch major' minor' patch', f.Named major minor patch →
        g.Named major' minor' patch' →
        (Nat.toDigits 10 major).length = (Nat.toDigits 10 major').length →
        (Nat.toDigits 10 minor).length = (Nat.toDigits 10 minor').length →
        patch.length = patch'.length →
        ∃ v w, m.schemaVersionOf f = .ok v ∧ m.schemaVersionOf g = .ok w ∧
          m.IsVersionGreaterThan v w = false := by
  refine pairwise_selected.imp_of_mem fun {f g} hf hg le => ?_
  intro major minor patch major' minor' patch' named named' majors minors patches
  refine ⟨_, _, schemaVersionOf_of_named named (plain f (mem_selected.mp hf).1),
    schemaVersionOf_of_named named' (plain g (mem_selected.mp hg).1), ?_⟩
  have notEarlier := not_earlier_of_path_le named named' majors minors patches le
  refine decide_eq_false fun greater => notEarlier ?_
  exact (semver.numbers (major, minor, numeral patch + 1) (major', minor', numeral patch' + 1)).mp greater

end Selection

/-! ### A comparison -/

/-- The numbers between the full stops of a text, the first of which has begun. -/
def versionNumbers : Text → Nat → List Nat
  | [], n => [n]
  | c :: rest, n =>
      if c = '.' then n :: versionNumbers rest 0
      else versionNumbers rest (10 * n + (c.toNat - '0'.toNat))

def versionCompare (v w : Text) : Int :=
  if versionNumbers v.tail 0 < versionNumbers w.tail 0 then -1
  else if versionNumbers w.tail 0 < versionNumbers v.tail 0 then 1 else 0

theorem versionNumbers_append {digits : Text} (all : ∀ c ∈ digits, c.isDigit = true) (rest : Text)
    (n : Nat) :
    versionNumbers (digits ++ rest) n = versionNumbers rest (Nat.ofDigitChars 10 digits n) := by
  induction digits generalizing n with
  | nil => rw [List.nil_append, Nat.ofDigitChars_nil]
  | cons c digits ih =>
      have digit := all c List.mem_cons_self
      have notStop : c ≠ '.' := by
        rintro rfl
        exact absurd digit (by decide)
      rw [List.cons_append, versionNumbers, if_neg notStop, Nat.ofDigitChars_cons]
      exact ih (fun d hd => all d (List.mem_cons_of_mem c hd)) _

theorem versionNumbers_versionText (v : Nat × Nat × Nat) :
    versionNumbers (versionText v).tail 0 = [v.1, v.2.1, v.2.2] := by
  have part : ∀ n rest, versionNumbers (Nat.toDigits 10 n ++ '.' :: rest) 0
      = n :: versionNumbers rest 0 := by
    intro n rest
    rw [versionNumbers_append digits_of_toDigits, Nat.ofDigitChars_ten_toDigits, versionNumbers,
      if_pos rfl]
  show versionNumbers (_ ++ '.' :: _ ++ '.' :: _) 0 = _
  rw [List.append_assoc, List.cons_append, part, part]
  have last := versionNumbers_append (digits_of_toDigits (n := v.2.2)) [] 0
  rw [List.append_nil, Nat.ofDigitChars_ten_toDigits] at last
  rw [last]
  rfl

theorem semver_versionCompare : Semver versionCompare where
  numbers v w := by
    unfold versionCompare
    rw [versionNumbers_versionText, versionNumbers_versionText]
    have order : [w.1, w.2.1, w.2.2] < [v.1, v.2.1, v.2.2] ↔ Earlier w v := by
      show [w.1, w.2.1, w.2.2] < [v.1, v.2.1, v.2.2] ↔ _
      simp only [List.cons_lt_cons_iff, List.lt_irrefl, and_false, or_false]
      exact Iff.rfl
    rw [← order]
    split
    · rename_i less
      exact ⟨fun h => absurd h (by decide), fun more => absurd less (lt_asymm more)⟩
    · split
      · rename_i more
        exact ⟨fun _ => more, fun _ => by decide⟩
      · rename_i notMore
        exact ⟨fun h => absurd h (by decide), fun more => absurd more notMore⟩
  antisymm v w := by
    unfold versionCompare
    split
    · rename_i less
      rw [if_neg (lt_asymm less)]
    · split
      · rfl
      · rfl
  trans u v w := by
    have nonneg : ∀ a b, 0 ≤ versionCompare a b ↔ versionNumbers b.tail 0 ≤ versionNumbers a.tail 0 := by
      intro a b
      unfold versionCompare
      split
      · rename_i less
        exact ⟨fun h => absurd h (by decide), fun h => absurd less (not_lt.mpr h)⟩
      · rename_i notLess
        split
        · exact ⟨fun _ => not_lt.mp notLess, fun _ => by decide⟩
        · exact ⟨fun _ => not_lt.mp notLess, fun _ => le_refl 0⟩
    rw [nonneg, nonneg, nonneg]
    exact fun first second => le_trans second first

end Memos.Store

/-
What `Migrate` executes.

On a database with a schema it executes the scripts of a repair and then those that are
selected, and nothing else adds to what has been executed.
-/

namespace Memos.Store.Migrator

open Durable Process

variable {σ : Type} {m : Migrator σ} {db before after : MigratedDatabase σ}

/-! ### Scripts in a transaction -/

theorem executeAll_spec {scripts : List (Except String MigrationFile)}
    (h : m.executeAll scripts before = .ok after) :
    ∃ files : List MigrationFile, scripts = files.map .ok ∧
      after = { before with
        schema := after.schema, executed := before.executed ++ files.map .file } := by
  induction scripts generalizing before with
  | nil =>
      injection h with h
      refine ⟨[], rfl, ?_⟩
      rw [← h, List.map_nil, List.append_nil]
  | cons script scripts ih =>
      unfold executeAll at h
      rw [List.foldlM_cons] at h
      cases script with
      | error e => cases h
      | ok file =>
          cases executed : m.executeScript before (.file file) with
          | error e =>
              rw [show (Except.ok file).bind (fun file => m.executeScript before (.file file))
                = .error e from executed] at h
              cases h
          | ok middle =>
              rw [show (Except.ok file).bind (fun file => m.executeScript before (.file file))
                = .ok middle from executed] at h
              obtain ⟨files, rfl, same⟩ := ih h
              refine ⟨file :: files, rfl, ?_⟩
              unfold executeScript at executed
              split at executed
              · injection executed with executed
                rw [same, ← executed]
                dsimp only
                rw [List.append_assoc]
                rfl
              · cases executed

/-! ### What is kept after the scripts -/

/-- A relation that every write after the scripts keeps. -/
structure Frame (m : Migrator σ) (R : MigratedDatabase σ → MigratedDatabase σ → Prop) : Prop where
  ledger : ∀ db rows, (∀ name ∈ db.ledger.getD [], name ∈ rows) → R db { db with ledger := some rows }
  statement : ∀ db statement schema, m.runPlus db.schema statement = .ok schema →
    R db { db with schema }
  settings : ∀ db seeded access, R db { db with seeded, access }

section Frame

variable {R : MigratedDatabase σ → MigratedDatabase σ → Prop} [IsPreorder (MigratedDatabase σ) R] (frame : Frame m R)
include frame

theorem Frame.recordPlus (fresh : Bool) (name : Text) : Keeps R (recordPlus (σ := σ) fresh name) := by
  refine keeps_write fun a b h => ?_
  split at h
  · cases h
  · rename_i rows stored
    split at h
    · cases h
    · injection h with h
      rw [← h]
      refine frame.ledger a _ fun other member => ?_
      rw [stored] at member
      exact List.mem_append_left _ member

theorem Frame.initPlusLedger (fresh : Bool) : Keeps R (m.initPlusLedger fresh) := by
  refine Keeps.bind (keeps_write fun a b h => ?_) fun _ =>
    Keeps.onlyIf (Keeps.forEach _ fun name => frame.recordPlus fresh name)
  injection h with h
  rw [← h]
  exact frame.ledger a _ fun _ member => member

theorem Frame.seed : Keeps R (initializeDailyQuestionSeed (σ := σ)) := by
  refine keeps_write fun a b h => ?_
  injection h with h
  rw [← h]
  exact frame.settings a true a.access

theorem Frame.access : Keeps R m.initializeInstanceAccessSetting := by
  refine keeps_write fun a b h => ?_
  injection h with h
  rw [← h]
  exact frame.settings a a.seeded _

theorem Frame.executePlusStatement (name statement : Text) :
    Keeps R (m.executePlusStatement name statement) := by
  refine keeps_write fun a b h => ?_
  split at h
  · rename_i schema executed
    injection h with h
    rw [← h]
    exact frame.statement a statement schema executed
  · cases h

theorem Frame.applyPlusFile (name : Text) : Keeps R (m.applyPlusFile name) :=
  keeps_check.bind fun _ => Keeps.onlyIf <|
    (Keeps.forEach _ fun statement => frame.executePlusStatement name statement).bind fun _ =>
      (Keeps.onlyIf frame.seed).bind fun _ => frame.recordPlus false name

theorem Frame.applyPlusMigrations : Keeps R m.applyPlusMigrations :=
  (frame.initPlusLedger false).bind fun _ => Keeps.forEach _ frame.applyPlusFile

end Frame

/-- The scripts of the fork and the settings leave alone what the others have done. -/
def SameScripts (a b : MigratedDatabase σ) : Prop :=
  b.schemaVersion = a.schemaVersion ∧ b.executed = a.executed

instance : IsPreorder (MigratedDatabase σ) SameScripts where
  refl _ := ⟨rfl, rfl⟩
  trans _ _ _ first second := ⟨second.1.trans first.1, second.2.trans first.2⟩

theorem frame_sameScripts : Frame m SameScripts :=
  ⟨fun _ _ _ => ⟨rfl, rfl⟩, fun _ _ _ _ => ⟨rfl, rfl⟩, fun _ _ _ => ⟨rfl, rfl⟩⟩

/-! ### The parts of `Migrate` -/

def finish (m : Migrator σ) : Migration σ Unit := do
  m.applyPlusMigrations.mapError ("failed to migrate Memos Plus: " ++ ·)
  initializeDailyQuestionSeed
  m.initializeInstanceAccessSetting

theorem Frame.finish {R : MigratedDatabase σ → MigratedDatabase σ → Prop} [IsPreorder (MigratedDatabase σ) R]
    (frame : Frame m R) : Keeps R m.finish :=
  frame.applyPlusMigrations.mapError.bind fun _ => frame.seed.bind fun _ => frame.access

/-- The database is of a version that the scripts go beyond. -/
def behind (m : Migrator σ) (schemaVersion target : Text) : Bool :=
  isVersionEmpty schemaVersion || m.IsVersionGreaterThan target schemaVersion

def upgrade (m : Migrator σ) (schemaVersion target : Text) : Migration σ Unit :=
  Process.onlyIf (m.behind schemaVersion target) (m.applyMigrations schemaVersion target)

def downgrade (m : Migrator σ) (schemaVersion target : Text) : Bool :=
  !isVersionEmpty schemaVersion && m.IsVersionGreaterThan schemaVersion target

theorem ends_Migrate : Ends m.Migrate db () after ↔
    ∃ d target d₁ d₂, Ends m.backupBeforeMigration db () db ∧ Ends m.preMigrate db () d ∧
      m.GetCurrentSchemaVersion = .ok target ∧
      Ends (m.applyOverlappingV031Migrations d.schemaVersion) d () d₁ ∧
      m.downgrade d.schemaVersion target = false ∧
      Ends (m.upgrade d.schemaVersion target) d₁ () d₂ ∧ Ends m.finish d₂ () after := by
  unfold Migrate
  constructor
  · intro h
    obtain ⟨_, _, backup, h⟩ := ends_bind.mp h
    have same := (ends_check.mp backup).2
    rw [← same] at backup h
    obtain ⟨_, d, pre, h⟩ := ends_bind.mp h
    obtain ⟨_, _, read, h⟩ := ends_bind.mp h
    obtain ⟨version, rfl⟩ := ends_check.mp read
    injection version with version
    obtain ⟨target, _, asked, h⟩ := ends_bind.mp h
    obtain ⟨current, rfl⟩ := ends_check.mp asked
    obtain ⟨_, d₁, repaired, h⟩ := ends_bind.mp h
    obtain ⟨_, _, checked, h⟩ := ends_bind.mp h
    obtain ⟨upward, rfl⟩ := ends_check.mp checked
    obtain ⟨_, d₂, upgraded, finished⟩ := ends_bind.mp h
    rw [← version] at repaired upward upgraded
    refine ⟨d, target, d₁, d₂, backup, ends_mapError.mp pre, current, ends_mapError.mp repaired, ?_, ?_,
      finished⟩
    · unfold downgrade
      cases down : !isVersionEmpty d.schemaVersion
          && m.IsVersionGreaterThan d.schemaVersion target with
      | false => rfl
      | true =>
          rw [down] at upward
          cases upward
    · unfold upgrade behind
      rw [ends_onlyIf, ends_mapError] at upgraded
      exact ends_onlyIf.mpr upgraded
  · rintro ⟨d, target, d₁, d₂, backup, pre, current, repaired, upward, upgraded, finished⟩
    refine ends_bind.mpr ⟨(), db, backup, ends_bind.mpr ⟨(), d, ends_mapError.mpr pre, ?_⟩⟩
    refine ends_bind.mpr ⟨d.schemaVersion, d, ends_check.mpr ⟨rfl, rfl⟩, ?_⟩
    refine ends_bind.mpr ⟨target, d, ends_check.mpr ⟨current, rfl⟩, ?_⟩
    refine ends_bind.mpr ⟨(), d₁, ends_mapError.mpr repaired, ?_⟩
    refine ends_bind.mpr ⟨(), d₁, ends_check.mpr ⟨?_, rfl⟩, ends_bind.mpr ⟨(), d₂, ?_, finished⟩⟩
    · refine if_neg fun down => ?_
      rw [show m.downgrade d.schemaVersion target = true from down] at upward
      cases upward
    · rw [ends_onlyIf, ends_mapError]
      exact ends_onlyIf.mp upgraded

/-! ### How the parts end -/

theorem ends_preMigrate_of_initialized (initialized : m.isInitialized db.schema = true) :
    Ends m.preMigrate db () after ↔ Ends m.checkMinimumUpgradeVersion db () after := by
  unfold preMigrate
  constructor
  · intro h
    obtain ⟨_, _, asked, h⟩ := ends_bind.mp h
    obtain ⟨is, rfl⟩ := ends_check.mp asked
    injection is with is
    obtain ⟨_, _, skipped, checked⟩ := ends_bind.mp h
    rw [← is, initialized] at skipped
    rcases ends_onlyIf.mp skipped with ⟨fresh, -⟩ | ⟨-, rfl⟩
    · cases fresh
    · exact checked
  · intro checked
    refine ends_bind.mpr ⟨true, db, ends_check.mpr ⟨congrArg _ initialized, rfl⟩, ?_⟩
    exact ends_bind.mpr ⟨(), db, ends_onlyIf.mpr (.inr ⟨rfl, rfl⟩), checked⟩

theorem ends_overlapping {schemaVersion : Text}
    (h : Ends (m.applyOverlappingV031Migrations schemaVersion) before () after) :
    before = after ∨ m.mayOverlap schemaVersion = true ∧
      m.executeAll (m.repairs before.schema schemaVersion) before = .ok after := by
  rcases ends_onlyIf.mp h with ⟨may, h⟩ | ⟨-, same⟩
  · obtain ⟨_, _, asked, h⟩ := ends_bind.mp h
    obtain ⟨-, rfl⟩ := ends_check.mp asked
    rcases ends_onlyIf.mp h with ⟨-, h⟩ | ⟨-, same⟩
    · exact .inr ⟨may, ends_write.mp h⟩
    · exact .inl same
  · exact .inl same

theorem ends_upgrade {schemaVersion target : Text} :
    Ends (m.upgrade schemaVersion target) before () after ↔
      (m.behind schemaVersion target = true ∧
        ∃ middle, m.executeAll (m.pending before.schema schemaVersion target) before = .ok middle ∧
          { middle with schemaVersion := target } = after) ∨
      m.behind schemaVersion target = false ∧ before = after := by
  unfold upgrade
  rw [ends_onlyIf]
  refine or_congr (and_congr Iff.rfl ?_) Iff.rfl
  constructor
  · intro h
    obtain ⟨_, middle, executed, recorded⟩ := ends_bind.mp h
    have recorded := ends_write.mp recorded
    injection recorded with recorded
    exact ⟨middle, ends_write.mp executed, recorded⟩
  · rintro ⟨middle, executed, rfl⟩
    exact ends_bind.mpr ⟨(), middle, ends_write.mpr executed, ends_write.mpr rfl⟩

/-! ### Which scripts it executes -/

/-- Nothing is selected on the way to a version that is not later. -/
theorem selected_of_not_behind (semver : Semver m.compare) {avatar : Bool}
    {schemaVersion target : Text} (notBehind : m.behind schemaVersion target = false) :
    m.selected avatar schemaVersion target = [] := by
  unfold behind at notBehind
  rw [Bool.or_eq_false_iff] at notBehind
  obtain ⟨recorded, upToDate⟩ := notBehind
  have same : getSchemaVersionOrDefault schemaVersion = schemaVersion := by
    unfold isVersionEmpty at recorded
    rw [Bool.or_eq_false_iff] at recorded
    exact if_neg (of_decide_eq_false recorded.1)
  refine List.filter_eq_nil_iff.mpr fun file _ applies => ?_
  unfold MigrationFiles.applies at applies
  split at applies
  · rename_i version read
    rw [Bool.and_eq_true] at applies
    have should := applies.1
    unfold MigrationFiles.shouldApplyMigration at should
    rw [same, Bool.and_eq_true] at should
    have later : 0 < m.compare ('v' :: version) ('v' :: schemaVersion) := of_decide_eq_true should.1
    have within : -1 < m.compare ('v' :: target) ('v' :: version) := of_decide_eq_true should.2
    have notLater : ¬0 < m.compare ('v' :: target) ('v' :: schemaVersion) :=
      of_decide_eq_false upToDate
    have back : 0 ≤ m.compare ('v' :: schemaVersion) ('v' :: target) := by
      rw [semver.antisymm]
      omega
    have further := semver.trans _ _ _ back (by omega : 0 ≤ m.compare ('v' :: target) ('v' :: version))
    rw [semver.antisymm] at further
    omega
  · cases applies

theorem pending_eq {schema : σ} {schemaVersion target : Text}
    (known : m.GetCurrentSchemaVersion = .ok target) :
    m.pending schema schemaVersion target
      = (m.selected (m.columnExists schema "space" "avatar_url") schemaVersion target).map .ok :=
  migrationsBetween_eq fun _ member => schemaVersionOf_ok known member

/-- What `Migrate` executes on a database with a schema: a repair and what is selected. -/
theorem executed_of_Migrate (semver : Semver m.compare)
    (initialized : m.isInitialized db.schema = true) (h : Ends m.Migrate db () after) :
    ∃ target repaired, ∃ repairs : List MigrationFile, m.GetCurrentSchemaVersion = .ok target ∧
      (m.mayOverlap db.schemaVersion = false → repaired = db ∧ repairs = []) ∧
      after.executed = db.executed ++ (repairs ++ m.selected
        (m.columnExists repaired.schema "space" "avatar_url") db.schemaVersion target).map .file := by
  obtain ⟨d, target, d₁, d₂, -, pre, current, repair, -, upgraded, finished⟩ := ends_Migrate.mp h
  obtain ⟨-, rfl⟩ := ends_check.mp ((ends_preMigrate_of_initialized initialized).mp pre)
  have kept : after.executed = d₂.executed := (frame_sameScripts.finish.ends _ _ _ finished).2
  obtain ⟨repairs, log, none⟩ : ∃ repairs : List MigrationFile,
      d₁.executed = db.executed ++ repairs.map .file ∧
      (m.mayOverlap db.schemaVersion = false → d₁ = db ∧ repairs = []) := by
    rcases ends_overlapping repair with rfl | ⟨may, executed⟩
    · exact ⟨[], (List.append_nil _).symm, fun _ => ⟨rfl, rfl⟩⟩
    · obtain ⟨repairs, -, same⟩ := executeAll_spec executed
      refine ⟨repairs, congrArg MigratedDatabase.executed same, fun not => ?_⟩
      rw [may] at not
      cases not
  have applied : d₂.executed = d₁.executed ++ (m.selected
      (m.columnExists d₁.schema "space" "avatar_url") db.schemaVersion target).map .file := by
    rcases ends_upgrade.mp upgraded with ⟨-, middle, executed, rfl⟩ | ⟨notBehind, rfl⟩
    · obtain ⟨files, scripts, same⟩ := executeAll_spec executed
      rw [pending_eq current, List.map_inj_right fun _ _ h => Except.ok.inj h] at scripts
      rw [← scripts] at same
      exact congrArg MigratedDatabase.executed same
    · rw [selected_of_not_behind semver notBehind, List.map_nil, List.append_nil]
  refine ⟨target, d₁, repairs, current, none, ?_⟩
  rw [kept, applied, log, List.append_assoc, List.map_append]

/-- **Which scripts `Migrate` executes, and in which order.**

Let `Migrate` end without an error on a database with a schema.  It has executed the
scripts of a repair, of which there are none unless the version is one of those from 0.32.1
to 0.32.5, and then exactly the scripts above the recorded version and not above the
target, each once; the script for the avatars of spaces is left out where the column is
there already.  They come in the order of their paths, and no script comes after one of a
later version whose major, minor and patch numbers have equally many digits. -/
theorem migrate_applies (semver : Semver m.compare) (initialized : m.isInitialized db.schema = true)
    (h : Ends m.Migrate db () after) :
    ∃ target repaired, ∃ repairs applied : List MigrationFile,
      m.GetCurrentSchemaVersion = .ok target ∧
      (m.mayOverlap db.schemaVersion = false → repaired = db ∧ repairs = []) ∧
      after.executed = db.executed ++ (repairs ++ applied).map .file ∧ applied.Nodup ∧
      (∀ file, file ∈ applied ↔ file ∈ m.files ∧ ∃ version, m.schemaVersionOf file = .ok version ∧
        m.IsVersionGreaterThan version (getSchemaVersionOrDefault db.schemaVersion) = true ∧
        m.IsVersionGreaterOrEqualThan target version = true ∧
        (MigrationFiles.isSpaceAvatar file = true →
          m.columnExists repaired.schema "space" "avatar_url" = false)) ∧
      applied.Pairwise (fun f g => f.path ≤ g.path) ∧
      applied.Pairwise fun f g => ∀ major minor patch major' minor' patch',
        f.Named major minor patch → g.Named major' minor' patch' →
        (Nat.toDigits 10 major).length = (Nat.toDigits 10 major').length →
        (Nat.toDigits 10 minor).length = (Nat.toDigits 10 minor').length →
        patch.length = patch'.length →
        ∃ v w, m.schemaVersionOf f = .ok v ∧ m.schemaVersionOf g = .ok w ∧
          m.IsVersionGreaterThan v w = false := by
  obtain ⟨target, repaired, repairs, current, none, log⟩ := executed_of_Migrate semver initialized h
  refine ⟨target, repaired, repairs,
    m.selected (m.columnExists repaired.schema "space" "avatar_url") db.schemaVersion target,
    current, none, log, nodup_selected, fun file => ?_, pairwise_selected,
    ordered_selected semver fun _ => notLatest_of_current current⟩
  rw [mem_selected]
  refine and_congr Iff.rfl ?_
  unfold MigrationFiles.applies
  cases read : m.schemaVersionOf file with
  | error e =>
      constructor
      · intro h
        cases h
      · rintro ⟨_, h, -⟩
        cases h
  | ok version =>
      unfold MigrationFiles.shouldApplyMigration
      constructor
      · intro h
        rw [Bool.and_eq_true, Bool.and_eq_true, Bool.not_eq_true'] at h
        refine ⟨version, rfl, h.1.1, h.1.2, fun avatar => ?_⟩
        rw [avatar, Bool.and_true] at h
        exact h.2
      · rintro ⟨v, same, above, within, skipped⟩
        injection same with same
        rw [← same] at above within
        dsimp only
        rw [above, within]
        cases avatar : MigrationFiles.isSpaceAvatar file with
        | false =>
            rw [Bool.and_false]
            rfl
        | true =>
            rw [skipped avatar]
            rfl

/-! ### Small databases -/

def spaceAvatarFile : MigrationFile :=
  { directory := "0.33".toList, name := "00__space_avatar.sql".toList }

def pollFile : MigrationFile := { directory := "0.34".toList, name := "00__poll.sql".toList }

def voteFile : MigrationFile := { directory := "0.34".toList, name := "01__vote.sql".toList }

/-- Scripts that change nothing else, for a schema in which a column or a table is there or
not. -/
def plainMigrator (files : List MigrationFile) (distinct : files.Nodup) (spaceExists : Bool)
    (columnExists : Bool) : Migrator Unit where
  compare := versionCompare
  files := files
  distinct := distinct
  driver := .postgres
  data := []
  instanceURL := []
  execute _ _ := .ok ()
  plusFiles := []
  plusContent _ := []
  executePlus _ _ := .ok ()
  isInitialized _ := true
  tableExists _ _ := spaceExists
  columnExists _ _ _ := columnExists
  plusColumnExists _ _ _ := false
  plusIndexExists _ _ := false

def ofVersion (schemaVersion : Text) : MigratedDatabase Unit where
  schema := ()
  schemaVersion := schemaVersion
  ledger := none
  seeded := false
  access := none
  executed := []

theorem files_distinct : [voteFile, pollFile, spaceAvatarFile].Nodup := by
  decide

def twoPending : Migrator Unit :=
  plainMigrator [voteFile, pollFile, spaceAvatarFile] files_distinct true true

theorem migrate_applies_two :
    (twoPending.Migrate (ofVersion "0.33.1".toList)).last.executed = [.file pollFile, .file voteFile] ∧
    ∃ target repaired, ∃ repairs applied : List MigrationFile,
      twoPending.GetCurrentSchemaVersion = .ok target ∧
      (twoPending.mayOverlap "0.33.1".toList = false → repaired = ofVersion "0.33.1".toList ∧ repairs = []) ∧
      (twoPending.Migrate (ofVersion "0.33.1".toList)).last.executed
        = [] ++ (repairs ++ applied).map .file ∧ applied.Nodup := by
  have initialized : twoPending.isInitialized (ofVersion "0.33.1".toList).schema = true := rfl
  have ends : Ends twoPending.Migrate (ofVersion "0.33.1".toList) ()
      (twoPending.Migrate (ofVersion "0.33.1".toList)).last := ⟨by decide +kernel, rfl⟩
  obtain ⟨target, repaired, repairs, applied, current, none, log, once, -⟩ :=
    migrate_applies semver_versionCompare initialized ends
  exact ⟨by decide +kernel, target, repaired, repairs, applied, current, none, log, once⟩

/-- A directory whose minor number has one digit more than the other's. -/
def laterFile : MigrationFile := { directory := "0.100".toList, name := "00__later.sql".toList }

def earlierFile : MigrationFile := { directory := "0.99".toList, name := "00__earlier.sql".toList }

def longMinor : Migrator Unit := plainMigrator [earlierFile, laterFile] (by decide) true true

def avatarPending : Migrator Unit := plainMigrator [spaceAvatarFile] (by decide) true true

def multiSpacesFile : MigrationFile :=
  { directory := "0.31".toList, name := "03__multi_spaces.sql".toList }

def customized : Migrator Unit :=
  plainMigrator [multiSpacesFile, { directory := "0.32".toList, name := "00__add_bookmarks.sql".toList }]
    (by decide) false true

/-- The script of version 0.100.1 is executed before that of 0.99.1; the script for avatars
is not executed where there is the column; and on a customized database one is that is not
above its version. -/
theorem order_of_paths :
    ((longMinor.Migrate (ofVersion "0.98.1".toList)).result = .ok () ∧
      (longMinor.Migrate (ofVersion "0.98.1".toList)).last.executed
        = [.file laterFile, .file earlierFile] ∧
      longMinor.schemaVersionOf laterFile = .ok "0.100.1".toList ∧
      longMinor.schemaVersionOf earlierFile = .ok "0.99.1".toList ∧
      longMinor.IsVersionGreaterThan "0.100.1".toList "0.99.1".toList = true) ∧
    ((avatarPending.Migrate (ofVersion "0.32.5".toList)).result = .ok () ∧
      (avatarPending.Migrate (ofVersion "0.32.5".toList)).last.executed = [] ∧
      (avatarPending.Migrate (ofVersion "0.32.5".toList)).last.schemaVersion = "0.33.1".toList) ∧
    (customized.Migrate (ofVersion "0.32.1".toList)).result = .ok () ∧
    (customized.Migrate (ofVersion "0.32.1".toList)).last.executed = [.file multiSpacesFile] ∧
    customized.schemaVersionOf multiSpacesFile = .ok "0.31.4".toList := by
  decide +kernel

end Memos.Store.Migrator
