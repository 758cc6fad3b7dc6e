/-
Stopping `Migrate` and starting it again.

The scripts are committed in one write and their version is recorded in another.  Between
the two the database looks as if it had not had the scripts, and they are executed a
second time; and a new database looks like one of a version that was never recorded, which
is refused.

Every other write is one that a second run finds made.  The scripts of the fork are
recorded one by one, and their statements can be made again.
-/
import Memos.Proofs.Store.Migrator

namespace Memos.Store.Migrator

open Durable Process

variable {σ : Type} {m : Migrator σ} {db before after s t u : MigratedDatabase σ} {target version : Text}

/-! ### What the files are taken to do -/

structure Sound (m : Migrator σ) : Prop where
  semver : Semver m.compare
  /-- The files go on after the customized versions. -/
  beyond : ∃ v, m.GetCurrentSchemaVersion = .ok (versionText v).tail ∧ Earlier (0, 32, 5) v
  /-- The latest schema has memos, and no script leaves them out. -/
  latest : ∀ s t, m.execute .latest s = .ok t → m.isInitialized t = true
  keeps : ∀ file s t, m.execute (.file file) s = .ok t → m.isInitialized s = true →
    m.isInitialized t = true
  keepsPlus : ∀ statement s t, m.executePlus statement s = .ok t → m.isInitialized s = true →
    m.isInitialized t = true
  /-- A repair leaves nothing to repair. -/
  repaired : ∀ version s t, m.executeAll (m.repairs s.schema version) s = .ok t →
    m.repairs t.schema version = []
  /-- The script for avatars adds its column and is about nothing else. -/
  avatar : ∀ file s t, MigrationFiles.isSpaceAvatar file = true → m.execute (.file file) s = .ok t →
    m.columnExists t "space" "avatar_url" = true ∧
    m.tableExists t "space" = m.tableExists s "space" ∧
    m.columnExists t "memo" "view_count" = m.columnExists s "memo" "view_count"
  /-- The statements for the fork can be made again. -/
  plus : ∀ name ∈ m.plusFiles, Resumable m.runPlus (m.plusStatements name)
  /-- There is a directory for copies of the database. -/
  data : m.driver = .sqlite → m.data ≠ []

/-! ### Versions -/

/-- A version with which nothing is left to be done for the scripts. -/
structure UpToDate (m : Migrator σ) (target version : Text) : Prop where
  recorded : isVersionEmpty version = false
  enough : m.IsVersionGreaterOrEqualThan version "0.22.0".toList = true
  notBehind : m.behind version target = false
  notBeyond : m.downgrade version target = false
  apart : m.mayOverlap version = false

section Versions

/-- What is not later than a version is not later than what that is not later than. -/
theorem not_later_trans (semver : Semver m.compare) {u v w : Text}
    (first : m.IsVersionGreaterThan u v = false) (second : m.IsVersionGreaterThan v w = false) :
    m.IsVersionGreaterThan u w = false := by
  have first : ¬0 < m.compare ('v' :: u) ('v' :: v) := of_decide_eq_false first
  have second : ¬0 < m.compare ('v' :: v) ('v' :: w) := of_decide_eq_false second
  refine decide_eq_false fun later => ?_
  rw [semver.antisymm] at first second later
  have back := semver.trans ('v' :: w) ('v' :: v) ('v' :: u) (by omega) (by omega)
  omega

theorem orEqual_iff (semver : Semver m.compare) {v w : Text} :
    m.IsVersionGreaterOrEqualThan v w = true ↔ m.IsVersionGreaterThan w v = false := by
  unfold MigrationFiles.IsVersionGreaterOrEqualThan MigrationFiles.IsVersionGreaterThan
  rw [decide_eq_true_iff, decide_eq_false_iff_not, semver.antisymm ('v' :: w)]
  omega

/-- The target is later than every version up to 0.32.5. -/
theorem target_later (sound : Sound m) (known : m.GetCurrentSchemaVersion = .ok target)
    {w : Nat × Nat × Nat} (upTo : w.1 = 0 ∧ w.2.1 ≤ 32 ∧ (w.2.1 = 32 → w.2.2 ≤ 5)) :
    m.IsVersionGreaterThan target (versionText w).tail = true := by
  obtain ⟨v, current, later⟩ := sound.beyond
  rw [known] at current
  injection current with same
  rw [same]
  refine decide_eq_true ((sound.semver.numbers v w).mpr ?_)
  unfold Earlier at later ⊢
  dsimp only at later
  omega

theorem not_later_of_later (semver : Semver m.compare) {v w : Text}
    (later : m.IsVersionGreaterThan v w = true) : m.IsVersionGreaterThan w v = false := by
  have later : 0 < m.compare ('v' :: v) ('v' :: w) := of_decide_eq_true later
  refine decide_eq_false fun back => ?_
  rw [semver.antisymm] at back
  omega

theorem upToDate_of_not_behind (sound : Sound m) (known : m.GetCurrentSchemaVersion = .ok target)
    (notBehind : m.behind version target = false) (notBeyond : m.downgrade version target = false) :
    UpToDate m target version := by
  have parts := notBehind
  unfold behind at parts
  rw [Bool.or_eq_false_iff] at parts
  have later : m.IsVersionGreaterThan version "0.32.5".toList = true := by
    cases later : m.IsVersionGreaterThan version "0.32.5".toList with
    | true => rfl
    | false =>
        have contrary := not_later_trans sound.semver parts.2 later
        rw [show "0.32.5".toList = (versionText (0, 32, 5)).tail from by decide,
          target_later sound known (by decide)] at contrary
        cases contrary
  refine ⟨parts.1, ?_, notBehind, notBeyond, ?_⟩
  · have lower : m.IsVersionGreaterThan "0.22.0".toList "0.32.5".toList = false :=
      decide_eq_false fun h => absurd ((sound.semver.numbers (0, 22, 0) (0, 32, 5)).mp h) (by decide)
    rw [orEqual_iff sound.semver]
    exact not_later_trans sound.semver lower (not_later_of_later sound.semver later)
  · unfold mayOverlap
    rw [later, Bool.not_true, Bool.and_false]

theorem upToDate_target (sound : Sound m) (known : m.GetCurrentSchemaVersion = .ok target) :
    UpToDate m target target := by
  have same : m.IsVersionGreaterThan target target = false := by
    refine decide_eq_false fun later => ?_
    rw [sound.semver.antisymm] at later
    have back := sound.semver.antisymm ('v' :: target) ('v' :: target)
    omega
  have recorded : isVersionEmpty target = false := by
    unfold isVersionEmpty
    rw [Bool.or_eq_false_iff]
    refine ⟨decide_eq_false fun empty => ?_, decide_eq_false fun default => ?_⟩
    · obtain ⟨v, current, -⟩ := sound.beyond
      rw [known, empty] at current
      injection current with none
      exact absurd (congrArg List.length none) (by
        show 0 ≠ (_ ++ '.' :: _).length
        rw [List.length_append, List.length_cons]
        omega)
    · have later := target_later sound known (w := (0, 0, 0)) (by decide)
      rw [default, show (versionText (0, 0, 0)).tail = defaultSchemaVersion from by decide,
        ← default, same] at later
      cases later
  refine upToDate_of_not_behind sound known ?_ ?_
  · unfold behind
    rw [recorded, same]
    rfl
  · unfold downgrade
    rw [same, Bool.and_false]

end Versions

/-! ### The parts, where there is nothing to do -/

theorem ends_backup (sound : Sound m) (known : m.GetCurrentSchemaVersion = .ok target)
    (s : MigratedDatabase σ) : Ends m.backupBeforeMigration s () s := by
  refine ends_check.mpr ⟨?_, rfl⟩
  rw [known]
  dsimp only
  split
  · rfl
  · split
    · rfl
    · split
      · rfl
      · rename_i sqlite
        exact if_neg (sound.data (not_not.mp sqlite))

theorem ends_checkMinimum_iff (initialized : m.isInitialized s.schema = true) :
    Ends m.checkMinimumUpgradeVersion s () t ↔ s = t ∧ isVersionEmpty s.schemaVersion = false ∧
      m.IsVersionGreaterOrEqualThan s.schemaVersion "0.22.0".toList = true := by
  unfold checkMinimumUpgradeVersion
  rw [ends_check, initialized]
  cases isVersionEmpty s.schemaVersion with
  | true =>
      constructor
      · rintro ⟨h, -⟩
        cases h
      · rintro ⟨-, h, -⟩
        cases h
  | false =>
      cases m.IsVersionGreaterOrEqualThan s.schemaVersion "0.22.0".toList with
      | true => exact ⟨fun h => ⟨h.2, rfl, rfl⟩, fun h => ⟨rfl, h.1⟩⟩
      | false =>
          constructor
          · rintro ⟨h, -⟩
            cases h
          · rintro ⟨-, -, h⟩
            cases h

/-- The schema needs no repair for the version. -/
def Settled (m : Migrator σ) (schema : σ) (version : Text) : Prop :=
  m.mayOverlap version = false ∨ m.repairs schema version = []

theorem ends_overlapping_settled (settled : Settled m s.schema version) :
    Ends (m.applyOverlappingV031Migrations version) s () s := by
  refine ends_onlyIf.mpr ?_
  cases may : m.mayOverlap version with
  | false => exact .inr ⟨rfl, rfl⟩
  | true =>
      refine .inl ⟨rfl, ends_bind.mpr ⟨_, s, ends_check.mpr ⟨rfl, rfl⟩, ends_onlyIf.mpr ?_⟩⟩
      cases complete : m.tableExists s.schema "space" && m.columnExists s.schema "memo" "view_count" with
      | true => exact .inr ⟨rfl, rfl⟩
      | false =>
          refine .inl ⟨rfl, ends_write.mpr ?_⟩
          rcases settled with apart | none
          · rw [may] at apart
            cases apart
          · rw [none]
            rfl

theorem settled_of_overlapping (sound : Sound m)
    (h : Ends (m.applyOverlappingV031Migrations version) s () t) : Settled m t.schema version := by
  rcases ends_onlyIf.mp h with ⟨-, h⟩ | ⟨apart, -⟩
  · obtain ⟨complete, _, asked, h⟩ := ends_bind.mp h
    obtain ⟨is, rfl⟩ := ends_check.mp asked
    injection is with is
    rcases ends_onlyIf.mp h with ⟨-, repaired⟩ | ⟨done, rfl⟩
    · exact .inr (sound.repaired version s t (ends_write.mp repaired))
    · right
      rw [← is, Bool.not_eq_false', Bool.and_eq_true] at done
      unfold repairs MigrationFiles.overlappingMigrations
      rw [done.1, done.2]
      rfl
  · exact .inl apart

theorem ends_upgrade_upToDate (latest : UpToDate m target version) :
    Ends (m.upgrade version target) s () s :=
  ends_upgrade.mpr (.inr ⟨latest.notBehind, rfl⟩)

/-! ### The scripts of the fork, again -/

def Recorded (db : MigratedDatabase σ) (name : Text) : Prop := name ∈ db.ledger.getD []

/-- The database has memos still, and is recorded to have had what it had. -/
structure Grown (m : Migrator σ) (a b : MigratedDatabase σ) : Prop where
  initialized : m.isInitialized a.schema = true → m.isInitialized b.schema = true
  recorded : ∀ name, Recorded a name → Recorded b name
  ledger : a.ledger.isSome = true → b.ledger.isSome = true

instance : IsPreorder (MigratedDatabase σ) (Grown m) where
  refl _ := ⟨fun h => h, fun _ h => h, fun h => h⟩
  trans _ _ _ first second := ⟨fun h => second.initialized (first.initialized h),
    fun name h => second.recorded name (first.recorded name h), fun h => second.ledger (first.ledger h)⟩

theorem frame_grown (sound : Sound m) : Frame m (Grown m) where
  ledger _ _ grows := ⟨fun h => h, grows, fun _ => rfl⟩
  statement db statement schema executed := by
    refine ⟨fun h => ?_, fun _ h => h, fun h => h⟩
    unfold runPlus at executed
    split at executed
    · injection executed with same
      rw [← same]
      exact h
    · exact sound.keepsPlus statement db.schema schema executed h
  settings _ _ _ := ⟨fun h => h, fun _ h => h, fun h => h⟩

theorem ends_statements {name : Text} {statements : List Text} :
    Ends (forEach statements (m.executePlusStatement name)) s () t ↔
      ∃ schema, statements.foldlM m.runPlus s.schema = .ok schema ∧ t = { s with schema } := by
  induction statements generalizing s with
  | nil =>
      rw [ends_forEach_nil]
      constructor
      · rintro rfl
        exact ⟨s.schema, rfl, rfl⟩
      · rintro ⟨schema, same, rfl⟩
        injection same with same
        rw [← same]
  | cons statement statements ih =>
      rw [ends_forEach_cons, List.foldlM_cons]
      constructor
      · rintro ⟨v, first, rest⟩
        have first := ends_write.mp first
        split at first
        · rename_i schema executed
          injection first with first
          rw [← first] at rest
          obtain ⟨last, folds, same⟩ := ih.mp rest
          rw [executed]
          exact ⟨last, folds, same⟩
        · cases first
      · rintro ⟨last, folds, same⟩
        cases executed : m.runPlus s.schema statement with
        | error e =>
            rw [executed] at folds
            cases folds
        | ok schema =>
            rw [executed] at folds
            refine ⟨{ s with schema }, ends_write.mpr ?_, ih.mpr ⟨last, folds, same⟩⟩
            rw [executed]

theorem cut_statements {name : Text} {statements : List Text} {w : Write}
    (cut : Cut (forEach statements (m.executePlusStatement name)) s w t) :
    ∃ made left schema, statements = made ++ left ∧ made.foldlM m.runPlus s.schema = .ok schema ∧
      t = { s with schema } := by
  induction statements generalizing s with
  | nil => exact absurd cut not_cut_forEach_nil
  | cons statement statements ih =>
      rcases cut_forEach_cons.mp cut with here | ⟨v, first, later⟩
      · exact ⟨[], statement :: statements, s.schema, rfl, rfl, (cut_write.mp here).2⟩
      · have first := ends_write.mp first
        split at first
        · rename_i schema executed
          injection first with first
          rw [← first] at later
          obtain ⟨made, left, last, rfl, folds, same⟩ := ih later
          refine ⟨statement :: made, left, last, rfl, ?_, same⟩
          rw [List.foldlM_cons, executed]
          exact folds
        · cases first

section Statements

variable {name : Text} {statements : List Text}

theorem resume_statements (resumable : Resumable m.runPlus statements) {w : Write}
    (ends : Ends (forEach statements (m.executePlusStatement name)) s () u)
    (cut : Cut (forEach statements (m.executePlusStatement name)) s w t) :
    Ends (forEach statements (m.executePlusStatement name)) t () u := by
  obtain ⟨made, left, schema, rfl, first, rfl⟩ := cut_statements cut
  obtain ⟨last, folds, rfl⟩ := ends_statements.mp ends
  rw [List.foldlM_append, first] at folds
  exact ends_statements.mpr ⟨last, resumable.again first folds, rfl⟩

/-- Once they are all made, nothing changes. -/
theorem repeat_statements (resumable : Resumable m.runPlus statements)
    (ends : Ends (forEach statements (m.executePlusStatement name)) s () t) (same : u.schema = t.schema) :
    Ends (forEach statements (m.executePlusStatement name)) u () u := by
  obtain ⟨last, folds, rfl⟩ := ends_statements.mp ends
  have again : (statements ++ []).foldlM m.runPlus last = .ok last := by
    refine Resumable.again ?_ folds rfl
    rw [List.append_nil]
    exact resumable
  rw [List.append_nil] at again
  refine ends_statements.mpr ⟨u.schema, ?_, rfl⟩
  rw [same]
  exact again

end Statements

theorem any_ledger (db : MigratedDatabase σ) (name : Text) :
    (db.ledger.any fun rows => name ∈ rows) = true ↔ Recorded db name := by
  unfold Recorded
  cases db.ledger with
  | none => exact ⟨fun h => (nomatch h), fun h => absurd h List.not_mem_nil⟩
  | some rows => exact decide_eq_true_iff

theorem ends_applyPlusFile_recorded {name : Text} (recorded : Recorded s name) :
    Ends (m.applyPlusFile name) s () s := by
  refine ends_bind.mpr ⟨_, s, ends_check.mpr ⟨rfl, rfl⟩, ends_onlyIf.mpr (.inr ⟨?_, rfl⟩)⟩
  rw [(any_ledger s name).mpr recorded]
  rfl

theorem recorded_of_recordPlus {fresh : Bool} {name : Text}
    (ends : Ends (recordPlus (σ := σ) fresh name) s () t) : Recorded t name := by
  have ends := ends_write.mp ends
  split at ends
  · cases ends
  · split at ends
    · cases ends
    · injection ends with same
      rw [← same]
      exact List.mem_append_right _ List.mem_cons_self

/-- A script that is not recorded, step by step. -/
theorem ends_applyPlusFile_iff {name : Text} (unrecorded : ¬Recorded s name) :
    Ends (m.applyPlusFile name) s () u ↔
      ∃ a b, Ends (forEach (m.plusStatements name) (m.executePlusStatement name)) s () a ∧
        Ends (onlyIf (name = "0004__daily_question.sql".toList) initializeDailyQuestionSeed) a () b ∧
        Ends (recordPlus false name) b () u := by
  have notDone : (s.ledger.any fun rows => name ∈ rows) = false :=
    Bool.eq_false_iff.mpr fun h => unrecorded ((any_ledger s name).mp h)
  constructor
  · intro h
    obtain ⟨_, _, asked, h⟩ := ends_bind.mp h
    obtain ⟨is, rfl⟩ := ends_check.mp asked
    injection is with is
    rw [← is, notDone] at h
    rcases ends_onlyIf.mp h with ⟨-, h⟩ | ⟨done, -⟩
    · obtain ⟨_, a, statements, h⟩ := ends_bind.mp h
      obtain ⟨_, b, seed, record⟩ := ends_bind.mp h
      exact ⟨a, b, statements, seed, record⟩
    · cases done
  · rintro ⟨a, b, statements, seed, record⟩
    refine ends_bind.mpr ⟨_, s, ends_check.mpr ⟨rfl, rfl⟩, ends_onlyIf.mpr (.inl ⟨?_, ?_⟩)⟩
    · rw [notDone]
      rfl
    · exact ends_bind.mpr ⟨(), a, statements, ends_bind.mpr ⟨(), b, seed, record⟩⟩

theorem recorded_of_applyPlusFile {name : Text} (ends : Ends (m.applyPlusFile name) s () t) :
    Recorded t name := by
  by_cases recorded : Recorded s name
  · rw [← (Ends.unique ends (ends_applyPlusFile_recorded recorded)).2] at recorded
    exact recorded
  · obtain ⟨a, b, -, -, record⟩ := (ends_applyPlusFile_iff recorded).mp ends
    exact recorded_of_recordPlus record

/-- Where a script is cut off, it leads to the same end from there. -/
theorem resume_applyPlusFile {name : Text} (resumable : Resumable m.runPlus (m.plusStatements name))
    {w : Write} (ends : Ends (m.applyPlusFile name) s () u) (cut : Cut (m.applyPlusFile name) s w t) :
    Ends (m.applyPlusFile name) t () u := by
  rcases cut_bind.mp cut with here | ⟨_, _, asked, cut⟩
  · exact absurd here not_cut_check
  obtain ⟨is, rfl⟩ := ends_check.mp asked
  injection is with is
  obtain ⟨undone, cut⟩ := cut_onlyIf.mp cut
  have unrecorded : ¬Recorded s name := by
    rw [← is] at undone
    exact fun recorded => absurd ((any_ledger s name).mpr recorded)
      (Bool.eq_false_iff.mp (Bool.not_eq_true' _ ▸ undone))
  obtain ⟨a, b, statements, seed, record⟩ := (ends_applyPlusFile_iff unrecorded).mp ends
  obtain ⟨last, -, made⟩ := ends_statements.mp statements
  rcases cut_bind.mp cut with here | ⟨_, a', statements', cut⟩
  · -- Among its statements.
    have again := resume_statements resumable statements here
    obtain ⟨_, _, schema, -, -, same⟩ := cut_statements here
    have still : ¬Recorded t name := by
      rw [same]
      exact unrecorded
    exact (ends_applyPlusFile_iff still).mpr ⟨a, b, again, seed, record⟩
  · rw [← (Ends.unique statements statements').2] at cut
    have unrecordedA : ¬Recorded a name := by
      rw [made]
      exact unrecorded
    rcases cut_bind.mp cut with here | ⟨_, b', seed', cut⟩
    · -- Before the seed.
      obtain ⟨-, here⟩ := cut_onlyIf.mp here
      rw [(cut_write.mp here).2]
      exact (ends_applyPlusFile_iff unrecordedA).mpr
        ⟨a, b, repeat_statements resumable statements rfl, seed, record⟩
    · -- Before it is recorded; the seed is there or not asked for.
      rw [← (Ends.unique seed seed').2] at cut
      rw [(cut_write.mp cut).2]
      have settled : b.schema = a.schema ∧ b.ledger = a.ledger ∧
          Ends (onlyIf (name = "0004__daily_question.sql".toList) initializeDailyQuestionSeed) b () b := by
        rcases ends_onlyIf.mp seed with ⟨needed, written⟩ | ⟨unneeded, rfl⟩
        · have written := ends_write.mp written
          injection written with same
          rw [← same]
          exact ⟨rfl, rfl, ends_onlyIf.mpr (.inl ⟨needed, ends_write.mpr rfl⟩)⟩
        · exact ⟨rfl, rfl, ends_onlyIf.mpr (.inr ⟨unneeded, rfl⟩)⟩
      have unrecordedB : ¬Recorded b name := by
        unfold Recorded at unrecordedA ⊢
        rw [settled.2.1]
        exact unrecordedA
      exact (ends_applyPlusFile_iff unrecordedB).mpr
        ⟨b, b, repeat_statements resumable statements settled.1, settled.2.2, record⟩

section Files

variable {files : List Text}

theorem recorded_of_files (sound : Sound m) (ends : Ends (forEach files m.applyPlusFile) s () t) :
    ∀ name ∈ files, Recorded t name := by
  induction files generalizing s with
  | nil => exact fun _ h => absurd h List.not_mem_nil
  | cons first files ih =>
      obtain ⟨v, here, rest⟩ := ends_forEach_cons.mp ends
      intro name member
      rcases List.mem_cons.mp member with rfl | later
      · have grown := (Keeps.forEach files (frame_grown sound).applyPlusFile).ends _ _ _ rest
        exact grown.recorded name (recorded_of_applyPlusFile here)
      · exact ih rest name later

theorem ends_files_recorded (recorded : ∀ name ∈ files, Recorded s name) :
    Ends (forEach files m.applyPlusFile) s () s := by
  induction files with
  | nil => exact ends_forEach_nil.mpr rfl
  | cons first files ih =>
      exact ends_forEach_cons.mpr ⟨s, ends_applyPlusFile_recorded (recorded first List.mem_cons_self),
        ih fun name later => recorded name (List.mem_cons_of_mem first later)⟩

/-- By induction on the scripts that are left: those before are recorded, the one that was
cut off is resumed. -/
theorem resume_files (sound : Sound m) (listed : ∀ name ∈ files, name ∈ m.plusFiles) {w : Write}
    (ends : Ends (forEach files m.applyPlusFile) s () u)
    (cut : Cut (forEach files m.applyPlusFile) s w t) :
    Ends (forEach files m.applyPlusFile) t () u := by
  induction files generalizing s with
  | nil => exact absurd cut not_cut_forEach_nil
  | cons first files ih =>
      obtain ⟨v, here, rest⟩ := ends_forEach_cons.mp ends
      have later : ∀ name ∈ files, name ∈ m.plusFiles :=
        fun name h => listed name (List.mem_cons_of_mem first h)
      rcases cut_forEach_cons.mp cut with inside | ⟨v', here', beyond⟩
      · have again := resume_applyPlusFile (sound.plus first (listed first List.mem_cons_self)) here inside
        exact ends_forEach_cons.mpr ⟨v, again, rest⟩
      · rw [← (Ends.unique here here').2] at beyond
        have grown := (Keeps.forEach files (frame_grown sound).applyPlusFile).cut _ _ _ beyond
        have recorded := grown.recorded first (recorded_of_applyPlusFile here)
        exact ends_forEach_cons.mpr ⟨t, ends_applyPlusFile_recorded recorded, ih later rest beyond⟩

end Files

/-! ### All that comes after the scripts, again -/

/-- With the table of the scripts of the fork. -/
def withLedger (db : MigratedDatabase σ) : MigratedDatabase σ := { db with ledger := some (db.ledger.getD []) }

theorem withLedger_of_some (h : s.ledger.isSome = true) : withLedger s = s := by
  unfold withLedger
  obtain ⟨rows, stored⟩ := Option.isSome_iff_exists.mp h
  rw [stored]
  show { s with ledger := some rows } = s
  rw [← stored]

theorem ends_initPlusLedger : Ends (m.initPlusLedger false) s () t ↔ withLedger s = t := by
  constructor
  · intro h
    obtain ⟨_, a, made, none⟩ := ends_bind.mp h
    rcases ends_onlyIf.mp none with ⟨h, -⟩ | ⟨-, rfl⟩
    · cases h
    · have made := ends_write.mp made
      exact Except.ok.inj made
  · rintro rfl
    exact ends_bind.mpr ⟨(), withLedger s, ends_write.mpr rfl, ends_onlyIf.mpr (.inr ⟨rfl, rfl⟩)⟩

def withSettings (m : Migrator σ) (db : MigratedDatabase σ) : MigratedDatabase σ :=
  { db with
    seeded := true
    access := some (db.access.getD (if Api.trimSpace m.instanceURL = [] then .PRIVATE else .PUBLIC)) }

theorem ends_finish : Ends m.finish s () u ↔
    ∃ p, Ends (forEach m.plusFiles m.applyPlusFile) (withLedger s) () p ∧ u = withSettings m p := by
  constructor
  · intro h
    obtain ⟨_, p, plus, h⟩ := ends_bind.mp h
    obtain ⟨_, q, seed, access⟩ := ends_bind.mp h
    obtain ⟨_, a, ledger, files⟩ := ends_bind.mp (ends_mapError.mp plus)
    rw [← ends_initPlusLedger.mp ledger] at files
    have seed := ends_write.mp seed
    have access := ends_write.mp access
    refine ⟨p, files, ?_⟩
    rw [← Except.ok.inj access, ← Except.ok.inj seed]
    rfl
  · rintro ⟨p, files, rfl⟩
    exact ends_bind.mpr ⟨(), p,
      ends_mapError.mpr (ends_bind.mpr ⟨(), withLedger s, ends_initPlusLedger.mpr rfl, files⟩),
      ends_bind.mpr ⟨(), { p with seeded := true }, ends_write.mpr rfl, ends_write.mpr rfl⟩⟩

/-- When the scripts of the fork are all recorded, only the settings are written. -/
theorem ends_finish_again (recorded : ∀ name ∈ m.plusFiles, Recorded s name)
    (ledger : s.ledger.isSome = true) : Ends m.finish s () (withSettings m s) := by
  refine ends_finish.mpr ⟨s, ?_, rfl⟩
  rw [withLedger_of_some ledger]
  exact ends_files_recorded recorded

theorem resume_finish (sound : Sound m) (ends : Ends m.finish s () u) :
    (∀ w t, Cut m.finish s w t → Ends m.finish t () u) ∧ Ends m.finish u () u := by
  obtain ⟨p, files, rfl⟩ := ends_finish.mp ends
  have recorded := recorded_of_files sound files
  have ledger : p.ledger.isSome = true :=
    ((Keeps.forEach _ (frame_grown sound).applyPlusFile).ends _ _ _ files).ledger rfl
  refine ⟨fun w t cut => ?_, ?_⟩
  · rcases cut_bind.mp cut with plus | ⟨_, p', plus, cut⟩
    · rcases cut_bind.mp plus with table | ⟨_, a, table, inside⟩
      · -- Before the table is made.
        rcases cut_bind.mp table with here | ⟨_, _, -, none⟩
        · rw [(cut_write.mp here).2]
          exact ends
        · cases (cut_onlyIf.mp none).1
      · -- Among the scripts.
        rw [← ends_initPlusLedger.mp table] at inside
        have there := ((Keeps.forEach _ (frame_grown sound).applyPlusFile).cut _ _ _ inside).ledger rfl
        refine ends_finish.mpr ⟨p, ?_, rfl⟩
        rw [withLedger_of_some there]
        exact resume_files sound (fun _ h => h) files inside
    · have same : p' = p := by
        obtain ⟨_, a, table, files'⟩ := ends_bind.mp (ends_mapError.mp plus)
        rw [← ends_initPlusLedger.mp table] at files'
        exact (Ends.unique files' files).2
      rw [same] at cut
      rcases cut_bind.mp cut with here | ⟨_, q, seed, here⟩
      · -- Before the seed.
        rw [(cut_write.mp here).2]
        exact ends_finish_again recorded ledger
      · -- Before the access mode.
        have seed := ends_write.mp seed
        rw [(cut_write.mp here).2, ← Except.ok.inj seed]
        exact ends_finish_again (s := { p with seeded := true }) recorded ledger
  · exact ends_finish_again (s := withSettings m p) recorded ledger

/-! ### A new database -/

/-- The writes after which a second run goes wrong.  For those of a new database it is
that there is no version yet, and for the version that the scripts are executed again,
except for the one that is left out when it has been executed. -/
def lost (m : Migrator σ) (db : MigratedDatabase σ) (target : Text) : Write → Bool
  | .ledger fresh => fresh
  | .applied fresh _ => fresh
  | .version =>
      !m.isInitialized db.schema || !(m.selected true db.schemaVersion target).isEmpty
  | _ => false

theorem writes_finish : Writes (fun w => m.lost db target w = false) m.finish := by
  refine Writes.bind ?_ fun _ => Writes.bind (writes_write rfl) fun _ => writes_write rfl
  refine Writes.bind ?_ fun _ => Writes.forEach _ fun name => Writes.bind ?_ fun _ => Writes.onlyIf ?_
  · refine Writes.bind (writes_write rfl) fun _ => ?_
    intro _ _ _ cut
    cases (cut_onlyIf.mp cut).1
  · exact fun _ _ _ cut => absurd cut not_cut_check
  · exact Writes.bind (Writes.forEach _ fun _ => writes_write rfl) fun _ =>
      Writes.bind (Writes.onlyIf (writes_write rfl)) fun _ => writes_write rfl

theorem refused (initialized : m.isInitialized s.schema = true) (empty : isVersionEmpty s.schemaVersion = true) :
    ¬Ends m.Migrate s () u := by
  intro h
  obtain ⟨d, target, d₁, d₂, -, pre, -⟩ := ends_Migrate.mp h
  have checked := (ends_preMigrate_of_initialized initialized).mp pre
  obtain ⟨-, recorded, -⟩ := (ends_checkMinimum_iff initialized).mp checked
  rw [empty] at recorded
  cases recorded

/-- What is in a new database after the latest schema and until its version is recorded. -/
structure Unversioned (m : Migrator σ) (db a : MigratedDatabase σ) : Prop where
  initialized : m.isInitialized a.schema = true
  version : a.schemaVersion = db.schemaVersion
  executed : a.executed = db.executed ++ [.latest]

theorem Unversioned.later {a b : MigratedDatabase σ} (h : Unversioned m db a) (grown : Grown m a b)
    (same : SameScripts a b) : Unversioned m db b :=
  ⟨grown.initialized h.initialized, same.1.trans h.version, same.2.trans h.executed⟩

theorem unversioned_of_latest (sound : Sound m) {x : Unit}
    (latest : Ends (write Write.latest fun db => m.executeScript db .latest) db x s) : Unversioned m db s := by
  have latest := ends_write.mp latest
  unfold executeScript at latest
  split at latest
  · rename_i schema executed
    injection latest with same
    rw [← same]
    exact ⟨sound.latest db.schema schema executed, rfl, rfl⟩
  · cases latest

section Fresh

variable (sound : Sound m) (fresh : m.isInitialized db.schema = false)
include sound fresh

theorem cut_preMigrate_fresh {w : Write} (cut : Cut m.preMigrate db w t) :
    t = db ∧ w = .latest ∨ Unversioned m db t ∧ m.lost db target w = true := by
  rcases cut_bind.mp cut with here | ⟨_, _, asked, cut⟩
  · exact absurd here not_cut_check
  obtain ⟨is, rfl⟩ := ends_check.mp asked
  injection is with is
  rcases cut_bind.mp cut with here | ⟨_, _, -, checked⟩
  · obtain ⟨-, here⟩ := cut_onlyIf.mp here
    rcases cut_bind.mp here with first | ⟨_, a, latest, here⟩
    · exact .inl ⟨(cut_write.mp first).2, (cut_write.mp first).1⟩
    · right
      have unversioned := unversioned_of_latest sound latest
      rcases cut_bind.mp here with ledger | ⟨_, b, ledger, here⟩
      · refine ⟨unversioned.later (((frame_grown sound).initPlusLedger true).cut _ _ _ ledger)
          ((frame_sameScripts.initPlusLedger true).cut _ _ _ ledger), ?_⟩
        have kind : Writes (fun w => m.lost db target w = true) (m.initPlusLedger true) :=
          Writes.bind (writes_write rfl) fun _ => Writes.onlyIf <|
            Writes.forEach _ fun _ => writes_write rfl
        exact kind _ _ _ ledger
      · rcases cut_bind.mp here with here | ⟨_, _, asked, version⟩
        · exact absurd here not_cut_check
        · obtain ⟨-, rfl⟩ := ends_check.mp asked
          obtain ⟨rfl, rfl⟩ := cut_write.mp version
          refine ⟨unversioned.later (((frame_grown sound).initPlusLedger true).ends _ _ _ ledger)
            ((frame_sameScripts.initPlusLedger true).ends _ _ _ ledger), ?_⟩
          unfold lost
          rw [fresh]
          rfl
  · exact absurd checked not_cut_check

theorem ends_preMigrate_fresh (known : m.GetCurrentSchemaVersion = .ok target)
    (ends : Ends m.preMigrate db () s) : m.isInitialized s.schema = true ∧ s.schemaVersion = target ∧
      s.executed = db.executed ++ [.latest] := by
  obtain ⟨_, _, asked, ends⟩ := ends_bind.mp ends
  obtain ⟨is, rfl⟩ := ends_check.mp asked
  injection is with is
  obtain ⟨_, d, here, checked⟩ := ends_bind.mp ends
  obtain ⟨-, rfl⟩ := ends_check.mp checked
  rcases ends_onlyIf.mp here with ⟨-, here⟩ | ⟨old, -⟩
  · obtain ⟨_, a, latest, here⟩ := ends_bind.mp here
    obtain ⟨_, b, ledger, here⟩ := ends_bind.mp here
    obtain ⟨current, _, asked, version⟩ := ends_bind.mp here
    obtain ⟨read, rfl⟩ := ends_check.mp asked
    have unversioned := (unversioned_of_latest sound latest).later
      (((frame_grown sound).initPlusLedger true).ends _ _ _ ledger)
      ((frame_sameScripts.initPlusLedger true).ends _ _ _ ledger)
    have version := ends_write.mp version
    injection version with same
    rw [known] at read
    injection read with read
    rw [← same]
    exact ⟨unversioned.initialized, read.symm, unversioned.executed⟩
  · rw [← is, fresh] at old
    cases old

end Fresh

/-! ### An older database -/

theorem executeAll_keeps (sound : Sound m) {files : List MigrationFile}
    (h : m.executeAll (files.map .ok) s = .ok t) :
    t.schemaVersion = s.schemaVersion ∧ (m.isInitialized s.schema = true → m.isInitialized t.schema = true) := by
  induction files generalizing s with
  | nil =>
      injection h with same
      rw [← same]
      exact ⟨rfl, fun h => h⟩
  | cons file files ih =>
      unfold executeAll at h
      rw [List.map_cons, List.foldlM_cons] at h
      unfold executeScript at h
      dsimp only [Except.bind] at h
      cases executed : m.execute (.file file) s.schema with
      | error e =>
          rw [executed] at h
          cases h
      | ok schema =>
          rw [executed] at h
          obtain ⟨version, initialized⟩ := ih h
          exact ⟨version, fun before => initialized (sound.keeps file s.schema schema executed before)⟩

theorem overlapping_keeps (sound : Sound m)
    (h : Ends (m.applyOverlappingV031Migrations version) s () t) :
    t.schemaVersion = s.schemaVersion ∧ (m.isInitialized s.schema = true → m.isInitialized t.schema = true) := by
  rcases ends_overlapping h with rfl | ⟨-, executed⟩
  · exact ⟨rfl, fun h => h⟩
  · obtain ⟨files, scripts, -⟩ := executeAll_spec executed
    rw [scripts] at executed
    exact executeAll_keeps sound executed

/-! ### The result -/

/-- Where `Migrate` can be cut off, in terms of how its parts end. -/
theorem cut_Migrate {w : Write} {d d₁ d₂ : MigratedDatabase σ} (pre : Ends m.preMigrate db () d)
    (known : m.GetCurrentSchemaVersion = .ok target)
    (repair : Ends (m.applyOverlappingV031Migrations d.schemaVersion) d () d₁)
    (upgraded : Ends (m.upgrade d.schemaVersion target) d₁ () d₂) (cut : Cut m.Migrate db w t) :
    Cut m.preMigrate db w t ∨ Cut (m.applyOverlappingV031Migrations d.schemaVersion) d w t ∨
      Cut (m.upgrade d.schemaVersion target) d₁ w t ∨ Cut m.finish d₂ w t := by
  rcases cut_bind.mp cut with here | ⟨_, _, backup, cut⟩
  · exact absurd here not_cut_check
  rw [← (ends_check.mp backup).2] at cut
  rcases cut_bind.mp cut with here | ⟨_, _, pre', cut⟩
  · exact .inl (cut_mapError.mp here)
  rw [← (Ends.unique pre (ends_mapError.mp pre')).2] at cut
  rcases cut_bind.mp cut with here | ⟨v, _, asked, cut⟩
  · exact absurd here not_cut_check
  obtain ⟨version, rfl⟩ := ends_check.mp asked
  rw [← Except.ok.inj version] at cut
  rcases cut_bind.mp cut with here | ⟨_, _, asked, cut⟩
  · exact absurd here not_cut_check
  obtain ⟨read, rfl⟩ := ends_check.mp asked
  rw [← Except.ok.inj (known.symm.trans read)] at cut
  rcases cut_bind.mp cut with here | ⟨_, _, repair', cut⟩
  · exact .inr (.inl (cut_mapError.mp here))
  rw [← (Ends.unique repair (ends_mapError.mp repair')).2] at cut
  rcases cut_bind.mp cut with here | ⟨_, _, checked, cut⟩
  · exact absurd here not_cut_check
  rw [← (ends_check.mp checked).2] at cut
  rcases cut_bind.mp cut with here | ⟨_, _, upgraded', cut⟩
  · obtain ⟨behind, here⟩ := cut_onlyIf.mp here
    exact .inr (.inr (.inl (cut_onlyIf.mpr ⟨behind, cut_mapError.mp here⟩)))
  · rw [ends_onlyIf, ends_mapError] at upgraded'
    have again : Ends (m.upgrade d.schemaVersion target) d₁ () _ := ends_onlyIf.mpr upgraded'
    rw [← (Ends.unique upgraded again).2] at cut
    exact .inr (.inr (.inr cut))

/-- A database that has had all scripts runs on as from there. -/
theorem ends_Migrate_of_upToDate (sound : Sound m) (known : m.GetCurrentSchemaVersion = .ok target)
    (initialized : m.isInitialized s.schema = true) (latest : UpToDate m target s.schemaVersion)
    (finished : Ends m.finish s () u) : Ends m.Migrate s () u := by
  refine ends_Migrate.mpr ⟨s, target, s, s, ends_backup sound known s, ?_, known, ?_,
    latest.notBeyond, ends_upgrade_upToDate latest, finished⟩
  · refine (ends_preMigrate_of_initialized initialized).mpr ?_
    exact (ends_checkMinimum_iff initialized).mpr ⟨rfl, latest.recorded, latest.enough⟩
  · exact ends_overlapping_settled (.inl latest.apart)

/-- Once the scripts and their version are recorded, nothing is lost. -/
theorem restart_late (sound : Sound m) (known : m.GetCurrentSchemaVersion = .ok target)
    (initialized : m.isInitialized s.schema = true) (latest : UpToDate m target s.schemaVersion)
    (finished : Ends m.finish s () u) :
    (∀ w t, Cut m.finish s w t → Ends m.Migrate t () u) ∧ Ends m.Migrate u () u := by
  obtain ⟨resumed, again⟩ := resume_finish sound finished
  have grown := (frame_grown sound).finish
  have same := (frame_sameScripts (m := m)).finish
  refine ⟨fun w t cut => ?_, ?_⟩
  · refine ends_Migrate_of_upToDate sound known ((grown.cut _ _ _ cut).initialized initialized) ?_
      (resumed w t cut)
    rw [(same.cut _ _ _ cut).1]
    exact latest
  · refine ends_Migrate_of_upToDate sound known ((grown.ends _ _ _ finished).initialized initialized) ?_
      again
    rw [(same.ends _ _ _ finished).1]
    exact latest

/-- The script for avatars, executed or not, leaves the questions of a repair as they are. -/
theorem executeAll_avatar (sound : Sound m) {files : List MigrationFile}
    (avatars : ∀ file ∈ files, MigrationFiles.isSpaceAvatar file = true)
    (h : m.executeAll (files.map .ok) s = .ok t) :
    m.tableExists t.schema "space" = m.tableExists s.schema "space" ∧
      m.columnExists t.schema "memo" "view_count" = m.columnExists s.schema "memo" "view_count" ∧
      (files = [] ∧ t = s ∨ m.columnExists t.schema "space" "avatar_url" = true) := by
  induction files generalizing s with
  | nil =>
      injection h with same
      rw [← same]
      exact ⟨rfl, rfl, .inl ⟨rfl, rfl⟩⟩
  | cons file files ih =>
      unfold executeAll at h
      rw [List.map_cons, List.foldlM_cons] at h
      unfold executeScript at h
      dsimp only [Except.bind] at h
      cases executed : m.execute (.file file) s.schema with
      | error e =>
          rw [executed] at h
          cases h
      | ok schema =>
          rw [executed] at h
          obtain ⟨added, table, column⟩ :=
            sound.avatar file s.schema schema (avatars file List.mem_cons_self) executed
          obtain ⟨tables, columns, there⟩ := ih (fun f hf => avatars f (List.mem_cons_of_mem file hf)) h
          refine ⟨tables.trans table, columns.trans column, .inr ?_⟩
          rcases there with ⟨-, same⟩ | there
          · rw [same]
            exact added
          · exact there

/-- A script that is selected with the column for avatars is selected without it too. -/
theorem mem_selected_of_true {file : MigrationFile} (avatar : Bool)
    (member : file ∈ m.selected true version target) : file ∈ m.selected avatar version target := by
  obtain ⟨listed, applies⟩ := mem_selected.mp member
  refine mem_selected.mpr ⟨listed, ?_⟩
  unfold MigrationFiles.applies at applies ⊢
  split
  · rename_i v read
    rw [read, Bool.true_and, Bool.and_eq_true, Bool.not_eq_true'] at applies
    rw [applies.1, applies.2, Bool.and_false]
    rfl
  · rename_i e read
    rw [read] at applies
    cases applies

/-- Any other that is selected is the script for avatars. -/
theorem avatar_of_selected {file : MigrationFile} {avatar : Bool}
    (none : m.selected true version target = []) (member : file ∈ m.selected avatar version target) :
    MigrationFiles.isSpaceAvatar file = true := by
  obtain ⟨listed, applies⟩ := mem_selected.mp member
  cases other : MigrationFiles.isSpaceAvatar file with
  | true => rfl
  | false =>
      have selected : file ∈ m.selected true version target := by
        refine mem_selected.mpr ⟨listed, ?_⟩
        unfold MigrationFiles.applies at applies ⊢
        rw [other, Bool.and_false] at applies ⊢
        exact applies
      rw [none] at selected
      exact absurd selected List.not_mem_nil

section Behind

variable {d₁ middle : MigratedDatabase σ} (sound : Sound m)
  (known : m.GetCurrentSchemaVersion = .ok target)
  (enough : isVersionEmpty db.schemaVersion = false ∧
    m.IsVersionGreaterOrEqualThan db.schemaVersion "0.22.0".toList = true)
  (notBeyond : m.downgrade db.schemaVersion target = false)
  (behind : m.behind db.schemaVersion target = true)
  (finished : Ends m.finish { middle with schemaVersion := target } () after)
include sound known enough notBeyond behind finished

/-- From a state with the recorded version, the schema of which needs no repair and whose
scripts lead on to where the others did. -/
theorem ends_Migrate_of_settled (memos : m.isInitialized s.schema = true)
    (same : s.schemaVersion = db.schemaVersion) (settled : Settled m s.schema db.schemaVersion)
    (runs : m.executeAll (m.pending s.schema db.schemaVersion target) s = .ok middle) :
    Ends m.Migrate s () after := by
  refine ends_Migrate.mpr ⟨s, target, s, _, ends_backup sound known s, ?_, known, ?_, ?_, ?_, finished⟩
  · refine (ends_preMigrate_of_initialized memos).mpr ((ends_checkMinimum_iff memos).mpr ⟨rfl, ?_⟩)
    rw [same]
    exact enough
  · rw [same]
    exact ends_overlapping_settled settled
  · rw [same]
    exact notBeyond
  · rw [same]
    exact ends_upgrade.mpr (.inl ⟨behind, middle, runs, rfl⟩)

variable (initialized : m.isInitialized db.schema = true)
  (repair : Ends (m.applyOverlappingV031Migrations db.schemaVersion) db () d₁)
  (executed : m.executeAll (m.pending d₁.schema db.schemaVersion target) d₁ = .ok middle)
include initialized repair executed

/-- Before the scripts are committed, after a repair or without one. -/
theorem restart_before_scripts : Ends m.Migrate d₁ () after := by
  obtain ⟨version, memos⟩ := overlapping_keeps sound repair
  exact ends_Migrate_of_settled sound known enough notBeyond behind finished (memos initialized) version
    (settled_of_overlapping sound repair) executed

/-- After they are committed: the script for avatars is not executed again, and any other
is. -/
theorem restart_after_scripts :
    Ends m.Migrate middle () after ↔ m.selected true db.schemaVersion target = [] := by
  have scripts := executed
  rw [pending_eq known] at scripts
  obtain ⟨version₁, memos₁⟩ := overlapping_keeps sound repair
  obtain ⟨version₂, memos₂⟩ := executeAll_keeps sound scripts
  have version : middle.schemaVersion = db.schemaVersion := version₂.trans version₁
  have memos := memos₂ (memos₁ initialized)
  constructor
  · intro again
    obtain ⟨target', other, repairs, known', -, twice⟩ := executed_of_Migrate sound.semver memos again
    rw [known] at known'
    injection known' with known'
    have once : after.executed = middle.executed :=
      (frame_sameScripts.finish.ends _ _ _ finished).2
    rw [once, version, ← known', List.self_eq_append_right, List.map_eq_nil_iff,
      List.append_eq_nil_iff] at twice
    refine List.eq_nil_iff_forall_not_mem.mpr fun file member => ?_
    have listed := mem_selected_of_true (m.columnExists other.schema "space" "avatar_url") member
    rw [twice.2] at listed
    exact List.not_mem_nil listed
  · intro none
    obtain ⟨tables, columns, there⟩ :=
      executeAll_avatar sound (fun _ member => avatar_of_selected none member) scripts
    have settled : Settled m middle.schema db.schemaVersion := by
      unfold Settled repairs
      rw [tables, columns]
      exact settled_of_overlapping sound repair
    have nothing : m.selected (m.columnExists middle.schema "space" "avatar_url") db.schemaVersion target
        = [] := by
      rcases there with ⟨empty, same⟩ | there
      · rw [same]
        exact empty
      · rw [there]
        exact none
    refine ends_Migrate_of_settled sound known enough notBeyond behind finished memos version settled ?_
    rw [pending_eq known, nothing]
    rfl

end Behind

theorem not_cut_preMigrate (initialized : m.isInitialized db.schema = true) {w : Write} :
    ¬Cut m.preMigrate db w t := by
  intro cut
  rcases cut_bind.mp cut with here | ⟨_, _, asked, cut⟩
  · exact not_cut_check here
  obtain ⟨is, rfl⟩ := ends_check.mp asked
  injection is with is
  rcases cut_bind.mp cut with here | ⟨_, _, -, checked⟩
  · have fresh := (cut_onlyIf.mp here).1
    rw [← is, initialized] at fresh
    cases fresh
  · exact not_cut_check checked

theorem cut_overlapping {w : Write} (cut : Cut (m.applyOverlappingV031Migrations version) s w t) :
    w = .repair ∧ t = s := by
  rcases cut_bind.mp (cut_onlyIf.mp cut).2 with here | ⟨_, _, asked, here⟩
  · exact absurd here not_cut_check
  · rw [(ends_check.mp asked).2]
    exact cut_write.mp (cut_onlyIf.mp here).2

theorem cut_applyMigrations {w : Write} {middle : MigratedDatabase σ}
    (executed : m.executeAll (m.pending s.schema version target) s = .ok middle)
    (cut : Cut (m.applyMigrations version target) s w t) :
    w = .scripts ∧ t = s ∨ w = .version ∧ t = middle := by
  rcases cut_bind.mp cut with here | ⟨_, a, committed, here⟩
  · exact .inl (cut_write.mp here)
  · have committed := ends_write.mp committed
    rw [executed] at committed
    rw [Except.ok.inj committed]
    exact .inr (cut_write.mp here)

/-- Nothing of a version that needs nothing is cut off before the late writes. -/
theorem cut_of_upToDate {d : MigratedDatabase σ} {w : Write} (latest : UpToDate m target version)
    (cut : Cut (m.applyOverlappingV031Migrations version) d w t ∨ Cut (m.upgrade version target) d w t) :
    False := by
  rcases cut with cut | cut
  · have may := (cut_onlyIf.mp cut).1
    rw [latest.apart] at may
    cases may
  · have behind := (cut_onlyIf.mp cut).1
    rw [latest.notBehind] at behind
    cases behind

/-- **When `Migrate` can be stopped and started again.**

Let the files do what they are taken to do, and let `Migrate` end on a database when it is
not stopped: it executes the latest schema on a new one, and on an older one the repair and
the selected scripts, each once, and the version is the latest then.

Wherever it is stopped instead, starting it again ends with the same database, and only so,
if and only if the write that would have been next is not one of those that come after the
latest schema of a new database, up to its version, and not the version after the commit of
scripts that are selected again. -/
theorem Migrate_restarts (sound : Sound m)
    (blank : m.isInitialized db.schema = false → db.schemaVersion = [])
    (known : m.GetCurrentSchemaVersion = .ok target) (h : Ends m.Migrate db () after) :
    (m.isInitialized db.schema = false → after.executed = db.executed ++ [.latest]) ∧
    (m.isInitialized db.schema = true → ∃ (repairs : List MigrationFile) (avatar : Bool),
      after.executed = db.executed ++
        (repairs ++ m.selected avatar db.schemaVersion target).map .file ∧
      (m.selected avatar db.schemaVersion target).Nodup) ∧
    m.behind after.schemaVersion target = false ∧ m.downgrade after.schemaVersion target = false ∧
    (∀ w t, Cut m.Migrate db w t → (Ends m.Migrate t () after ↔ m.lost db target w = false)) ∧
    Ends m.Migrate after () after := by
  obtain ⟨d, target', d₁, d₂, -, pre, known', repair, notBeyond, upgraded, finished⟩ := ends_Migrate.mp h
  rw [known] at known'
  injection known' with known'
  rw [← known'] at notBeyond upgraded
  have late : ∀ w t, Cut m.finish d₂ w t → m.lost db target w = false := fun w t => writes_finish d₂ w t
  have kept := frame_sameScripts.finish.ends _ _ _ finished
  cases initialized : m.isInitialized db.schema with
  | false =>
      obtain ⟨memos, version, executed⟩ := ends_preMigrate_fresh sound initialized known pre
      have latest : UpToDate m target d.schemaVersion := by
        rw [version]
        exact upToDate_target sound known
      -- The version is there already when the scripts are asked for.
      have same₁ := (Ends.unique repair (ends_overlapping_settled (.inl latest.apart))).2
      rw [same₁] at upgraded
      have same₂ := (Ends.unique upgraded (ends_upgrade_upToDate latest)).2
      rw [same₂] at finished kept late
      obtain ⟨restarts, again⟩ := restart_late sound known memos latest finished
      refine ⟨fun _ => kept.2.trans executed, fun h => (nomatch h), ?_, ?_, fun w t cut => ?_, again⟩
      · rw [kept.1]
        exact latest.notBehind
      · rw [kept.1]
        exact latest.notBeyond
      · rcases cut_Migrate pre known (ends_overlapping_settled (.inl latest.apart))
            (ends_upgrade_upToDate latest) cut with early | repairing | upgrading | finishing
        · have started : t = db ∧ w = .latest ∨ Unversioned m db t ∧ m.lost db target w = true :=
            cut_preMigrate_fresh sound initialized early
          rcases started with ⟨rfl, rfl⟩ | ⟨unversioned, isLost⟩
          · exact ⟨fun _ => rfl, fun _ => h⟩
          · have empty : isVersionEmpty t.schemaVersion = true := by
              rw [unversioned.version, blank initialized]
              rfl
            rw [isLost]
            exact ⟨fun ends => absurd ends (refused unversioned.initialized empty), fun h => (nomatch h)⟩
        · exact (cut_of_upToDate latest (.inl repairing)).elim
        · exact (cut_of_upToDate latest (.inr upgrading)).elim
        · exact ⟨fun _ => late w t finishing, fun _ => restarts w t finishing⟩
  | true =>
      obtain ⟨same, enough⟩ :=
        (ends_checkMinimum_iff initialized).mp ((ends_preMigrate_of_initialized initialized).mp pre)
      rw [← same] at pre repair notBeyond upgraded
      obtain ⟨target'', other, repairs, known'', -, log⟩ :=
        executed_of_Migrate sound.semver initialized h
      rw [known] at known''
      injection known'' with known''
      rw [← known''] at log
      refine ⟨fun h => (nomatch h), fun _ => ⟨repairs, _, log, nodup_selected⟩, ?_⟩
      rcases ends_upgrade.mp upgraded with ⟨behind, middle, executed, rfl⟩ | ⟨notBehind, rfl⟩
      · have scripts := executed
        rw [pending_eq known] at scripts
        have memos := (executeAll_keeps sound scripts).2 ((overlapping_keeps sound repair).2 initialized)
        have latest := upToDate_target sound known
        obtain ⟨restarts, again⟩ :=
          restart_late sound known (s := { middle with schemaVersion := target }) memos latest finished
        refine ⟨?_, ?_, fun w t cut => ?_, again⟩
        · rw [kept.1]
          exact latest.notBehind
        · rw [kept.1]
          exact latest.notBeyond
        · rcases cut_Migrate pre known repair upgraded cut with early | repairing | upgrading | finishing
          · exact absurd early (not_cut_preMigrate initialized)
          · obtain ⟨rfl, rfl⟩ := cut_overlapping repairing
            exact ⟨fun _ => rfl, fun _ => h⟩
          · rcases cut_applyMigrations executed (cut_onlyIf.mp upgrading).2 with ⟨rfl, rfl⟩ | ⟨rfl, rfl⟩
            · exact ⟨fun _ => rfl, fun _ => restart_before_scripts sound known enough notBeyond behind
                finished initialized repair executed⟩
            · rw [restart_after_scripts sound known enough notBeyond behind finished initialized repair
                executed]
              unfold lost
              rw [initialized, Bool.not_true, Bool.false_or, Bool.not_eq_false', List.isEmpty_iff]
          · exact ⟨fun _ => late w t finishing, fun _ => restarts w t finishing⟩
      · have latest := upToDate_of_not_behind sound known notBehind notBeyond
        have settled := ends_overlapping_settled (s := db) (.inl latest.apart)
        have same₁ := (Ends.unique repair settled).2
        rw [same₁] at finished kept late upgraded
        obtain ⟨restarts, again⟩ := restart_late sound known initialized latest finished
        refine ⟨?_, ?_, fun w t cut => ?_, again⟩
        · rw [kept.1]
          exact latest.notBehind
        · rw [kept.1]
          exact latest.notBeyond
        · rcases cut_Migrate pre known settled upgraded cut with early | repairing | upgrading | finishing
          · exact absurd early (not_cut_preMigrate initialized)
          · exact (cut_of_upToDate latest (.inl repairing)).elim
          · exact (cut_of_upToDate latest (.inr upgrading)).elim
          · exact ⟨fun _ => late w t finishing, fun _ => restarts w t finishing⟩

/-! ### Scripts that fail the second time -/

/-- Whose schema is the scripts it has had. -/
def strictMigrator : Migrator (List MigrationScript) where
  compare := versionCompare
  files := [voteFile, pollFile, spaceAvatarFile]
  distinct := files_distinct
  driver := .postgres
  data := []
  instanceURL := []
  execute script had := if script ∈ had then .error "already exists" else .ok (script :: had)
  plusFiles := ["0004__daily_question.sql".toList]
  plusContent _ := "SELECT 1;".toList
  executePlus _ had := .ok had
  isInitialized had := .latest ∈ had
  tableExists _ _ := true
  columnExists had _ column := decide (column ≠ "avatar_url") || decide (.file spaceAvatarFile ∈ had)
  plusColumnExists _ _ _ := false
  plusIndexExists _ _ := false

theorem strict_execute {script : MigrationScript} {s t : List MigrationScript}
    (h : strictMigrator.execute script s = .ok t) : t = script :: s := by
  unfold strictMigrator at h
  dsimp only at h
  split at h
  · cases h
  · exact (Except.ok.inj h).symm

theorem eq_spaceAvatarFile {file : MigrationFile} (h : MigrationFiles.isSpaceAvatar file = true) :
    file = spaceAvatarFile := by
  unfold MigrationFiles.isSpaceAvatar at h
  rw [Bool.and_eq_true, decide_eq_true_eq, decide_eq_true_eq] at h
  cases file
  obtain ⟨rfl, rfl⟩ := h
  rfl

theorem strict_sound : Sound strictMigrator where
  semver := semver_versionCompare
  beyond := ⟨(0, 34, 2), by decide +kernel, by decide⟩
  latest s t h := by
    rw [strict_execute h]
    show decide (MigrationScript.latest ∈ MigrationScript.latest :: s) = true
    exact decide_eq_true List.mem_cons_self
  keeps file s t h initialized := by
    rw [strict_execute h]
    exact decide_eq_true (List.mem_cons_of_mem _ (of_decide_eq_true initialized))
  keepsPlus statement s t h initialized := by
    rw [← Except.ok.inj h]
    exact initialized
  repaired version s t _ := rfl
  avatar file s t is h := by
    rw [strict_execute h, eq_spaceAvatarFile is]
    have there : MigrationScript.file spaceAvatarFile ∈ MigrationScript.file spaceAvatarFile :: s := List.mem_cons_self
    refine ⟨?_, rfl, rfl⟩
    unfold strictMigrator
    dsimp only
    rw [decide_eq_true there, Bool.or_true]
  plus name _ := by
    refine ⟨fun _ _ => True, fun _ _ _ _ _ => trivial, fun _ _ _ _ _ _ _ _ => trivial, ?_⟩
    intro statement _ s _
    unfold runPlus
    split
    · rfl
    · rfl
  data h := nomatch h

/-- A database with the script for avatars, and two more to come. -/
def withAvatars : MigratedDatabase (List MigrationScript) where
  schema := [.file spaceAvatarFile, .latest]
  schemaVersion := "0.33.1".toList
  ledger := none
  seeded := false
  access := none
  executed := []

/-- It is stopped before the scripts are committed. -/
theorem Migrate_restarts_before : ∃ after, Ends strictMigrator.Migrate withAvatars () after ∧
    Cut strictMigrator.Migrate withAvatars .scripts withAvatars ∧
    (Ends strictMigrator.Migrate withAvatars () after ↔
      strictMigrator.lost withAvatars "0.34.2".toList .scripts = false) ∧
    after.executed = [.file pollFile, .file voteFile] := by
  have ends : Ends strictMigrator.Migrate withAvatars () (strictMigrator.Migrate withAvatars).last :=
    ⟨by decide +kernel, rfl⟩
  have cut : Cut strictMigrator.Migrate withAvatars .scripts withAvatars := by
    unfold Cut
    decide +kernel
  have known : strictMigrator.GetCurrentSchemaVersion = .ok "0.34.2".toList := by decide +kernel
  obtain ⟨-, -, -, -, restarts, -⟩ :=
    Migrate_restarts strict_sound (fun h => absurd h (by decide)) known ends
  exact ⟨_, ends, cut, restarts _ _ cut, by decide +kernel⟩

def newDatabase : MigratedDatabase (List MigrationScript) where
  schema := []
  schemaVersion := []
  ledger := none
  seeded := false
  access := none
  executed := []

/-- After the scripts are committed and before their version is recorded. -/
def scriptsCommitted : MigratedDatabase (List MigrationScript) :=
  { withAvatars with
    schema := [.file voteFile, .file pollFile, .file spaceAvatarFile, .latest]
    executed := [.file pollFile, .file voteFile] }

/-- After the latest schema is committed and before its version is recorded. -/
def latestCommitted : MigratedDatabase (List MigrationScript) :=
  { newDatabase with
    schema := [.latest]
    ledger := some ["0004__daily_question.sql".toList]
    executed := [.latest] }

/-- Stopped there, `Migrate` executes a script for the second time, which fails; and it
takes a new database for one that is too old.  In the end neither has the latest version. -/
theorem stopped_for_good :
    (strictMigrator.Migrate withAvatars).result = .ok () ∧
    Cut strictMigrator.Migrate withAvatars .version scriptsCommitted ∧
    (strictMigrator.Migrate scriptsCommitted).result
      = .error "failed to apply migrations: already exists" ∧
    (strictMigrator.Migrate scriptsCommitted).last = scriptsCommitted ∧
    (strictMigrator.Migrate newDatabase).result = .ok () ∧
    Cut strictMigrator.Migrate newDatabase .version latestCommitted ∧
    (strictMigrator.Migrate latestCommitted).result
      = .error ("failed to pre-migrate: " ++ tooOld [] "0.34.2".toList) ∧
    (strictMigrator.Migrate latestCommitted).last = latestCommitted := by
  unfold Cut
  decide +kernel

end Memos.Store.Migrator
