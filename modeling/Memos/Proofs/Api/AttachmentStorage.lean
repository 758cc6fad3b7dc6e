/-
Every live attachment finds its bytes.

Nothing is written or removed where a live attachment's object is.  On the disk an upload
looks first whether something is there, and since the files of live attachments are there,
it takes none of their places, unless the path with the id is taken as well.  A row gets an
object of its own, so what is removed after a row is gone was the object of that row only.
The queue looks whether a row with the path has come back, and what it then removes is no
live attachment's either.

The look goes by the text of the path.  Two texts may lead to one file, so for the queue to
be right a live attachment must not find the file of a queued one under another text.
-/
import Memos.Api.AttachmentStorage
import Memos.Lib.Owned

namespace Memos.Api.Attachments

open Base Store Store.Storages Owned

variable {φ β : Type} (host : Host φ β) (profile : Profile)

def Row.place (row : Row) : Option (Location φ β) := row.toAttachment.location host profile

def Vacant (s : State φ β) (a : Attachment) : Prop :=
  ∀ k, a.location host profile = some k → Free (Row.place host profile) s.attachments k

/-! ### The conditions -/

/-- The file at the path is no live attachment's. -/
def Unused (s : State φ β) (path : Path) : Prop :=
  Free (Row.place host profile) s.attachments
    (.file (host.resolve (absolutePath profile path)))

/-- `path_uid.ext`. -/
def withUID (path : Path) (uid : List Char) : Path :=
  path.take (path.length - (Ext path).length) ++ '_' :: uid ++ Ext path

/-- What an upload that is accepted and writes has to meet.  On the disk `os.Stat` does not
overlook a live attachment's file at the path of the template, and where it finds something
there, the path with the id is free; in a bucket the key is free. -/
def Upload.Fresh (upload : Upload) (s : State φ β) : Prop :=
  upload.accepted s = true → upload.write ≠ .refused →
    ∀ storage, GetDefaultStorage upload.setting = some storage →
      (storage.type = .STORAGE_TYPE_LOCAL →
        (upload.stat = some false → Unused host profile s (upload.templatePath profile)) ∧
        (upload.statFile host s (upload.templatePath profile) = true →
          Unused host profile s (withUID (upload.templatePath profile) upload.uid))) ∧
      (storage.type = .STORAGE_TYPE_S3 →
        Free (Row.place host profile) s.attachments
          (.object (host.bucket storage.id none) upload.objectKey))

/-- A live attachment that finds the object of a queued one has the same text for it. -/
def SameText (s : State φ β) (a : Attachment) : Prop :=
  ∀ row ∈ s.attachments, ∀ k, a.location host profile = some k →
    row.place host profile = some k → row.reference = a.reference

/-- So it is with the items of which the queue removes the object. -/
def Spelled (s : State φ β) (results : List RetryResult) : Prop :=
  ∀ item ∈ (cleanupBatch s).zip results, item.2.removal ≠ .fails →
    SameText host profile s item.1.attachment

/-- Where the object goes before the row, the row goes too. -/
def DeletesBoth (s : State φ β) (id : Int) (result : RemovalResult) (rowDeleted : Bool) : Prop :=
  ∀ a, (targets s (hasID [id])).head? = some a → ∀ k, a.location host profile = some k →
    result.removal = .fails
      ∨ rowDeleted = true ∧ (a.storageType = .Local → result = ⟨.done, true⟩)

def Allowed (s : State φ β) : Action → Prop
  | .create upload => upload.Fresh host profile s
  | .retryCleanup results => Spelled host profile s results
  | .storeDeleteAttachment id result rowDeleted => DeletesBoth host profile s id result rowDeleted
  | _ => True

/-! ### What is promised -/

structure Safe (s : State φ β) : Prop where
  unshared : s.attachments.Pairwise fun a b =>
    a.storageType = .Local → b.storageType = .Local → a.reference ≠ b.reference
  objects : ∀ row ∈ s.attachments, ∀ k, row.place host profile = some k →
    s.objects k = some row.saved

/-- A run of the queue leaves the objects of the live attachments alone. -/
def CleanupSpares [DecidableEq φ] [DecidableEq β] (s : State φ β) (results : List RetryResult) :
    Prop :=
  ∀ row ∈ s.attachments, ∀ k, row.place host profile = some k →
    (RetryAttachmentCleanup host profile s results).objects k = s.objects k

structure Initial (s : State φ β) : Prop where
  attachments : s.attachments = []
  cleanup : s.cleanup = []

/-! ### The invariant -/

structure Inv (s : State φ β) : Prop where
  held : Held (Row.place host profile) Row.saved s.attachments s.objects
  ids : s.attachments.Pairwise fun a b => a.id ≠ b.id
  issued : ∀ row ∈ s.attachments, row.id < s.nextID
  queued : ∀ c ∈ s.cleanup, c.attachment.id < s.nextID
  gone : ∀ c ∈ s.cleanup, ∀ row ∈ s.attachments, row.id ≠ c.attachment.id

variable {host profile} {s t u : State φ β}

theorem Initial.inv (start : Initial s) : Inv host profile s where
  held := start.attachments ▸ .nil
  ids := start.attachments ▸ .nil
  issued row hrow := by
    rw [start.attachments] at hrow
    cases hrow
  queued c hc := by
    rw [start.cleanup] at hc
    cases hc
  gone c hc := by
    rw [start.cleanup] at hc
    cases hc

theorem location_local {a : Attachment} (stored : a.storageType = .Local) :
    a.location host profile = some (.file (host.resolve (absolutePath profile a.reference))) := by
  unfold Attachment.location
  rw [stored]

theorem Inv.safe (inv : Inv host profile s) : Safe host profile s where
  unshared := by
    refine inv.held.apart.imp ?_
    intro a b apart ha hb same
    refine apart _ (location_local ha) ?_
    rw [Row.place, location_local hb, same]
  objects := inv.held.kept

/-! ### Steps that leave the rows alone -/

variable (host profile) in
/-- The rows are the same, the queue has nothing new, and the live objects are spared. -/
structure Touches (s t : State φ β) : Prop where
  attachments : t.attachments = s.attachments
  nextID : t.nextID = s.nextID
  cleanup : ∀ c ∈ t.cleanup, ∃ d ∈ s.cleanup, d.attachment = c.attachment
  objects : Spares (Row.place host profile) s.attachments s.objects t.objects

namespace Touches

theorem refl : Touches host profile s s := ⟨rfl, rfl, fun c hc => ⟨c, hc, rfl⟩, .refl⟩

theorem trans (first : Touches host profile s t) (second : Touches host profile t u) :
    Touches host profile s u where
  attachments := second.attachments.trans first.attachments
  nextID := second.nextID.trans first.nextID
  cleanup c hc := by
    obtain ⟨d, hd, hdc⟩ := second.cleanup c hc
    obtain ⟨e, he, hed⟩ := first.cleanup d hd
    exact ⟨e, he, hed.trans hdc⟩
  objects := first.objects.trans (first.attachments ▸ second.objects)

theorem vacant (touches : Touches host profile s t) {a : Attachment}
    (vacant : Vacant host profile s a) : Vacant host profile t a := by
  intro k hk
  rw [touches.attachments]
  exact vacant k hk

end Touches

theorem Inv.touched (inv : Inv host profile s) (touches : Touches host profile s t) :
    Inv host profile t where
  held := touches.attachments ▸ inv.held.spared touches.objects
  ids := touches.attachments ▸ inv.ids
  issued := by
    rw [touches.attachments, touches.nextID]
    exact inv.issued
  queued c hc := by
    obtain ⟨d, hd, hdc⟩ := touches.cleanup c hc
    rw [touches.nextID, ← hdc]
    exact inv.queued d hd
  gone c hc := by
    obtain ⟨d, hd, hdc⟩ := touches.cleanup c hc
    rw [touches.attachments, ← hdc]
    exact inv.gone d hd

theorem touches_acknowledge (id : Int) :
    Touches host profile s (acknowledgeAttachmentCleanup s id) :=
  ⟨rfl, rfl, fun c hc => ⟨c, (List.mem_filter.mp hc).1, rfl⟩, .refl⟩

theorem touches_stamp (id now : Int) : Touches host profile s (stampAttempt s id now) := by
  refine ⟨rfl, rfl, ?_, .refl⟩
  intro c hc
  obtain ⟨d, hd, rfl⟩ := List.mem_map.mp hc
  refine ⟨d, hd, ?_⟩
  split <;> rfl

theorem vacant_of_not_reused {a : Attachment} (gone : ∀ row ∈ s.attachments, row.id ≠ a.id)
    (spelled : SameText host profile s a) (unused : ¬0 < reused s a) :
    Vacant host profile s a := by
  intro k hk row hrow hplace
  refine unused (List.countP_pos_iff.mpr ⟨row, hrow, ?_⟩)
  simp [gone row hrow, spelled row hrow k hk hplace]

/-! ### Removing objects that are no live attachment's -/

variable [DecidableEq φ] [DecidableEq β]

theorem touches_put {k : Location φ β} (free : Free (Row.place host profile) s.attachments k)
    (value : Option Bytes) : Touches host profile s (put s (some k) value) :=
  ⟨rfl, rfl, fun c hc => ⟨c, hc, rfl⟩, free.spares value⟩

theorem touches_deleteImpl {a : Attachment} {removal : Removal}
    (vacant : removal ≠ .fails → Vacant host profile s a) :
    Touches host profile s (deleteAttachmentStorageImpl host profile s a removal).1 := by
  unfold deleteAttachmentStorageImpl
  split
  · exact .refl
  cases place : a.location host profile with
  | none => exact .refl
  | some k =>
      cases removal with
      | fails => exact .refl
      | doneWithError => exact touches_put (vacant (by simp) k place) none
      | done => exact touches_put (vacant (by simp) k place) none

theorem touches_delete {a : Attachment} {result : RemovalResult}
    (vacant : result.removal ≠ .fails → Vacant host profile s a) :
    Touches host profile s (DeleteAttachmentStorage host profile s a result).1 := by
  have removed := touches_deleteImpl vacant
  unfold DeleteAttachmentStorage
  dsimp only
  split
  · exact removed.trans (touches_acknowledge a.id)
  · exact removed

theorem touches_cleanup {attachments : List Attachment}
    (vacant : ∀ a ∈ attachments, Vacant host profile s a) (results : List RemovalResult) :
    Touches host profile s (cleanupDeletedAttachmentStorage host profile s attachments results) := by
  induction attachments generalizing s results with
  | nil =>
      rw [cleanupDeletedAttachmentStorage]
      · exact .refl
      · simp
  | cons a attachments ih =>
      cases results with
      | nil =>
          rw [cleanupDeletedAttachmentStorage]
          · exact .refl
          · simp
      | cons result results =>
          have first : Touches host profile s
              (DeleteAttachmentStorage host profile s a result).1 :=
            touches_delete fun _ => vacant a List.mem_cons_self
          refine first.trans (ih ?_ results)
          intro b hb
          exact first.vacant (vacant b (List.mem_cons_of_mem a hb))

theorem touches_snapshots {attachments : List Attachment}
    (vacant : ∀ a ∈ attachments, Vacant host profile s a) (removals : List Removal) :
    Touches host profile s
      (deleteAttachmentStorageSnapshots host profile s attachments removals) := by
  induction attachments generalizing s removals with
  | nil =>
      rw [deleteAttachmentStorageSnapshots]
      · exact .refl
      · simp
  | cons a attachments ih =>
      cases removals with
      | nil =>
          rw [deleteAttachmentStorageSnapshots]
          · exact .refl
          · simp
      | cons removal removals =>
          have first : Touches host profile s
              (deleteAttachmentStorageImpl host profile s a removal).1 :=
            touches_deleteImpl fun _ => vacant a List.mem_cons_self
          rw [deleteAttachmentStorageSnapshots]
          dsimp only
          split
          · exact first
          · refine first.trans (ih ?_ removals)
            intro b hb
            exact first.vacant (vacant b (List.mem_cons_of_mem a hb))

/-! ### The queue -/

theorem touches_retry {a : Attachment} {result : RetryResult}
    (gone : ∀ row ∈ s.attachments, row.id ≠ a.id)
    (spelled : result.removal ≠ .fails → SameText host profile s a) :
    Touches host profile s (retryCleanup host profile s a result) := by
  unfold retryCleanup
  by_cases counted : (!result.counted) = true
  · rw [if_pos counted]
    exact .refl
  rw [if_neg counted]
  by_cases again : 0 < reused s a
  · rw [if_pos again]
    split
    · exact touches_acknowledge a.id
    · exact .refl
  · rw [if_neg again]
    have removed : Touches host profile s
        (DeleteAttachmentStorage host profile s a result.toRemovalResult).1 :=
      touches_delete fun done => vacant_of_not_reused gone (spelled done) again
    dsimp only
    split
    · exact removed
    · split
      · exact removed
      · exact removed.trans (touches_stamp a.id _)

theorem touches_retryItems {batch : List CleanupRow} {results : List RetryResult}
    (gone : ∀ c ∈ batch, ∀ row ∈ s.attachments, row.id ≠ c.attachment.id)
    (spelled : ∀ item ∈ batch.zip results, item.2.removal ≠ .fails →
      SameText host profile s item.1.attachment) :
    Touches host profile s (retryItems host profile s batch results) := by
  induction batch generalizing s results with
  | nil =>
      rw [retryItems]
      · exact .refl
      · simp
  | cons c batch ih =>
      cases results with
      | nil =>
          rw [retryItems]
          · exact .refl
          · simp
      | cons result results =>
          rw [List.zip_cons_cons] at spelled
          have first := touches_retry (gone c List.mem_cons_self)
            (spelled (c, result) List.mem_cons_self)
          refine first.trans (ih ?_ ?_)
          · rw [first.attachments]
            intro d hd
            exact gone d (List.mem_cons_of_mem c hd)
          · intro item hitem done
            unfold SameText
            rw [first.attachments]
            exact spelled item (List.mem_cons_of_mem _ hitem) done

theorem Inv.touches_queue {results : List RetryResult} (inv : Inv host profile s)
    (spelled : Spelled host profile s results) :
    Touches host profile s (RetryAttachmentCleanup host profile s results) := by
  refine touches_retryItems ?_ spelled
  intro c hc
  exact inv.gone c (List.mem_mergeSort.mp (List.mem_of_mem_take hc))

/-! ### Deleting rows -/

omit [DecidableEq φ] [DecidableEq β] in
theorem Inv.deleteRows (inv : Inv host profile s) (deleted : Row → Bool) :
    Inv host profile (deleteRows s deleted) where
  held := inv.held.sublist List.filter_sublist
  ids := inv.ids.sublist List.filter_sublist
  issued row hrow := inv.issued row (List.mem_filter.mp hrow).1
  queued := inv.queued
  gone c hc row hrow := inv.gone c hc row (List.mem_filter.mp hrow).1

omit [DecidableEq φ] [DecidableEq β] in
theorem Inv.vacant_targets (inv : Inv host profile s) {deleted : Row → Bool} {a : Attachment}
    (target : a ∈ targets s deleted) : Vacant host profile (Attachments.deleteRows s deleted) a := by
  obtain ⟨row, hrow, rfl⟩ := List.mem_map.mp target
  obtain ⟨old, going⟩ := List.mem_filter.mp hrow
  intro k hk
  exact inv.held.free_of_dropped old (by simp [going]) hk

omit [DecidableEq φ] [DecidableEq β] in
theorem enqueue_fields (attachments : List Attachment) :
    (EnqueueAttachmentCleanup s attachments).attachments = s.attachments
      ∧ (EnqueueAttachmentCleanup s attachments).nextID = s.nextID
      ∧ (EnqueueAttachmentCleanup s attachments).objects = s.objects
      ∧ ∀ c ∈ (EnqueueAttachmentCleanup s attachments).cleanup,
        c ∈ s.cleanup ∨ c.attachment ∈ attachments := by
  unfold EnqueueAttachmentCleanup
  induction attachments generalizing s with
  | nil => exact ⟨rfl, rfl, rfl, fun c hc => .inl hc⟩
  | cons a attachments ih =>
      rw [List.foldl_cons]
      split
      · obtain ⟨hrows, hnext, hobjects, hqueue⟩ := ih (s := s)
        refine ⟨hrows, hnext, hobjects, ?_⟩
        intro c hc
        exact (hqueue c hc).imp_right (List.mem_cons_of_mem a)
      · obtain ⟨hrows, hnext, hobjects, hqueue⟩ :=
          ih (s := { s with cleanup := s.cleanup ++ [⟨a, 0⟩] })
        refine ⟨hrows, hnext, hobjects, ?_⟩
        intro c hc
        rcases hqueue c hc with old | new
        · rcases List.mem_append.mp old with older | added
          · exact .inl older
          · rw [List.mem_singleton.mp added]
            exact .inr List.mem_cons_self
        · exact .inr (List.mem_cons_of_mem a new)

omit [DecidableEq φ] [DecidableEq β] in
/-- A row that is queued goes in the same transaction, and its id does not come back. -/
theorem Inv.deleteRowsTx (inv : Inv host profile s) (deleted : Row → Bool) :
    Inv host profile (deleteRowsTx s deleted) := by
  obtain ⟨hrows, hnext, hobjects, hqueue⟩ := enqueue_fields (s := s) (targets s deleted)
  have kept : (Attachments.deleteRowsTx s deleted).attachments
      = s.attachments.filter fun row => !deleted row := by
    rw [Attachments.deleteRowsTx, Attachments.deleteRows, hrows]
  have sub : (s.attachments.filter fun row => !deleted row).Sublist s.attachments :=
    List.filter_sublist
  constructor
  · rw [kept]
    exact (hobjects ▸ inv.held).sublist sub
  · rw [kept]
    exact inv.ids.sublist sub
  · intro row hrow
    rw [kept] at hrow
    exact hnext ▸ inv.issued row (sub.subset hrow)
  · intro c hc
    change c.attachment.id < (EnqueueAttachmentCleanup s _).nextID
    rw [hnext]
    rcases hqueue c hc with old | new
    · exact inv.queued c old
    · obtain ⟨row, hrow, same⟩ := List.mem_map.mp new
      rw [← same]
      exact inv.issued row (List.mem_filter.mp hrow).1
  · intro c hc row hrow
    rw [kept] at hrow
    obtain ⟨old, stays⟩ := List.mem_filter.mp hrow
    rcases hqueue c hc with before | new
    · exact inv.gone c before row old
    · obtain ⟨target, htarget, same⟩ := List.mem_map.mp new
      obtain ⟨there, going⟩ := List.mem_filter.mp htarget
      have ne : row ≠ target := by
        rintro rfl
        rw [going] at stays
        cases stays
      have : Std.Symm fun a b : Row => a.id ≠ b.id := ⟨fun a b h => h.symm⟩
      rw [← same]
      exact inv.ids.forall old there ne

omit [DecidableEq φ] [DecidableEq β] in
theorem Inv.vacant_targetsTx (inv : Inv host profile s) {deleted : Row → Bool} {a : Attachment}
    (target : a ∈ targets s deleted) :
    Vacant host profile (Attachments.deleteRowsTx s deleted) a := by
  have vacant := inv.vacant_targets target
  unfold Vacant at vacant ⊢
  rw [Attachments.deleteRows] at vacant
  rw [Attachments.deleteRowsTx, Attachments.deleteRows, (enqueue_fields _).1]
  exact vacant

/-- Removing an object and deleting rows do not get in each other's way. -/
theorem delete_deleteRows (deleted : Row → Bool) (a : Attachment) (result : RemovalResult) :
    (DeleteAttachmentStorage host profile (deleteRows s deleted) a result).1
      = deleteRows (DeleteAttachmentStorage host profile s a result).1 deleted := by
  unfold DeleteAttachmentStorage deleteAttachmentStorageImpl
  by_cases missing : a.storageType = .S3 ∧ a.s3Object = none
  · simp only [if_pos missing]
    rfl
  · simp only [if_neg missing]
    cases a.location host profile with
    | none => cases result.acknowledged <;> rfl
    | some k => cases result.removal <;> cases result.acknowledged <;> rfl

theorem delete_done {a : Attachment} (stored : a.storageType = .Local) :
    (DeleteAttachmentStorage host profile s a ⟨.done, true⟩).2 = true := by
  unfold DeleteAttachmentStorage deleteAttachmentStorageImpl
  rw [location_local stored, stored]
  rfl

theorem delete_fails {a : Attachment} {result : RemovalResult} {k : Location φ β}
    (place : a.location host profile = some k) (fails : result.removal = .fails) :
    (DeleteAttachmentStorage host profile s a result).1 = s := by
  have kept : deleteAttachmentStorageImpl host profile s a result.removal = (s, false) := by
    unfold deleteAttachmentStorageImpl
    rw [place, fails]
    split <;> rfl
  rw [DeleteAttachmentStorage, kept]
  rfl

theorem Inv.storeDeleteAttachment (inv : Inv host profile s) {id : Int} {result : RemovalResult}
    {rowDeleted : Bool} (both : DeletesBoth host profile s id result rowDeleted) :
    Inv host profile (storeDeleteAttachment host profile s id result rowDeleted) := by
  unfold Attachments.storeDeleteAttachment
  cases head : (targets s (hasID [id])).head? with
  | none => exact inv
  | some a =>
      have target : a ∈ targets s (hasID [id]) := List.mem_of_head? head
      have after : Inv host profile (Attachments.deleteRows
          (DeleteAttachmentStorage host profile s a result).1 (hasID [id])) := by
        rw [← delete_deleteRows]
        exact (inv.deleteRows _).touched (touches_delete fun _ => inv.vacant_targets target)
      dsimp only
      cases place : a.location host profile with
      | none =>
          have vacant : Vacant host profile s a := by
            intro k hk
            rw [place] at hk
            cases hk
          have removed : Inv host profile (DeleteAttachmentStorage host profile s a result).1 :=
            inv.touched (touches_delete fun _ => vacant)
          split
          · exact removed
          · split
            · exact after
            · exact removed
      | some k =>
          rcases both a head k place with fails | ⟨gone, done⟩
          · rw [delete_fails place fails] at after ⊢
            split
            · exact inv
            · split
              · exact after
              · exact inv
          · by_cases stored : a.storageType = .Local
            · rw [done stored] at after ⊢
              rw [delete_done stored, gone]
              exact after
            · rw [decide_eq_false stored, Bool.and_false, gone]
              exact after

/-! ### An upload -/

omit [DecidableEq φ] [DecidableEq β] in
theorem isAbs_absolutePath (path : Path) : IsAbs (absolutePath profile path) = true := by
  unfold absolutePath
  split
  · assumption
  · exact SlashPath.isAbs_join profile.absolute

omit [DecidableEq φ] [DecidableEq β] in
theorem localPath_ne_nil (upload : Upload) : upload.localPath host profile s ≠ [] := by
  have rooted : IsAbs (upload.templatePath profile) = true := isAbs_absolutePath _
  unfold Upload.localPath ensureUniqueLocalAttachmentPath
  split
  · exact SlashPath.ne_nil_of_isAbs rooted
  · simp

omit [DecidableEq φ] [DecidableEq β] in
theorem upload_managed {upload : Upload} {create : Attachment}
    (made : upload.attachment host profile s = some create) {k : Location φ β}
    (place : create.location host profile = some k) :
    hasSameManagedStorageObject (some create) create = true := by
  unfold Upload.attachment at made
  dsimp only at made
  split at made
  · cases made
  split at made
  · cases made
    simp [hasSameManagedStorageObject, localPath_ne_nil]
  · split at made
    · cases made
    · rename_i keyed
      cases made
      simp [hasSameManagedStorageObject, keyed]
  · cases made
    cases place

omit [DecidableEq φ] [DecidableEq β] in
theorem upload_memoID {upload : Upload} {create : Attachment}
    (made : upload.attachment host profile s = some create) :
    create.memoID = upload.memoID := by
  unfold Upload.attachment at made
  dsimp only at made
  split at made
  · cases made
  split at made
  · cases made
    rfl
  · split at made
    · cases made
    · cases made
      rfl
  · cases made
    rfl

omit [DecidableEq φ] [DecidableEq β] in
/-- What `os.Stat` does not find is no live attachment's file: the live ones are there. -/
theorem Inv.unused_of_missing (inv : Inv host profile s) {upload : Upload}
    (trusted : upload.stat = some false → Unused host profile s (upload.templatePath profile))
    (missing : upload.statFile host s (upload.templatePath profile) = false) :
    Unused host profile s (upload.templatePath profile) := by
  cases answer : upload.stat with
  | some found =>
      cases found with
      | false => exact trusted answer
      | true =>
          rw [Upload.statFile, answer] at missing
          cases missing
  | none =>
      rw [Upload.statFile, answer, Option.getD_none, Option.isSome_eq_false_iff,
        Option.isNone_iff_eq_none] at missing
      intro row there place
      have rooted : absolutePath profile (upload.templatePath profile) = upload.templatePath profile :=
        if_pos (isAbs_absolutePath _)
      rw [rooted] at place
      rw [inv.held.kept row there _ place] at missing
      cases missing

omit [DecidableEq φ] [DecidableEq β] in
/-- The probing, and what it cannot see, leave an upload with a place of its own. -/
theorem Inv.vacant_of_fresh (inv : Inv host profile s) {upload : Upload} {create : Attachment}
    (accepted : upload.accepted s = true) (fresh : upload.Fresh host profile s)
    (writes : upload.write ≠ .refused) (made : upload.attachment host profile s = some create) :
    Vacant host profile s create := by
  have fresh := fresh accepted writes
  intro k place
  unfold Upload.attachment at made
  dsimp only at made
  split at made
  · cases made
  rename_i storage default
  obtain ⟨disk, bucket⟩ := fresh storage default
  split at made
  · rename_i isLocal
    obtain ⟨trusted, taken⟩ := disk isLocal
    cases made
    cases place
    show Unused host profile s (upload.localPath host profile s)
    unfold Upload.localPath ensureUniqueLocalAttachmentPath
    cases found : upload.statFile host s (upload.templatePath profile) with
    | false => exact inv.unused_of_missing trusted found
    | true => exact taken found
  · rename_i isS3
    split at made
    · cases made
    · cases made
      cases place
      exact bucket isS3
  · cases made
    cases place

variable (host profile) in
/-- An attachment whose bytes are where its row will look for them. -/
structure Put (s : State φ β) (upload : Upload) (create : Attachment) : Prop where
  vacant : Vacant host profile s create
  written : ∀ k, create.location host profile = some k → s.objects k = some upload.blob

/-- The spec of the save: it touches nothing, and what it returns has been written. -/
theorem save_spec {upload : Upload} (inv : Inv host profile s) (accepted : upload.accepted s = true)
    (fresh : upload.Fresh host profile s) :
    Touches host profile s (saveAttachmentBlob host profile s upload).1 ∧
      ∀ create, (saveAttachmentBlob host profile s upload).2 = some create →
        upload.attachment host profile s = some create
          ∧ (saveAttachmentBlob host profile s upload).1.trash = s.trash
          ∧ Put host profile (saveAttachmentBlob host profile s upload).1 upload create := by
  unfold saveAttachmentBlob
  cases made : upload.attachment host profile s with
  | none => exact ⟨.refl, by simp⟩
  | some create =>
      have vacant := fun writes => inv.vacant_of_fresh accepted fresh writes made
      dsimp only
      cases place : create.location host profile with
      | none =>
          refine ⟨.refl, ?_⟩
          intro create' same
          cases same
          refine ⟨rfl, rfl, ?_, by simp [place]⟩
          intro k hk
          rw [place] at hk
          cases hk
      | some k =>
          cases write : upload.write with
          | refused => exact ⟨.refl, by simp⟩
          | broken left => exact ⟨touches_put (vacant (by simp [write]) k place) left, by simp⟩
          | written =>
              have vacant := vacant (by simp [write])
              have touches := touches_put (vacant k place) (some upload.blob)
              refine ⟨touches, ?_⟩
              intro create' same
              cases same
              refine ⟨rfl, rfl, touches.vacant vacant, ?_⟩
              intro k' place'
              rw [place] at place'
              cases place'
              exact Function.update_self ..

omit [DecidableEq φ] [DecidableEq β] in
theorem Inv.insert {upload : Upload} {create : Attachment} (inv : Inv host profile s)
    (put : Put host profile s upload create)
    (inserted : insertAttachment s create upload.blob = some t) : Inv host profile t := by
  unfold insertAttachment at inserted
  split at inserted
  · cases inserted
  cases inserted
  constructor
  · exact inv.held.snoc put.vacant put.written
  · dsimp only
    rw [List.pairwise_append]
    refine ⟨inv.ids, List.pairwise_singleton _ _, ?_⟩
    intro row hrow new hnew
    rw [List.mem_singleton.mp hnew]
    exact Int.ne_of_lt (inv.issued row hrow)
  · intro row hrow
    rcases List.mem_append.mp hrow with old | new
    · have := inv.issued row old
      dsimp only
      omega
    · rw [List.mem_singleton.mp new]
      exact Int.lt_succ s.nextID
  · intro c hc
    have := inv.queued c hc
    dsimp only
    omega
  · intro c hc row hrow
    rcases List.mem_append.mp hrow with old | new
    · exact inv.gone c hc row old
    · rw [List.mem_singleton.mp new]
      exact (Int.ne_of_lt (inv.queued c hc)).symm

omit [DecidableEq φ] [DecidableEq β] in
theorem found_of_insert {create : Attachment} {saved : Bytes}
    (inserted : insertAttachment s create saved = some t)
    (outside : create.memoID.all (fun memoID => !s.trash.contains memoID) = true) :
    (GetAttachmentByUID t create.uid).map Row.toAttachment
      = some { create with id := s.nextID } := by
  unfold insertAttachment at inserted
  split at inserted
  · cases inserted
  rename_i unused
  cases inserted
  unfold GetAttachmentByUID
  rw [List.find?_append, List.find?_eq_none.mpr, Option.none_or]
  · rw [List.find?_cons_of_pos]
    · rfl
    · simp only [decide_true, Bool.true_and]
      exact outside
  · intro row hrow found
    refine unused (List.any_eq_true.mpr ⟨row, hrow, ?_⟩)
    simp only [Bool.and_eq_true] at found
    exact found.1

theorem Inv.compensate {upload : Upload} {create : Attachment} (inv : Inv host profile s)
    (vacant : Vacant host profile s create) :
    Inv host profile (cleanupSavedAttachmentBlob host profile s create upload) := by
  unfold cleanupSavedAttachmentBlob
  split
  · exact inv
  split
  · exact inv
  split
  · exact inv
  · exact inv.touched (touches_delete fun _ => vacant)

theorem hasSame_id {left right : Attachment} (id : Int) :
    hasSameManagedStorageObject (some { left with id }) right
      = hasSameManagedStorageObject (some left) right := rfl

theorem Inv.compensate_insert {upload : Upload} {create : Attachment} (inv : Inv host profile t)
    (managed : ∀ k, create.location host profile = some k →
      hasSameManagedStorageObject (some create) create = true)
    (inserted : insertAttachment s create upload.blob = some t)
    (outside : create.memoID.all (fun memoID => !s.trash.contains memoID) = true) :
    Inv host profile (cleanupSavedAttachmentBlob host profile t create upload) := by
  cases place : create.location host profile with
  | none =>
      refine inv.compensate ?_
      intro k hk
      rw [place] at hk
      cases hk
  | some k =>
      unfold cleanupSavedAttachmentBlob
      rw [found_of_insert inserted outside, hasSame_id, managed k place]
      split
      · exact inv
      split
      · exact inv
      · exact inv

theorem Inv.create {upload : Upload} (inv : Inv host profile s)
    (fresh : upload.Fresh host profile s) :
    Inv host profile (CreateAttachment host profile s upload) := by
  unfold CreateAttachment
  split
  · exact inv
  rename_i unrefused
  have accepted : upload.accepted s = true := by simpa using unrefused
  obtain ⟨touches, saved⟩ := save_spec inv accepted fresh
  have kept := inv.touched touches
  split
  · rename_i u result
    rw [result] at kept
    exact kept
  rename_i u create result
  rw [result] at kept saved
  obtain ⟨made, trash, put⟩ := saved create rfl
  have outside : create.memoID.all (fun memoID => !u.trash.contains memoID) = true := by
    change u.trash = s.trash at trash
    rw [upload_memoID made, trash]
    unfold Upload.accepted at accepted
    simp only [Bool.and_eq_true] at accepted
    exact accepted.2
  have managed := fun k => upload_managed (k := k) made
  split
  · exact kept
  · exact kept.compensate put.vacant
  · cases inserted : insertAttachment u create upload.blob with
    | none => exact kept.compensate put.vacant
    | some v => exact (kept.insert put inserted).compensate_insert managed inserted outside
  · split
    · rename_i v inserted
      exact kept.insert put inserted
    · exact kept.compensate put.vacant

/-! ### Runs -/

omit [DecidableEq φ] [DecidableEq β] in
theorem Inv.updateRow (inv : Inv host profile s) (id : Int) (memoID : Option Int)
    (filename : List Char) : Inv host profile (updateRow s id memoID filename) := by
  have ids : ∀ row : Row, (if row.id = id then { row with memoID, filename } else row).id
      = row.id := by
    intro row
    split <;> rfl
  constructor
  · refine inv.held.map ?_ ?_
    · intro row
      split <;> rfl
    · intro row
      split <;> rfl
  · refine List.pairwise_map.mpr (inv.ids.imp ?_)
    intro a b ne
    rw [ids, ids]
    exact ne
  · intro row hrow
    obtain ⟨old, hold, rfl⟩ := List.mem_map.mp hrow
    rw [ids]
    exact inv.issued old hold
  · exact inv.queued
  · intro c hc row hrow
    obtain ⟨old, hold, rfl⟩ := List.mem_map.mp hrow
    rw [ids]
    exact inv.gone c hc old hold

theorem Inv.step {action : Action} (inv : Inv host profile s)
    (allowed : Allowed host profile s action) (next : step host profile s action = some t) :
    Inv host profile t := by
  cases action with
  | create upload =>
      cases next
      exact inv.create allowed
  | deleteAttachments ids results =>
      cases next
      exact (inv.deleteRows _).touched
        (touches_cleanup (fun a target => inv.vacant_targets target) results)
  | deleteMemos memoIDs results | deleteUser ids results =>
      cases next
      exact (inv.deleteRowsTx _).touched
        (touches_cleanup (fun a target => inv.vacant_targetsTx target) results)
  | storeDeleteMemo memoID removals =>
      cases next
      exact (inv.deleteRowsTx _).touched
        (touches_snapshots (fun a target => inv.vacant_targetsTx target) removals)
  | storeDeleteAttachments ids removals =>
      cases next
      exact (inv.deleteRows _).touched
        (touches_snapshots (fun a target => inv.vacant_targets target) removals)
  | storeDeleteAttachment id result rowDeleted =>
      cases next
      exact inv.storeDeleteAttachment allowed
  | retryCleanup results =>
      cases next
      exact inv.touched (inv.touches_queue allowed)
  | setTrash memoIDs =>
      cases next
      exact ⟨inv.held, inv.ids, inv.issued, inv.queued, inv.gone⟩
  | updateRow id memoID filename =>
      cases next
      exact inv.updateRow id memoID filename

theorem Inv.run (run : Runs.Run (Attachments.step host profile) (Allowed host profile) s t)
    (start : Inv host profile s) : Inv host profile t :=
  run.invariant start fun _ _ _ inv allowed next => inv.step allowed next

def sampleHost : Host Path String := ⟨SlashPath.clean '/' '.', fun storageId _ => storageId⟩

def sampleProfile : Profile := ⟨"/memos".toList, by decide⟩

def sampleUpload (template uid filename : String) (blob : Bytes) : Upload :=
  { setting :=
      { storageType := .STORAGE_TYPE_LOCAL, filepathTemplate := template
        uploadSizeLimitMb := 30, s3Config := none
        storages := [⟨"local", "Local", .STORAGE_TYPE_LOCAL, none⟩], defaultStorageId := "local" }
    uid := uid.toList, filename := filename.toList, blob, memoID := some 7
    clock := ⟨1767225600, 2026, 1, 1, 0, 0, 0⟩
    genUUID := fun found => "00000000-0000-4000-8000-00000000000".toList ++ (toString found).toList
    stat := none, write := .written, insert := .inserted
    lookup := true, removal := ⟨.done, true⟩ }

def emptyInstance : State Path String := ⟨[], [], [], 1, fun _ => none⟩

theorem emptyInstance_initial : Initial emptyInstance := ⟨rfl, rfl⟩

def bareTemplate : String := "\x7bfilename\x7d"

/-- A file, and one whose name is what the other's would be made if it came again. -/
def twoUploaded : State Path String :=
  CreateAttachment sampleHost sampleProfile
    (CreateAttachment sampleHost sampleProfile emptyInstance
      (sampleUpload bareTemplate "first" "a.txt" [1]))
    (sampleUpload bareTemplate "second" "a_third.txt" [2])

/-- It comes again, under the id that makes it so. -/
def threeUploaded : State Path String :=
  CreateAttachment sampleHost sampleProfile twoUploaded
    (sampleUpload bareTemplate "third" "a.txt" [3])

def leftQueued : State Path String :=
  deleteMemos sampleHost sampleProfile
    (CreateAttachment sampleHost sampleProfile emptyInstance
      (sampleUpload "/memos//\x7bfilename\x7d" "first" "a.txt" [1])) [7] [⟨.done, false⟩]

/-- The path is used again, without the slash too many. -/
def pathReused : State Path String :=
  CreateAttachment sampleHost sampleProfile leftQueued
    (sampleUpload "/memos/\x7bfilename\x7d" "second" "a.txt" [2])

end Memos.Api.Attachments
