/-
What a backup holds.

While the database stays as it is, the two loops of pages are folds over its memos and over
the attachments of each.  One attachment adds an entry, a record that it was skipped, or
both when its reading fails midway, and nothing when it is a reference only; a memo adds its
own entry after those.  The manifest counts along.

So each memo has one entry.  Each attachment of a memo is in the archive as a whole, is in
a record, or is named by its reference in the metadata of the memo, and in one of these only.
An attachment that no memo has is in none.
-/
import Memos.Proofs.Api.BackupNames
import Memos.Proofs.Store.Delete

namespace Memos.Api.Backup

open Store Access

variable {storage : BackupStorage} {db : Tables} {mode : String}

/-! ### One attachment -/

section Attachment

variable (storage) (mode) (memo : MemoRow) (a : AttachmentRow)

def skipEntry (n : Nat) (reason : String) : BackupEntry :=
  { path := skipPath (n + 1), body := .skip a.id { path := attachmentPath memo a, reason } }

def fileEntry (stream : Stream) : BackupEntry :=
  { path := attachmentPath memo a, body := .attachment a.id stream.failure.isNone stream.bytes }

/-- What an attachment adds to the archive when `n` have been skipped before. -/
def attachmentEntries (n : Nat) : List BackupEntry :=
  if a.storageType = .External then []
  else match backupAttachmentReader storage a mode with
    | .error reason => [skipEntry memo a n reason]
    | .ok stream =>
        fileEntry memo a stream :: (stream.failure.map (skipEntry memo a n)).toList

def mention : Option String :=
  if a.storageType = .External then some a.reference
  else match backupAttachmentReader storage a mode with
    | .error _ => none
    | .ok stream => if stream.failure.isNone then some (attachmentPath memo a) else none

end Attachment

def skips (entries : List BackupEntry) : List (String × BackupSkip) :=
  entries.filterMap fun e => match e.body with
    | .skip _ item => some (e.path, item)
    | _ => none

def EntryBody.isMemo : EntryBody → Bool
  | .memo .. => true
  | _ => false

def EntryBody.isComplete : EntryBody → Bool
  | .attachment _ complete _ => complete
  | _ => false

/-- The manifest counts what is in the archive. -/
structure Consistent (state : BackupState) : Prop where
  numbered : (skips state.entries).map Prod.fst
    = (List.range state.manifest.skippedCount).map fun n => skipPath (n + 1)
  skipped : state.manifest.skipped = ((skips state.entries).map Prod.snd).take 1000
  attachments : state.manifest.attachments = state.entries.countP fun e => e.body.isComplete
  memos : state.manifest.memos = state.entries.countP fun e => e.body.isMemo

theorem skips_append (entries more : List BackupEntry) :
    skips (entries ++ more) = skips entries ++ skips more := List.filterMap_append ..

theorem take_snoc {α : Type} (kept : List α) (more : α) (n : Nat) :
    (kept ++ [more]).take n = if (kept.take n).length < n then kept.take n ++ [more] else kept.take n := by
  rw [List.length_take]
  split
  · rename_i few
    have short : kept.length < n := by omega
    rw [List.take_of_length_le (by rw [List.length_append, List.length_singleton]; omega),
      List.take_of_length_le (by omega)]
  · rename_i full
    rw [List.take_append_of_le_length (by omega)]

theorem entries_recordSkip (state : BackupState) (id : Int) (path reason : String) :
    (state.recordSkip id path reason).entries = state.entries
      ++ [⟨skipPath (state.manifest.skippedCount + 1), .skip id ⟨path, reason⟩⟩] := rfl

theorem Consistent.recordSkip {state : BackupState} (consistent : Consistent state) (id : Int)
    (path reason : String) : Consistent (state.recordSkip id path reason) := by
  have one : skips [⟨skipPath (state.manifest.skippedCount + 1), .skip id ⟨path, reason⟩⟩]
      = [(skipPath (state.manifest.skippedCount + 1), ⟨path, reason⟩)] := rfl
  refine ⟨?_, ?_, ?_, ?_⟩
  · rw [entries_recordSkip, skips_append, one, List.map_append, consistent.numbered]
    show _ = (List.range (state.manifest.skippedCount + 1)).map _
    rw [List.range_succ, List.map_append]
    rfl
  · rw [entries_recordSkip, skips_append, one, List.map_append, List.map_singleton, take_snoc,
      ← consistent.skipped]
    rfl
  · rw [entries_recordSkip, List.countP_append, ← consistent.attachments]
    rfl
  · rw [entries_recordSkip, List.countP_append, ← consistent.memos]
    rfl

/-- An entry that is no record, with what it counts for. -/
theorem Consistent.write {state : BackupState} (consistent : Consistent state) {e : BackupEntry}
    (none : skips [e] = []) :
    Consistent { entries := state.entries ++ [e], manifest := { state.manifest with
      attachments := state.manifest.attachments + e.body.isComplete.toNat
      memos := state.manifest.memos + e.body.isMemo.toNat } } := by
  refine ⟨?_, ?_, ?_, ?_⟩
  · rw [skips_append, none, List.append_nil, consistent.numbered]
  · rw [skips_append, none, List.append_nil]
    exact consistent.skipped
  · rw [List.countP_append, ← consistent.attachments]
    cases complete : e.body.isComplete
    all_goals simp [complete]
  · rw [List.countP_append, ← consistent.memos]
    cases memo : e.body.isMemo
    all_goals simp [memo]

def BackupState.complete (state : BackupState) (e : BackupEntry) : BackupState :=
  { state.write e with
    manifest := { state.manifest with attachments := state.manifest.attachments + 1 } }

variable {memo : MemoRow} {a : AttachmentRow} {export' : BackupState × List String}

theorem exportAttachment_cases (storage : BackupStorage) (mode : String) (memo : MemoRow)
    (a : AttachmentRow) (state : BackupState) (named : List String) :
    (a.storageType = .External
      ∧ exportAttachment storage mode memo (state, named) a = (state, named ++ [a.reference])) ∨
    (∃ reason, a.storageType ≠ .External ∧ backupAttachmentReader storage a mode = .error reason
      ∧ exportAttachment storage mode memo (state, named) a
        = (state.recordSkip a.id (attachmentPath memo a) reason, named)) ∨
    (∃ stream reason, a.storageType ≠ .External
      ∧ backupAttachmentReader storage a mode = .ok stream ∧ stream.failure = some reason
      ∧ exportAttachment storage mode memo (state, named) a
        = ((state.write (fileEntry memo a stream)).recordSkip a.id (attachmentPath memo a) reason,
          named)) ∨
    (∃ stream, a.storageType ≠ .External
      ∧ backupAttachmentReader storage a mode = .ok stream ∧ stream.failure = none
      ∧ exportAttachment storage mode memo (state, named) a
        = (state.complete (fileEntry memo a stream), named ++ [attachmentPath memo a])) := by
  unfold exportAttachment
  dsimp only
  by_cases external : a.storageType = .External
  · exact .inl ⟨external, if_pos external⟩
  · rw [if_neg external]
    cases read : backupAttachmentReader storage a mode with
    | error reason => exact .inr (.inl ⟨reason, external, rfl, rfl⟩)
    | ok stream =>
        cases failed : stream.failure with
        | some reason =>
            refine .inr (.inr (.inl ⟨stream, reason, external, rfl, failed, ?_⟩))
            simp only [fileEntry, failed]
        | none =>
            refine .inr (.inr (.inr ⟨stream, external, rfl, failed, ?_⟩))
            simp only [fileEntry, failed, BackupState.complete]
            rfl

theorem exportAttachment_entries :
    (exportAttachment storage mode memo export' a).1.entries
      = export'.1.entries ++ attachmentEntries storage mode memo a export'.1.manifest.skippedCount := by
  obtain ⟨state, named⟩ := export'
  unfold attachmentEntries
  rcases exportAttachment_cases storage mode memo a state named with ⟨external, step⟩
    | ⟨reason, external, read, step⟩ | ⟨stream, reason, external, read, failed, step⟩
    | ⟨stream, external, read, failed, step⟩
  · rw [step, if_pos external, List.append_nil]
  · rw [step, if_neg external, read]
    rfl
  · rw [step, if_neg external, read]
    simp only [failed, entries_recordSkip, BackupState.write, List.append_assoc]
    rfl
  · rw [step, if_neg external, read]
    simp only [failed, BackupState.complete, BackupState.write, Option.map_none, Option.toList_none]

theorem exportAttachment_named :
    (exportAttachment storage mode memo export' a).2
      = export'.2 ++ (mention storage mode memo a).toList := by
  obtain ⟨state, named⟩ := export'
  unfold mention
  rcases exportAttachment_cases storage mode memo a state named with ⟨external, step⟩
    | ⟨reason, external, read, step⟩ | ⟨stream, reason, external, read, failed, step⟩
    | ⟨stream, external, read, failed, step⟩
  · rw [step, if_pos external, Option.toList_some]
  · rw [step, if_neg external, read, Option.toList_none, List.append_nil]
  · rw [step, if_neg external, read]
    simp [failed]
  · rw [step, if_neg external, read]
    simp [failed]

theorem Consistent.exportAttachment (consistent : Consistent export'.1) :
    Consistent (exportAttachment storage mode memo export' a).1 := by
  obtain ⟨state, named⟩ := export'
  rcases exportAttachment_cases storage mode memo a state named with ⟨external, step⟩
    | ⟨reason, external, read, step⟩ | ⟨stream, reason, external, read, failed, step⟩
    | ⟨stream, external, read, failed, step⟩
  · rw [step]
    exact consistent
  · rw [step]
    exact consistent.recordSkip ..
  · rw [step]
    have begun := consistent.write (show skips [fileEntry memo a stream] = [] from rfl)
    simp only [fileEntry, failed, EntryBody.isComplete, EntryBody.isMemo] at begun
    exact Consistent.recordSkip (by simpa [BackupState.write, fileEntry, failed] using begun) ..
  · rw [step]
    have written := consistent.write (show skips [fileEntry memo a stream] = [] from rfl)
    simp only [fileEntry, failed, EntryBody.isComplete, EntryBody.isMemo] at written
    simpa [BackupState.complete, BackupState.write, fileEntry, failed] using written

/-! ### The attachments of a memo -/

section Memo

variable {β : Type} {p : BackupEntry → Option β} {c : MemoRow → AttachmentRow → Option β}

/-- What is read off the entries, when the number of a record does not matter for it. -/
theorem attachments_filterMap
    (each : ∀ memo a n, (attachmentEntries storage mode memo a n).filterMap p = (c memo a).toList)
    (attachments : List AttachmentRow) (export' : BackupState × List String) :
    (attachments.foldl (exportAttachment storage mode memo) export').1.entries.filterMap p
      = export'.1.entries.filterMap p ++ attachments.filterMap (c memo) := by
  induction attachments generalizing export' with
  | nil => rw [List.filterMap_nil, List.append_nil, List.foldl_nil]
  | cons a attachments ih =>
      rw [List.foldl_cons, ih, exportAttachment_entries, List.filterMap_append, each,
        List.append_assoc, List.filterMap_cons]
      cases c memo a with
      | none => rfl
      | some read => rfl

theorem attachments_named (attachments : List AttachmentRow) (export' : BackupState × List String) :
    (attachments.foldl (exportAttachment storage mode memo) export').2
      = export'.2 ++ attachments.filterMap (mention storage mode memo) := by
  induction attachments generalizing export' with
  | nil => rw [List.filterMap_nil, List.append_nil, List.foldl_nil]
  | cons a attachments ih =>
      rw [List.foldl_cons, ih, exportAttachment_named, List.append_assoc, List.filterMap_cons]
      cases mention storage mode memo a with
      | none => rfl
      | some name => rfl

theorem Consistent.attachments_fold (attachments : List AttachmentRow)
    {export' : BackupState × List String} (consistent : Consistent export'.1) :
    Consistent (attachments.foldl (Backup.exportAttachment storage mode memo) export').1 := by
  induction attachments generalizing export' with
  | nil => exact consistent
  | cons a attachments ih => exact ih consistent.exportAttachment

/-! ### One memo -/

/-- The order of a memo's attachments is that of their times, or they fit on the first page.
Those of one time may be listed in another order for the next page. -/
def Settled (db : Tables) (memo : MemoRow) : Prop :=
  (listAttachments db memo.id).length < pageSize
    ∨ (listAttachments db memo.id).Pairwise fun a b => a.updatedTs ≠ b.updatedTs

variable (storage) (db) (mode) (memo) in
def memoEntry : BackupEntry :=
  { path := memoPath memo (parentUID db memo)
    body := .memo memo.id
      (memoMetadata memo (parentUID db memo)
        ((storage.listing.list db memo.id 0).filterMap (mention storage mode memo)))
      memo.content }

/-- While no two have one time, the attachments are listed in one order. -/
theorem AttachmentListing.same (listing : AttachmentListing) {id : Int}
    (apart : (listAttachments db id).Pairwise fun a b => a.updatedTs ≠ b.updatedTs) (offset : Nat) :
    listing.list db id offset = listing.list db id 0 := by
  have newer : ∀ offset, (listing.list db id offset).Pairwise fun a b => b.updatedTs < a.updatedTs := by
    intro offset
    have apart := (listing.perm db id offset).symm.pairwise apart fun h => h.symm
    exact ((listing.newest db id offset).and apart).imp fun h => lt_of_le_of_ne h.1 (Ne.symm h.2)
  have perm := (listing.perm db id offset).trans (listing.perm db id 0).symm
  exact perm.eq_of_pairwise (fun a b _ _ h h' => absurd h (lt_asymm h')) (newer offset) (newer 0)

theorem exportMemo_eq (settled : Settled db memo) (state : BackupState) :
    exportMemo storage db mode state memo =
      let export' := (storage.listing.list db memo.id 0).foldl (exportAttachment storage mode memo)
        (state, [])
      { entries := export'.1.entries ++ [memoEntry storage db mode memo]
        manifest := { export'.1.manifest with memos := export'.1.manifest.memos + 1 } } := by
  have pages : Pages.byOffset (exportAttachment storage mode memo) pageSize
      (storage.listing.list db memo.id) ((storage.listing.list db memo.id 0).length + 1) 0 (state, [])
      = (storage.listing.list db memo.id 0).foldl (exportAttachment storage mode memo) (state, []) := by
    rcases settled with few | apart
    · rw [← (storage.listing.perm db memo.id 0).length_eq] at few
      exact Pages.byOffset_short few _ _
    · refine Pages.byOffset_eq (storage.listing.same apart) ?_ _
      unfold pageSize
      omega
  unfold exportMemo
  simp only [pages, BackupState.write, memoEntry, attachments_named, List.nil_append]

theorem exportMemo_filterMap
    (each : ∀ memo a n, (attachmentEntries storage mode memo a n).filterMap p = (c memo a).toList)
    (settled : Settled db memo) (state : BackupState) :
    (exportMemo storage db mode state memo).entries.filterMap p
      = state.entries.filterMap p ++ ((storage.listing.list db memo.id 0).filterMap (c memo)
        ++ [memoEntry storage db mode memo].filterMap p) := by
  rw [exportMemo_eq settled]
  dsimp only
  rw [List.filterMap_append, attachments_filterMap each, List.append_assoc]

theorem Consistent.exportMemo (settled : Settled db memo) {state : BackupState}
    (consistent : Consistent state) : Consistent (exportMemo storage db mode state memo) := by
  rw [exportMemo_eq settled]
  have folded : Consistent ((storage.listing.list db memo.id 0).foldl
      (Backup.exportAttachment storage mode memo) (state, [])).1 :=
    Consistent.attachments_fold _ consistent
  exact folded.write (e := memoEntry storage db mode memo) rfl

/-! ### All memos -/

theorem memos_filterMap
    (each : ∀ memo a n, (attachmentEntries storage mode memo a n).filterMap p = (c memo a).toList)
    {memos : List MemoRow} (settled : ∀ memo ∈ memos, Settled db memo) (state : BackupState) :
    (memos.foldl (exportMemo storage db mode) state).entries.filterMap p
      = state.entries.filterMap p ++ memos.flatMap fun memo =>
        (storage.listing.list db memo.id 0).filterMap (c memo)
          ++ [memoEntry storage db mode memo].filterMap p := by
  induction memos generalizing state with
  | nil => rw [List.flatMap_nil, List.append_nil, List.foldl_nil]
  | cons memo memos ih =>
      obtain ⟨here, later⟩ := List.forall_mem_cons.mp settled
      rw [List.foldl_cons, ih later, exportMemo_filterMap each here, List.append_assoc,
        List.flatMap_cons]

theorem Consistent.memos_fold {memos : List MemoRow} (settled : ∀ memo ∈ memos, Settled db memo)
    {state : BackupState} (consistent : Consistent state) :
    Consistent (memos.foldl (Backup.exportMemo storage db mode) state) := by
  induction memos generalizing state with
  | nil => exact consistent
  | cons memo memos ih =>
      obtain ⟨here, later⟩ := List.forall_mem_cons.mp settled
      exact ih later (consistent.exportMemo here)

variable (storage) (db) in
def bound : List (MemoRow × AttachmentRow) :=
  (memosByID db).flatMap fun memo => (storage.listing.list db memo.id 0).map (memo, ·)

theorem mem_memosByID {memo : MemoRow} : memo ∈ memosByID db ↔ memo ∈ db.memos := by
  unfold memosByID
  rw [List.mem_insertionSort, Keyed.Table.mem_def]

theorem mem_list {id : Int} {n : Nat} {a : AttachmentRow} :
    a ∈ storage.listing.list db id n ↔ a ∈ db.attachments ∧ a.memoID = some id := by
  rw [(storage.listing.perm db id n).mem_iff]
  unfold listAttachments
  rw [List.mem_insertionSort, Keyed.Table.mem_select, decide_eq_true_eq]

theorem mem_bound {memo : MemoRow} {a : AttachmentRow} :
    (memo, a) ∈ bound storage db
      ↔ memo ∈ db.memos ∧ a ∈ db.attachments ∧ a.memoID = some memo.id := by
  unfold bound
  rw [List.mem_flatMap]
  constructor
  · rintro ⟨_, there, listed⟩
    obtain ⟨_, is, same⟩ := List.mem_map.mp listed
    obtain ⟨rfl, rfl⟩ := Prod.mk.inj same
    exact ⟨mem_memosByID.mp there, mem_list.mp is⟩
  · rintro ⟨there, listed⟩
    exact ⟨memo, mem_memosByID.mpr there, List.mem_map.mpr ⟨a, mem_list.mpr listed, rfl⟩⟩

theorem memosByID_pairwise : (memosByID db).Pairwise fun memo memo' => memo.id ≠ memo'.id := by
  have keys : (db.memos.rows.map MemoRow.id).Nodup := db.memos.keys_nodup
  have sorted := ((List.perm_insertionSort (fun a b : MemoRow => a.id ≤ b.id) db.memos.rows).map
    MemoRow.id).nodup_iff.mpr keys
  exact List.pairwise_map.mp sorted

theorem list_pairwise (id : Int) (n : Nat) :
    (storage.listing.list db id n).Pairwise fun a b => a.id ≠ b.id := by
  have keys : (db.attachments.rows.map AttachmentRow.id).Nodup := db.attachments.keys_nodup
  have some : (listAttachments db id).Pairwise fun a b => a.id ≠ b.id := by
    have sorted := List.perm_insertionSort (fun a b : AttachmentRow => b.updatedTs ≤ a.updatedTs)
      (db.attachments.select fun a => decide (a.memoID = some id))
    refine sorted.symm.pairwise ?_ fun h => h.symm
    exact (List.pairwise_map.mp keys).filter _
  exact (storage.listing.perm db id n).symm.pairwise some fun h => h.symm

theorem bound_pairwise : (bound storage db).Pairwise fun x y => x.2.id ≠ y.2.id := by
  unfold bound
  refine List.pairwise_flatMap.mpr ⟨fun memo _ => ?_, ?_⟩
  · exact List.pairwise_map.mpr (list_pairwise memo.id 0)
  · refine memosByID_pairwise.imp fun {memo memo'} apart x hx y hy same => ?_
    obtain ⟨a, ha, rfl⟩ := List.mem_map.mp hx
    obtain ⟨b, hb, rfl⟩ := List.mem_map.mp hy
    obtain ⟨ha, bound_a⟩ := mem_list.mp ha
    obtain ⟨hb, bound_b⟩ := mem_list.mp hb
    obtain rfl := Keyed.Table.eq_of_key ha hb same
    rw [bound_a] at bound_b
    exact apart (Option.some.inj bound_b)

theorem memos_filterMap_bound
    (each : ∀ memo a n, (attachmentEntries storage mode memo a n).filterMap p = (c memo a).toList)
    (none : ∀ memo, p (memoEntry storage db mode memo) = none)
    (settled : ∀ memo ∈ memosByID db, Settled db memo) (state : BackupState) :
    ((memosByID db).foldl (exportMemo storage db mode) state).entries.filterMap p
      = state.entries.filterMap p ++ (bound storage db).filterMap fun x => c x.1 x.2 := by
  rw [memos_filterMap each settled]
  unfold bound
  rw [List.filterMap_flatMap]
  congr 1
  refine List.flatMap_congr fun memo _ => ?_
  rw [List.filterMap_map, List.filterMap_cons, none, List.filterMap_nil, List.append_nil]
  rfl

end Memo

/-! ### The archive -/

/-- The attachment that the entry accounts for, because it holds all of it or says why not. -/
def EntryBody.account : EntryBody → Option Int
  | .attachment id true _ => some id
  | .skip id _ => some id
  | _ => none

def filePath (e : BackupEntry) : Option String :=
  match e.body with
  | .attachment .. => some e.path
  | _ => none

variable (storage) (db) (mode) in
def exported (schemaVersion : String) : BackupState :=
  (memosByID db).foldl (exportMemo storage db mode)
    { entries := [], manifest := { schemaVersion, attachmentMode := mode } }

theorem attachmentEntries_account (memo : MemoRow) (a : AttachmentRow) (n : Nat) :
    (attachmentEntries storage mode memo a n).filterMap (fun e => e.body.account)
      = (if a.storageType = .External then none else some a.id).toList := by
  unfold attachmentEntries
  split
  · rfl
  · split
    · rfl
    · rename_i stream _
      cases failed : stream.failure with
      | none => simp [fileEntry, failed, EntryBody.account]
      | some reason => simp [fileEntry, failed, EntryBody.account, skipEntry]

theorem mem_attachmentEntries {memo : MemoRow} {a : AttachmentRow} {n : Nat} {e : BackupEntry}
    (there : e ∈ attachmentEntries storage mode memo a n) :
    (∃ stream, e = fileEntry memo a stream) ∨ ∃ reason, e = skipEntry memo a n reason := by
  unfold attachmentEntries at there
  split at there
  · cases there
  · split at there
    · exact .inr ⟨_, List.mem_singleton.mp there⟩
    · rcases List.mem_cons.mp there with file | skipped
      · exact .inl ⟨_, file⟩
      · obtain ⟨reason, -, is⟩ := Option.map_eq_some_iff.mp (Option.mem_toList.mp skipped)
        exact .inr ⟨reason, is.symm⟩

theorem attachmentEntries_memo (memo : MemoRow) (a : AttachmentRow) (n : Nat) :
    (attachmentEntries storage mode memo a n).filterMap (Option.guard fun e => e.body.isMemo) = [] := by
  refine List.filterMap_eq_nil_iff.mpr fun e there => ?_
  rcases mem_attachmentEntries there with ⟨stream, rfl⟩ | ⟨reason, rfl⟩
  · rfl
  · rfl

def EntryBody.isClosing : EntryBody → Bool
  | .database _ => true
  | .manifest _ => true
  | _ => false

theorem attachmentEntries_closing (memo : MemoRow) (a : AttachmentRow) (n : Nat) :
    (attachmentEntries storage mode memo a n).filterMap (Option.guard fun e => e.body.isClosing)
      = [] := by
  refine List.filterMap_eq_nil_iff.mpr fun e there => ?_
  rcases mem_attachmentEntries there with ⟨stream, rfl⟩ | ⟨reason, rfl⟩
  · rfl
  · rfl

theorem attachmentEntries_filePath (memo : MemoRow) (a : AttachmentRow) (n : Nat) :
    (attachmentEntries storage mode memo a n).filterMap filePath
      = (if a.storageType = .External then none
        else (backupAttachmentReader storage a mode).toOption.map
          fun _ => attachmentPath memo a).toList := by
  unfold attachmentEntries
  split
  · rfl
  · split
    · rename_i read
      rw [read]
      rfl
    · rename_i stream read
      rw [read]
      cases failed : stream.failure with
      | none => rfl
      | some reason => rfl

section Run

variable (settled : ∀ memo ∈ db.memos, Settled db memo) (schemaVersion : String)

include settled

theorem exported_consistent : Consistent (exported storage db mode schemaVersion) :=
  Consistent.memos_fold (fun memo there => settled memo (mem_memosByID.mp there))
    ⟨rfl, rfl, rfl, rfl⟩

theorem exported_memos :
    (exported storage db mode schemaVersion).entries.filter (fun e => e.body.isMemo)
      = (memosByID db).map (memoEntry storage db mode) := by
  rw [← List.filterMap_eq_filter]
  refine (memos_filterMap (c := fun _ _ => none) attachmentEntries_memo
    (fun memo there => settled memo (mem_memosByID.mp there)) _).trans ?_
  rw [List.filterMap_nil, List.nil_append, List.map_eq_flatMap]
  refine List.flatMap_congr fun memo _ => ?_
  rw [List.filterMap_none, List.nil_append]
  rfl

theorem exported_accounts :
    (exported storage db mode schemaVersion).entries.filterMap (fun e => e.body.account)
      = (bound storage db).filterMap fun x => if x.2.storageType = .External then none else some x.2.id :=
  memos_filterMap_bound (c := fun _ a => if a.storageType = .External then none else some a.id)
    attachmentEntries_account (fun _ => rfl) (fun memo there => settled memo (mem_memosByID.mp there)) _

theorem exported_files :
    (exported storage db mode schemaVersion).entries.filterMap filePath
      = (bound storage db).filterMap fun x => if x.2.storageType = .External then none
        else (backupAttachmentReader storage x.2 mode).toOption.map fun _ => attachmentPath x.1 x.2 :=
  memos_filterMap_bound (c := fun memo a => if a.storageType = .External then none
    else (backupAttachmentReader storage a mode).toOption.map fun _ => attachmentPath memo a)
    attachmentEntries_filePath (fun _ => rfl) (fun memo there => settled memo (mem_memosByID.mp there)) _

theorem exported_closing :
    ∀ e ∈ (exported storage db mode schemaVersion).entries, e.body.isClosing = false := by
  have none : (exported storage db mode schemaVersion).entries.filterMap
      (Option.guard fun e => e.body.isClosing) = (bound storage db).filterMap fun _ => none :=
    memos_filterMap_bound (c := fun _ _ => none) attachmentEntries_closing (fun _ => rfl)
      (fun memo there => settled memo (mem_memosByID.mp there)) _
  rw [List.filterMap_none, List.filterMap_eq_filter] at none
  intro e there
  exact Bool.eq_false_iff.mpr (List.filter_eq_nil_iff.mp none e there)

end Run

/-! ### The end of the archive -/

def databaseEntry (bytes : List UInt8) : BackupEntry := ⟨"database/memos.db", .database bytes⟩

def manifestEntry (manifest : BackupManifest) : BackupEntry := ⟨"manifest.json", .manifest manifest⟩

def closing (bytes : Option (List UInt8)) (manifest : BackupManifest) : List BackupEntry :=
  (bytes.map databaseEntry).toList ++ [manifestEntry manifest]

theorem exportDatabase_ok {snapshot : Option (Except String Stream)} {state state' : BackupState}
    (ok : exportDatabase storage snapshot state = .ok state') :
    ∃ bytes : Option (List UInt8), state'.entries = state.entries ++ (bytes.map databaseEntry).toList
      ∧ state'.manifest.memos = state.manifest.memos
      ∧ state'.manifest.attachments = state.manifest.attachments
      ∧ state'.manifest.skippedCount = state.manifest.skippedCount := by
  unfold exportDatabase at ok
  split at ok
  · cases ok
  · rename_i stream
    split at ok
    · cases ok
    · cases ok
      exact ⟨some stream.bytes, rfl, rfl, rfl, rfl⟩
  · split at ok
    · cases ok
      exact ⟨none, (List.append_nil _).symm, rfl, rfl, rfl⟩
    · cases ok
      exact ⟨none, (List.append_nil _).symm, rfl, rfl, rfl⟩

theorem memosByID_pages (numbered : ∀ memo ∈ db.memos, 0 < memo.id) (state : BackupState) :
    Pages.byKey (exportMemo storage db mode) pageSize (memosByID db) MemoRow.id
      (db.memos.rows.length + 1) 0 state
      = (memosByID db).foldl (exportMemo storage db mode) state := by
  have sorted : (memosByID db).Pairwise fun memo memo' => memo.id < memo'.id := by
    have ordered := List.pairwise_insertionSort (fun a b : MemoRow => a.id ≤ b.id) db.memos.rows
    exact (ordered.and memosByID_pairwise).imp fun h => lt_of_le_of_ne h.1 h.2
  have all : ((memosByID db).filter fun memo => 0 < memo.id) = memosByID db :=
    List.filter_eq_self.mpr fun memo there => decide_eq_true (numbered memo (mem_memosByID.mp there))
  have length : (memosByID db).length = db.memos.rows.length := List.length_insertionSort ..
  rw [Pages.byKey_eq (by decide) sorted (by rw [all, length]; exact Nat.lt_succ_self _), all]

theorem exportBackup_ok (numbered : ∀ memo ∈ db.memos, 0 < memo.id)
    {snapshot : Option (Except String Stream)} {archive : List BackupEntry} {manifest : BackupManifest}
    (ok : exportBackup storage db mode snapshot = .ok (archive, manifest)) :
    ∃ (schemaVersion : String) (bytes : Option (List UInt8)),
      archive = (exported storage db mode schemaVersion).entries ++ closing bytes manifest
      ∧ manifest.memos = (exported storage db mode schemaVersion).manifest.memos
      ∧ manifest.attachments = (exported storage db mode schemaVersion).manifest.attachments
      ∧ manifest.skippedCount = (exported storage db mode schemaVersion).manifest.skippedCount := by
  unfold exportBackup at ok
  dsimp only [bind, Except.bind, pure, Except.pure] at ok
  split at ok
  · cases ok
  · rename_i schemaVersion _
    rw [memosByID_pages numbered] at ok
    split at ok
    · cases ok
    · rename_i state written
      cases ok
      obtain ⟨bytes, entries, counts⟩ := exportDatabase_ok written
      refine ⟨schemaVersion, bytes, ?_, counts⟩
      rw [entries, List.append_assoc]
      rfl

/-! ### Paths -/

inductive Kind where
  | memo
  | attachment
  | skip
  | database
  | manifest
deriving DecidableEq

def EntryBody.kind : EntryBody → Kind
  | .memo .. => .memo
  | .attachment .. => .attachment
  | .skip .. => .skip
  | .database _ => .database
  | .manifest _ => .manifest

theorem EntryBody.isClosing_eq (body : EntryBody) :
    body.isClosing = (body.kind == .database || body.kind == .manifest) := by
  cases body
  all_goals rfl

def kindOfDirectory (name : List Char) : Option Kind :=
  if name = "memos".toList ∨ name = "comments".toList then some .memo
  else if name = "attachments".toList then some .attachment
  else if name = "skipped".toList then some .skip
  else if name = "database".toList then some .database
  else if name = "manifest.json".toList then some .manifest
  else none

/-- An entry is in the directory of its kind, and stays below that of the archive. -/
structure Named (e : BackupEntry) : Prop where
  directory : (components e.path).head?.bind kindOfDirectory = some e.body.kind
  relative : Relative e.path

theorem named_memoEntry (memo : MemoRow) : Named (memoEntry storage db mode memo) where
  directory := by
    unfold memoEntry
    dsimp only
    rw [components_memoPath]
    cases parentUID db memo with
    | none => rfl
    | some parent => rfl
  relative := by
    unfold Relative memoEntry
    dsimp only
    rw [components_memoPath]
    exact plain_memoComponents memo _

theorem Named.of_attachmentPath {e : BackupEntry} {memo : MemoRow} {a : AttachmentRow}
    (path : e.path = attachmentPath memo a) (kind : e.body.kind = .attachment) : Named e where
  directory := by
    rw [path, components_attachmentPath, kind]
    rfl
  relative := by
    unfold Relative
    rw [path, components_attachmentPath]
    exact plain_attachmentComponents memo a

theorem Named.of_skipPath {e : BackupEntry} {n : Nat} (path : e.path = skipPath n)
    (kind : e.body.kind = .skip) : Named e where
  directory := by
    rw [path, components_skipPath, kind]
    rfl
  relative := by
    unfold Relative
    rw [path, components_skipPath]
    exact plain_skipComponents n

theorem named_databaseEntry (bytes : List UInt8) : Named (databaseEntry bytes) where
  directory := by
    show (components "database/memos.db").head?.bind kindOfDirectory = some .database
    decide +kernel
  relative := by
    have names : components "database/memos.db" = ["database".toList, "memos.db".toList] := by
      decide +kernel
    unfold Relative databaseEntry
    rw [names]
    simp only [List.forall_mem_cons]
    exact ⟨.of_all (by decide) (by decide) (by decide), .of_all (by decide) (by decide) (by decide),
      List.forall_mem_nil _⟩

theorem named_manifestEntry (manifest : BackupManifest) : Named (manifestEntry manifest) where
  directory := by
    show (components "manifest.json").head?.bind kindOfDirectory = some .manifest
    decide +kernel
  relative := by
    have names : components "manifest.json" = ["manifest.json".toList] := by decide +kernel
    unfold Relative manifestEntry
    rw [names]
    simp only [List.forall_mem_cons]
    exact ⟨.of_all (by decide) (by decide) (by decide), List.forall_mem_nil _⟩

theorem Named.kind_eq {e e' : BackupEntry} (named : Named e) (named' : Named e')
    (same : e.path = e'.path) : e.body.kind = e'.body.kind := by
  have directory := named.directory
  rw [same, named'.directory] at directory
  exact (Option.some.inj directory).symm

theorem closing_cases {bytes : Option (List UInt8)} {manifest : BackupManifest} {e : BackupEntry}
    (there : e ∈ closing bytes manifest) : (∃ bytes, e = databaseEntry bytes) ∨ e = manifestEntry manifest := by
  rcases List.mem_append.mp there with database | last
  · obtain ⟨bytes, -, rfl⟩ := Option.map_eq_some_iff.mp (Option.mem_toList.mp database)
    exact .inl ⟨bytes, rfl⟩
  · exact .inr (List.mem_singleton.mp last)

theorem named_closing {bytes : Option (List UInt8)} {manifest : BackupManifest} :
    ∀ e ∈ closing bytes manifest, Named e := by
  intro e there
  rcases closing_cases there with ⟨bytes, rfl⟩ | rfl
  · exact named_databaseEntry bytes
  · exact named_manifestEntry manifest

theorem closing_paths_apart (bytes : Option (List UInt8)) (manifest : BackupManifest) :
    (closing bytes manifest).Pairwise fun e e' => e.path ≠ e'.path := by
  cases bytes with
  | none => exact List.pairwise_singleton ..
  | some bytes =>
      refine List.pairwise_pair.mpr ?_
      show "database/memos.db" ≠ "manifest.json"
      decide

section Run

variable (settled : ∀ memo ∈ db.memos, Settled db memo) (schemaVersion : String)

include settled

theorem named_exported : ∀ e ∈ (exported storage db mode schemaVersion).entries, Named e := by
  intro e there
  cases body : e.body with
  | memo id data content =>
      have kept : e ∈ (exported storage db mode schemaVersion).entries.filter fun e => e.body.isMemo :=
        List.mem_filter.mpr ⟨there, by rw [body]; rfl⟩
      rw [exported_memos settled] at kept
      obtain ⟨memo, -, rfl⟩ := List.mem_map.mp kept
      exact named_memoEntry memo
  | attachment id complete bytes =>
      have path : filePath e = some e.path := by
        unfold filePath
        rw [body]
      have kept := List.mem_filterMap.mpr ⟨e, there, path⟩
      rw [exported_files settled] at kept
      obtain ⟨⟨memo, a⟩, -, is⟩ := List.mem_filterMap.mp kept
      split at is
      · cases is
      · obtain ⟨stream, -, is⟩ := Option.map_eq_some_iff.mp is
        exact Named.of_attachmentPath is.symm (by rw [body]; rfl)
  | skip id item =>
      have record : (e.path, item) ∈ skips (exported storage db mode schemaVersion).entries :=
        List.mem_filterMap.mpr ⟨e, there, by rw [body]⟩
      have numbered := List.mem_map_of_mem (f := Prod.fst) record
      rw [(exported_consistent settled schemaVersion).numbered] at numbered
      obtain ⟨n, -, is⟩ := List.mem_map.mp numbered
      exact Named.of_skipPath is.symm (by rw [body]; rfl)
  | database bytes | manifest manifest =>
      have closing := exported_closing settled schemaVersion e there
      rw [body] at closing
      cases closing

end Run

/-- The names of memos and of attachments are kept apart in the archive. -/
structure Distinguished (db : Tables) : Prop where
  memos : ∀ memo ∈ db.memos, ∀ memo' ∈ db.memos,
    backupComponent memo.uid = backupComponent memo'.uid → memo.uid = memo'.uid
  attachments : ∀ a ∈ db.attachments, ∀ b ∈ db.attachments, a.id ≠ b.id → ¬Continues a b

section Run

variable (settled : ∀ memo ∈ db.memos, Settled db memo) (schemaVersion : String)
  (distinguished : Distinguished db)

include settled distinguished

theorem exported_memos_apart :
    (exported storage db mode schemaVersion).entries.Pairwise fun e e' =>
      e.body.isMemo = true → e'.body.isMemo = true → e.path ≠ e'.path := by
  rw [← List.pairwise_filter, exported_memos settled, List.pairwise_map]
  refine memosByID_pairwise.imp_of_mem fun {memo memo'} there there' apart same => apart ?_
  have there := mem_memosByID.mp there
  have there' := mem_memosByID.mp there'
  have uid := distinguished.memos memo there memo' there' (component_of_memoPath same)
  have same : memo = memo' := by
    refine Keyed.Table.eq_of_clash there there' ?_ ?_
    · simp [MemoRow.schema, uid]
    · simp [MemoRow.schema, uid]
  rw [same]

theorem exported_files_apart (numbered : ∀ a ∈ db.attachments, 0 < a.id) :
    (exported storage db mode schemaVersion).entries.Pairwise fun e e' =>
      ∀ path, filePath e = some path → ∀ path', filePath e' = some path' → path ≠ path' := by
  rw [← List.pairwise_filterMap, exported_files settled, List.pairwise_filterMap]
  refine bound_pairwise.imp_of_mem fun {x y} hx hy apart path hpath path' hpath' same => apart ?_
  split at hpath
  · cases hpath
  · split at hpath'
    · cases hpath'
    · obtain ⟨_, -, rfl⟩ := Option.map_eq_some_iff.mp hpath
      obtain ⟨_, -, rfl⟩ := Option.map_eq_some_iff.mp hpath'
      have ha := (mem_bound.mp hx).2.1
      have hb := (mem_bound.mp hy).2.1
      have names := congrArg components same
      rw [components_attachmentPath, components_attachmentPath] at names
      have names := (List.cons.inj (List.cons.inj (List.cons.inj names).2).2).1
      exact id_of_attachmentName (numbered _ ha) (numbered _ hb)
        (distinguished.attachments _ ha _ hb apart) (distinguished.attachments _ hb _ ha apart.symm) names

omit distinguished in
theorem exported_skips_apart :
    (exported storage db mode schemaVersion).entries.Pairwise fun e e' =>
      e.body.kind = .skip → e'.body.kind = .skip → e.path ≠ e'.path := by
  have consistent : Consistent (exported storage db mode schemaVersion) :=
    exported_consistent settled schemaVersion
  have numbered := consistent.numbered
  have apart : ((skips (exported storage db mode schemaVersion).entries).map Prod.fst).Pairwise (· ≠ ·) := by
    rw [numbered, List.pairwise_map]
    exact List.nodup_range.imp fun apart same => apart (Nat.succ.inj (skipPath_inj same))
  rw [List.pairwise_map] at apart
  unfold skips at apart
  rw [List.pairwise_filterMap] at apart
  refine apart.imp fun {e e'} apart he he' => ?_
  cases body : e.body with
  | skip id item =>
      cases body' : e'.body with
      | skip id' item' => exact apart (e.path, item) (by rw [body]) (e'.path, item') (by rw [body'])
      | _ =>
          rw [body'] at he'
          cases he'
  | _ =>
      rw [body] at he
      cases he

theorem exported_paths_apart (numbered : ∀ a ∈ db.attachments, 0 < a.id) :
    (exported storage db mode schemaVersion).entries.Pairwise fun e e' => e.path ≠ e'.path := by
  refine ((exported_memos_apart settled schemaVersion distinguished).and
    ((exported_files_apart settled schemaVersion distinguished numbered).and
      (exported_skips_apart settled schemaVersion))).imp_of_mem fun {e e'} he he' apart same => ?_
  have kind := (named_exported settled schemaVersion e he).kind_eq
    (named_exported settled schemaVersion e' he') same
  obtain ⟨memos, files, skips⟩ := apart
  have closing := exported_closing settled schemaVersion e he
  cases body : e.body
  all_goals cases body' : e'.body
  all_goals
    rw [body, body'] at kind
    cases kind
  · exact memos (by rw [body]; rfl) (by rw [body']; rfl) same
  · exact files e.path (by unfold filePath; rw [body]) e'.path (by unfold filePath; rw [body']) same
  · exact skips (by rw [body]; rfl) (by rw [body']; rfl) same
  · rw [body] at closing
    cases closing
  · rw [body] at closing
    cases closing

omit distinguished in
/-- No entry for a memo or an attachment has the path of one at the end. -/
theorem closing_path_apart {bytes : Option (List UInt8)} {manifest : BackupManifest} :
    ∀ e ∈ (exported storage db mode schemaVersion).entries, ∀ e' ∈ closing bytes manifest,
      e.path ≠ e'.path := by
  intro e he e' he' same
  have kind := (named_exported settled schemaVersion e he).kind_eq (named_closing e' he') same
  have inner := exported_closing settled schemaVersion e he
  rw [EntryBody.isClosing_eq, kind, ← EntryBody.isClosing_eq] at inner
  rcases closing_cases he' with ⟨bytes, rfl⟩ | rfl
  · cases inner
  · cases inner

end Run

/-! ### What is accounted for -/

section Run

variable (settled : ∀ memo ∈ db.memos, Settled db memo) (schemaVersion : String)

include settled

/-- An attachment of a memo is accounted for once, unless it is a reference. -/
theorem exported_account {a : AttachmentRow} (stored : a ∈ db.attachments) :
    ((exported storage db mode schemaVersion).entries.countP fun e => e.body.account == some a.id)
      = if a.storageType ≠ .External ∧ ∃ memo ∈ db.memos, a.memoID = some memo.id then 1 else 0 := by
  rw [← List.count_filterMap, exported_accounts settled]
  have once : ((bound storage db).filterMap fun x =>
      if x.2.storageType = .External then none else some x.2.id).Nodup := by
    refine List.pairwise_filterMap.mpr (bound_pairwise.imp fun {x y} apart id hid id' hid' => ?_)
    split at hid
    · cases hid
    · split at hid'
      · cases hid'
      · rw [← Option.some.inj hid, ← Option.some.inj hid']
        exact apart
  rw [once.count]
  congr 1
  rw [eq_iff_iff, List.mem_filterMap]
  constructor
  · rintro ⟨⟨memo, b⟩, there, is⟩
    split at is
    · cases is
    · rename_i kept
      obtain ⟨hmemo, hb, bound⟩ := mem_bound.mp there
      obtain rfl : b = a := Keyed.Table.eq_of_key hb stored (Option.some.inj is)
      exact ⟨kept, memo, hmemo, bound⟩
  · rintro ⟨kept, memo, hmemo, bound⟩
    exact ⟨(memo, a), mem_bound.mpr ⟨hmemo, stored, bound⟩, if_neg kept⟩

end Run

/-- An attachment stands once among those whose names the metadata of its memo has. -/
theorem list_once {memo : MemoRow} {a : AttachmentRow} (stored : a ∈ db.attachments)
    (bound : a.memoID = some memo.id) :
    ((storage.listing.list db memo.id 0).countP fun b => b.id = a.id) = 1 := by
  have once : ((storage.listing.list db memo.id 0).map AttachmentRow.id).Nodup :=
    List.pairwise_map.mpr (list_pairwise memo.id 0)
  have there : a.id ∈ (storage.listing.list db memo.id 0).map AttachmentRow.id :=
    List.mem_map_of_mem (mem_list.mpr ⟨stored, bound⟩)
  have count := List.count_eq_one_of_mem once there
  rw [List.count, List.countP_map] at count
  rw [← count]
  exact List.countP_congr fun b _ => by simp

/-- The archive has each memo once, and accounts for each attachment of a memo once. -/
theorem exportBackup_complete (numbered : (∀ memo ∈ db.memos, 0 < memo.id) ∧ ∀ a ∈ db.attachments, 0 < a.id)
    (settled : ∀ memo ∈ db.memos, Settled db memo) {snapshot : Option (Except String Stream)}
    {archive : List BackupEntry} {manifest : BackupManifest}
    (ok : exportBackup storage db mode snapshot = .ok (archive, manifest)) :
    (archive.filter fun e => e.body.isMemo).Perm (db.memos.rows.map (memoEntry storage db mode))
      ∧ (∀ a ∈ db.attachments, (archive.countP fun e => e.body.account == some a.id)
        = if a.storageType ≠ .External ∧ ∃ memo ∈ db.memos, a.memoID = some memo.id then 1 else 0)
      ∧ (∀ a ∈ db.attachments, ∀ memo ∈ db.memos, a.memoID = some memo.id → a.storageType = .External →
        ((storage.listing.list db memo.id 0).countP fun b => b.id = a.id) = 1
          ∧ mention storage mode memo a = some a.reference)
      ∧ (∀ e ∈ archive, Relative e.path)
      ∧ (Distinguished db → (archive.map BackupEntry.path).Nodup)
      ∧ manifest.memos = db.memos.rows.length
      ∧ manifest.attachments = (archive.countP fun e => e.body.isComplete)
      ∧ manifest.skippedCount = (skips archive).length := by
  obtain ⟨schemaVersion, bytes, rfl, memos, attachments, skippedCount⟩ := exportBackup_ok numbered.1 ok
  have consistent : Consistent (exported storage db mode schemaVersion) :=
    exported_consistent settled schemaVersion
  have sorted : (memosByID db).Perm db.memos.rows := List.perm_insertionSort ..
  have closingMemos : ((closing bytes manifest).filter fun e => e.body.isMemo) = [] := by
    cases bytes with
    | none => rfl
    | some bytes => rfl
  have closingAccounts : ((closing bytes manifest).filterMap fun e => e.body.account) = [] := by
    cases bytes with
    | none => rfl
    | some bytes => rfl
  refine ⟨?_, fun a stored => ?_, fun a stored memo _ bound external => ?_, fun e there => ?_,
    fun distinguished => ?_, ?_, ?_, ?_⟩
  · rw [List.filter_append, exported_memos settled, closingMemos, List.append_nil]
    exact sorted.map _
  · rw [List.countP_append, exported_account settled schemaVersion stored, ← List.count_filterMap,
      closingAccounts, List.count_nil, Nat.add_zero]
  · exact ⟨list_once stored bound, if_pos external⟩
  · rcases List.mem_append.mp there with early | late
    · exact (named_exported settled schemaVersion e early).relative
    · exact (named_closing e late).relative
  · refine List.pairwise_map.mpr (List.pairwise_append.mpr ⟨?_, closing_paths_apart _ _, ?_⟩)
    · exact exported_paths_apart settled schemaVersion distinguished numbered.2
    · exact closing_path_apart settled schemaVersion
  · rw [memos, consistent.memos, List.countP_eq_length_filter, exported_memos settled, List.length_map]
    exact sorted.length_eq
  · rw [attachments, consistent.attachments, List.countP_append]
    cases bytes with
    | none => rfl
    | some bytes => rfl
  · have records := congrArg List.length consistent.numbered
    rw [List.length_map, List.length_map, List.length_range] at records
    rw [skippedCount, skips_append, List.length_append, records]
    cases bytes with
    | none => rfl
    | some bytes => rfl

/-! ### Files of a lunch -/

def diskStorage : BackupStorage where
  listing :=
    { list := fun db id _ => listAttachments db id
      perm := fun _ _ _ => .refl _
      newest := fun _ _ _ => List.pairwise_insertionSort _ _ }
  schemaVersion := .ok "0.30.0"
  sqlite := true
  driver := "sqlite"
  openLocal _ := .ok { bytes := [80, 75] }
  getObjectStream _ := .error "no such object"
  streamAttachmentBlob _ := { bytes := [] }

/-- The memo has a file, an object and a link. -/
def lunchTables : Tables :=
  { pollTables with
    attachments := ⟨[.withDefaults 3 "menu" 4 (some 7) .S3, .withDefaults 4 "bill" 4 (some 7) .Local,
      .withDefaults 5 "map" 4 (some 7) .External], by decide, by decide⟩ }

theorem exportBackup_complete_lunch : ∃ archive manifest,
    exportBackup diskStorage lunchTables "all" none = .ok (archive, manifest) ∧
    (archive.countP fun e => e.body.account == some 3) = 1 ∧
    (archive.map BackupEntry.path).Nodup := by
  obtain ⟨archive, manifest, ok⟩ : ∃ archive manifest,
      exportBackup diskStorage lunchTables "all" none = .ok (archive, manifest) := ⟨_, _, rfl⟩
  have complete := exportBackup_complete ⟨by decide, by decide⟩
    (fun memo there => .inl (by revert memo; decide)) ok
  refine ⟨archive, manifest, ok, ?_, complete.2.2.2.2.1 ⟨by decide, by decide +kernel⟩⟩
  exact complete.2.1 (.withDefaults 3 "menu" 4 (some 7) .S3) (.head _)

def looseTables : Tables :=
  { pollTables with
    attachments := ⟨[{ AttachmentRow.withDefaults 1 "x" 4 (some 7) .Local with filename := "2-f" },
      { AttachmentRow.withDefaults 2 "x-1" 4 (some 7) .Local with filename := "f" },
      .withDefaults 3 "loose" 4 none .Local], by decide, by decide⟩ }

/-- The third file is in no entry and no record, and two entries have one path. -/
theorem exportBackup_loose : ∃ archive manifest,
    exportBackup diskStorage looseTables "all" none = .ok (archive, manifest) ∧
    AttachmentRow.withDefaults 3 "loose" 4 none .Local ∈ looseTables.attachments ∧
    (archive.countP fun e => e.body.account == some 3) = 0 ∧
    ¬(archive.map BackupEntry.path).Nodup :=
  ⟨_, _, rfl, .tail _ (.tail _ (.head _)), by decide +kernel, by decide +kernel⟩

end Memos.Api.Backup
