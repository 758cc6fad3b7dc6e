/-
How much is logged of what goes wrong in browsers.

There are never more files than the writer was told, nor larger ones, whatever fails halfway and
however often the process starts.  Of the reports that a process saves any 257 in a row differ.
-/
import Memos.Api.DiagnosticLog
import Memos.Proofs.Api.FrontendDiagnostics
import Mathlib.Data.List.Sort

namespace Memos.Api.Diagnostics.DiagnosticLog

open Runs

variable {s t : DiagnosticLog} {name : LogName} {e : Entry} {length : Nat}

/-! ### The files -/

/-- At most `maxFiles` files, each of at most `maxBytes`. -/
structure Bounded (maxBytes maxFiles : Nat) (s : DiagnosticLog) : Prop where
  bytes : s.maxBytes = maxBytes
  number : s.maxFiles = maxFiles
  count : s.files.length ≤ maxFiles
  sizes : ∀ file ∈ s.files, file.size ≤ maxBytes

variable {maxBytes maxFiles : Nat}

theorem remove_spec (e : Entry) (old : List LogName) :
    (e.remove old).1 ⊆ old ∧ ((e.remove old).2 = true → (e.remove old).1 = old) := by
  unfold Entry.remove
  split
  · exact ⟨List.take_subset _ _, fun all => List.take_of_length_le (of_decide_eq_true all)⟩
  · exact ⟨fun _ => id, fun _ => rfl⟩

/-- The file that is written to next stays, and beside the others there is a place for it. -/
theorem prune_spec (s : DiagnosticLog) (name : LogName) (e : Entry) :
    ∃ keep : LogFile → Bool, (s.prune name e).2 = { s with files := s.files.filter keep } ∧
      (s.prune name e).2.size name = s.size name ∧ ((s.prune name e).1 = true →
        ((s.prune name e).2.files.filter fun file => file.name ≠ name).length ≤ s.maxFiles - 1) := by
  unfold prune
  split
  · exact ⟨fun _ => true, by rw [List.filter_true], rfl, nofun⟩
  · dsimp only
    generalize sorted : e.SortFunc.sort (s.files.filter fun file => file.name ≠ name) = files
    generalize hfirst : min files.length (s.maxFiles - 1) = first
    have perm : files.Perm (s.files.filter fun file => file.name ≠ name) := sorted ▸ e.SortFunc.perm _
    obtain ⟨sub, all⟩ := remove_spec e ((files.drop first).map LogFile.name)
    have apart : name ∉ (e.remove ((files.drop first).map LogFile.name)).1 := by
      intro mem
      obtain ⟨file, mem, same⟩ := List.mem_map.mp (sub mem)
      simpa [same] using (List.mem_filter.mp (perm.subset (List.mem_of_mem_drop mem))).2
    refine ⟨_, rfl, ?_, fun pruned => ?_⟩
    · unfold size
      rw [List.find?_filter]
      congr 2
      funext file
      by_cases same : file.name = name
      · rw [← same] at apart
        simpa [same] using apart
      · simp [same]
    · -- Of the others only those in front of the removed ones are left.
      rw [all pruned, List.filter_comm, ← (perm.filter _).length_eq]
      calc (files.filter _).length
          = ((files.take first ++ files.drop first).filter _).length := by rw [List.take_append_drop]
        _ ≤ (files.take first).length + 0 := by
            rw [List.filter_append, List.length_append]
            refine Nat.add_le_add (List.length_filter_le _ _) (Nat.le_of_eq ?_)
            rw [List.length_eq_zero_iff, List.filter_eq_nil_iff]
            exact fun file mem => by simpa using List.mem_map_of_mem (f := LogFile.name) mem
        _ ≤ s.maxFiles - 1 := by
            rw [Nat.add_zero, List.length_take]
            omega

/-- A record goes where there is a place for it. -/
theorem filename_fits (fits : e.length ≤ s.maxBytes) (h : s.filename e = some name) :
    (s.size name).getD 0 + e.length ≤ s.maxBytes := by
  unfold filename at h
  dsimp only at h
  split_ifs at h with _ full free
  · rw [← Option.some.inj h]
    rw [not_or, Option.not_isSome_iff_eq_none] at free
    rwa [free.1, Option.getD_none, Nat.zero_add]
  · rw [Option.some.inj h] at full
    cases there : s.size name with
    | none => rwa [Option.getD_none, Nat.zero_add]
    | some size =>
        rw [there, Option.any_some, decide_eq_true_eq] at full
        exact Nat.le_of_not_lt full

theorem bounded_write (bounded : Bounded maxBytes maxFiles s) (few : 0 < maxFiles)
    (others : (s.files.filter fun file => file.name ≠ name).length ≤ maxFiles - 1)
    (fits : (s.size name).getD 0 + length ≤ maxBytes) (modTime : Int) :
    Bounded maxBytes maxFiles (s.write name length modTime) := by
  refine ⟨bounded.bytes, bounded.number, ?_, fun file mem => ?_⟩
  · show (s.files.filter _).length + 1 ≤ maxFiles
    omega
  · rcases List.mem_cons.mp mem with rfl | mem
    · exact fits
    · exact bounded.sizes file (List.mem_filter.mp mem).1

/-- The log stays small, and nothing is saved or a report that was not known. -/
theorem append_cases (maxBytes maxFiles : Nat) (s : DiagnosticLog) (e : Entry) :
    (0 < maxFiles → Bounded maxBytes maxFiles s → Bounded maxBytes maxFiles (s.append e).2) ∧
      ((s.append e).2.writer = s.writer ∧ (s.append e).2.saved = s.saved ∨
        e.id ∉ s.writer.seen ∧ (s.append e).2.writer = s.writer.remember e.id ∧
          (s.append e).2.saved = s.saved ++ [e.id]) := by
  unfold append
  split
  · exact ⟨fun _ => id, .inl ⟨rfl, rfl⟩⟩
  · rename_i new
    split
    · exact ⟨fun _ => id, .inl ⟨rfl, rfl⟩⟩
    · rename_i able
      split
      · exact ⟨fun _ => id, .inl ⟨rfl, rfl⟩⟩
      · rename_i name place
        have fits := filename_fits (Nat.le_of_not_lt (not_or.mp able).2) place
        obtain ⟨keep, same, size, others⟩ := prune_spec s name e
        generalize s.prune name e = result at same size others
        obtain ⟨pruned, left⟩ := result
        dsimp only at same size others ⊢
        have kept : Bounded maxBytes maxFiles s → Bounded maxBytes maxFiles left := fun bounded => by
          rw [same]
          exact ⟨bounded.bytes, bounded.number, (List.length_filter_le _ _).trans bounded.count,
            fun file mem => bounded.sizes file (List.mem_filter.mp mem).1⟩
        have rest : left.writer = s.writer ∧ left.saved = s.saved := same ▸ ⟨rfl, rfl⟩
        split
        · exact ⟨fun _ => kept, .inl rest⟩
        · rename_i opened
          have written : ∀ length ≤ e.length, 0 < maxFiles → Bounded maxBytes maxFiles s →
              Bounded maxBytes maxFiles (left.write name length e.modTime) := by
            intro length le few bounded
            refine bounded_write (kept bounded) few ?_ ?_ e.modTime
            · rw [← bounded.number]
              exact others (by simpa using (not_or.mp opened).1)
            · rw [size, ← bounded.bytes]
              exact (Nat.add_le_add_left le _).trans fits
          split
          · exact ⟨written _ (Nat.min_le_right ..), .inl rest⟩
          · exact ⟨written _ le_rfl, .inl rest⟩
          · exact ⟨written _ le_rfl, .inl rest⟩
          · refine ⟨fun few bounded => ?_, .inr ⟨new, ?_, ?_⟩⟩
            · obtain ⟨bytes, number, count, sizes⟩ := written _ le_rfl few bounded
              exact ⟨bytes, number, count, sizes⟩
            · exact congrArg (FrontendDiagnosticWriter.remember · e.id) rest.1
            · exact congrArg (· ++ [e.id]) rest.2

/-- **The log stays small.** Whatever fails, and whenever the process stops and starts again, there
are no more files than may be, and each is no larger than it may be. -/
theorem log_bounded (bounded : Bounded maxBytes maxFiles s) (few : 0 < maxFiles)
    (run : Run next (fun _ _ => True) s t) :
    t.files.length ≤ maxFiles ∧ (∀ file ∈ t.files, file.size ≤ maxBytes) ∧
      (t.files.map LogFile.size).sum ≤ maxFiles * maxBytes := by
  obtain ⟨-, -, count, sizes⟩ : Bounded maxBytes maxFiles t :=
    run.invariant bounded fun u v event bounded _ h => by
      cases event with
      | append e => exact Option.some.inj h ▸ (append_cases _ _ u e).1 few bounded
      | allow now | start now =>
          exact Option.some.inj h ▸ ⟨bounded.bytes, bounded.number, bounded.count, bounded.sizes⟩
  refine ⟨count, sizes, ?_⟩
  have sum := List.sum_le_card_nsmul (t.files.map LogFile.size) maxBytes fun size mem => by
    obtain ⟨file, mem, same⟩ := List.mem_map.mp mem
    exact same ▸ sizes file mem
  rw [List.length_map] at sum
  exact sum.trans (Nat.mul_le_mul_right _ count)

/-! ### The reports -/

/-- What the process knows of the reports that it has saved. -/
structure Remembers (s : DiagnosticLog) : Prop where
  seen : s.writer.seen = s.writer.seenOrder.toFinset
  last : s.writer.seenOrder <:+ s.saved
  length : s.writer.seenOrder.length = min 256 s.saved.length
  apart : ∀ ids, ids <:+: s.saved → ids.length ≤ 257 → ids.Nodup

theorem Remembers.save (remembers : Remembers s) {id : String} (new : id ∉ s.writer.seen)
    (writer : t.writer = s.writer.remember id) (saved : t.saved = s.saved ++ [id]) : Remembers t := by
  obtain ⟨seen, last, length, apart⟩ := remembers
  have distinct : (s.writer.seenOrder ++ [id]).Nodup := by
    rw [seen, List.mem_toFinset] at new
    rw [← List.concat_eq_append]
    exact (apart _ last.isInfix (by omega)).concat new
  have apart' : ∀ ids, ids <:+: t.saved → ids.length ≤ 257 → ids.Nodup := by
    intro ids inside short
    rw [saved] at inside
    rcases List.infix_concat_iff.mp inside with ending | inside
    · rcases List.suffix_concat_iff.mp ending with rfl | ⟨front, rfl, back⟩
      · exact List.nodup_nil
      · -- What stands in front of the new report is part of what the process knows.
        rw [List.length_append, List.length_singleton] at short
        have known : front <:+ s.writer.seenOrder :=
          List.suffix_of_suffix_length_le back last (by have := back.length_le; omega)
        exact distinct.sublist (List.suffix_concat_iff.mpr (.inr ⟨front, rfl, known⟩)).sublist
    · exact apart ids inside short
  have all : insert id s.writer.seen = (s.writer.seenOrder ++ [id]).toFinset := by
    rw [seen, List.toFinset_append, Finset.union_comm]
    rfl
  have longer : (s.writer.seenOrder ++ [id]) <:+ t.saved := saved ▸ List.suffix_concat_iff.mpr
    (.inr ⟨_, rfl, last⟩)
  have count : t.saved.length = s.saved.length + 1 := by rw [saved, List.length_append]; rfl
  unfold FrontendDiagnosticWriter.remember at writer
  dsimp only at writer
  split at writer
  · rename_i long
    cases order : s.writer.seenOrder ++ [id] with
    | nil => simp at order
    | cons first rest =>
        have lengths := congrArg List.length order
        rw [order] at writer longer long
        rw [order, List.nodup_cons] at distinct
        rw [List.length_append, List.length_singleton, List.length_cons] at lengths
        rw [List.length_cons] at long
        refine ⟨?_, ?_, ?_, apart'⟩
        · rw [writer]
          show (insert id s.writer.seen).erase first = rest.toFinset
          rw [all, order, List.toFinset_cons, Finset.erase_insert]
          exact fun mem => distinct.1 (List.mem_toFinset.mp mem)
        · rw [writer]
          exact (List.suffix_cons first rest).trans longer
        · rw [writer]
          show rest.length = _
          omega
  · rename_i short
    rw [List.length_append, List.length_singleton] at short
    refine ⟨by rw [writer]; exact all, by rw [writer]; exact longer, ?_, apart'⟩
    rw [writer]
    show (s.writer.seenOrder ++ [id]).length = _
    rw [List.length_append, List.length_singleton]
    omega

theorem Remembers.of_same (remembers : Remembers s) (seen : t.writer.seen = s.writer.seen)
    (order : t.writer.seenOrder = s.writer.seenOrder) (saved : t.saved = s.saved) : Remembers t := by
  obtain ⟨all, last, length, apart⟩ := remembers
  exact ⟨by rw [seen, order, all], by rw [order, saved]; exact last, by rw [order, saved, length],
    by rw [saved]; exact apart⟩

theorem remembers_next (remembers : Remembers s) {event : Event} (h : s.next event = some t) :
    Remembers t := by
  cases event with
  | append e =>
      rw [← Option.some.inj h]
      rcases (append_cases 0 0 s e).2 with ⟨writer, saved⟩ | ⟨new, writer, saved⟩
      · exact remembers.of_same (by rw [writer]) (by rw [writer]) saved
      · exact remembers.save new writer saved
  | allow now =>
      rw [← Option.some.inj h]
      unfold FrontendDiagnosticWriter.allow
      dsimp only
      split
      · exact remembers.of_same rfl rfl rfl
      · exact remembers.of_same rfl rfl rfl
  | start now =>
      rw [← Option.some.inj h]
      exact ⟨rfl, List.nil_suffix, rfl, fun ids inside _ => List.infix_nil.mp inside ▸ List.nodup_nil⟩

/-- **No report is saved again soon.** Of the reports that a process has saved, in whatever order
they came in and whatever failed, any 257 in a row differ. -/
theorem saved_apart {now : Int} (writer : s.writer = newFrontendDiagnosticWriter now)
    (saved : s.saved = []) (run : Run next (fun _ _ => True) s t) {ids : List String}
    (inside : ids <:+: t.saved) (short : ids.length ≤ 257) : ids.Nodup := by
  have start : Remembers s := by
    refine ⟨by rw [writer]; rfl, by rw [writer]; exact List.nil_suffix, by rw [writer, saved]; rfl,
      fun ids inside _ => ?_⟩
    rw [saved] at inside
    exact List.infix_nil.mp inside ▸ List.nodup_nil
  have remembers := run.invariant start fun _ _ _ remembers _ h => remembers_next remembers h
  exact remembers.apart ids inside short

/-! ### Two days -/

def newestFirst : SortFunc where
  sort files := files.insertionSort fun a b => b.modTime ≤ a.modTime
  perm files := List.perm_insertionSort _ files
  newest files :=
    have : Std.Total fun a b : LogFile => b.modTime ≤ a.modTime := ⟨fun a b => le_total b.modTime a.modTime⟩
    have : IsTrans LogFile fun a b => b.modTime ≤ a.modTime := ⟨fun _ _ _ first second => second.trans first⟩
    List.pairwise_insertionSort _ files

def smallLog : DiagnosticLog := ⟨10, 2, none, newFrontendDiagnosticWriter 0, [], []⟩

def report (id date time : String) (modTime : Int) (failure : Option Failure) : Event :=
  .append ⟨id, date, time, 6, newestFirst, modTime, failure⟩

/-- A file is full, a report comes again, and the disk is full for a while. -/
def twoDays : List Event :=
  [report "a" "d1" "t1" 1 none, report "b" "d1" "t2" 2 none, report "a" "d1" "t3" 3 none,
    report "c" "d1" "t4" 4 (some (.Write 3)), report "c" "d2" "t5" 5 none]

theorem log_bounded_twoDays : ∃ t, follow next (fun _ _ => True) smallLog twoDays = some t ∧
    t.files.map LogFile.size = [6, 3] ∧ (t.files.map LogFile.size).sum ≤ 2 * 10 := by
  obtain ⟨t, follows, sizes⟩ : ∃ t, follow next (fun _ _ => True) smallLog twoDays = some t ∧
      t.files.map LogFile.size = [6, 3] := Option.map_eq_some_iff.mp (by decide +kernel)
  have bounded : Bounded 10 2 smallLog := ⟨rfl, rfl, Nat.zero_le _, nofun⟩
  exact ⟨t, follows, sizes, (log_bounded bounded (by decide) (run_of_follow follows)).2.2⟩

theorem saved_apart_twoDays : ∃ t, follow next (fun _ _ => True) smallLog twoDays = some t ∧
    t.saved = ["a", "b", "c"] ∧ t.saved.Nodup := by
  obtain ⟨t, follows, saved⟩ : ∃ t, follow next (fun _ _ => True) smallLog twoDays = some t ∧
      t.saved = ["a", "b", "c"] := Option.map_eq_some_iff.mp (by decide +kernel)
  exact ⟨t, follows, saved, saved_apart rfl rfl (run_of_follow follows) List.infix_rfl
    (by rw [saved]; decide)⟩

end Memos.Api.Diagnostics.DiagnosticLog
