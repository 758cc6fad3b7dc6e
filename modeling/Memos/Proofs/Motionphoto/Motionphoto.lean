/-
Where the search for an embedded video ends.

The search goes from one marker to the one before it, and after a marker that starts no
video it leaves out one byte more than the marker: the marker right before is not looked
at.  That marker would be the size of the box, and a size of these four letters is a good
one, so the later marker was refused for its length alone: only a marker with fewer than
eight bytes from it to the end can hide another.  The rest of the search hides nothing.
-/
import Memos.Motionphoto.Motionphoto

namespace Memos.Motionphoto

open Find

variable {blob : List UInt8} {start searchFrom i j : Nat}

/-! ### Markers and starts -/

def StartsAt (blob : List UInt8) (start : Nat) : Prop := looksLikeMP4 (blob.drop start) = true

instance (blob : List UInt8) (start : Nat) : Decidable (StartsAt blob start) :=
  inferInstanceAs (Decidable (looksLikeMP4 (blob.drop start) = true))

def GoodSize (size : Nat) : Prop := size = 1 ∨ 8 ≤ size

theorem take_four_eq_ftyp (l : List UInt8) : l.take 4 = ftyp ↔ ftyp <+: l := by
  rw [List.prefix_iff_eq_take, ftyp_length, eq_comm]

theorem startsAt_iff : StartsAt blob start ↔
    start + 12 ≤ blob.length ∧ StandsAt ftyp blob (start + 4) ∧
      GoodSize (uint32 ((blob.drop start).take 4)) := by
  unfold StartsAt looksLikeMP4 GoodSize
  have marker : ((blob.drop start).drop 4).take 4 = ftyp ↔ StandsAt ftyp blob (start + 4) := by
    rw [take_four_eq_ftyp, List.drop_drop]
    rfl
  have long : 12 ≤ (blob.drop start).length ↔ start + 12 ≤ blob.length := by
    rw [List.length_drop]
    omega
  rw [← marker, ← long]
  split_ifs with short
  · rw [Bool.or_eq_true, decide_eq_true_eq, decide_eq_true_eq] at short
    refine iff_of_false not_false fun ⟨long, stands, _⟩ => ?_
    exact short.elim (fun lt => Nat.not_lt.mpr long lt) fun other => other stands
  · rw [Bool.or_eq_true, decide_eq_true_eq, decide_eq_true_eq, not_or, not_not, Nat.not_lt] at short
    dsimp only
    rw [Bool.or_eq_true, decide_eq_true_eq, decide_eq_true_eq]
    exact ⟨fun size => ⟨short.1, short.2, size⟩, fun all => all.2.2⟩

theorem StandsAt.ftyp_le (stands : StandsAt ftyp blob i) : i + 4 ≤ blob.length := by
  have le := stands.length_le ftyp_ne_nil
  rwa [ftyp_length] at le

/-- No marker overlaps another: its first letter is not among the others. -/
theorem ftyp_apart (later : StandsAt ftyp blob i) (earlier : StandsAt ftyp blob j) (lt : j < i) :
    j + 4 ≤ i := by
  by_contra near
  have first := later.getElem? (j := 0) (by decide)
  have inner := earlier.getElem? (j := i - j) (by rw [ftyp_length]; omega)
  rw [Nat.add_zero] at first
  rw [Nat.add_sub_cancel' (Nat.le_of_lt lt), first] at inner
  have cases : i - j = 1 ∨ i - j = 2 ∨ i - j = 3 := by omega
  obtain one | two | three := cases
  · rw [one] at inner
    exact absurd inner (by decide)
  · rw [two] at inner
    exact absurd inner (by decide)
  · rw [three] at inner
    exact absurd inner (by decide)

theorem goodSize_of_ftyp (stands : StandsAt ftyp blob j) :
    GoodSize (uint32 ((blob.drop j).take 4)) := by
  rw [(take_four_eq_ftyp _).mpr stands]
  exact Or.inr (by decide)

/-- And so are the last three of them with any byte after them. -/
theorem goodSize_after_ftyp (stands : StandsAt ftyp blob j) (long : j + 5 ≤ blob.length) :
    GoodSize (uint32 ((blob.drop (j + 1)).take 4)) := by
  obtain ⟨rest, same⟩ := stands
  have after : blob.drop (j + 1) = ascii "typ" ++ rest := by
    rw [← List.drop_drop, ← same]
    rfl
  have length := congrArg List.length same
  rw [List.length_append, List.length_drop, ftyp_length] at length
  cases rest with
  | nil =>
      rw [List.length_nil] at length
      omega
  | cons b rest =>
      rw [after]
      right
      show 8 ≤ 0x747970 * 256 + b.toNat
      omega

/-! ### One refused marker -/

/-- A marker that starts no video, though there are bytes enough from it on, hides no start:
the next window holds the marker of every earlier one. -/
theorem refused_hides_none (stands : StandsAt ftyp blob i) (four : 4 ≤ i)
    (long : i + 8 ≤ blob.length) (refused : ¬StartsAt blob (i - 4)) (starts : StartsAt blob start)
    (lt : start + 4 < i) : start + 8 ≤ i - 1 ∧ 8 < i - 1 := by
  rw [startsAt_iff] at refused
  have bad : ¬GoodSize (uint32 ((blob.drop (i - 4)).take 4)) := by
    intro good
    refine refused ⟨by omega, ?_, good⟩
    rwa [Nat.sub_add_cancel four]
  have earlier := (startsAt_iff.mp starts).2.1
  have apart := ftyp_apart stands earlier lt
  have adjacent : i - 4 ≠ start + 4 := by
    intro same
    exact bad (same ▸ goodSize_of_ftyp earlier)
  have close : i - 4 ≠ start + 5 := by
    intro same
    have good := goodSize_after_ftyp earlier (by omega)
    rw [Nat.add_assoc] at good
    exact bad (same ▸ good)
  omega

/-! ### The search -/

/-- The last start there is, or −1 when there is none. -/
inductive IsLastStart (blob : List UInt8) : Int → Prop
  | found {start : Nat} (starts : StartsAt blob start)
      (last : ∀ other, StartsAt blob other → other ≤ start) : IsLastStart blob start
  | none (none : ∀ start, ¬StartsAt blob start) : IsLastStart blob (-1)

theorem searchEmbedded_stop (le : searchFrom ≤ 8) : searchEmbedded blob searchFrom = -1 := by
  rw [searchEmbedded, if_neg (by omega)]

theorem searchEmbedded_none (none : lastIndex ftyp (blob.take searchFrom) = none) :
    searchEmbedded blob searchFrom = -1 := by
  rw [searchEmbedded]
  split_ifs
  · split
    · rfl
    next index found => rw [none] at found; cases found
  · rfl

theorem searchEmbedded_some (gt : 8 < searchFrom)
    (found : lastIndex ftyp (blob.take searchFrom) = some i) :
    searchEmbedded blob searchFrom =
      if i < 4 then -1
      else if looksLikeMP4 (blob.drop (i - 4)) then ((i - 4 : Nat) : Int)
      else searchEmbedded blob (i - 1) := by
  rw [searchEmbedded, if_pos gt]
  split
  next none => rw [none] at found; cases found
  next index here =>
    rw [found] at here
    injection here with here
    rw [here]

theorem searchEmbedded_window (h : searchEmbedded blob searchFrom = (start : Int)) :
    start + 8 ≤ searchFrom ∧ 8 < searchFrom := by
  induction searchFrom using Nat.strongRecOn with
  | ind searchFrom ih =>
      by_cases gt : 8 < searchFrom
      · cases found : lastIndex ftyp (blob.take searchFrom) with
        | none =>
            rw [searchEmbedded_none found] at h
            omega
        | some i =>
            have le := lastIndex_ftyp_le found
            rw [searchEmbedded_some gt found] at h
            split_ifs at h with few
            · omega
            · have window := ih (i - 1) (by omega) h
              omega
      · rw [searchEmbedded_stop (by omega)] at h
        omega

/-- With no start outside of the window, and no marker in it that is cut short by the end,
the search finds the last start. -/
theorem searchEmbedded_isLastStart
    (window : ∀ start, StartsAt blob start → start + 8 ≤ searchFrom ∧ 8 < searchFrom)
    (whole : ∀ i, StandsAt ftyp blob i → i + 4 ≤ searchFrom → 4 ≤ i → i + 8 ≤ blob.length) :
    IsLastStart blob (searchEmbedded blob searchFrom) := by
  induction searchFrom using Nat.strongRecOn with
  | ind searchFrom ih =>
      by_cases gt : 8 < searchFrom
      · cases found : lastIndex ftyp (blob.take searchFrom) with
        | none =>
            rw [searchEmbedded_none found]
            refine .none fun start starts => lastIndex_eq_none found (start + 4) ?_
            exact (standsAt_take ftyp_ne_nil).mpr
              ⟨(startsAt_iff.mp starts).2.1, (window start starts).1⟩
        | some i =>
            have le := lastIndex_ftyp_le found
            have stands := ((standsAt_take ftyp_ne_nil).mp (lastIndex_standsAt found)).1
            have last (start : Nat) (starts : StartsAt blob start) : start + 4 ≤ i :=
              le_lastIndex ftyp_ne_nil found <| (standsAt_take ftyp_ne_nil).mpr
                ⟨(startsAt_iff.mp starts).2.1, (window start starts).1⟩
            rw [searchEmbedded_some gt found]
            split_ifs with few here
            · refine .none fun start starts => ?_
              have := last start starts
              omega
            · refine .found here fun other starts => ?_
              have := last other starts
              omega
            · refine ih (i - 1) (by omega) (fun start starts => ?_) fun j marker inside => ?_
              · refine refused_hides_none stands (by omega) (whole i stands le (by omega)) here starts ?_
                refine Nat.lt_of_le_of_ne (last start starts) fun same => here ?_
                rw [← same, Nat.add_sub_cancel]
                exact starts
              · exact whole j marker (by omega)
      · rw [searchEmbedded_stop (by omega)]
        exact .none fun start starts => gt (window start starts).2

/-! ### The hidden start -/

/-- A marker cut short by the end hides a start: that of the marker right before it, or the
start of the bytes when one byte stands between the two markers. -/
def HidesStart (blob : List UInt8) : Prop :=
  ∃ i, StandsAt ftyp blob i ∧ blob.length < i + 8 ∧
    (8 ≤ i ∧ StartsAt blob (i - 8) ∨ i = 9 ∧ StartsAt blob 0)

theorem lastIndex_of_short (stands : StandsAt ftyp blob i) (short : blob.length < i + 8) :
    lastIndex ftyp (blob.take blob.length) = some i := by
  rw [List.take_length]
  cases found : lastIndex ftyp blob with
  | none => exact absurd stands (lastIndex_eq_none found i)
  | some j =>
      have le := le_lastIndex ftyp_ne_nil found stands
      have later := lastIndex_standsAt found
      have inside := StandsAt.ftyp_le later
      by_cases same : i = j
      · rw [same]
      · have := ftyp_apart later stands (by omega)
        omega

theorem not_startsAt_of_short (short : blob.length < i + 8) (four : 4 ≤ i) :
    ¬StartsAt blob (i - 4) := by
  intro starts
  have := (startsAt_iff.mp starts).1
  omega

theorem findEmbeddedMP4Start_of_short (stands : StandsAt ftyp blob i)
    (short : blob.length < i + 8) (four : 4 ≤ i) (gt : 8 < blob.length) :
    findEmbeddedMP4Start blob = searchEmbedded blob (i - 1) := by
  unfold findEmbeddedMP4Start
  have refused : looksLikeMP4 (blob.drop (i - 4)) ≠ true := not_startsAt_of_short short four
  rw [searchEmbedded_some gt (lastIndex_of_short stands short), if_neg (by omega), if_neg refused]

/-- The search finds the last start unless a marker at the very end hides it. -/
theorem findEmbeddedMP4Start_isLastStart_iff :
    IsLastStart blob (findEmbeddedMP4Start blob) ↔ ¬HidesStart blob := by
  constructor
  · intro last ⟨i, stands, short, hidden⟩
    obtain ⟨start, starts, outside⟩ :
        ∃ start, StartsAt blob start ∧ ∀ n, n + 8 ≤ i - 1 → 8 < i - 1 → n < start := by
      obtain ⟨eight, starts⟩ | ⟨rfl, starts⟩ := hidden
      · exact ⟨i - 8, starts, fun n _ _ => by omega⟩
      · exact ⟨0, starts, fun n _ _ => by omega⟩
    have long := (startsAt_iff.mp starts).1
    have four : 4 ≤ i := by omega
    rw [findEmbeddedMP4Start_of_short stands short four (by omega)] at last
    generalize same : searchEmbedded blob (i - 1) = result at last
    cases last with
    | found _ last =>
        have window := searchEmbedded_window same
        have lt := outside _ window.1 window.2
        have le := last start starts
        omega
    | none none => exact none start starts
  · intro plain
    have long (start : Nat) (starts : StartsAt blob start) : start + 12 ≤ blob.length :=
      (startsAt_iff.mp starts).1
    by_cases gt : 8 < blob.length
    · by_cases short : ∃ i, StandsAt ftyp blob i ∧ blob.length < i + 8 ∧ 4 ≤ i
      · obtain ⟨i, stands, short, four⟩ := short
        rw [findEmbeddedMP4Start_of_short stands short four gt]
        have inside := StandsAt.ftyp_le stands
        refine searchEmbedded_isLastStart (fun start starts => ?_) fun j _ le _ => by omega
        have := long start starts
        have apart := ftyp_apart stands (startsAt_iff.mp starts).2.1 (by omega)
        have adjacent : ¬(8 ≤ i ∧ i - 8 = start) := by
          intro ⟨eight, same⟩
          exact plain ⟨i, stands, short, .inl ⟨eight, same ▸ starts⟩⟩
        have front : ¬(i = 9 ∧ start = 0) := by
          intro ⟨nine, zero⟩
          exact plain ⟨i, stands, short, .inr ⟨nine, zero ▸ starts⟩⟩
        omega
      · refine searchEmbedded_isLastStart (fun start starts => ?_) fun i stands _ four => ?_
        · have := long start starts
          omega
        · by_contra few
          exact short ⟨i, stands, Nat.not_le.mp few, four⟩
    · rw [findEmbeddedMP4Start, searchEmbedded_stop (by omega)]
      refine .none fun start starts => ?_
      have := long start starts
      omega

/-! ### What is extracted -/

/-- A JPEG that carries the marker, and whose metadata give no start. -/
structure Searched (blob : List UInt8) : Prop where
  long : 16 ≤ blob.length
  jpeg : [0xFF, 0xD8] <+: blob
  marked : motionPhotoMarkerRegex (metadata blob) = true
  unplaced : microVideoStart blob (metadata blob) = none

theorem DetectJPEG_of_searched (searched : Searched blob) : DetectJPEG blob =
    if findEmbeddedMP4Start blob < 0 ∨ findEmbeddedMP4Start blob ≥ blob.length then none
    else some
      { VideoStart := findEmbeddedMP4Start blob,
        PresentationTimestampUs := parsePresentationTimestampUs (metadata blob) } := by
  have accepted : ¬(blob.length < 16 ∨ ¬[0xFF, 0xD8] <+: blob) := fun refused =>
    refused.elim (Nat.not_lt.mpr searched.long) fun other => other searched.jpeg
  have start : detectVideoStart blob (metadata blob) = findEmbeddedMP4Start blob := by
    rw [detectVideoStart, searched.unplaced]
  unfold DetectJPEG
  dsimp only
  rw [if_neg accepted, searched.marked, Bool.not_true, if_neg Bool.false_ne_true, start]

theorem ExtractVideo_of_found (searched : Searched blob) (starts : StartsAt blob start)
    (found : findEmbeddedMP4Start blob = start) :
    ExtractVideo blob = some (blob.drop start,
      { VideoStart := start,
        PresentationTimestampUs := parsePresentationTimestampUs (metadata blob) }) := by
  have long := (startsAt_iff.mp starts).1
  have detected := DetectJPEG_of_searched searched
  rw [found, if_neg (by omega)] at detected
  unfold ExtractVideo
  rw [detected]
  exact if_pos starts

theorem ExtractVideo_of_none (searched : Searched blob) (none : findEmbeddedMP4Start blob = -1) :
    ExtractVideo blob = Option.none := by
  have detected := DetectJPEG_of_searched searched
  rw [none, if_pos (by omega)] at detected
  unfold ExtractVideo
  rw [detected]

/-- The search finds the last start; and of a JPEG that is searched, the bytes from the last
start on are extracted, whenever there is one. -/
structure FindsVideo (blob : List UInt8) : Prop where
  find : IsLastStart blob (findEmbeddedMP4Start blob)
  extract : Searched blob → ∀ start, StartsAt blob start →
    (∀ other, StartsAt blob other → other ≤ start) →
      (ExtractVideo blob).map Prod.fst = some (blob.drop start)
  empty : Searched blob → (∀ start, ¬StartsAt blob start) → ExtractVideo blob = none

/-- **The embedded video is found exactly when no marker at the very end hides it.** -/
theorem findEmbeddedMP4Start_last (blob : List UInt8) : FindsVideo blob ↔ ¬HidesStart blob := by
  refine ⟨fun finds => findEmbeddedMP4Start_isLastStart_iff.mp finds.find, fun plain => ?_⟩
  have find := findEmbeddedMP4Start_isLastStart_iff.mpr plain
  refine ⟨find, fun searched start starts last => ?_, fun searched none => ?_⟩
  · generalize same : findEmbeddedMP4Start blob = result at find
    cases find with
    | @found found foundStarts foundLast =>
        have eq : found = start := Nat.le_antisymm (last found foundStarts) (foundLast start starts)
        subst eq
        rw [ExtractVideo_of_found searched foundStarts same]
        rfl
    | none none => exact absurd starts (none start)
  · generalize same : findEmbeddedMP4Start blob = result at find
    cases find with
    | found starts _ => exact absurd starts (none _)
    | none => exact ExtractVideo_of_none searched same

def truncatedMotionPhoto : List UInt8 :=
  [0xFF, 0xD8] ++ ascii "GCamera:MotionPhoto=\x221\x22" ++ [0x00, 0x00, 0x00, 0x08] ++ ftyp ++ ftyp

/-- The video from byte 25 on is hidden. -/
theorem embedded_video_missed :
    Searched truncatedMotionPhoto ∧ StartsAt truncatedMotionPhoto 25 ∧
      ¬FindsVideo truncatedMotionPhoto ∧ ExtractVideo truncatedMotionPhoto = none := by
  have searched : Searched truncatedMotionPhoto := ⟨by decide, by decide, by decide, by decide⟩
  have starts : StartsAt truncatedMotionPhoto 25 := by decide
  have hidden : HidesStart truncatedMotionPhoto :=
    ⟨33, by decide, by decide, .inl ⟨by decide, starts⟩⟩
  have missed : findEmbeddedMP4Start truncatedMotionPhoto = -1 := by
    have stands : StandsAt ftyp truncatedMotionPhoto 33 := by decide
    rw [findEmbeddedMP4Start_of_short stands (by decide) (by decide) (by decide)]
    exact searchEmbedded_none (by decide)
  refine ⟨searched, starts, fun finds => ?_, ExtractVideo_of_none searched missed⟩
  exact findEmbeddedMP4Start_isLastStart_iff.mp finds.find hidden

end Memos.Motionphoto
