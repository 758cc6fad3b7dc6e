/-
Following page tokens shows every visible memo once.

The scan keeps three counters, and none of them alone says where it stands: `rawOffset`
counts rows, `skippedVisible` counts visible rows up to the offset, and the collected
list counts the visible rows after it.  The invariant ties all three to one thing, the
prefix of the listing that has been read:

    collected = drop offset (filter visible prefix)
    skipped   = min offset (number of visible rows in the prefix)

Where a chunk ends does not appear in it, which is why the result does not depend on the
chunk size.  A row extends the prefix by one; the batch loop runs through a chunk by
induction and the outer loop through the chunks.  The early return is the only exit on
which part of the listing is unread, and there the list is full, so the unread rows could
only have been cut off by `take`.

Following tokens is then a recursion on the visible rows still to be shown, which
decreases by a whole page each time.
-/
import Memos.Api.Paging
import Mathlib.Order.Interval.Finset.Nat

namespace Memos.Api

/-! ### The scan -/

section Scan

variable {Row : Type} {chunkSize : Nat} {visible : Row → Bool} {visibleOffset visibleLimit : Nat}

/-- The page of visible rows a caller is meant to get. -/
def window (visible : Row → Bool) (visibleOffset visibleLimit : Nat) (rows : List Row) : List Row :=
  ((rows.filter visible).drop visibleOffset).take visibleLimit

/-- The counters account for exactly the rows of `seen`, and the page is not full. -/
structure Scanned (visible : Row → Bool) (visibleOffset visibleLimit : Nat) (seen : List Row)
    (state : PageState Row) : Prop where
  collected : state.visibleMemos = (seen.filter visible).drop visibleOffset
  skipped : state.skippedVisible = min visibleOffset (seen.filter visible).length
  room : state.visibleMemos.length < visibleLimit

namespace Scanned

variable {seen : List Row} {state : PageState Row} {memo : Row}

theorem hidden (h : Scanned visible visibleOffset visibleLimit seen state)
    (hm : visible memo = false) :
    Scanned visible visibleOffset visibleLimit (seen ++ [memo]) state := by
  have same : (seen ++ [memo]).filter visible = seen.filter visible := by simp [hm]
  exact ⟨by rw [same]; exact h.collected, by rw [same]; exact h.skipped, h.room⟩

private theorem filter_append_shown (hm : visible memo = true) :
    (seen ++ [memo]).filter visible = seen.filter visible ++ [memo] := by
  simp [hm]

theorem skip (h : Scanned visible visibleOffset visibleLimit seen state)
    (hm : visible memo = true) (below : state.skippedVisible < visibleOffset) :
    Scanned visible visibleOffset visibleLimit (seen ++ [memo])
      { state with skippedVisible := state.skippedVisible + 1 } := by
  have few : (seen.filter visible).length < visibleOffset := by
    have := h.skipped
    omega
  refine ⟨?_, ?_, h.room⟩
  · rw [h.collected, filter_append_shown hm, List.drop_eq_nil_of_le (by omega),
      List.drop_eq_nil_of_le (by rw [List.length_append, List.length_singleton]; omega)]
  · have := h.skipped
    rw [filter_append_shown hm, List.length_append, List.length_singleton]
    show state.skippedVisible + 1 = _
    omega

theorem collected_append (h : Scanned visible visibleOffset visibleLimit seen state)
    (hm : visible memo = true) (reached : ¬ state.skippedVisible < visibleOffset) :
    state.visibleMemos ++ [memo] = ((seen ++ [memo]).filter visible).drop visibleOffset := by
  have many : visibleOffset ≤ (seen.filter visible).length := by
    have := h.skipped
    omega
  rw [filter_append_shown hm, List.drop_append_of_le_length many, h.collected]

theorem collect (h : Scanned visible visibleOffset visibleLimit seen state)
    (hm : visible memo = true) (reached : ¬ state.skippedVisible < visibleOffset)
    (short : (state.visibleMemos ++ [memo]).length ≠ visibleLimit) :
    Scanned visible visibleOffset visibleLimit (seen ++ [memo])
      { state with visibleMemos := state.visibleMemos ++ [memo] } := by
  refine ⟨h.collected_append hm reached, ?_, ?_⟩
  · have := h.skipped
    rw [filter_append_shown hm, List.length_append, List.length_singleton]
    show state.skippedVisible = _
    omega
  · have room := h.room
    rw [List.length_append, List.length_singleton] at short
    show (state.visibleMemos ++ [memo]).length < visibleLimit
    rw [List.length_append, List.length_singleton]
    omega

theorem window_of_full {full later : List Row}
    (hfull : full = (seen.filter visible).drop visibleOffset) (hlen : full.length = visibleLimit)
    (hpos : 0 < visibleLimit) :
    window visible visibleOffset visibleLimit (seen ++ later) = full := by
  have reached : visibleOffset ≤ (seen.filter visible).length := by
    have := congrArg List.length hfull
    rw [List.length_drop] at this
    omega
  rw [window, List.filter_append, List.drop_append_of_le_length reached, ← hfull,
    List.take_append_of_le_length (by omega), List.take_of_length_le (by omega)]

/-- With the whole listing read and the page not full, the collected rows are the page. -/
theorem window_of_all (h : Scanned visible visibleOffset visibleLimit seen state) :
    state.visibleMemos = window visible visibleOffset visibleLimit seen := by
  rw [window, ← h.collected, List.take_of_length_le (Nat.le_of_lt h.room)]

end Scanned

/-- What a batch leaves behind: the finished page whatever rows come later, or the
invariant with the batch read. -/
def BatchResult.Accounts (visible : Row → Bool) (visibleOffset visibleLimit : Nat)
    (seen : List Row) : BatchResult Row → Prop
  | .full visibleMemos =>
      ∀ later, window visible visibleOffset visibleLimit (seen ++ later) = visibleMemos
  | .more state => Scanned visible visibleOffset visibleLimit seen state

theorem scanBatch_accounts (rows seen : List Row) (state : PageState Row)
    (h : Scanned visible visibleOffset visibleLimit seen state) :
    (scanBatch visible visibleOffset visibleLimit rows state).Accounts visible visibleOffset
      visibleLimit (seen ++ rows) := by
  induction rows generalizing seen state with
  | nil =>
      rw [List.append_nil]
      exact h
  | cons memo rest ih =>
      have split : seen ++ memo :: rest = (seen ++ [memo]) ++ rest := by simp
      rw [split, scanBatch]
      by_cases hm : visible memo = true
      · rw [if_neg (by simp [hm])]
        by_cases below : state.skippedVisible < visibleOffset
        · rw [if_pos below]
          exact ih _ _ (h.skip hm below)
        · rw [if_neg below]
          by_cases full : (state.visibleMemos ++ [memo]).length = visibleLimit
          · rw [if_pos full]
            intro later
            rw [List.append_assoc]
            exact Scanned.window_of_full (h.collected_append hm below) full
              (Nat.lt_of_le_of_lt (Nat.zero_le _) h.room)
          · rw [if_neg full]
            exact ih _ _ (h.collect hm below full)
      · rw [if_pos (by simp [hm])]
        exact ih _ _ (h.hidden (by simpa using hm))

/-- Reading the next batch extends the prefix that has been read by that batch. -/
theorem take_add_batch (rows : List Row) (limit offset : Nat) :
    rows.take (offset + (batch rows limit offset).length)
      = rows.take offset ++ batch rows limit offset := by
  rw [List.take_add, batch, ← List.prefix_iff_eq_take.mp (List.take_prefix _ _)]

theorem scanFrom_window (positive : 0 < chunkSize) (rows : List Row) (rawOffset : Nat)
    (state : PageState Row) (inside : rawOffset ≤ rows.length)
    (h : Scanned visible visibleOffset visibleLimit (rows.take rawOffset) state) :
    scanFrom chunkSize visible visibleOffset visibleLimit rows rawOffset state
      = window visible visibleOffset visibleLimit rows := by
  induction left : rows.length - rawOffset using Nat.strongRecOn generalizing rawOffset state with
  | ind left' ih =>
      have length := batch_length rows chunkSize rawOffset
      rw [scanFrom, if_pos h.room]
      by_cases empty : (batch rows chunkSize rawOffset).length = 0
      · rw [if_pos empty]
        have whole : rows.take rawOffset = rows := List.take_of_length_le (by omega)
        rw [whole] at h
        exact h.window_of_all
      · rw [if_neg empty]
        have accounts := scanBatch_accounts (batch rows chunkSize rawOffset) _ _ h
        rw [← take_add_batch] at accounts
        cases outcome : scanBatch visible visibleOffset visibleLimit
            (batch rows chunkSize rawOffset) state with
        | full visibleMemos =>
            rw [outcome] at accounts
            have := accounts (rows.drop (rawOffset + (batch rows chunkSize rawOffset).length))
            rw [List.take_append_drop] at this
            exact this.symm
        | more state =>
            rw [outcome] at accounts
            by_cases last : (batch rows chunkSize rawOffset).length < chunkSize
            · have whole : rows.take (rawOffset + (batch rows chunkSize rawOffset).length)
                  = rows := List.take_of_length_le (by omega)
              rw [whole] at accounts
              simp only [if_pos last]
              exact accounts.window_of_all
            · simp only [if_neg last]
              exact ih _ (by omega) _ _ (by omega) accounts rfl

/-- **The page is the window of the visible rows, whatever the chunk size.** -/
theorem listMemoCollectionPage_eq (positive : 0 < chunkSize) (visible : Row → Bool)
    (visibleOffset visibleLimit : Nat) (rows : List Row) :
    listMemoCollectionPage chunkSize visible visibleOffset visibleLimit rows
      = window visible visibleOffset visibleLimit rows := by
  by_cases room : 0 < visibleLimit
  · refine scanFrom_window positive rows 0 _ (Nat.zero_le _) ⟨?_, ?_, room⟩
    · simp
    · simp
  · -- A limit of zero never enters the loop.
    have zero : visibleLimit = 0 := by omega
    subst zero
    rw [listMemoCollectionPage, scanFrom, if_neg (by simp), window, List.take_zero]

end Scan

/-! ### Tokens

A page size is at most `MaxPageSize`, and the ids of a listing bound its length, so
neither field of a token the service hands out is changed by the conversion to `int32`.
-/

theorem normalizePageSize_bounds (pageSize : Int32) :
    0 < normalizePageSize pageSize ∧ normalizePageSize pageSize ≤ MaxPageSize := by
  unfold normalizePageSize DefaultPageSize MaxPageSize
  split
  · omega
  · split
    · omega
    · omega

theorem normalizePageSize_ofInt {limit : Nat} (hpos : 0 < limit) (hmax : limit ≤ MaxPageSize) :
    normalizePageSize (Int32.ofInt limit) = limit := by
  have hbound : limit ≤ 1000 := hmax
  have value : (Int32.ofInt limit).toInt = limit :=
    Int32.toInt_ofInt_of_le (by omega) (by omega)
  unfold normalizePageSize
  rw [value, if_neg (by omega), if_neg (by omega), Int.toNat_natCast]

theorem Listing.length_lt {Row : Type} (listing : Listing Row) : listing.rows.length < 2 ^ 31 := by
  have inside : (listing.rows.map fun row => (listing.id row).value).toFinset
      ⊆ Finset.Ico 1 (2 ^ 31) := by
    intro value hvalue
    rw [List.mem_toFinset, List.mem_map] at hvalue
    obtain ⟨row, -, rfl⟩ := hvalue
    exact Finset.mem_Ico.mpr ⟨(listing.id row).positive, (listing.id row).fits⟩
  have card := Finset.card_le_card inside
  rw [List.toFinset_card_of_nodup listing.distinct, List.length_map, Nat.card_Ico] at card
  omega

section Tokens

variable {Row Message : Type} {codec : PageTokenCodec} {chunkSize : Nat} {visible : Row → Bool}
  {convert : Row → Option Message} {rows : List Row}

/-- The token of a page is handed out, is not empty and names the next page. -/
theorem getPageToken_next (lawful : codec.Lawful) {limit offset : Nat} (hpos : 0 < limit)
    (hmax : limit ≤ MaxPageSize) (hoffset : offset < 2 ^ 31) :
    ∃ text, getPageToken codec limit offset = .ok text ∧ text ≠ "" ∧
      ∀ request : ListMemosRequest,
        requestedPage codec { request with pageToken := text } = .ok (limit, offset) := by
  have hbound : limit ≤ 1000 := hmax
  have nonzero : Int32.ofInt limit ≠ 0 := by
    intro zero
    have value : (Int32.ofInt limit).toInt = limit :=
      Int32.toInt_ofInt_of_le (by omega) (by omega)
    rw [zero] at value
    have : (0 : Int32).toInt = 0 := rfl
    omega
  obtain ⟨text, written, nonempty, read⟩ :=
    lawful { limit := Int32.ofInt limit, offset := Int32.ofInt offset } nonzero
  refine ⟨text, written, nonempty, fun request => ?_⟩
  have value : (Int32.ofInt offset).toInt = offset :=
    Int32.toInt_ofInt_of_le (by omega) (by omega)
  simp only [requestedPage]
  rw [if_pos nonempty, read]
  show Except.ok (normalizePageSize (Int32.ofInt limit), (max (Int32.ofInt offset).toInt 0).toNat)
    = _
  rw [normalizePageSize_ofInt hpos hmax, value, Int.max_eq_left (by omega), Int.toNat_natCast]

/-- One request: a surplus row is what makes the difference between a page with a token
and the last page. -/
theorem listMemos_page (positive : 0 < chunkSize) (request : ListMemosRequest)
    {limit offset : Nat} (hpage : requestedPage codec request = .ok (limit, offset))
    (hmax : limit ≤ MaxPageSize) :
    listMemos codec chunkSize visible convert rows request
      = if ((rows.filter visible).drop offset).length ≤ limit then
          .ok { memos := ((rows.filter visible).drop offset).filterMap convert,
                nextPageToken := "" }
        else
          match getPageToken codec limit (offset + limit) with
          | .error err => .error ("failed to get next page token, error: " ++ err)
          | .ok nextPageToken =>
              .ok { memos := (((rows.filter visible).drop offset).take limit).filterMap convert,
                    nextPageToken } := by
  have fetched : listMemoCollectionPage chunkSize visible offset (limit + 1) rows
      = ((rows.filter visible).drop offset).take (limit + 1) :=
    listMemoCollectionPage_eq positive visible offset (limit + 1) rows
  simp only [listMemos, hpage, bind, Except.bind, Nat.min_eq_left hmax, fetched, List.length_take]
  by_cases last : ((rows.filter visible).drop offset).length ≤ limit
  · rw [if_pos last, if_neg (by omega), List.take_of_length_le (by omega)]
    rfl
  · rw [if_neg last, if_pos (by omega), List.take_take, Nat.min_eq_left (Nat.le_succ limit)]
    rfl

/-- Following tokens from any page shows the visible rows from there on.  The recursion
is on how many of them are left. -/
theorem followTokens_from (lawful : codec.Lawful) (positive : 0 < chunkSize)
    (bounded : rows.length < 2 ^ 31) {limit : Nat} (hpos : 0 < limit) (hmax : limit ≤ MaxPageSize)
    (offset : Nat) (request : ListMemosRequest)
    (hpage : requestedPage codec request = .ok (limit, offset)) :
    ∃ pages : List (ListMemosResponse Message),
      (∀ fuel, (rows.filter visible).length - offset < fuel →
        followTokens (listMemos codec chunkSize visible convert rows) fuel request
          = some (.ok pages)) ∧
      pages.flatMap ListMemosResponse.memos
        = ((rows.filter visible).drop offset).filterMap convert := by
  induction left : (rows.filter visible).length - offset using Nat.strongRecOn
    generalizing offset request with
  | ind left' ih =>
      have page : listMemos codec chunkSize visible convert rows request = _ :=
        listMemos_page positive request hpage hmax
      rw [List.length_drop] at page
      by_cases last : (rows.filter visible).length - offset ≤ limit
      · rw [if_pos last] at page
        refine ⟨[{ memos := ((rows.filter visible).drop offset).filterMap convert,
                   nextPageToken := "" }], ?_, by simp⟩
        intro fuel enough
        obtain ⟨fuel, rfl⟩ : ∃ n, fuel = n + 1 := ⟨fuel - 1, by omega⟩
        rw [followTokens, page]
        rfl
      · rw [if_neg last] at page
        have shorter : (rows.filter visible).length ≤ rows.length := List.length_filter_le _ _
        obtain ⟨text, written, nonempty, next⟩ :=
          getPageToken_next lawful hpos hmax (show offset + limit < 2 ^ 31 by omega)
        rw [written] at page
        obtain ⟨pages, run, shown⟩ :=
          ih _ (by omega) (offset + limit) { request with pageToken := text } (next request) rfl
        refine ⟨{ memos := (((rows.filter visible).drop offset).take limit).filterMap convert,
                  nextPageToken := text } :: pages, ?_, ?_⟩
        · intro fuel enough
          obtain ⟨fuel, rfl⟩ : ∃ n, fuel = n + 1 := ⟨fuel - 1, by omega⟩
          rw [followTokens, page]
          simp only [if_neg nonempty]
          rw [run fuel (by omega)]
        · rw [List.flatMap_cons, shown, ← List.filterMap_append, ← List.drop_drop,
            List.take_append_drop]

end Tokens

/-! ### The result -/

/-- **Pages are windows of the visible rows, and following tokens shows them all.**

For every listing, the collection page is `take visibleLimit (drop visibleOffset (filter
visible rows))`.  A client whose first request has no token gets, by following tokens,
finitely many pages, at most one more than there are visible rows, and the memos on them
are in order the visible rows from the first page's offset on: all of them if the request
asks for no offset. -/
theorem paging_complete {Row Message : Type} (chunkSize : Nat) (positive : 0 < chunkSize)
    (visible : Row → Bool) (convert : Row → Option Message) (codec : PageTokenCodec)
    (lawful : codec.Lawful) :
    (∀ (visibleOffset visibleLimit : Nat) (rows : List Row),
      listMemoCollectionPage chunkSize visible visibleOffset visibleLimit rows
        = ((rows.filter visible).drop visibleOffset).take visibleLimit) ∧
    ∀ (listing : Listing Row) (request : ListMemosRequest), request.pageToken = "" →
      ∃ pages : List (ListMemosResponse Message),
        (∀ fuel, (listing.rows.filter visible).length < fuel →
          followTokens (listMemos codec chunkSize visible convert listing.rows) fuel request
            = some (.ok pages)) ∧
        pages.flatMap ListMemosResponse.memos
          = ((listing.rows.filter visible).drop (max request.pageOffset.toInt 0).toNat).filterMap
              convert := by
  refine ⟨listMemoCollectionPage_eq positive visible, fun listing request first => ?_⟩
  obtain ⟨hpos, hmax⟩ := normalizePageSize_bounds request.pageSize
  have hpage : requestedPage codec request = .ok
      (normalizePageSize request.pageSize, (max request.pageOffset.toInt 0).toNat) := by
    rw [requestedPage, if_neg (by simpa using first)]
  obtain ⟨pages, run, shown⟩ : ∃ pages, (∀ fuel, _ < fuel →
      followTokens (listMemos codec chunkSize visible convert listing.rows) fuel request
        = some (.ok pages)) ∧ _ :=
    followTokens_from lawful positive listing.length_lt hpos hmax _ request hpage
  exact ⟨pages, fun fuel enough => run fuel (by omega), shown⟩

/-! ### The wire format is lawful -/

theorem ofInt_signExtended (v : Int32) : Int32.ofInt ((v.toInt % 2 ^ 64).toNat : Int) = v := by
  apply Int32.toInt_inj.mp
  have upper := v.toInt_lt
  have lower := v.le_toInt
  rw [Int32.toInt_ofInt, Int.toNat_of_nonneg (by omega)]
  simp only [Int.bmod, Int32.size]
  omega

theorem readFields_limit (token : PageToken) (fuel n : Nat) (after : List UInt8) :
    readFields token (fuel + 1) (8 :: Wire.varint n ++ after)
      = readFields { token with limit := Int32.ofInt n } fuel after := by
  rw [List.cons_append, readFields, Wire.readVarint_varint]
  rfl

theorem readFields_offset (token : PageToken) (fuel n : Nat) (after : List UInt8) :
    readFields token (fuel + 1) (16 :: Wire.varint n ++ after)
      = readFields { token with offset := Int32.ofInt n } fuel after := by
  rw [List.cons_append, readFields, Wire.readVarint_varint]
  rfl

theorem wireCodec_lawful : wireCodec.Lawful := by
  intro token limited
  have written : int32Field 8 token.limit
      = 8 :: Wire.varint (token.limit.toInt % 2 ^ 64).toNat := if_neg limited
  refine ⟨_, rfl, ?_, ?_⟩
  · intro empty
    have none : Wire.encode (int32Field 8 token.limit ++ int32Field 16 token.offset) = [] := by
      simpa using congrArg String.toList empty
    rw [Wire.encode_eq_nil, written] at none
    simp at none
  · show unmarshalWire _ = _
    rw [unmarshalWire, String.toList_ofList, Wire.decode_encode, written]
    obtain ⟨b, more, hlimit⟩ : ∃ b more, Wire.varint (token.limit.toInt % 2 ^ 64).toNat = b :: more :=
      List.exists_cons_of_ne_nil (Wire.varint_ne_nil _)
    have enough : (8 :: Wire.varint (token.limit.toInt % 2 ^ 64).toNat
          ++ int32Field 16 token.offset).length
        = (more.length + (int32Field 16 token.offset).length + 1) + 1 := by
      rw [hlimit]
      simp only [List.cons_append, List.length_cons, List.length_append]
    dsimp only
    rw [enough]
    simp only [readFields_limit, ofInt_signExtended]
    by_cases zero : token.offset = 0
    · have absent : int32Field 16 token.offset = [] := if_pos zero
      rw [absent, readFields, ← zero]
    · have present : int32Field 16 token.offset
          = 16 :: Wire.varint (token.offset.toInt % 2 ^ 64).toNat ++ [] := by
        rw [List.append_nil]; exact if_neg zero
      rw [present]
      simp only [readFields_offset, ofInt_signExtended, readFields]

/-- Five memos of which the third is hidden, two a page, read in the service's chunks. -/
theorem paging_complete_two_a_page :
    listMemoCollectionPage serviceChunkSize (fun id : Nat => id != 3) 1 3 [1, 2, 3, 4, 5]
      = (([1, 2, 3, 4, 5].filter fun id : Nat => id != 3).drop 1).take 3 ∧
    ∃ pages : List (ListMemosResponse Nat),
      followTokens (listMemos wireCodec serviceChunkSize (fun id : Nat => id != 3) some
          [1, 2, 3, 4, 5]) 5 { pageSize := 2, pageOffset := 0, pageToken := "" }
        = some (.ok pages) ∧
      pages.flatMap ListMemosResponse.memos = [1, 2, 4, 5] := by
  have result := paging_complete serviceChunkSize (by decide) (fun id : Nat => id != 3)
    (some : Nat → Option Nat) wireCodec wireCodec_lawful
  refine ⟨result.1 1 3 [1, 2, 3, 4, 5], ?_⟩
  let ids : Nat → MemoId := fun n =>
    if h : 0 < n ∧ n < 2 ^ 31 then ⟨n, h.1, h.2⟩ else ⟨1, by decide, by decide⟩
  obtain ⟨pages, run, shown⟩ := result.2 { rows := [1, 2, 3, 4, 5], id := ids, distinct := by decide }
    { pageSize := 2, pageOffset := 0, pageToken := "" } rfl
  exact ⟨pages, run 5 (by decide), shown⟩

end Memos.Api
