/-
When the votes in a poll are votes for it.

A vote is checked against the poll that was read, and written some time later; and the votes
are cleared some time after the poll is changed.  So three things must not come in between.
A vote must find the poll as it was read, no ballot of its voter, and no request that is
about to clear the votes; and a poll must not be changed under ballots that it does not
admit, nor the votes be cleared when nothing has changed.
-/
import Memos.Api.PollVote
import Memos.Proofs.Api.PayloadWriters

namespace Memos.Api.Polls

open Store Access Fileserver Runs

/-! ### Ballots -/

def ballot (db : Tables) (memoID : Int) (voter : Voter) : List String :=
  (db.pollVotes.select (ofVoter memoID voter)).map PollVoteRow.optionID

def voterOf (row : PollVoteRow) : Voter := ⟨row.userID, row.deviceID⟩

def pollOf (db : Tables) (memoID : Int) : Option Poll :=
  (payloadOf db.toState memoID).bind MemoPayload.poll

/-- The checks of `VoteMemo` admit every ballot that is stored for the memo. -/
def admitsBallots (db : Tables) (memoID : Int) (poll : Option Poll) : Bool :=
  db.pollVotes.rows.all fun row => decide (row.memoID ≠ memoID) ||
    poll.any fun poll => (checkOptions poll (ballot db memoID (voterOf row))).isOk

/-! ### Which steps are meant -/

def clears (memoID : Int) : Handler → Bool
  | .clearing id => decide (id = memoID)
  | _ => false

/-- A vote finds the poll it was checked against, no earlier ballot, and no request that has yet
to clear the votes.  The memo is written with a poll that admits the ballots there are, and if
the request will clear them, with other rules than those stored. -/
def undisturbed (s : Server) : Event → Bool
  | .next i _ =>
      match s.handlers[i]? with
      | some (.unvoted vote) =>
          !pollVotingRulesChanged (some vote.poll) (pollOf s.db vote.memoID)
            && (ballot s.db vote.memoID vote.voter).isEmpty && !s.handlers.any (clears vote.memoID)
      | some (.updating _ _ memo _ _ pending) =>
          pending.update.payload.all fun payload => admitsBallots s.db memo.id payload.poll
            && (!pending.pollUpdated || pollVotingRulesChanged (pollOf s.db memo.id) payload.poll)
      | _ => true
  | _ => true

def Undisturbed (s : Server) (e : Event) : Prop := undisturbed s e = true

instance (s : Server) (e : Event) : Decidable (Undisturbed s e) :=
  inferInstanceAs (Decidable (undisturbed s e = true))

/-- The step leaves the voting rules of the memo's poll as they are. -/
def keepsRules (service : APIV1Service) (memoID : Int) (s : Server) (e : Event) : Bool :=
  (step service s e).all fun s' =>
    !pollVotingRulesChanged (pollOf s.db memoID) (pollOf s'.db memoID)

/-! ### Checks -/

section Checks

variable {poll poll' : Poll} {optionIDs : List String}

theorem checkOptionIDs_ok {validOptions seen : List String}
    (h : checkOptionIDs validOptions seen optionIDs = .ok ()) :
    (∀ id ∈ optionIDs, id ∈ validOptions ∧ id ∉ seen) ∧ optionIDs.Nodup := by
  induction optionIDs generalizing seen with
  | nil => exact ⟨List.forall_mem_nil _, List.nodup_nil⟩
  | cons optionID rest ih =>
      unfold checkOptionIDs at h
      split at h
      · cases h
      · rename_i valid
        split at h
        · cases h
        · rename_i fresh
          obtain ⟨valid', distinct⟩ := ih h
          have valid : optionID ∈ validOptions := by
            rw [Bool.not_eq_true', Bool.not_eq_false, List.contains_iff_mem] at valid
            exact valid
          have fresh : optionID ∉ seen := fun there => fresh (List.contains_iff_mem.mpr there)
          refine ⟨List.forall_mem_cons.mpr ⟨⟨valid, fresh⟩, fun id there => ?_⟩, ?_⟩
          · exact ⟨(valid' id there).1, fun old => (valid' id there).2 (List.mem_cons_of_mem _ old)⟩
          · refine List.nodup_cons.mpr ⟨fun there => ?_, distinct⟩
            exact (valid' optionID there).2 (.head _)

theorem checkOptions_ok (h : checkOptions poll optionIDs = .ok ()) :
    optionIDs ≠ [] ∧ (∀ id ∈ optionIDs, id ∈ poll.options.map PollOption.id) ∧ optionIDs.Nodup ∧
      (optionIDs.length : Int) ≤ maxSelections poll := by
  obtain ⟨_, given, h⟩ := bind_accepted.mp h
  obtain ⟨_, ids, h⟩ := bind_accepted.mp h
  obtain ⟨_, -, h⟩ := bind_accepted.mp h
  rw [refuseIf_accepted, decide_eq_false_iff_not, Int.not_lt] at h
  rw [refuseIf_accepted] at given
  obtain ⟨valid, distinct⟩ := checkOptionIDs_ok ids
  refine ⟨fun none => ?_, fun id there => (valid id there).1, distinct, h⟩
  rw [none] at given
  cases given

theorem checkOptions_votingRules :
    checkOptions (Poll.votingRules poll) optionIDs = checkOptions poll optionIDs := rfl

theorem checkOptions_of_sameRules
    (same : pollVotingRulesChanged (some poll) (some poll') = false) :
    checkOptions poll optionIDs = checkOptions poll' optionIDs := by
  unfold pollVotingRulesChanged at same
  rw [decide_eq_false_iff_not, not_not, Option.map_some, Option.map_some] at same
  rw [← checkOptions_votingRules, Option.some.inj same, checkOptions_votingRules]

end Checks

/-! ### Writes -/

section Writes

variable {service : APIV1Service} {db db' : Tables} {now memoID : Int} {vote : Vote} {voter : Voter}

theorem ofVoter_iff {row : PollVoteRow} :
    ofVoter memoID voter row = true ↔ row.memoID = memoID ∧ voterOf row = voter := by
  unfold ofVoter voterOf
  obtain ⟨userID, deviceID⟩ := voter
  simp only [Bool.and_eq_true, decide_eq_true_eq, Voter.mk.injEq, and_assoc]

theorem ofVoter_self (row : PollVoteRow) : ofVoter row.memoID (voterOf row) row = true :=
  ofVoter_iff.mpr ⟨rfl, rfl⟩

theorem mem_ballot {row : PollVoteRow} (stored : row ∈ db.pollVotes) :
    row.optionID ∈ ballot db row.memoID (voterOf row) :=
  List.mem_map.mpr ⟨row, Keyed.Table.mem_select.mpr ⟨stored, ofVoter_self row⟩, rfl⟩

theorem ballot_congr (same : db'.pollVotes = db.pollVotes) : ballot db' memoID voter = ballot db memoID voter := by
  unfold ballot
  rw [same]

theorem insertPollVotes_rows {optionIDs : List String} {votes votes' : Keyed.Table PollVoteRow.schema}
    (h : optionIDs.foldlM (insertPollVote now vote) votes = .ok votes') :
    ∃ rows, votes'.rows = votes.rows ++ rows ∧ rows.map PollVoteRow.optionID = optionIDs ∧
      ∀ row ∈ rows, ofVoter vote.memoID vote.voter row = true := by
  induction optionIDs generalizing votes with
  | nil =>
      rw [List.foldlM_nil, pure_eq_ok] at h
      exact ⟨[], by rw [h, List.append_nil], rfl, List.forall_mem_nil _⟩
  | cons optionID rest ih =>
      rw [List.foldlM_cons] at h
      obtain ⟨next, inserted, h⟩ := bind_eq_ok.mp h
      obtain ⟨rows, rows_eq, options, voters⟩ := ih h
      have next_rows := Keyed.Table.rows_of_ofRows (of_constrained inserted)
      rw [next_rows, List.append_assoc] at rows_eq
      refine ⟨_, rows_eq, congrArg (optionID :: ·) options, ?_⟩
      refine List.forall_mem_cons.mpr ⟨ofVoter_iff.mpr ⟨rfl, rfl⟩, voters⟩

/-- **The ballot** of a voter is replaced as a whole, and no other is touched. -/
theorem ReplacePollVotes_spec (h : ReplacePollVotes db now vote = .ok db') :
    db'.toState = db.toState ∧ vote.optionIDs ≠ [] ∧
      ballot db' vote.memoID vote.voter = vote.optionIDs ∧
      (∀ memoID voter, ¬ (memoID = vote.memoID ∧ voter = vote.voter) →
        ballot db' memoID voter = ballot db memoID voter) ∧
      ∀ row ∈ db'.pollVotes, row ∈ db.pollVotes ∨ (row.memoID = vote.memoID ∧ voterOf row = vote.voter) := by
  obtain ⟨_, -, h⟩ := bind_eq_ok.mp h
  obtain ⟨_, -, h⟩ := bind_eq_ok.mp h
  obtain ⟨_, chosen, h⟩ := bind_eq_ok.mp h
  obtain ⟨votes, inserted, h⟩ := bind_eq_ok.mp h
  rw [pure_eq_ok] at h
  rw [← h]
  obtain ⟨rows, rows_eq, options, voters⟩ := insertPollVotes_rows inserted
  have kept : (db.pollVotes.delete (ofVoter vote.memoID vote.voter)).rows
      = db.pollVotes.rows.filter fun row => !ofVoter vote.memoID vote.voter row := rfl
  rw [kept] at rows_eq
  refine ⟨rfl, ?_, ?_, ?_, ?_⟩
  · intro none
    rw [none] at chosen
    cases chosen
  · show (votes.rows.filter _).map _ = _
    rw [rows_eq, List.filter_append, List.filter_filter, List.filter_eq_self.mpr voters]
    have none : (db.pollVotes.rows.filter fun row => ofVoter vote.memoID vote.voter row
        && !ofVoter vote.memoID vote.voter row) = [] := by
      refine List.filter_eq_nil_iff.mpr fun row _ => ?_
      rw [Bool.and_not_self]
      exact Bool.false_ne_true
    rw [none, List.nil_append, options]
  · intro memoID voter other
    show (votes.rows.filter _).map _ = (db.pollVotes.rows.filter _).map _
    rw [rows_eq, List.filter_append, List.filter_filter]
    have apart : ∀ row, ofVoter memoID voter row = true → ofVoter vote.memoID vote.voter row = false := by
      intro row its
      rw [Bool.eq_false_iff]
      intro also
      obtain ⟨memo, who⟩ := ofVoter_iff.mp its
      obtain ⟨memo', who'⟩ := ofVoter_iff.mp also
      exact other ⟨memo.symm.trans memo', who.symm.trans who'⟩
    have none : rows.filter (ofVoter memoID voter) = [] := by
      refine List.filter_eq_nil_iff.mpr fun row there its => ?_
      exact Bool.false_ne_true ((apart row its).symm.trans (voters row there))
    rw [none, List.append_nil]
    refine congrArg _ (List.filter_congr fun row _ => ?_)
    cases its : ofVoter memoID voter row with
    | false => rfl
    | true =>
        rw [apart row its]
        rfl
  · intro row there
    have there : row ∈ votes.rows := there
    rw [rows_eq] at there
    rcases List.mem_append.mp there with old | new
    · exact .inl (List.mem_filter.mp old).1
    · exact .inr (ofVoter_iff.mp (voters row new))

theorem ballot_clearPollVotes {id : Int} (apart : memoID ≠ id) :
    ballot (clearPollVotes db id) memoID voter = ballot db memoID voter := by
  show ((db.pollVotes.rows.filter _).filter _).map _ = (db.pollVotes.rows.filter _).map _
  rw [List.filter_filter]
  refine congrArg _ (List.filter_congr fun row _ => ?_)
  cases its : ofVoter memoID voter row with
  | false => rfl
  | true =>
      show (true && !decide (row.memoID = id)) = true
      rw [(ofVoter_iff.mp its).1, decide_eq_false apart]
      rfl

theorem writeUpdate_spec {authUserID : Int} {user : UserRow} {memo : MemoRow} {input : ProtoMemo}
    {paths : List UpdatePath} {pending : PendingUpdate} (target : pending.update.id = memo.id)
    (h : writeUpdate service db now authUserID user memo input paths pending = .ok db') :
    db'.pollVotes = db.pollVotes ∧ ∀ id, payloadOf db'.toState id =
      (payloadOf db.toState id).map fun stored =>
        if id = memo.id then pending.update.payload.getD stored else stored := by
  obtain ⟨policy, update⟩ := applyMemoUpdate_of_commitUpdate h
  refine ⟨?_, fun id => ?_⟩
  · obtain ⟨preparedAttachments, -, h⟩ := bind_accepted.mp h
    obtain ⟨preparedRelations, -, h⟩ := bind_accepted.mp h
    obtain ⟨requiredAttachmentIDs, -, h⟩ := bind_accepted.mp h
    obtain ⟨_, -, h⟩ := bind_accepted.mp h
    obtain ⟨tables, write, h⟩ := bind_accepted.mp h
    rw [pure_accepted] at h
    have same : tables = db' := h
    rw [← same]
    split at write
    · obtain ⟨_, -, write⟩ := bind_accepted.mp write
      obtain ⟨_, -, write⟩ := bind_accepted.mp write
      exact (mutationUpdates rfl rfl (written_accepted.mp write)).pollVotes
    · obtain ⟨state, -, rfl⟩ := map_accepted.mp write
      rfl
  · rw [applyMemoUpdate_payload update id]
    show _ = (payloadOf db.toState id).map fun stored =>
      if id = memo.id then pending.update.payload.getD stored else stored
    rw [← target]

end Writes

/-! ### Steps -/

section Steps

variable {service : APIV1Service} {s s' t u : Server} {e : Event} {memoID : Int} {voter : Voter}

/-- Every vote is on a ballot that the poll of its memo admits. -/
def Sound (db : Tables) : Prop :=
  ∀ row ∈ db.pollVotes, ∃ poll, pollOf db row.memoID = some poll ∧
    checkOptions poll (ballot db row.memoID (voterOf row)) = .ok ()

def Prepared : Handler → Prop
  | .checked vote | .unvoted vote => checkOptions vote.poll vote.optionIDs = .ok ()
  | .updating _ _ memo _ _ pending => pending.update.id = memo.id ∧
      (pending.pollUpdated = true → pending.update.payload.isSome = true)
  | _ => True

structure Good (s : Server) : Prop where
  sound : Sound s.db
  prepared : ∀ handler ∈ s.handlers, Prepared handler

theorem Good.start (good : Good s) {handler : Handler} (prepared : Prepared handler) :
    Good (s.start handler) where
  sound := good.sound
  prepared := List.forall_mem_append.mpr ⟨good.prepared, List.forall_mem_singleton.mpr prepared⟩

theorem Good.next (good : Good s) (i : Nat) {handler : Handler} {db : Tables} (sound : Sound db)
    (prepared : Prepared handler) : Good { s.set i handler with db } where
  sound := sound
  prepared := Debts.forall_set good.prepared prepared

theorem poll_of_sameRules {poll : Poll} {stored : Option Poll}
    (same : pollVotingRulesChanged (some poll) stored = false) :
    ∃ poll', stored = some poll' ∧ ∀ optionIDs, checkOptions poll' optionIDs = checkOptions poll optionIDs := by
  cases stored with
  | none =>
      unfold pollVotingRulesChanged at same
      simp at same
  | some poll' => exact ⟨poll', rfl, fun optionIDs => (checkOptions_of_sameRules same).symm⟩

section Writes

variable {db db' : Tables} {now : Int} {vote : Vote}

theorem sound_of_replace (sound : Sound db) (admitted : checkOptions vote.poll vote.optionIDs = .ok ())
    (same : pollVotingRulesChanged (some vote.poll) (pollOf db vote.memoID) = false)
    (h : ReplacePollVotes db now vote = .ok db') : Sound db' := by
  obtain ⟨state, -, own, others, rows⟩ := ReplacePollVotes_spec h
  have polls : ∀ id, pollOf db' id = pollOf db id := by
    intro id
    unfold pollOf
    rw [state]
  intro row there
  rw [polls]
  by_cases its : row.memoID = vote.memoID ∧ voterOf row = vote.voter
  · obtain ⟨poll, stored, checks⟩ := poll_of_sameRules same
    rw [its.1, its.2, own]
    exact ⟨poll, stored, (checks _).trans admitted⟩
  · rw [others _ _ its]
    exact sound row ((rows row there).resolve_right its)

/-- **An update** with a poll that admits the ballots there are. -/
theorem sound_of_update (sound : Sound db) {memo : MemoRow} {payload : Option MemoPayload}
    (votes : db'.pollVotes = db.pollVotes)
    (payloads : ∀ id, payloadOf db'.toState id = (payloadOf db.toState id).map fun stored =>
      if id = memo.id then payload.getD stored else stored)
    (admits : ∀ next, payload = some next → admitsBallots db memo.id next.poll = true) : Sound db' := by
  intro row there
  rw [votes] at there
  rw [ballot_congr votes]
  obtain ⟨poll, stored, checked⟩ := sound row there
  unfold pollOf at stored ⊢
  rw [payloads]
  obtain ⟨old, here, stored⟩ := Option.bind_eq_some_iff.mp stored
  rw [here, Option.map_some, Option.bind_some]
  by_cases target : row.memoID = memo.id
  · rw [if_pos target]
    cases written : payload with
    | none => exact ⟨poll, stored, checked⟩
    | some next =>
        have admits := List.all_eq_true.mp (admits next written) row there
        rw [Bool.or_eq_true, decide_eq_true_eq] at admits
        have admits := admits.resolve_left (not_not_intro target)
        show ∃ poll', next.poll = some poll' ∧ _
        cases is : next.poll with
        | none =>
            rw [is] at admits
            cases admits
        | some poll' =>
            rw [is, Option.any_some] at admits
            refine ⟨poll', rfl, ?_⟩
            rw [target]
            cases result : checkOptions poll' (ballot db memo.id (voterOf row)) with
            | ok _ => rfl
            | error e =>
                rw [result] at admits
                cases admits
  · rw [if_neg target]
    exact ⟨poll, stored, checked⟩

/-- **The votes are cleared.** -/
theorem sound_of_clear (sound : Sound db) (id : Int) : Sound (clearPollVotes db id) := by
  intro row there
  obtain ⟨there, other⟩ := Keyed.Table.mem_delete.mp there
  rw [ballot_clearPollVotes (of_decide_eq_false other)]
  exact sound row there

end Writes

theorem checkVote_prepared {now authUserID : Int} {request : VoteMemoRequest} {memo : MemoRow}
    {vote : Vote} {db : Tables}
    (h : checkVote service db now authUserID request memo = .ok vote) : Prepared (.checked vote) := by
  obtain ⟨_, -, h⟩ := bind_accepted.mp h
  obtain ⟨poll, -, h⟩ := bind_accepted.mp h
  obtain ⟨viewer, -, h⟩ := bind_accepted.mp h
  obtain ⟨_, -, h⟩ := bind_accepted.mp h
  obtain ⟨voter, -, h⟩ := bind_accepted.mp h
  obtain ⟨_, -, h⟩ := bind_accepted.mp h
  obtain ⟨_, -, h⟩ := bind_accepted.mp h
  obtain ⟨_, admitted, h⟩ := bind_accepted.mp h
  rw [pure_accepted] at h
  rw [← h]
  exact admitted

/-- **A step** of a request keeps the votes sound. -/
theorem Good.goOn (good : Good s) {i : Nat} {now : Int} {handler : Handler}
    (fresh : Undisturbed s (.next i now)) (here : s.handlers[i]? = some handler) :
    Sound (Polls.goOn service s.db now handler).1 ∧
      Prepared (Polls.goOn service s.db now handler).2 := by
  have prepared := good.prepared handler (List.mem_of_getElem? here)
  unfold Undisturbed undisturbed at fresh
  dsimp only at fresh
  rw [here] at fresh
  unfold Polls.goOn
  cases handler with
  | voting authUserID request memo =>
      dsimp only
      split
      · rename_i vote checked
        exact ⟨good.sound, checkVote_prepared checked⟩
      · exact ⟨good.sound, trivial⟩
  | checked vote =>
      dsimp only
      split
      · exact ⟨good.sound, prepared⟩
      · exact ⟨good.sound, trivial⟩
  | unvoted vote =>
      dsimp only at fresh ⊢
      rw [Bool.and_eq_true, Bool.and_eq_true, Bool.not_eq_true'] at fresh
      split
      · rename_i db written
        exact ⟨sound_of_replace good.sound prepared fresh.1.1 written, trivial⟩
      · exact ⟨good.sound, trivial⟩
  | updating authUserID user memo input paths pending =>
      dsimp only at fresh ⊢
      split
      · rename_i db written
        obtain ⟨votes, payloads⟩ := writeUpdate_spec prepared.1 written
        refine ⟨sound_of_update good.sound votes payloads fun next is => ?_, ?_⟩
        · rw [is, Option.all_some, Bool.and_eq_true] at fresh
          exact fresh.1
        · dsimp only
          split
          · trivial
          · trivial
      · exact ⟨good.sound, trivial⟩
  | clearing id => exact ⟨sound_of_clear good.sound id, trivial⟩
  | ended => exact ⟨good.sound, trivial⟩

theorem Good.step (good : Good s) (fresh : Undisturbed s e) (h : step service s e = some s') :
    Good s' := by
  cases e with
  | vote authUserID request =>
      unfold Polls.step at h
      dsimp only at h
      split at h
      · injection h with h
        rw [← h]
        exact good.start trivial
      · injection h with h
        rw [← h]
        exact good
  | update now settledAt authUserID revisionForce request =>
      unfold Polls.step at h
      dsimp only at h
      split at h
      · rename_i writer begun
        injection h with h
        rw [← h]
        obtain ⟨input, _, memo, user, update, -, -, -, placed, -, is⟩ := beginUpdate_read begun
        injection is with _ _ same _ _ pending
        have placed := placed_of_placeUpdate placed
        refine good.start ?_
        show _ ∧ _
        rw [pending, same]
        exact ⟨settled_place.1.trans placed.id, settled_pollUpdated⟩
      · injection h with h
        rw [← h]
        exact good
  | next i now =>
      unfold Polls.step at h
      dsimp only at h
      split at h
      · cases h
      · rename_i handler here
        injection h with h
        rw [← h]
        obtain ⟨sound, prepared⟩ := good.goOn fresh here
        exact good.next i sound prepared
  | fail i =>
      injection h with h
      rw [← h]
      exact good.next i good.sound trivial

theorem Good.run (good : Good s) (run : Run (Polls.step service) Undisturbed s t) : Good t :=
  run.invariant good fun _ _ _ good fresh next => good.step fresh next

structure Stands (memoID : Int) (voter : Voter) (chosen : List String) (s : Server) : Prop where
  good : Good s
  ballot : ballot s.db memoID voter = chosen
  untouched : ∀ handler ∈ s.handlers, clears memoID handler = false

variable {chosen : List String}

theorem Stands.set (stands : Stands memoID voter chosen s) (i : Nat) {handler : Handler}
    (spares : clears memoID handler = false) :
    ∀ other ∈ s.handlers.set i handler, clears memoID other = false :=
  Debts.forall_set stands.untouched spares

theorem Stands.start (stands : Stands memoID voter chosen s) {handler : Handler}
    (spares : clears memoID handler = false) :
    ∀ other ∈ s.handlers ++ [handler], clears memoID other = false :=
  List.forall_mem_append.mpr ⟨stands.untouched, List.forall_mem_singleton.mpr spares⟩

/-- The memo of a ballot is there, with a poll. -/
theorem Stands.stored (stands : Stands memoID voter chosen s) (given : chosen ≠ []) :
    ∃ payload, payloadOf s.db.toState memoID = some payload := by
  obtain ⟨optionID, there⟩ := List.exists_mem_of_ne_nil _ (stands.ballot ▸ given)
  obtain ⟨row, there, -⟩ := List.mem_map.mp there
  obtain ⟨there, its⟩ := Keyed.Table.mem_select.mp there
  obtain ⟨poll, stored, -⟩ := stands.good.sound row there
  rw [(ofVoter_iff.mp its).1] at stored
  obtain ⟨payload, here, -⟩ := Option.bind_eq_some_iff.mp stored
  exact ⟨payload, here⟩

/-- **A step** of a request that keeps the voting rules keeps the ballot. -/
theorem Stands.goOn (stands : Stands memoID voter chosen s) (given : chosen ≠ []) {i : Nat}
    {now : Int} {handler : Handler} (fresh : Undisturbed s (.next i now))
    (here : s.handlers[i]? = some handler)
    (keeps : pollVotingRulesChanged (pollOf s.db memoID)
      (pollOf (Polls.goOn service s.db now handler).1 memoID) = false) :
    Polls.ballot (Polls.goOn service s.db now handler).1 memoID voter = chosen ∧
      clears memoID (Polls.goOn service s.db now handler).2 = false := by
  have prepared := stands.good.prepared handler (List.mem_of_getElem? here)
  have ballot := stands.ballot
  have untouched := stands.untouched handler (List.mem_of_getElem? here)
  unfold Undisturbed undisturbed at fresh
  dsimp only at fresh
  rw [here] at fresh
  unfold Polls.goOn at keeps ⊢
  cases handler with
  | voting authUserID request memo | checked vote =>
      dsimp only
      split
      · exact ⟨ballot, rfl⟩
      · exact ⟨ballot, rfl⟩
  | unvoted vote =>
      dsimp only at fresh ⊢
      rw [Bool.and_eq_true, Bool.and_eq_true, List.isEmpty_iff] at fresh
      split
      · rename_i db written
        obtain ⟨-, -, -, others, -⟩ := ReplacePollVotes_spec written
        refine ⟨(others memoID voter ?_).trans ballot, rfl⟩
        rintro ⟨rfl, rfl⟩
        exact given (ballot.symm.trans fresh.1.2)
      · exact ⟨ballot, rfl⟩
  | updating authUserID user memo input paths pending =>
      dsimp only at fresh keeps ⊢
      split
      · rename_i db written
        rw [written] at keeps
        obtain ⟨votes, payloads⟩ := writeUpdate_spec prepared.1 written
        refine ⟨(ballot_congr votes).trans ballot, ?_⟩
        dsimp only
        split
        · rename_i changed
          refine decide_eq_false fun target => ?_
          obtain ⟨next, is⟩ := Option.isSome_iff_exists.mp (prepared.2 changed)
          obtain ⟨old, stored⟩ := stands.stored given
          rw [is, Option.all_some, changed, Bool.and_eq_true] at fresh
          have differs : pollVotingRulesChanged (pollOf s.db memo.id) next.poll = true := fresh.2
          have after : pollOf db memoID = next.poll := by
            unfold pollOf
            rw [payloads, stored, Option.map_some, if_pos target.symm, is]
            rfl
          have keeps : pollVotingRulesChanged (pollOf s.db memoID) (pollOf db memoID) = false := keeps
          rw [after, ← target, differs] at keeps
          cases keeps
        · rfl
      · exact ⟨ballot, rfl⟩
  | clearing id =>
      have apart : memoID ≠ id := fun same => (of_decide_eq_false untouched) same.symm
      exact ⟨(ballot_clearPollVotes apart).trans ballot, rfl⟩
  | ended => exact ⟨ballot, rfl⟩

theorem Stands.step (stands : Stands memoID voter chosen s) (given : chosen ≠ [])
    (fresh : Undisturbed s e) (keeps : keepsRules service memoID s e = true)
    (h : step service s e = some s') : Stands memoID voter chosen s' := by
  have kept : Polls.ballot s'.db memoID voter = chosen ∧
      ∀ handler ∈ s'.handlers, clears memoID handler = false := by
    unfold keepsRules at keeps
    rw [h, Option.all_some, Bool.not_eq_true'] at keeps
    cases e with
    | vote authUserID request | update now authUserID revisionForce request =>
        unfold Polls.step at h
        dsimp only at h
        split at h
        · injection h with h
          rw [← h]
          exact ⟨stands.ballot, stands.start rfl⟩
        · injection h with h
          rw [← h]
          exact ⟨stands.ballot, stands.untouched⟩
    | next i now =>
        unfold Polls.step at h
        dsimp only at h
        split at h
        · cases h
        · rename_i handler here
          injection h with h
          rw [← h] at keeps ⊢
          obtain ⟨ballot, spares⟩ := stands.goOn given fresh here keeps
          exact ⟨ballot, stands.set i spares⟩
    | fail i =>
        injection h with h
        rw [← h]
        exact ⟨stands.ballot, stands.set i rfl⟩
  exact ⟨stands.good.step fresh h, kept.1, kept.2⟩

end Steps

/-! ### The result -/

/-- **Votes are votes for the poll.**

Start with no request on its way, and with votes that the polls of their memos admit.  Take any
run of requests to vote and to update memos, with any masks, which go on and fail in any order,
and in which no step is disturbed.  In every state of the run each vote is for an option of the
memo's poll, and each voter has chosen different options, at least one and no more than the poll
allows.  And what a vote has written stays as it is while the voting rules stay. -/
theorem votes_for_poll (service : APIV1Service) {s t : Server} (fresh : s.handlers = [])
    (sound : Sound s.db) (run : Run (step service) Undisturbed s t) :
    (∀ row ∈ t.db.pollVotes, ∃ memo poll, t.db.memos.find? row.memoID = some memo ∧
      memo.payload.poll = some poll ∧ row.optionID ∈ poll.options.map PollOption.id ∧
      1 ≤ (ballot t.db row.memoID (voterOf row)).length ∧
      ((ballot t.db row.memoID (voterOf row)).length : Int) ≤ maxSelections poll ∧
      (ballot t.db row.memoID (voterOf row)).Nodup) ∧
    ∀ i now vote db t' u, t.handlers[i]? = some (.unvoted vote) → Undisturbed t (.next i now) →
      ReplacePollVotes t.db now vote = .ok db → step service t (.next i now) = some t' →
      Run (step service) (fun s e => Undisturbed s e ∧ keepsRules service vote.memoID s e = true) t' u →
      ballot u.db vote.memoID vote.voter = vote.optionIDs := by
  have start : Good s := by
    refine ⟨sound, ?_⟩
    rw [fresh]
    exact List.forall_mem_nil _
  have good := start.run run
  constructor
  · intro row there
    obtain ⟨poll, stored, admitted⟩ := good.sound row there
    obtain ⟨payload, here, is⟩ := Option.bind_eq_some_iff.mp stored
    obtain ⟨memo, found, rfl⟩ := Option.map_eq_some_iff.mp here
    obtain ⟨given, valid, distinct, few⟩ := checkOptions_ok admitted
    exact ⟨memo, poll, found, is, valid _ (mem_ballot there), List.length_pos_iff.mpr given, few,
      distinct⟩
  · intro i now vote db t' u here undisturbed written next rest
    obtain ⟨-, given, own, -, -⟩ := ReplacePollVotes_spec written
    have good' := good.step undisturbed next
    unfold Polls.step at next
    dsimp only at next
    rw [here] at next
    unfold goOn at next
    dsimp only at next
    rw [written] at next
    injection next with next
    have stands : Stands vote.memoID vote.voter vote.optionIDs t' := by
      refine ⟨good', ?_, ?_⟩
      · rw [← next]
        exact own
      · unfold Undisturbed Polls.undisturbed at undisturbed
        dsimp only at undisturbed
        rw [here] at undisturbed
        dsimp only at undisturbed
        rw [Bool.and_eq_true, Bool.not_eq_true', List.any_eq_false] at undisturbed
        rw [← next]
        exact Debts.forall_set (fun handler there => Bool.not_eq_true _ ▸ undisturbed.2 handler there) rfl
    have stands := rest.invariant stands fun _ _ _ stands allowed next =>
      stands.step given allowed.1 allowed.2 next
    exact stands.ballot

/-! ### A poll -/

def lunchPoll : Poll where
  question := "What?"
  imageName := ""
  options := [⟨"soup", "Soup", ""⟩, ⟨"salad", "Salad", ""⟩]
  allowMultiple := false
  startTs := 0
  endTs := 0
  maxSelections := 1
  voterType := "AUTHENTICATED"
  hideResultsUntilVoted := false
  showVotersBeforeVoting := false
  showVotersAfterVoting := false
  showVoterChoices := false

def lunchTables : Tables :=
  { secretTables with
    users := ⟨[.withDefaults 6 "mia", .withDefaults 5 "lea"], by decide, by decide⟩
    memos := ⟨[{ MemoRow.withDefaults 7 "lunch" 5 .Public none with
      payload := { title := "", poll := some lunchPoll } }], by decide, by decide⟩ }

def lunch : Server := { db := lunchTables, handlers := [] }

def chooses (optionID : String) : Event := .vote 6 ⟨"memos/lunch", "", [optionID]⟩

def offerStew : Event :=
  .update 60 60 5 false ⟨some
    { name := "memos/lunch"
      poll := some
        { question := "What?", image := none
          options := [⟨"stew", "Stew", none⟩, ⟨"salad", "Salad", none⟩]
          allowMultiple := false, maxSelections := 1, startTime := none, endTime := none
          voterType := .Authenticated, hideResultsUntilVoted := false
          showVotersBeforeVoting := false, showVotersAfterVoting := false
          showVoterChoices := false } }, [.poll]⟩

theorem lunch_sound : Sound lunch.db := fun _ there => absurd there List.not_mem_nil

theorem votes_for_poll_stew : ∃ t t' u,
    follow (step plainService) Undisturbed lunch
      [offerStew, .next 0 60, .next 0 60, chooses "stew", .next 1 60, .next 1 60] = some t ∧
    step plainService t (.next 1 60) = some t' ∧
    follow (step plainService)
      (fun s e => Undisturbed s e ∧ keepsRules plainService 7 s e = true) t'
      [.vote 5 ⟨"memos/lunch", "", ["salad"]⟩, .next 2 60, .next 2 60, .next 2 60] = some u ∧
    ballot u.db 7 ⟨6, ""⟩ = ["stew"] := by
  obtain ⟨t, t', u, vote, db, before, here, fresh, written, next, after, memoID, voter, options⟩ :
      ∃ t t' u vote db,
      follow (step plainService) Undisturbed lunch
        [offerStew, .next 0 60, .next 0 60, chooses "stew", .next 1 60, .next 1 60] = some t ∧
      t.handlers[1]? = some (.unvoted vote) ∧ Undisturbed t (.next 1 60) ∧
      ReplacePollVotes t.db 60 vote = .ok db ∧ step plainService t (.next 1 60) = some t' ∧
      follow (step plainService)
        (fun s e => Undisturbed s e ∧ keepsRules plainService 7 s e = true) t'
        [.vote 5 ⟨"memos/lunch", "", ["salad"]⟩, .next 2 60, .next 2 60, .next 2 60] = some u ∧
      vote.memoID = 7 ∧ vote.voter = ⟨6, ""⟩ ∧ vote.optionIDs = ["stew"] :=
    ⟨_, _, _, _, _, rfl, rfl, rfl, rfl, rfl, rfl, rfl, rfl, rfl⟩
  have kept := (votes_for_poll plainService rfl lunch_sound (run_of_follow before)).2 1 60 vote db t' u
    here fresh written next
  rw [memoID, voter, options] at kept
  exact ⟨t, t', u, before, next, after, kept (run_of_follow after)⟩

/-- Mia's vote for soup is written after the poll has been changed and the votes cleared.  And two
of her votes both find none, so that the second takes the place of the first. -/
theorem vote_after_change :
    (∃ t row poll, follow (step plainService) (fun _ _ => True) lunch
        [chooses "soup", .next 0 60, .next 0 60, offerStew, .next 1 60, .next 1 60, .next 0 60]
          = some t ∧
      row ∈ t.db.pollVotes ∧ pollOf t.db row.memoID = some poll ∧
      row.optionID ∉ poll.options.map PollOption.id) ∧
    ∃ t u, follow (step plainService) (fun _ _ => True) lunch
        [chooses "soup", chooses "salad", .next 0 60, .next 0 60, .next 1 60, .next 1 60, .next 0 60]
          = some t ∧
      follow (step plainService) (fun s e => keepsRules plainService 7 s e = true) t [.next 1 60]
        = some u ∧
      ballot t.db 7 ⟨6, ""⟩ = ["soup"] ∧ ballot u.db 7 ⟨6, ""⟩ = ["salad"] :=
  ⟨⟨_, _, _, rfl, .head _, rfl, by decide⟩, _, _, rfl, rfl, rfl, rfl⟩

end Memos.Api.Polls
