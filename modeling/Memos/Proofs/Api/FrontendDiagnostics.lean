/-
How many reports are let through.

The tokens of the writer are the level of a bucket that holds twenty and gets one back each
second.  What it lets through in a window of time is bounded by that, whether or not the
times of the calls are in order.  A report is written only for a call that took a token, so
the log keeps to the same bound.
-/
import Memos.Api.FrontendDiagnostics
import Memos.Lib.Runs
import Memos.Lib.TokenBucket
import Mathlib.Tactic.Positivity

namespace Memos.Api.Diagnostics

open TokenBucket

variable {t u now : Int} {times : List Int} {w : FrontendDiagnosticWriter}

/-! ### Times -/

theorem seconds_sub (t u : Int) : Seconds (t - u) = Seconds t - Seconds u := by
  unfold Seconds
  rw [Int.cast_sub, sub_div]

theorem seconds_mono (h : t ≤ u) : Seconds t ≤ Seconds u := by
  unfold Seconds
  have second : (0 : Rat) ≤ Second := by exact_mod_cast (by decide : (0 : Int) ≤ Second)
  gcongr

/-- A time that is not too far back. -/
def Near (u t : Int) : Prop := minDuration ≤ t - u

theorem near_of_le (h : u ≤ t) : Near u t := by
  unfold Near minDuration
  omega

theorem Sub_le (near : Near u t) : Sub t u ≤ t - u := by
  unfold Near at near
  unfold Sub
  omega

theorem Sub_of_le (h : u ≤ t) : Sub t u = min maxDuration (t - u) := by
  unfold Sub minDuration maxDuration
  omega

theorem seconds_Sub_le (near : Near u t) : Seconds (Sub t u) ≤ Seconds t - Seconds u := by
  rw [← seconds_sub]
  exact seconds_mono (Sub_le near)

theorem seconds_Sub_nonneg (h : u ≤ t) : 0 ≤ Seconds (Sub t u) := by
  have nonneg : 0 ≤ Sub t u := by
    rw [Sub_of_le h]
    unfold maxDuration
    omega
  have := seconds_mono nonneg
  unfold Seconds at this ⊢
  simpa using this

/-! ### The bucket -/

def FrontendDiagnosticWriter.bucket (w : FrontendDiagnosticWriter) : Bucket Rat :=
  ⟨w.tokens, Seconds w.refilled⟩

def Call.spending (call : Call) : Spending Rat := ⟨Seconds call.now, if call.allowed then 1 else 0⟩

/-- What the writer has when a call looks at it. -/
def FrontendDiagnosticWriter.available (w : FrontendDiagnosticWriter) (now : Int) : Rat :=
  min 20 (w.tokens + Seconds (Sub now w.refilled))

theorem allow_of_short (short : w.available now < 1) :
    w.allow now = (false, { w with tokens := w.available now, refilled := now }) := if_pos short

theorem allow_of_enough (enough : ¬ w.available now < 1) :
    w.allow now = (true, { w with tokens := w.available now - 1, refilled := now }) := if_neg enough

theorem request_bucket (w : FrontendDiagnosticWriter) (now : Int) :
    let request := w.bucket.request 20 (Seconds (Sub now w.refilled)) 1 (Seconds now)
    request.1 = (w.allow now).1 ∧ request.2 = (w.allow now).2.bucket := by
  have filled : w.bucket.refill 20 (Seconds (Sub now w.refilled)) (Seconds now) =
      ⟨w.available now, Seconds now⟩ := rfl
  by_cases short : w.available now < 1
  · rw [allow_of_short short, request_of_short, filled]
    · exact ⟨rfl, rfl⟩
    · rw [filled]
      exact not_le.mpr short
  · rw [allow_of_enough short, request_of_enough, filled]
    · exact ⟨rfl, rfl⟩
    · rw [filled]
      exact not_lt.mp short

theorem refilled_allow (w : FrontendDiagnosticWriter) (now : Int) : (w.allow now).2.refilled = now := by
  by_cases short : w.available now < 1
  · rw [allow_of_short short]
  · rw [allow_of_enough short]

/-! ### The tokens -/

theorem tokens_allow_le (w : FrontendDiagnosticWriter) (now : Int) : (w.allow now).2.tokens ≤ 20 := by
  have filled : w.available now ≤ 20 := min_le_left ..
  by_cases short : w.available now < 1
  · rw [allow_of_short short]
    exact filled
  · rw [allow_of_enough short]
    exact (sub_le_self _ zero_le_one).trans filled

theorem tokens_allow_nonneg (nonneg : 0 ≤ w.tokens) (later : w.refilled ≤ now) :
    0 ≤ (w.allow now).2.tokens := by
  have filled : 0 ≤ w.available now :=
    le_min (by norm_num) (add_nonneg nonneg (seconds_Sub_nonneg later))
  by_cases short : w.available now < 1
  · rw [allow_of_short short]
    exact filled
  · rw [allow_of_enough short]
    exact sub_nonneg.mpr (not_lt.mp short)

theorem tokens_le {call : Call} (mem : call ∈ calls w times) : call.writer.tokens ≤ 20 := by
  induction times generalizing w with
  | nil => exact absurd mem List.not_mem_nil
  | cons now times ih =>
      rcases List.mem_cons.mp mem with is | mem
      · rw [is]
        exact tokens_allow_le w now
      · exact ih mem

theorem tokens_nonneg {call : Call} (ordered : (w.refilled :: times).Pairwise (· ≤ ·))
    (nonneg : 0 ≤ w.tokens) (mem : call ∈ calls w times) : 0 ≤ call.writer.tokens := by
  induction times generalizing w with
  | nil => exact absurd mem List.not_mem_nil
  | cons now times ih =>
      obtain ⟨later, ordered⟩ := List.pairwise_cons.mp ordered
      have left := tokens_allow_nonneg nonneg (later now List.mem_cons_self)
      rcases List.mem_cons.mp mem with is | mem
      · rw [is]
        exact left
      · refine ih ?_ left mem
        rw [refilled_allow]
        exact ordered

/-! ### What a window lets through -/

theorem spent_call (start stop : Rat) (now : Int) (allowed : Bool) :
    spent start stop [⟨Seconds now, if allowed then 1 else 0⟩] =
      if allowed ∧ Within start stop now then 1 else 0 := by
  by_cases inside : Within start stop now
  · rw [spent_cons_of_inside (s := ⟨Seconds now, _⟩) inside, spent_nil, add_zero]
    simp only [inside, and_true]
  · rw [spent_cons_of_outside (s := ⟨Seconds now, _⟩) inside, spent_nil]
    simp only [inside, and_false, if_false]

theorem spent_spending (start stop : Rat) (calls : List Call) :
    spent start stop (calls.map Call.spending) = accepted start stop calls := by
  induction calls with
  | nil => rfl
  | cons call calls ih =>
      unfold accepted at ih ⊢
      rw [List.map_cons, ← List.singleton_append, spent_append, ih, Call.spending, spent_call,
        List.countP_cons, Nat.cast_add, Nat.cast_ite, Nat.cast_one, Nat.cast_zero, add_comm]
      simp only [decide_eq_true_eq]

theorem step_allow (near : Near w.refilled now) :
    Step 20 1 w.bucket (if (w.allow now).1 then 1 else 0) (w.allow now).2.bucket := by
  obtain ⟨allowed, writer⟩ := request_bucket w now
  rw [← allowed, ← writer]
  exact step_request zero_le_one ((seconds_Sub_le near).trans_eq (one_mul _).symm)

/-- Calls that are in order, or at least not too far back. -/
theorem steps_calls (near : (w.refilled :: times).IsChain Near) :
    Steps 20 1 w.bucket ((calls w times).map Call.spending) (after w times).bucket := by
  induction times generalizing w with
  | nil => exact .nil _
  | cons now times ih =>
      rw [List.isChain_cons_cons] at near
      have later := ih (w := (w.allow now).2) (by rw [refilled_allow]; exact near.2)
      have taken := Steps.cons (step_allow near.1) later
      rw [show (w.allow now).2.bucket.time = Seconds now from congrArg Seconds (refilled_allow w now)]
        at taken
      exact taken

/-- **No window lets too many reports through**, in whatever order the calls are made. -/
theorem accepted_le (near : (w.refilled :: times).IsChain Near) {start T : Rat} (window : 0 ≤ T) :
    (accepted start (start + T) (calls w times) : Rat) ≤ 20 + T := by
  have bound : spent start (start + T) ((calls w times).map Call.spending) ≤
      20 + 1 * (start + T - start) :=
    (steps_calls near).spent_le zero_le_one (by norm_num) (le_add_of_nonneg_right window)
  rw [spent_spending, one_mul, add_sub_cancel_left] at bound
  exact bound

/-! ### Any pattern of requests -/

theorem append_cases (w : FrontendDiagnosticWriter) (id : String) (written : Written) :
    (w.append id written).2.2 = w ∨ (w.append id written).2.2 = w.remember id := by
  unfold FrontendDiagnosticWriter.append
  split
  · exact .inl rfl
  · cases written with
    | nothing => exact .inl rfl
    | torn => exact .inl rfl
    | record => exact .inr rfl

theorem limit_append (w : FrontendDiagnosticWriter) (id : String) (written : Written) :
    (w.append id written).2.2.tokens = w.tokens ∧
      (w.append id written).2.2.refilled = w.refilled := by
  rcases append_cases w id written with same | same
  · rw [same]
    exact ⟨rfl, rfl⟩
  · rw [same]
    unfold FrontendDiagnosticWriter.remember
    dsimp only
    split
    · exact ⟨rfl, rfl⟩
    · exact ⟨rfl, rfl⟩

namespace Endpoint

open Runs

variable {s s' : Endpoint} {a : Action} {start stop : Rat} {opened : Int}

def through (start stop : Rat) : Phase → Bool
  | .allowed _ now => Within start stop now
  | _ => false

/-- The records of the window, those that may still be written included. -/
def records (start stop : Rat) (s : Endpoint) : Nat :=
  s.log.countP (Within start stop ·) + s.requests.countP (through start stop)

theorem near_of_readable (before : Readable u) (now : Readable t) : Near u t := by
  unfold Readable maxDuration at before now
  unfold Near minDuration
  omega

structure Inv (start stop : Rat) (opened : Int) (s : Endpoint) : Prop where
  refilled : Readable s.writer.refilled
  called : ∀ request now, .called request now ∈ s.requests → Readable now
  paid : ∃ spendings,
    Steps 20 1 (newFrontendDiagnosticWriter opened).bucket spendings s.writer.bucket ∧
      (s.records start stop : Rat) ≤ spent start stop spendings

theorem records_set (start stop : Rat) {i : Nat} {phase : Phase} (here : s.requests[i]? = some phase)
    (phase' : Phase) (writer : FrontendDiagnosticWriter) (log : List Int) :
    records start stop ⟨writer, s.requests.set i phase', log⟩ + s.log.countP (Within start stop ·) +
        (if through start stop phase then 1 else 0) =
      records start stop s + log.countP (Within start stop ·) +
        (if through start stop phase' then 1 else 0) := by
  obtain ⟨bound, is⟩ := List.getElem?_eq_some_iff.mp here
  have counted := List.boole_getElem_le_countP (p := through start stop) bound
  unfold records
  dsimp only
  rw [List.countP_set bound]
  rw [is] at counted ⊢
  omega

theorem inv_start (readable : Readable opened) :
    Inv start stop opened (registerFrontendDiagnosticRoutes opened) where
  refilled := readable
  called _ _ mem := absurd mem List.not_mem_nil
  paid := ⟨[], .nil _, by rw [spent_nil]; exact le_rfl⟩

theorem inv_receive (inv : Inv start stop opened s) {request : Request} {now : Int}
    (readable : Readable now) (next : s.step (.receive request now) = some s') :
    Inv start stop opened s' := by
  obtain ⟨phase, same, waiting, called⟩ : ∃ phase, s' = { s with requests := s.requests ++ [phase] } ∧
      through start stop phase = false ∧ ∀ r t, phase = .called r t → t = now := by
    injection next with next
    refine ⟨_, next.symm, ?_, ?_⟩
    · split_ifs
      · rfl
      · rfl
      · rfl
    · intro r t is
      split_ifs at is
      exact (Phase.called.inj is).2.symm
  obtain ⟨spendings, steps, paid⟩ := inv.paid
  rw [same]
  refine ⟨inv.refilled, fun r t mem => ?_, ⟨spendings, steps, ?_⟩⟩
  · rcases List.mem_append.mp mem with mem | mem
    · exact inv.called r t mem
    · rw [called r t (List.mem_singleton.mp mem).symm]
      exact readable
  · unfold records at paid ⊢
    dsimp only
    rw [List.countP_append, List.countP_singleton, waiting]
    exact paid

theorem step_allow_cases {i : Nat} (next : s.step (.allow i) = some s') :
    ∃ request now, s.requests[i]? = some (.called request now) ∧
      s' = ⟨(s.writer.allow now).2,
        s.requests.set i (if (s.writer.allow now).1 then .allowed request now else .answered limited),
        s.log⟩ := by
  rw [step] at next
  split at next
  · rename_i request now here
    exact ⟨request, now, here, (Option.some.inj next).symm⟩
  · cases next

theorem records_allowed {i : Nat} {request : Request} {now : Int} {allowed : Bool}
    (here : s.requests[i]? = some (.called request now)) (writer : FrontendDiagnosticWriter) :
    (records start stop ⟨writer,
      s.requests.set i (if allowed then .allowed request now else .answered limited), s.log⟩ : Rat) =
      s.records start stop + if allowed ∧ Within start stop now then 1 else 0 := by
  have counted := records_set start stop here
    (if allowed then .allowed request now else .answered limited) writer s.log
  rw [show through start stop (.called request now) = false from rfl, if_neg Bool.false_ne_true,
    add_zero] at counted
  have one : through start stop (if allowed then .allowed request now else .answered limited) =
      decide (allowed ∧ Within start stop now) := by
    cases allowed with
    | true => simp [through]
    | false => simp [through]
  rw [one] at counted
  simp only [decide_eq_true_eq] at counted
  have sum : records start stop ⟨writer,
      s.requests.set i (if allowed then .allowed request now else .answered limited), s.log⟩ =
      s.records start stop + if allowed ∧ Within start stop now then 1 else 0 := by omega
  rw [sum, Nat.cast_add, Nat.cast_ite, Nat.cast_one, Nat.cast_zero]

theorem inv_allow (inv : Inv start stop opened s) {i : Nat} (next : s.step (.allow i) = some s') :
    Inv start stop opened s' := by
  obtain ⟨request, now, here, rfl⟩ := step_allow_cases next
  obtain ⟨spendings, steps, paid⟩ := inv.paid
  have readable := inv.called request now (List.mem_of_getElem? here)
  have taken := steps.concat (step_allow (near_of_readable inv.refilled readable))
  refine ⟨?_, fun r t mem => ?_, ⟨_, taken, ?_⟩⟩
  · show Readable (s.writer.allow now).2.refilled
    rw [refilled_allow]
    exact readable
  · rcases List.mem_or_eq_of_mem_set mem with mem | is
    · exact inv.called r t mem
    · split_ifs at is
  · have time : (s.writer.allow now).2.bucket.time = Seconds now :=
      congrArg Seconds (refilled_allow s.writer now)
    rw [spent_append, time, spent_call, records_allowed here]
    exact add_le_add_left paid _

theorem step_append_cases {i : Nat} {written : Written} (next : s.step (.append i written) = some s') :
    ∃ request now writer response log, s.requests[i]? = some (.allowed request now) ∧
      s' = ⟨writer, s.requests.set i (.answered response), log⟩ ∧
      (log = s.log ∨ log = s.log ++ [now]) ∧
      writer.tokens = s.writer.tokens ∧ writer.refilled = s.writer.refilled := by
  rw [step] at next
  split at next
  · rename_i request now here
    split at next
    · exact ⟨request, now, s.writer, _, s.log, here, (Option.some.inj next).symm, .inl rfl,
        rfl, rfl⟩
    · rename_i id _
      exact ⟨request, now, _, _, _, here, (Option.some.inj next).symm, ite_eq_or_eq ..,
        limit_append s.writer id written⟩
  · cases next

theorem inv_append (inv : Inv start stop opened s) {i : Nat} {written : Written}
    (next : s.step (.append i written) = some s') : Inv start stop opened s' := by
  obtain ⟨request, now, writer, response, log, here, rfl, more, tokens, refilled⟩ :=
    step_append_cases next
  obtain ⟨spendings, steps, paid⟩ := inv.paid
  have bucket : writer.bucket = s.writer.bucket := by
    unfold FrontendDiagnosticWriter.bucket
    rw [tokens, refilled]
  refine ⟨?_, fun r t mem => ?_, ⟨spendings, bucket ▸ steps, ?_⟩⟩
  · show Readable writer.refilled
    rw [refilled]
    exact inv.refilled
  · rcases List.mem_or_eq_of_mem_set mem with mem | is
    · exact inv.called r t mem
    · cases is
  · have counted := records_set start stop here (.answered response) writer log
    rw [show through start stop (.answered response) = false from rfl, if_neg Bool.false_ne_true,
      add_zero] at counted
    have fewer : records start stop ⟨writer, s.requests.set i (.answered response), log⟩ ≤
        s.records start stop := by
      rcases more with same | more
      · rw [same] at counted ⊢
        omega
      · rw [more, List.countP_append, List.countP_singleton,
          show through start stop (.allowed request now) = decide (Within start stop now) from rfl]
          at counted
        rw [more]
        omega
    exact (Nat.cast_le.mpr fewer).trans paid

theorem inv_step (inv : Inv start stop opened s) (reading : Reading a) (next : s.step a = some s') :
    Inv start stop opened s' := by
  cases a with
  | receive request now => exact inv_receive inv reading next
  | allow i => exact inv_allow inv next
  | append i written => exact inv_append inv next

/-- **The log is not flooded**: in whatever way requests come and interleave, at most twenty
records and one for each second are written for the requests that a window lets through. -/
theorem log_le (readable : Readable opened)
    (run : Run step (fun _ a => Reading a) (registerFrontendDiagnosticRoutes opened) s) {T : Rat}
    (window : 0 ≤ T) : (s.log.countP (Within start (start + T) ·) : Rat) ≤ 20 + T := by
  have inv : Inv start (start + T) opened s :=
    run.invariant (inv_start readable) fun _ _ _ inv reading next => inv_step inv reading next
  obtain ⟨spendings, steps, paid⟩ := inv.paid
  have bound : spent start (start + T) spendings ≤ 20 + 1 * (start + T - start) :=
    steps.spent_le zero_le_one (by norm_num) (le_add_of_nonneg_right window)
  have more : (s.log.countP (Within start (start + T) ·) : Rat) ≤ s.records start (start + T) := by
    exact_mod_cast Nat.le_add_right _ _
  rw [one_mul, add_sub_cancel_left] at bound
  exact (more.trans paid).trans bound

end Endpoint

/-- **The tokens, the calls they pay for, and the log.**

Whatever the times of the calls, as long as they do not decrease, the tokens stay where they
belong, and in every window of time at most twenty calls and one for each second are accepted.
The log gets no more from a window, however the requests that bring reports interleave. -/
theorem allow_limits (start : w.tokens ≤ 20) (ordered : (w.refilled :: times).Pairwise (· ≤ ·)) :
    (∀ w' ∈ w :: (calls w times).map Call.writer,
      w'.tokens ≤ 20 ∧ (0 ≤ w.tokens → 0 ≤ w'.tokens)) ∧
    (∀ opened T : Rat, 0 ≤ T →
      (accepted opened (opened + T) (calls w times) : Rat) ≤ 20 + T) ∧
    ∀ created s, Endpoint.Readable created →
      Runs.Run Endpoint.step (fun _ a => Endpoint.Reading a)
        (Endpoint.registerFrontendDiagnosticRoutes created) s →
      ∀ opened T : Rat, 0 ≤ T → (s.log.countP (Within opened (opened + T) ·) : Rat) ≤ 20 + T := by
  refine ⟨fun w' mem => ?_, fun opened T window => ?_, fun created s readable run opened T window => ?_⟩
  · rcases List.mem_cons.mp mem with is | mem
    · rw [is]
      exact ⟨start, id⟩
    · obtain ⟨call, mem, is⟩ := List.mem_map.mp mem
      rw [← is]
      exact ⟨tokens_le mem, fun nonneg => tokens_nonneg ordered nonneg mem⟩
  · exact accepted_le (ordered.isChain.imp fun _ _ => near_of_le) window
  · exact Endpoint.log_le readable run window

/-- Twenty-five calls at once, and two more a second later. -/
def burst : List Int := List.replicate 25 0 ++ [Second, Second]

def reportOf (id : String) : Request := ⟨true, true, some id⟩

/-- Two requests that take the lock in the order in which they did not read the clock; the
second one ends first, and a third one brings its report again. -/
def overtaking : List Endpoint.Action :=
  [.receive (reportOf "a") 5, .receive (reportOf "b") 3, .allow 0, .allow 1, .append 1 .record,
    .append 0 .torn, .receive (reportOf "b") 7, .allow 2, .append 2 .record]

theorem allow_limits_burst :
    (∀ w' ∈ newFrontendDiagnosticWriter 0 :: (calls (newFrontendDiagnosticWriter 0) burst).map Call.writer,
      w'.tokens ≤ 20 ∧ 0 ≤ w'.tokens) ∧
    accepted 0 (0 + 1) (calls (newFrontendDiagnosticWriter 0) burst) = 21 ∧
    (accepted 0 (0 + 1) (calls (newFrontendDiagnosticWriter 0) burst) : Rat) ≤ 20 + 1 ∧
    ∃ s, Runs.follow Endpoint.step (fun _ a => Endpoint.Reading a)
        (Endpoint.registerFrontendDiagnosticRoutes 0) overtaking = some s ∧
      s.log = [3, 5] ∧ (s.log.countP (Within 0 (0 + 1) ·) : Rat) ≤ 20 + 1 := by
  have ordered : ((newFrontendDiagnosticWriter 0).refilled :: burst).Pairwise (· ≤ ·) := by decide
  obtain ⟨tokens, count, log⟩ := allow_limits le_rfl ordered
  have logged : (Runs.follow Endpoint.step (fun _ a => Endpoint.Reading a)
      (Endpoint.registerFrontendDiagnosticRoutes 0) overtaking).map Endpoint.log = some [3, 5] := by
    decide +kernel
  obtain ⟨s, follows, written⟩ := Option.map_eq_some_iff.mp logged
  refine ⟨fun w' mem => ?_, by decide +kernel, count 0 1 (by decide), s, follows, written,
    log 0 s (by decide) (Runs.run_of_follow follows) 0 1 (by decide)⟩
  obtain ⟨le, nonneg⟩ := tokens w' mem
  exact ⟨le, nonneg (by decide)⟩

end Memos.Api.Diagnostics
