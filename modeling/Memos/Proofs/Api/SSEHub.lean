/-
What the hub owes its clients.

Under the read lock the map does not change, so a call that sends visits exactly the
clients that were in the map when it took the lock; and only those are in the map whose
channels are open.  Both together say that there is no panic.

A call has put its frame into the channel of a client if and only if it has visited the
client, the client is allowed to get it and the channel was not full.  A client whose
channel was full is removed before the call is over, and nobody else is.
-/
import Memos.Api.SSEHub

namespace Memos.Api.SSE

open Store Runs

/-! ### What a channel and a call say -/

/-- The calls whose frames have been put into the channel, in their order. -/
def SSEClient.stream (client : SSEClient) : List Nat :=
  (client.received ++ client.events).map Message.call

def Phase.remaining : Phase → List Nat
  | .sending remaining => remaining
  | _ => []

/-- The call is going to remove the client, or has not come to that. -/
def Phase.Pending (c : Nat) : Phase → Prop
  | .sending _ => True
  | .removing slow => c ∈ slow
  | _ => False

namespace SSEHub

def allows (marshal : Marshal) (h : SSEHub) (n c : Nat) : Bool :=
  ((h.call n).publish.announcement marshal).any fun a => a.allow (h.client c).identity

/-- The call has put its frame into the channel. -/
structure Gets (marshal : Marshal) (h : SSEHub) (n c : Nat) : Prop where
  member : c ∈ (h.call n).members
  allowed : h.allows marshal n c = true
  visited : c ∉ (h.call n).phase.remaining
  fitted : c ∉ (h.call n).dropped

/-- Why a client is not in the map any more. -/
def Left (h : SSEHub) (c : Nat) : Prop :=
  (h.client c).unsubscribed = true ∨ h.closed = true ∨ ∃ n, c ∈ (h.call n).dropped

structure CallOK (marshal : Marshal) (h : SSEHub) (n : Nat) : Prop where
  below : ∀ c ∈ (h.call n).members, c < h.attached
  early : ∀ c ∈ (h.call n).subscribers, c < h.attached
  idle : (h.call n).phase = .called → (h.call n).members = [] ∧ (h.call n).dropped = []
  sending : ∀ remaining, (h.call n).phase = .sending remaining →
    (h.call n).members = h.clients ∧ remaining.Nodup ∧ remaining ⊆ h.clients
  present : ∀ c ∈ (h.call n).subscribers, c ∈ h.clients → (h.call n).phase = .called ∨
    (h.call n).publish.announcement marshal = none ∨ c ∈ (h.call n).members
  dropped : ∀ c ∈ (h.call n).dropped,
    c ∈ (h.call n).members ∧ h.allows marshal n c = true ∧ c ∉ (h.call n).phase.remaining
  slow : ∀ slow, (h.call n).phase = .removing slow → slow ⊆ (h.call n).dropped
  gone : ∀ c ∈ (h.call n).dropped, c ∈ h.clients → (h.call n).phase.Pending c
  earlier : ∀ m ∈ (h.call n).earlier, (h.call m).phase = .finished

structure ClientOK (marshal : Marshal) (h : SSEHub) (c : Nat) : Prop where
  told : ∀ n, n ∈ (h.client c).stream ↔ h.Gets marshal n c
  once : (h.client c).stream.Nodup
  order : (h.client c).stream.Pairwise fun m n => n ∉ (h.call m).earlier
  framed : ∀ message ∈ (h.client c).received ++ (h.client c).events,
    ∃ a, (h.call message.call).publish.announcement marshal = some a ∧ message.frame = a.frame
  left : c < h.attached → c ∉ h.clients → h.Left c

structure Inv (marshal : Marshal) (h : SSEHub) : Prop where
  quiet : h.panicked = false
  nodup : h.clients.Nodup
  below : ∀ c ∈ h.clients, c < h.attached
  channels : ∀ c, c < h.attached →
    (h.client c).eventsClosed = decide (c ∉ h.clients) ∧ (h.client c).doneClosed = decide (c ∉ h.clients)
  unattached : ∀ c, h.attached ≤ c → h.client c = {}
  unmade : ∀ n, h.made ≤ n → h.call n = {}
  calls : ∀ n, h.CallOK marshal n
  clients : ∀ c, h.ClientOK marshal c

section Steps

variable {marshal : Marshal} {h h' : SSEHub} {n c : Nat} {call : Call} {client : SSEClient}

/-! ### Updates -/

@[simp] theorem setClient_client_self : (h.setClient c client).client c = client := by
  unfold setClient
  exact Function.update_self ..

theorem setClient_client_ne {d : Nat} (apart : d ≠ c) :
    (h.setClient c client).client d = h.client d := by
  unfold setClient
  exact Function.update_of_ne apart ..

theorem setClient_client (d : Nat) :
    (h.setClient c client).client d = if d = c then client else h.client d := by
  by_cases same : d = c
  · rw [if_pos same, same, setClient_client_self]
  · rw [if_neg same, setClient_client_ne same]

@[simp] theorem setCall_call_self : (h.setCall n call).call n = call := by
  unfold setCall
  exact Function.update_self ..

theorem setCall_call_ne {m : Nat} (apart : m ≠ n) : (h.setCall n call).call m = h.call m := by
  unfold setCall
  exact Function.update_of_ne apart ..

theorem not_reading (inv : Inv marshal h) (free : h.reading = false) (n : Nat)
    (remaining : List Nat) : (h.call n).phase ≠ .sending remaining := by
  intro sending
  by_cases made : n < h.made
  · unfold reading at free
    rw [List.any_eq_false] at free
    have not := free n (List.mem_range.mpr made)
    rw [sending] at not
    exact not rfl
  · rw [inv.unmade n (Nat.le_of_not_lt made)] at sending
    cases sending

theorem ifUnlocked_eq_some {next : SSEHub} (ran : h.ifUnlocked next = some h') :
    h.reading = false ∧ next = h' := by
  unfold ifUnlocked at ran
  split at ran
  · cases ran
  · rename_i free
    injection ran with ran
    exact ⟨Bool.eq_false_iff.mpr free, ran⟩

/-! ### What a step leaves alone -/

theorem CallOK.mono (ok : h.CallOK marshal n) (same : h'.call n = h.call n)
    (attached : h.attached ≤ h'.attached)
    (identity : ∀ c, c < h.attached → (h'.client c).identity = (h.client c).identity)
    (ended : ∀ m, (h.call m).phase = .finished → (h'.call m).phase = .finished)
    (fewer : ∀ c ∈ h'.clients, c ∈ h.clients ∨ h.attached ≤ c)
    (locked : ∀ remaining, (h.call n).phase = .sending remaining → h'.clients = h.clients) :
    h'.CallOK marshal n := by
  have allowed : ∀ c, c < h.attached → h'.allows marshal n c = h.allows marshal n c := by
    intro c old
    unfold allows
    rw [same, identity c old]
  have kept : ∀ c, c < h.attached → c ∈ h'.clients → c ∈ h.clients := by
    intro c old there
    rcases fewer c there with there | new
    · exact there
    · exact absurd old (Nat.not_lt.mpr new)
  constructor
  · intro c member
    rw [same] at member
    exact Nat.lt_of_lt_of_le (ok.below c member) attached
  · intro c member
    rw [same] at member
    exact Nat.lt_of_lt_of_le (ok.early c member) attached
  · rw [same]
    exact ok.idle
  · intro remaining phase
    rw [same] at phase ⊢
    rw [locked remaining phase]
    exact ok.sending remaining phase
  · intro c member there
    rw [same] at member ⊢
    exact ok.present c member (kept c (ok.early c member) there)
  · intro c drop
    rw [same] at drop ⊢
    obtain ⟨member, allow, visited⟩ := ok.dropped c drop
    refine ⟨member, ?_, visited⟩
    rw [allowed c (ok.below c member)]
    exact allow
  · rw [same]
    exact ok.slow
  · intro c drop there
    rw [same] at drop ⊢
    exact ok.gone c drop (kept c (ok.below c (ok.dropped c drop).1) there)
  · intro m early
    rw [same] at early
    exact ended m (ok.earlier m early)

theorem ClientOK.mono (ok : h.ClientOK marshal c)
    (contents : (h'.client c).received ++ (h'.client c).events =
      (h.client c).received ++ (h.client c).events)
    (calls : ∀ n ∈ (h.client c).stream,
      (h'.call n).publish = (h.call n).publish ∧ (h'.call n).earlier = (h.call n).earlier)
    (gets : ∀ n, h'.Gets marshal n c ↔ h.Gets marshal n c)
    (left : c < h'.attached → c ∉ h'.clients → h'.Left c) : h'.ClientOK marshal c := by
  have stream : (h'.client c).stream = (h.client c).stream := by
    unfold SSEClient.stream
    rw [contents]
  constructor
  · intro n
    rw [stream, gets]
    exact ok.told n
  · rw [stream]
    exact ok.once
  · rw [stream]
    refine ok.order.imp_of_mem fun {m n} there _ apart => ?_
    rw [(calls m there).2]
    exact apart
  · intro message there
    rw [contents] at there
    obtain ⟨a, announced, framed⟩ := ok.framed message there
    refine ⟨a, ?_, framed⟩
    rw [(calls message.call (List.mem_map_of_mem there)).1]
    exact announced
  · exact left

/-- Whether a call has put its frame into a channel, when only the map and the marks of
clients have changed. -/
theorem gets_of_same_calls (calls : h'.call = h.call)
    (identity : (h'.client c).identity = (h.client c).identity) (n : Nat) :
    h'.Gets marshal n c ↔ h.Gets marshal n c := by
  have allowed : h'.allows marshal n c = h.allows marshal n c := by
    unfold allows
    rw [calls, identity]
  constructor
  · rintro ⟨member, allow, visited, fitted⟩
    rw [calls] at member visited fitted
    exact ⟨member, allowed ▸ allow, visited, fitted⟩
  · rintro ⟨member, allow, visited, fitted⟩
    rw [← calls] at member visited fitted
    exact ⟨member, allowed ▸ allow, visited, fitted⟩

/-! ### The map -/

/-- The step changes the map and the marks of clients, and nothing that calls say. -/
structure Marks (h h' : SSEHub) : Prop where
  call : h'.call = h.call
  made : h'.made = h.made
  attached : h'.attached = h.attached
  identity : ∀ c, (h'.client c).identity = (h.client c).identity
  contents : ∀ c, (h'.client c).received ++ (h'.client c).events =
    (h.client c).received ++ (h.client c).events
  unsubscribed : ∀ c, (h.client c).unsubscribed = true → (h'.client c).unsubscribed = true
  closed : h.closed = true → h'.closed = true
  fewer : h'.clients ⊆ h.clients

theorem Marks.left (marks : Marks h h') (left : h.Left c) : h'.Left c := by
  rcases left with asked | closed | drop
  · exact .inl (marks.unsubscribed c asked)
  · exact .inr (.inl (marks.closed closed))
  · rw [← marks.call] at drop
    exact .inr (.inr drop)

theorem Inv.marks (inv : Inv marshal h) (marks : Marks h h')
    (locked : ∀ n remaining, (h.call n).phase = .sending remaining → h'.clients = h.clients)
    (quiet : h'.panicked = false) (nodup : h'.clients.Nodup)
    (channels : ∀ c, c < h.attached → (h'.client c).eventsClosed = decide (c ∉ h'.clients) ∧
      (h'.client c).doneClosed = decide (c ∉ h'.clients))
    (unattached : ∀ c, h.attached ≤ c → h'.client c = {})
    (left : ∀ c, c ∈ h.clients → c ∉ h'.clients → h'.Left c) : Inv marshal h' := by
  refine ⟨quiet, nodup, fun c there => ?_, ?_, ?_, ?_, fun n => ?_, fun c => ?_⟩
  · rw [marks.attached]
    exact inv.below c (marks.fewer there)
  · rw [marks.attached]
    exact channels
  · rw [marks.attached]
    exact unattached
  · rw [marks.made, marks.call]
    exact inv.unmade
  · refine (inv.calls n).mono (congrFun marks.call n) (Nat.le_of_eq marks.attached.symm)
      (fun c _ => marks.identity c) (fun m ended => ?_) (fun c there => .inl (marks.fewer there))
      (locked n)
    rw [marks.call]
    exact ended
  · refine (inv.clients c).mono (marks.contents c) (fun n _ => ?_)
      (gets_of_same_calls marks.call (marks.identity c)) fun old not => ?_
    · rw [marks.call]
      exact ⟨rfl, rfl⟩
    · by_cases there : c ∈ h.clients
      · exact left c there not
      · rw [marks.attached] at old
        exact marks.left ((inv.clients c).left old there)

theorem setClient_same {β : Type} (f : SSEClient → β) (same : f client = f (h.client c)) (d : Nat) :
    f ((h.setClient c client).client d) = f (h.client d) := by
  rw [setClient_client]
  split
  · rename_i is
    rw [is]
    exact same
  · rfl

theorem setClient_marks (identity : client.identity = (h.client c).identity)
    (contents : client.received ++ client.events = (h.client c).received ++ (h.client c).events)
    (unsubscribed : (h.client c).unsubscribed = true → client.unsubscribed = true) :
    Marks h (h.setClient c client) := by
  refine ⟨rfl, rfl, rfl, setClient_same SSEClient.identity identity,
    setClient_same (fun client => client.received ++ client.events) contents, fun d asked => ?_,
    id, List.Subset.refl _⟩
  rw [setClient_client]
  split
  · rename_i is
    exact unsubscribed (is ▸ asked)
  · exact asked

theorem Marks.erase (marks : Marks h h') (clients : List Nat) (fewer : clients ⊆ h.clients)
    (panicked : Bool) : Marks h { h' with clients, panicked } :=
  ⟨marks.call, marks.made, marks.attached, marks.identity, marks.contents, marks.unsubscribed,
    marks.closed, fewer⟩

theorem disconnect_marks : Marks h (h.disconnect c) := by
  unfold SSEHub.disconnect
  split
  · have marks : Marks h
        (h.setClient c { h.client c with eventsClosed := true, doneClosed := true }) :=
      setClient_marks rfl rfl id
    exact marks.erase (h.clients.erase c) List.erase_subset _
  · exact ⟨rfl, rfl, rfl, fun _ => rfl, fun _ => rfl, fun _ asked => asked, id, List.Subset.refl _⟩

theorem Inv.disconnect (inv : Inv marshal h) (free : h.reading = false) (left : h.Left c) :
    Inv marshal (h.disconnect c) := by
  have marks : Marks h (h.disconnect c) := disconnect_marks
  have later : (h.disconnect c).Left c := marks.left left
  revert marks later
  unfold SSEHub.disconnect
  split
  · rename_i there
    intro marks later
    obtain ⟨open₁, open₂⟩ := inv.channels c (inv.below c there)
    have isOpen : decide (c ∉ h.clients) = false := decide_eq_false (not_not.mpr there)
    refine inv.marks marks (fun n remaining sending => absurd sending (not_reading inv free n remaining)) ?_ (inv.nodup.erase c) (fun d attached => ?_) (fun d attached => ?_)
      fun d _ not => ?_
    · dsimp only
      rw [inv.quiet, open₁, open₂, isOpen]
      rfl
    · dsimp only
      by_cases same : d = c
      · rw [same, setClient_client_self, decide_eq_true inv.nodup.not_mem_erase]
        exact ⟨rfl, rfl⟩
      · have member : d ∈ h.clients.erase c ↔ d ∈ h.clients := List.mem_erase_of_ne same
        rw [setClient_client_ne same]
        simp only [member]
        exact inv.channels d attached
    · dsimp only
      have apart : d ≠ c := fun same => absurd (inv.below c there) (Nat.not_lt.mpr (same ▸ attached))
      rw [setClient_client_ne apart]
      exact inv.unattached d attached
    · by_cases same : d = c
      · rw [same]
        exact later
      · exact absurd ((List.mem_erase_of_ne same).mpr ‹d ∈ h.clients›) not
  · exact fun _ _ => inv

theorem Marks.reading (marks : Marks h h') : h'.reading = h.reading := by
  unfold SSEHub.reading
  rw [marks.made, marks.call]

theorem Inv.Unsubscribe (inv : Inv marshal h) (free : h.reading = false) (old : c < h.attached) :
    Inv marshal (h.Unsubscribe c) := by
  have marks : Marks h (h.setClient c { h.client c with unsubscribed := true }) :=
    setClient_marks rfl rfl fun _ => rfl
  have marked : Inv marshal (h.setClient c { h.client c with unsubscribed := true }) := by
    refine inv.marks marks (fun _ _ _ => rfl) inv.quiet inv.nodup (fun d attached => ?_) (fun d attached => ?_)
      fun d there not => absurd there not
    · rw [setClient_client]
      split
      · rename_i same
        rw [same]
        exact inv.channels c old
      · exact inv.channels d attached
    · have apart : d ≠ c := fun same => absurd old (Nat.not_lt.mpr (same ▸ attached))
      rw [setClient_client_ne apart]
      exact inv.unattached d attached
  refine marked.disconnect (marks.reading.trans free) (.inl ?_)
  rw [setClient_client_self]

theorem Inv.disconnectAll (inv : Inv marshal h) (free : h.reading = false) (closed : h.closed = true)
    (clients : List Nat) : Inv marshal (clients.foldl SSEHub.disconnect h) := by
  induction clients generalizing h with
  | nil => exact inv
  | cons c clients ih =>
      have marks : Marks h (h.disconnect c) := disconnect_marks
      exact ih (inv.disconnect free (.inr (.inl closed))) (marks.reading.trans free) (marks.closed closed)

theorem Inv.Close (inv : Inv marshal h) (free : h.reading = false) : Inv marshal h.Close := by
  unfold SSEHub.Close
  split
  · exact inv
  · have marks : Marks h { h with closed := true } :=
      ⟨rfl, rfl, rfl, fun _ => rfl, fun _ => rfl, fun _ asked => asked, fun _ => rfl, List.Subset.refl _⟩
    have marked : Inv marshal { h with closed := true } :=
      inv.marks marks (fun _ _ _ => rfl) inv.quiet inv.nodup inv.channels inv.unattached
        fun d there not => absurd there not
    exact marked.disconnectAll (marks.reading.trans free) rfl h.clients

theorem Inv.attachClient (inv : Inv marshal h) (free : h.reading = false) (identity : Identity) :
    Inv marshal (h.attachClient identity) := by
  have client : ∀ d, d ≠ h.attached → (h.attachClient identity).client d = h.client d :=
    fun d apart => setClient_client_ne apart
  have new : (h.attachClient identity).client h.attached =
      { identity, eventsClosed := h.closed, doneClosed := h.closed } := setClient_client_self
  have absent : h.attached ∉ h.clients := fun there => Nat.lt_irrefl _ (inv.below _ there)
  have clients : (h.attachClient identity).clients =
      if h.closed then h.clients else h.clients ++ [h.attached] := rfl
  have older : ∀ d, d ≠ h.attached → (d ∈ (h.attachClient identity).clients ↔ d ∈ h.clients) := by
    intro d apart
    rw [clients]
    split
    · exact Iff.rfl
    · rw [List.mem_append, List.mem_singleton, or_iff_left apart]
  have newest : decide (h.attached ∉ (h.attachClient identity).clients) = h.closed := by
    rw [clients]
    cases h.closed with
    | true => exact decide_eq_true absent
    | false => exact decide_eq_false (not_not.mpr (List.mem_append_right _ List.mem_cons_self))
  constructor
  · exact inv.quiet
  · rw [clients]
    split
    · exact inv.nodup
    · exact List.nodup_append.mpr ⟨inv.nodup, List.nodup_singleton _, fun d there e new same =>
        absent (by rw [← List.mem_singleton.mp new, ← same]; exact there)⟩
  · intro d there
    by_cases same : d = h.attached
    · rw [same]
      exact Nat.lt_succ_self _
    · exact Nat.lt_succ_of_lt (inv.below d ((older d same).mp there))
  · intro d attached
    by_cases same : d = h.attached
    · rw [same, new, newest]
      exact ⟨rfl, rfl⟩
    · rw [client d same]
      simp only [older d same]
      exact inv.channels d (Nat.lt_of_le_of_ne (Nat.le_of_lt_succ attached) same)
  · intro d attached
    rw [client d (Nat.ne_of_gt attached)]
    exact inv.unattached d (Nat.le_of_succ_le attached)
  · exact inv.unmade
  · intro n
    refine (inv.calls n).mono rfl (Nat.le_succ _) (fun d old => ?_) (fun _ ended => ended) (fun d there => ?_)
      fun remaining sending => absurd sending (not_reading inv free n remaining)
    · rw [client d (Nat.ne_of_lt old)]
    · by_cases same : d = h.attached
      · exact .inr (Nat.le_of_eq same.symm)
      · exact .inl ((older d same).mp there)
  · intro d
    by_cases same : d = h.attached
    · rw [same]
      refine ⟨fun n => ?_, ?_, ?_, ?_, fun _ not => ?_⟩
      · rw [new]
        refine iff_of_false List.not_mem_nil fun gets => ?_
        exact Nat.lt_irrefl _ ((inv.calls n).below _ gets.member)
      · rw [new]
        exact List.nodup_nil
      · rw [new]
        exact List.Pairwise.nil
      · rw [new]
        exact fun _ there => absurd there List.not_mem_nil
      · rw [decide_eq_true not] at newest
        exact .inr (.inl newest.symm)
    · refine (inv.clients d).mono ?_ (fun _ _ => ⟨rfl, rfl⟩) (fun n => ?_) fun attached not => ?_
      · rw [client d same]
      · have identity' : ((h.attachClient identity).client d).identity = (h.client d).identity := by
          rw [client d same]
        refine gets_of_same_calls ?_ identity' n
        rfl
      · have old : d < h.attached := Nat.lt_of_le_of_ne (Nat.le_of_lt_succ attached) same
        rcases (inv.clients d).left old fun there => not ((older d same).mpr there) with
          asked | closed | drop
        · exact .inl ((congrArg SSEClient.unsubscribed (client d same)).trans asked)
        · exact .inr (.inl closed)
        · exact .inr (.inr drop)

/-! ### Calls -/

theorem Gets.of_call {h h' : SSEHub} {c : Nat} (gets : h.Gets marshal n c) (same : h'.call n = h.call n)
    (client : h'.client c = h.client c) : h'.Gets marshal n c := by
  obtain ⟨member, allow, visited, fitted⟩ := gets
  unfold allows at allow
  rw [← same] at member allow visited fitted
  rw [← client] at allow
  exact ⟨member, allow, visited, fitted⟩

theorem Inv.publish (inv : Inv marshal h) (publish : Publish) :
    Inv marshal { h.setCall h.made { publish, earlier := h.ended, subscribers := h.clients } with
      made := h.made + 1 } := by
  have fresh : h.call h.made = {} := inv.unmade _ (Nat.le_refl _)
  have new : (h.setCall h.made { publish, earlier := h.ended, subscribers := h.clients }).call h.made =
      { publish, earlier := h.ended, subscribers := h.clients } := setCall_call_self
  have old : ∀ n, n ≠ h.made →
      (h.setCall h.made { publish, earlier := h.ended, subscribers := h.clients }).call n = h.call n :=
    fun n apart => setCall_call_ne apart
  have finished : ∀ m, (h.call m).phase = .finished → m ≠ h.made := by
    intro m ended same
    rw [same, fresh] at ended
    cases ended
  have told : ∀ n d, h.Gets marshal n d → n ≠ h.made := by
    intro n d gets same
    have member := gets.member
    rw [same, fresh] at member
    exact List.not_mem_nil member
  have later : ∀ m, (h.call m).phase = .finished →
      ((h.setCall h.made { publish, earlier := h.ended, subscribers := h.clients }).call m).phase = .finished := by
    intro m ended
    rw [old m (finished m ended)]
    exact ended
  refine ⟨inv.quiet, inv.nodup, inv.below, inv.channels, inv.unattached, fun n made => ?_, fun n => ?_,
    fun d => ?_⟩
  · exact (old n (Nat.ne_of_gt made)).trans (inv.unmade n (Nat.le_of_succ_le made))
  · by_cases same : n = h.made
    · subst same
      constructor
      all_goals
        dsimp only
        rw [new]
      · exact fun _ there => absurd there List.not_mem_nil
      · exact inv.below
      · exact fun _ => ⟨rfl, rfl⟩
      · exact fun _ sending => nomatch sending
      · exact fun _ _ _ => .inl rfl
      · exact fun _ there => absurd there List.not_mem_nil
      · exact fun _ removing => nomatch removing
      · exact fun _ there => absurd there List.not_mem_nil
      · intro m early
        have ended : (h.call m).phase = .finished := of_decide_eq_true (List.mem_filter.mp early).2
        exact later m ended
    · exact (inv.calls n).mono (old n same) (Nat.le_refl _) (fun _ _ => rfl) later (fun _ there => .inl there)
        fun _ _ => rfl
  · refine (inv.clients d).mono rfl (fun n there => ?_) (fun n => ?_) fun attached not => ?_
    · have apart := told n d (((inv.clients d).told n).mp there)
      dsimp only
      rw [old n apart]
      exact ⟨rfl, rfl⟩
    · by_cases same : n = h.made
      · refine iff_of_false (fun gets => ?_) fun gets => told n d gets same
        have member := gets.member
        rw [same] at member
        dsimp only at member
        rw [new] at member
        exact List.not_mem_nil member
      · constructor
        · exact fun gets => gets.of_call (old n same).symm rfl
        · exact fun gets => gets.of_call (old n same) rfl
    · rcases (inv.clients d).left attached not with asked | closed | ⟨n, drop⟩
      · exact .inl asked
      · exact .inr (.inl closed)
      · refine .inr (.inr ⟨n, ?_⟩)
        by_cases same : n = h.made
        · rw [same, fresh] at drop
          exact absurd drop List.not_mem_nil
        · dsimp only
          rw [old n same]
          exact drop

theorem Inv.setCall (inv : Inv marshal h) (made : n < h.made) (live : (h.call n).phase ≠ .finished)
    (publish : call.publish = (h.call n).publish) (earlier : call.earlier = (h.call n).earlier)
    (dropped : (h.call n).dropped ⊆ call.dropped) (ok : (h.setCall n call).CallOK marshal n)
    (gets : ∀ c, (h.setCall n call).Gets marshal n c ↔ h.Gets marshal n c) :
    Inv marshal (h.setCall n call) := by
  have old : ∀ m, m ≠ n → (h.setCall n call).call m = h.call m := fun m apart => setCall_call_ne apart
  refine ⟨inv.quiet, inv.nodup, inv.below, inv.channels, inv.unattached, fun m unmade => ?_, fun m => ?_,
    fun d => ?_⟩
  · rw [old m fun same => absurd made (Nat.not_lt.mpr (same ▸ unmade))]
    exact inv.unmade m unmade
  · by_cases same : m = n
    · rw [same]
      exact ok
    · refine (inv.calls m).mono (old m same) (Nat.le_refl _) (fun _ _ => rfl) (fun k ended => ?_)
        (fun _ there => .inl there) fun _ _ => rfl
      rw [old k fun is => live (is ▸ ended)]
      exact ended
  · refine (inv.clients d).mono rfl (fun m _ => ?_) (fun m => ?_) fun attached not => ?_
    · by_cases same : m = n
      · rw [same, setCall_call_self]
        exact ⟨publish, earlier⟩
      · rw [old m same]
        exact ⟨rfl, rfl⟩
    · by_cases same : m = n
      · rw [same]
        exact gets d
      · constructor
        · exact fun gets => gets.of_call (old m same).symm rfl
        · exact fun gets => gets.of_call (old m same) rfl
    · rcases (inv.clients d).left attached not with asked | closed | ⟨m, drop⟩
      · exact .inl asked
      · exact .inr (.inl closed)
      · refine .inr (.inr ⟨m, ?_⟩)
        by_cases same : m = n
        · rw [same, setCall_call_self]
          rw [same] at drop
          exact dropped drop
        · rw [old m same]
          exact drop

/-- A phase of a call that has the same clients before it and behind it. -/
theorem Inv.phase (inv : Inv marshal h) (made : n < h.made) (live : (h.call n).phase ≠ .finished)
    {phase : Phase} (remaining : phase.remaining = (h.call n).phase.remaining)
    (ok : (h.setCall n { h.call n with phase }).CallOK marshal n) :
    Inv marshal (h.setCall n { h.call n with phase }) := by
  refine inv.setCall made live rfl rfl (List.Subset.refl _) ok fun c => ?_
  constructor
  · rintro ⟨member, allow, visited, fitted⟩
    unfold allows at allow
    rw [setCall_call_self] at member allow visited fitted
    dsimp only at member allow visited fitted
    rw [remaining] at visited
    exact ⟨member, allow, visited, fitted⟩
  · rintro ⟨member, allow, visited, fitted⟩
    rw [← remaining] at visited
    constructor
    · rw [setCall_call_self]
      exact member
    · unfold allows
      rw [setCall_call_self]
      exact allow
    · rw [setCall_call_self]
      exact visited
    · rw [setCall_call_self]
      exact fitted

theorem Inv.lock (inv : Inv marshal h) (made : n < h.made) (phase : (h.call n).phase = .called) :
    Inv marshal (h.setCall n { h.call n with members := h.clients, phase := .sending h.clients }) := by
  obtain ⟨noMembers, noDropped⟩ := (inv.calls n).idle phase
  refine inv.setCall made (by rw [phase]; nofun) rfl rfl (List.Subset.refl _) ?_ fun c => ?_
  · have ok := inv.calls n
    constructor
    all_goals rw [setCall_call_self]
    · exact inv.below
    · exact ok.early
    · exact nofun
    · intro remaining sending
      injection sending with sending
      rw [← sending]
      exact ⟨rfl, inv.nodup, List.Subset.refl _⟩
    · exact fun c _ there => .inr (.inr there)
    · dsimp only
      rw [noDropped]
      exact fun _ there => absurd there List.not_mem_nil
    · exact nofun
    · exact fun _ _ _ => trivial
    · intro m early
      have ended := ok.earlier m early
      rw [setCall_call_ne fun same => by rw [same, phase] at ended; cases ended]
      exact ended
  · refine iff_of_false (fun gets => ?_) fun gets => ?_
    · have member := gets.member
      have visited := gets.visited
      rw [setCall_call_self] at member visited
      exact visited member
    · have member := gets.member
      rw [noMembers] at member
      exact List.not_mem_nil member

theorem CallOK.visit (inv : Inv marshal h) {remaining : List Nat}
    (phase : (h.call n).phase = .sending remaining) (there : c ∈ remaining) {dropped : List Nat}
    (drops : ∀ d ∈ dropped, d ∈ (h.call n).dropped ∨ d = c ∧ h.allows marshal n c = true)
    (clients : h'.clients = h.clients) (attached : h'.attached = h.attached)
    (identity : ∀ d, (h'.client d).identity = (h.client d).identity)
    (calls : ∀ m, m ≠ n → h'.call m = h.call m)
    (same : h'.call n = { h.call n with phase := .sending (remaining.erase c), dropped }) :
    h'.CallOK marshal n := by
  have ok := inv.calls n
  obtain ⟨members, nodup, fewer⟩ := ok.sending remaining phase
  have allowed : ∀ d, h'.allows marshal n d = h.allows marshal n d := by
    intro d
    unfold allows
    rw [same, identity]
  constructor
  · rw [same, attached]
    exact ok.below
  · rw [same, attached]
    exact ok.early
  · rw [same]
    exact nofun
  · intro remaining' sending
    rw [same] at sending ⊢
    injection sending with sending
    rw [← sending, clients]
    exact ⟨members, nodup.erase c, fun d left => fewer (List.mem_of_mem_erase left)⟩
  · intro d early present
    rw [same] at early ⊢
    rw [clients] at present
    refine .inr (.inr ?_)
    rw [members]
    exact present
  · intro d drop
    rw [same] at drop ⊢
    rw [allowed]
    rcases drops d drop with drop | ⟨is, allow⟩
    · obtain ⟨member, allow, visited⟩ := ok.dropped d drop
      rw [phase] at visited
      exact ⟨member, allow, fun left => visited (List.mem_of_mem_erase left)⟩
    · rw [is]
      refine ⟨?_, allow, nodup.not_mem_erase⟩
      rw [members]
      exact fewer there
  · rw [same]
    exact nofun
  · intro d _ _
    rw [same]
    trivial
  · intro m early
    rw [same] at early
    have ended := ok.earlier m early
    have apart : m ≠ n := by
      intro is
      rw [is, phase] at ended
      cases ended
    rw [calls m apart]
    exact ended

/-- The call passes a client by: the client may not get the frame, or its channel is full. -/
theorem Inv.pass (inv : Inv marshal h) (made : n < h.made) {remaining : List Nat}
    (phase : (h.call n).phase = .sending remaining) (there : c ∈ remaining) {dropped : List Nat}
    (more : (h.call n).dropped ⊆ dropped)
    (drops : ∀ d ∈ dropped, d ∈ (h.call n).dropped ∨ d = c ∧ h.allows marshal n c = true)
    (reason : h.allows marshal n c = false ∨ c ∈ dropped) :
    Inv marshal (h.setCall n { h.call n with phase := .sending (remaining.erase c), dropped }) := by
  refine inv.setCall made (by rw [phase]; nofun) rfl rfl more
    (CallOK.visit inv phase there drops rfl rfl (fun _ => rfl) (fun _ => setCall_call_ne)
      setCall_call_self) fun d => ?_
  by_cases same : d = c
  · rw [same]
    refine iff_of_false (fun gets => ?_) fun gets => ?_
    · rcases reason with no | drop
      · have allow := gets.allowed
        unfold allows at allow no
        rw [setCall_call_self] at allow
        exact Bool.false_ne_true (no.symm.trans allow)
      · have fitted := gets.fitted
        rw [setCall_call_self] at fitted
        exact fitted drop
    · have visited := gets.visited
      rw [phase] at visited
      exact visited there
  · have left : d ∈ remaining.erase c ↔ d ∈ remaining := List.mem_erase_of_ne same
    have drop : d ∈ dropped ↔ d ∈ (h.call n).dropped := by
      refine ⟨fun drop => ?_, fun drop => more drop⟩
      rcases drops d drop with drop | ⟨is, -⟩
      · exact drop
      · exact absurd is same
    constructor
    · rintro ⟨member, allow, visited, fitted⟩
      unfold allows at allow
      rw [setCall_call_self] at member allow visited fitted
      refine ⟨member, allow, fun still => ?_, fun dropped => fitted (drop.mpr dropped)⟩
      rw [phase] at still
      exact visited (left.mpr still)
    · rintro ⟨member, allow, visited, fitted⟩
      rw [phase] at visited
      constructor
      · rw [setCall_call_self]
        exact member
      · unfold allows
        rw [setCall_call_self]
        exact allow
      · rw [setCall_call_self]
        exact fun still => visited (left.mp still)
      · rw [setCall_call_self]
        exact fun dropped => fitted (drop.mp dropped)

/-! ### A frame is put into a channel -/

/-- What the call `n` does to the client `c`. -/
structure Sends (h h' : SSEHub) (n c : Nat) (remaining : List Nat) (frame : String) : Prop where
  self : h'.client c = { h.client c with events := (h.client c).events ++ [⟨n, frame⟩] }
  client : ∀ d, d ≠ c → h'.client d = h.client d
  same : h'.call n = { h.call n with phase := .sending (remaining.erase c) }
  calls : ∀ m, m ≠ n → h'.call m = h.call m
  clients : h'.clients = h.clients
  attached : h'.attached = h.attached
  made : h'.made = h.made
  closed : h'.closed = h.closed
  panicked : h'.panicked = h.panicked

theorem sends (remaining : List Nat) (frame : String) : Sends h
    ((h.setClient c { h.client c with events := (h.client c).events ++ [⟨n, frame⟩] }).setCall n
      { h.call n with phase := .sending (remaining.erase c) }) n c remaining frame :=
  ⟨setClient_client_self, fun _ => setClient_client_ne, setCall_call_self, fun _ => setCall_call_ne,
    rfl, rfl, rfl, rfl, rfl⟩

section Send

theorem unfinished {remaining : List Nat} (phase : (h.call n).phase = .sending remaining) {m : Nat}
    (ended : (h.call m).phase = .finished) : m ≠ n := by
  intro is
  rw [is, phase] at ended
  cases ended

variable {remaining : List Nat} {frame : String} (sends : Sends h h' n c remaining frame)
include sends

theorem Sends.kept {β : Type} (f : SSEClient → β)
    (same : ∀ client : SSEClient, ∀ events, f { client with events } = f client) (d : Nat) :
    f (h'.client d) = f (h.client d) := by
  by_cases is : d = c
  · rw [is, sends.self]
    exact same _ _
  · rw [sends.client d is]

theorem Sends.record {β : Type} (f : Call → β)
    (same : ∀ call : Call, ∀ phase, f { call with phase } = f call) (m : Nat) :
    f (h'.call m) = f (h.call m) := by
  by_cases is : m = n
  · rw [is, sends.same]
    exact same _ _
  · rw [sends.calls m is]

theorem Sends.allows (m d : Nat) : h'.allows marshal m d = h.allows marshal m d := by
  unfold SSEHub.allows
  rw [sends.kept SSEClient.identity (fun _ _ => rfl), sends.record Call.publish fun _ _ => rfl]

theorem Sends.gets (phase : (h.call n).phase = .sending remaining) {m d : Nat} (apart : m ≠ n ∨ d ≠ c) :
    h'.Gets marshal m d ↔ h.Gets marshal m d := by
  have members := sends.record Call.members (fun _ _ => rfl) m
  have dropped := sends.record Call.dropped (fun _ _ => rfl) m
  have left : d ∈ (h'.call m).phase.remaining ↔ d ∈ (h.call m).phase.remaining := by
    by_cases is : m = n
    · rw [is, sends.same, phase]
      exact List.mem_erase_of_ne (apart.resolve_left (not_not.mpr is))
    · rw [sends.calls m is]
  constructor
  · rintro ⟨member, allow, visited, fitted⟩
    rw [members] at member
    rw [sends.allows] at allow
    rw [left] at visited
    rw [dropped] at fitted
    exact ⟨member, allow, visited, fitted⟩
  · rintro ⟨member, allow, visited, fitted⟩
    rw [← members] at member
    rw [← sends.allows] at allow
    rw [← left] at visited
    rw [← dropped] at fitted
    exact ⟨member, allow, visited, fitted⟩

theorem Sends.stream : (h'.client c).stream = (h.client c).stream ++ [n] := by
  rw [sends.self]
  unfold SSEClient.stream
  dsimp only
  rw [← List.append_assoc, List.map_append]
  rfl

theorem Sends.left {d : Nat} (left : h.Left d) : h'.Left d := by
  rcases left with asked | closed | ⟨m, drop⟩
  · exact .inl ((sends.kept SSEClient.unsubscribed (fun _ _ => rfl) d).trans asked)
  · exact .inr (.inl (sends.closed.trans closed))
  · refine .inr (.inr ⟨m, ?_⟩)
    rw [sends.record Call.dropped fun _ _ => rfl]
    exact drop

theorem Sends.clientOK_self (inv : Inv marshal h) (phase : (h.call n).phase = .sending remaining)
    (there : c ∈ remaining) {a : Announcement} (is : frame = a.frame)
    (announced : (h.call n).publish.announcement marshal = some a)
    (allowed : h.allows marshal n c = true) : h'.ClientOK marshal c := by
  have ok := inv.clients c
  obtain ⟨members, nodup, fewer⟩ := (inv.calls n).sending remaining phase
  have unknown : n ∉ (h.client c).stream := by
    intro told
    have visited := ((ok.told n).mp told).visited
    rw [phase] at visited
    exact visited there
  have earlier : ∀ m, (h'.call m).earlier = (h.call m).earlier := sends.record Call.earlier fun _ _ => rfl
  refine ⟨fun m => ?_, ?_, ?_, fun message sent => ?_, fun _ gone => ?_⟩
  · rw [sends.stream, List.mem_append, List.mem_singleton]
    by_cases mine : m = n
    · rw [mine]
      refine iff_of_true (.inr rfl) ⟨?_, ?_, ?_, ?_⟩
      · rw [sends.same]
        dsimp only
        rw [members]
        exact fewer there
      · rw [sends.allows]
        exact allowed
      · rw [sends.same]
        exact nodup.not_mem_erase
      · rw [sends.same]
        intro drop
        have visited := ((inv.calls n).dropped c drop).2.2
        rw [phase] at visited
        exact visited there
    · rw [sends.gets phase (.inl mine), or_iff_left mine]
      exact ok.told m
  · rw [sends.stream]
    exact List.nodup_append.mpr ⟨ok.once, List.nodup_singleton n, fun m told k only is' =>
      unknown (by rw [← List.mem_singleton.mp only, ← is']; exact told)⟩
  · rw [sends.stream]
    refine List.pairwise_append.mpr ⟨ok.order.imp fun {m k} apart => ?_, List.pairwise_singleton _ _,
      fun m _ k only early => ?_⟩
    · rw [earlier]
      exact apart
    · rw [earlier, List.mem_singleton.mp only] at early
      exact unfinished phase ((inv.calls m).earlier n early) rfl
  · rw [sends.self] at sent
    dsimp only at sent
    rw [← List.append_assoc, List.mem_append, List.mem_singleton] at sent
    rw [sends.record Call.publish fun _ _ => rfl]
    rcases sent with sent | new
    · exact ok.framed message sent
    · rw [new]
      exact ⟨a, announced, is⟩
  · rw [sends.clients] at gone
    exact absurd (fewer there) gone

theorem Sends.clientOK_other (inv : Inv marshal h) (phase : (h.call n).phase = .sending remaining)
    {d : Nat} (apart : d ≠ c) : h'.ClientOK marshal d := by
  refine (inv.clients d).mono ?_ (fun m _ => ?_) (fun m => sends.gets phase (.inr apart))
    fun attach gone => ?_
  · rw [sends.client d apart]
  · exact ⟨sends.record Call.publish (fun _ _ => rfl) m, sends.record Call.earlier (fun _ _ => rfl) m⟩
  · rw [sends.clients] at gone
    rw [sends.attached] at attach
    exact sends.left ((inv.clients d).left attach gone)

theorem Sends.callOK (inv : Inv marshal h) (phase : (h.call n).phase = .sending remaining)
    (there : c ∈ remaining) (m : Nat) : h'.CallOK marshal m := by
  have identity : ∀ d, (h'.client d).identity = (h.client d).identity :=
    sends.kept SSEClient.identity fun _ _ => rfl
  by_cases is : m = n
  · rw [is]
    exact CallOK.visit inv phase there (fun d drop => .inl drop) sends.clients sends.attached identity
      sends.calls sends.same
  · refine (inv.calls m).mono (sends.calls m is) (Nat.le_of_eq sends.attached.symm) (fun d _ => identity d)
      (fun k ended => ?_) (fun d present => .inl ?_) fun _ _ => sends.clients
    · rw [sends.calls k (unfinished phase ended)]
      exact ended
    · rwa [sends.clients] at present

theorem Inv.send (inv : Inv marshal h) (made : n < h.made)
    (phase : (h.call n).phase = .sending remaining) (there : c ∈ remaining) {a : Announcement}
    (is : frame = a.frame) (announced : (h.call n).publish.announcement marshal = some a)
    (allowed : h.allows marshal n c = true) : Inv marshal h' := by
  have present : c ∈ h.clients := ((inv.calls n).sending remaining phase).2.2 there
  refine ⟨?_, ?_, ?_, fun d attach => ?_, fun d attach => ?_, fun m unmade => ?_,
    sends.callOK inv phase there, fun d => ?_⟩
  · rw [sends.panicked]
    exact inv.quiet
  · rw [sends.clients]
    exact inv.nodup
  · rw [sends.clients, sends.attached]
    exact inv.below
  · rw [sends.attached] at attach
    rw [sends.clients, sends.kept SSEClient.eventsClosed fun _ _ => rfl,
      sends.kept SSEClient.doneClosed fun _ _ => rfl]
    exact inv.channels d attach
  · rw [sends.attached] at attach
    rw [sends.client d fun is => absurd (inv.below c present) (Nat.not_lt.mpr (is ▸ attach))]
    exact inv.unattached d attach
  · rw [sends.made] at unmade
    rw [sends.calls m fun is => absurd made (Nat.not_lt.mpr (is ▸ unmade))]
    exact inv.unmade m unmade
  · by_cases same : d = c
    · rw [same]
      exact sends.clientOK_self inv phase there is announced allowed
    · exact sends.clientOK_other inv phase same

end Send

theorem Inv.visit (inv : Inv marshal h) (made : n < h.made) {remaining : List Nat}
    (phase : (h.call n).phase = .sending remaining) (there : c ∈ remaining) {a : Announcement}
    (announced : (h.call n).publish.announcement marshal = some a) :
    Inv marshal (h.visit n c remaining a) := by
  have present : c ∈ h.clients := ((inv.calls n).sending remaining phase).2.2 there
  have old := inv.below c present
  have allows_eq : h.allows marshal n c = a.allow (h.client c).identity := by
    unfold allows
    rw [announced]
    rfl
  unfold SSEHub.visit
  dsimp only
  split
  · rename_i no
    exact inv.pass made phase there (List.Subset.refl _) (fun d drop => .inl drop) (.inl (allows_eq.trans no))
  · rename_i may
    have allow : a.allow (h.client c).identity = true := by simpa using may
    split
    · rename_i shut
      -- The channel of a client in the map is open.
      have isOpen := (inv.channels c old).1
      rw [shut, decide_eq_false (not_not.mpr present)] at isOpen
      cases isOpen
    · split
      · exact Inv.send (sends remaining a.frame) inv made phase there rfl announced (allows_eq.trans allow)
      · refine inv.pass made phase there (List.subset_append_left _ _) (fun d drop => ?_)
          (.inr (List.mem_append_right _ List.mem_cons_self))
        rcases List.mem_append.mp drop with drop | only
        · exact .inl drop
        · exact .inr ⟨List.mem_singleton.mp only, allows_eq.trans allow⟩

/-! ### Steps -/

theorem not_mem_disconnect (nodup : h.clients.Nodup) : c ∉ (h.disconnect c).clients := by
  unfold SSEHub.disconnect
  split
  · exact nodup.not_mem_erase
  · assumption

theorem Inv.remove (inv : Inv marshal h) (free : h.reading = false) (made : n < h.made)
    {slow : List Nat} (phase : (h.call n).phase = .removing (c :: slow)) :
    Inv marshal ((h.disconnect c).setCall n { h.call n with phase := .removing slow }) := by
  have drops := (inv.calls n).slow _ phase
  have marks : Marks h (h.disconnect c) := disconnect_marks
  have removed : Inv marshal (h.disconnect c) :=
    inv.disconnect free (.inr (.inr ⟨n, drops List.mem_cons_self⟩))
  have ok := removed.calls n
  rw [← marks.call]
  rw [← marks.made] at made
  rw [← marks.call] at phase drops
  refine removed.phase made (by rw [phase]; nofun) (by rw [phase]; rfl) ?_
  constructor
  all_goals rw [setCall_call_self]
  · exact ok.below
  · exact ok.early
  · exact nofun
  · exact nofun
  · intro d early there
    rcases ok.present d early there with called | none | member
    · rw [phase] at called
      cases called
    · exact .inr (.inl none)
    · exact .inr (.inr member)
  · intro d drop
    obtain ⟨member, allow, -⟩ := ok.dropped d drop
    refine ⟨member, ?_, List.not_mem_nil⟩
    unfold allows
    rw [setCall_call_self]
    exact allow
  · intro slow' removing
    injection removing with removing
    rw [← removing]
    exact fun d there => drops (List.mem_cons_of_mem _ there)
  · intro d drop there
    have pending := ok.gone d drop there
    rw [phase] at pending
    rcases List.mem_cons.mp pending with is | later
    · rw [is] at there
      exact absurd there (not_mem_disconnect inv.nodup)
    · exact later
  · intro m early
    have ended := ok.earlier m early
    rw [setCall_call_ne fun same => by rw [same, phase] at ended; cases ended]
    exact ended

theorem Inv.next (inv : Inv marshal h) (made : n < h.made) (live : (h.call n).phase ≠ .finished)
    {phase : Phase} (called : phase ≠ .called) (remaining : phase.remaining = [])
    (before : (h.call n).phase.remaining = []) (sending : ∀ left, phase ≠ .sending left)
    (started : (h.call n).phase = .called → (h.call n).publish.announcement marshal = none)
    (slow : ∀ slow, phase = .removing slow → slow = (h.call n).dropped)
    (gone : ∀ c ∈ (h.call n).dropped, c ∈ h.clients → phase.Pending c) :
    Inv marshal (h.setCall n { h.call n with phase }) := by
  have ok := inv.calls n
  refine inv.phase made live (remaining.trans before.symm) ?_
  constructor
  all_goals rw [setCall_call_self]
  · exact ok.below
  · exact ok.early
  · exact fun is => absurd is called
  · exact fun left is => absurd is (sending left)
  · intro d early there
    rcases ok.present d early there with is | none | member
    · exact .inr (.inl (started is))
    · exact .inr (.inl none)
    · exact .inr (.inr member)
  · intro d drop
    obtain ⟨member, allow, -⟩ := ok.dropped d drop
    refine ⟨member, ?_, ?_⟩
    · unfold allows
      rw [setCall_call_self]
      exact allow
    · dsimp only
      rw [remaining]
      exact List.not_mem_nil
  · intro slow' is
    rw [slow slow' is]
    exact List.Subset.refl _
  · exact gone
  · intro m early
    have ended := ok.earlier m early
    have apart : m ≠ n := by
      intro same
      rw [same] at ended
      exact live ended
    rw [setCall_call_ne apart]
    exact ended

theorem Inv.runCall (inv : Inv marshal h) (made : n < h.made) (ran : h.runCall marshal n c = some h') :
    Inv marshal h' := by
  unfold SSEHub.runCall at ran
  dsimp only at ran
  split at ran
  · rename_i phase
    split at ran
    · rename_i none
      injection ran with ran
      rw [← ran]
      refine inv.next made (by rw [phase]; nofun) nofun rfl (by rw [phase]; rfl) nofun (fun _ => none)
        nofun fun d drop => ?_
      rw [((inv.calls n).idle phase).2] at drop
      exact absurd drop List.not_mem_nil
    · injection ran with ran
      exact ran ▸ inv.lock made phase
  · rename_i phase
    injection ran with ran
    rw [← ran]
    refine inv.next made (by rw [phase]; nofun) nofun rfl (by rw [phase]; rfl) nofun
      (by rw [phase]; nofun) (fun slow is => ?_) fun d drop _ => drop
    injection is with is
    exact is.symm
  · rename_i phase
    split at ran
    · rename_i there
      obtain ⟨a, announced, ran⟩ := Option.map_eq_some_iff.mp ran
      exact ran ▸ inv.visit made phase there announced
    · cases ran
  · rename_i phase
    injection ran with ran
    rw [← ran]
    refine inv.next made (by rw [phase]; nofun) nofun rfl (by rw [phase]; rfl) nofun
      (by rw [phase]; nofun) nofun fun d drop there => ?_
    have pending := (inv.calls n).gone d drop there
    rw [phase] at pending
    exact absurd pending List.not_mem_nil
  · rename_i phase
    split at ran
    · cases ran
    · rename_i free
      injection ran with ran
      exact ran ▸ inv.remove (Bool.eq_false_iff.mpr free) made phase
  · cases ran

theorem Inv.receive (inv : Inv marshal h) {message : Message} {events : List Message}
    (there : (h.client c).events = message :: events) :
    Inv marshal (h.setClient c { h.client c with
      events := events
      received := (h.client c).received ++ [message] }) := by
  have marks : Marks h (h.setClient c { h.client c with
      events := events
      received := (h.client c).received ++ [message] }) := by
    refine setClient_marks rfl ?_ id
    rw [there, List.append_assoc]
    rfl
  refine inv.marks marks (fun _ _ _ => rfl) inv.quiet inv.nodup (fun d attached => ?_) (fun d attached => ?_)
    fun d there not => absurd there not
  · obtain ⟨open₁, open₂⟩ := inv.channels d attached
    constructor
    · refine (setClient_same SSEClient.eventsClosed ?_ d).trans open₁
      rfl
    · refine (setClient_same SSEClient.doneClosed ?_ d).trans open₂
      rfl
  · have apart : d ≠ c := by
      intro same
      rw [← same, inv.unattached d attached] at there
      cases there
    rw [setClient_client_ne apart]
    exact inv.unattached d attached

theorem Inv.step (inv : Inv marshal h) {a : Action} (ran : step marshal h a = some h') :
    Inv marshal h' := by
  cases a with
  | subscribe identity =>
      obtain ⟨free, is⟩ := ifUnlocked_eq_some ran
      exact is ▸ inv.attachClient free identity
  | unsubscribe c =>
      unfold SSEHub.step at ran
      dsimp only at ran
      split at ran
      · rename_i old
        obtain ⟨free, is⟩ := ifUnlocked_eq_some ran
        exact is ▸ inv.Unsubscribe free old
      · cases ran
  | close =>
      obtain ⟨free, is⟩ := ifUnlocked_eq_some ran
      exact is ▸ inv.Close free
  | publish publish =>
      injection ran with ran
      exact ran ▸ inv.publish publish
  | run n c =>
      unfold SSEHub.step at ran
      dsimp only at ran
      split at ran
      · rename_i made
        exact inv.runCall made ran
      · cases ran
  | receive c =>
      unfold SSEHub.step at ran
      dsimp only at ran
      split at ran
      · cases ran
      · rename_i there
        injection ran with ran
        exact ran ▸ inv.receive there

theorem Inv.start : Inv marshal NewSSEHub := by
  refine ⟨rfl, List.nodup_nil, nofun, nofun, fun _ _ => rfl, fun _ _ => rfl, fun n => ?_, fun c => ?_⟩
  · exact ⟨nofun, nofun, fun _ => ⟨rfl, rfl⟩, nofun, nofun, nofun, nofun, nofun, nofun⟩
  · refine ⟨fun n => iff_of_false nofun fun gets => ?_, List.nodup_nil, List.Pairwise.nil, nofun, nofun⟩
    exact List.not_mem_nil gets.member

end Steps

end SSEHub

/-! ### The result -/

/-- Who may get what: a private event goes to its creator and to administrators, and an
event with a subject to nobody without an account. -/
theorem allow_event {marshal : Marshal} {event : SSEEvent} {a : Announcement} {identity : Identity}
    (announced : (Publish.Broadcast (some event)).announcement marshal = some a)
    (allow : a.allow identity = true) : identity.userID ≠ 0 ∧
      (event.visibility = some .Private → identity.userID = event.creatorID ∨ identity.role = .Admin) := by
  unfold Publish.announcement at announced
  dsimp only at announced
  split at announced
  · rename_i space
    injection announced with announced
    rw [← announced] at allow
    refine ⟨of_decide_eq_true allow, fun isPrivate => ?_⟩
    rw [space] at isPrivate
    cases isPrivate
  · split at announced
    · cases announced
    · split at announced
      · cases announced
      · injection announced with announced
        rw [← announced] at allow
        obtain ⟨account, may⟩ := Bool.and_eq_true_iff.mp allow
        refine ⟨of_decide_eq_true account, fun isPrivate => ?_⟩
        unfold Identity.canReceive at may
        rw [isPrivate] at may
        simpa using may

/-- **What the hub owes its clients.**

In whatever order clients come and go, the hub is closed, calls publish, and connections
take out what they have been sent:

* nothing is sent on a closed channel, and no channel is closed twice;
* a client has got the frame of a call at most once, and only if it is allowed to;
* a client that was there when a call was made, and still is when the call is over, has got
  its frame if and only if it is allowed to, so that a client that was refused an allowed
  frame is gone;
* the frames of two calls of which one was over when the other was made are in their order;
* who is gone has asked for it, or was there when the hub was closed, or has been refused
  an allowed frame itself. -/
theorem hub_delivers (marshal : Marshal) {t : SSEHub}
    (run : Run (SSEHub.step marshal) (fun _ _ => True) NewSSEHub t) :
    t.panicked = false ∧
    (∀ c, ((t.client c).received ++ (t.client c).events).map Message.call = (t.client c).stream ∧
      (∀ message ∈ (t.client c).received ++ (t.client c).events,
        ∃ a, (t.call message.call).publish.announcement marshal = some a ∧ message.frame = a.frame ∧
          a.allow (t.client c).identity = true) ∧
      (∀ n ∈ (t.client c).stream, ∀ event, (t.call n).publish = .Broadcast (some event) →
        (t.client c).identity.userID ≠ 0 ∧
        (event.visibility = some .Private → (t.client c).identity.userID = event.creatorID ∨
          (t.client c).identity.role = .Admin)) ∧
      (t.client c).stream.Nodup ∧
      (t.client c).stream.Pairwise fun m n => n ∉ (t.call m).earlier) ∧
    (∀ n c, (t.call n).phase = .finished → c ∈ (t.call n).subscribers → c ∈ t.clients →
      (n ∈ (t.client c).stream ↔ t.allows marshal n c = true)) ∧
    (∀ n c, (t.call n).phase = .finished → c ∈ (t.call n).members → t.allows marshal n c = true →
      n ∉ (t.client c).stream →
        c ∉ t.clients ∧ (t.client c).eventsClosed = true ∧ (t.client c).doneClosed = true) ∧
    ∀ c, c < t.attached → c ∉ t.clients →
      (t.client c).unsubscribed = true ∨ t.closed = true ∨
      ∃ n, c ∈ (t.call n).members ∧ t.allows marshal n c = true ∧ n ∉ (t.client c).stream := by
  have inv : SSEHub.Inv marshal t :=
    run.invariant SSEHub.Inv.start fun _ _ _ inv _ ran => inv.step ran
  have gone : ∀ n c, (t.call n).phase = .finished → c ∈ (t.call n).members →
      t.allows marshal n c = true → n ∉ (t.client c).stream → c ∉ t.clients := by
    intro n c ended member allow missed there
    refine missed (((inv.clients c).told n).mpr ⟨member, allow, ?_, fun drop => ?_⟩)
    · rw [ended]
      exact List.not_mem_nil
    · have pending := (inv.calls n).gone c drop there
      rw [ended] at pending
      exact pending
  refine ⟨inv.quiet, fun c => ⟨rfl, fun message sent => ?_, fun n told event is => ?_, (inv.clients c).once,
    (inv.clients c).order⟩, fun n c ended early there => ?_, fun n c ended member allow missed => ?_,
    fun c attached left => ?_⟩
  · obtain ⟨a, announced, framed⟩ := (inv.clients c).framed message sent
    refine ⟨a, announced, framed, ?_⟩
    have allow := (((inv.clients c).told message.call).mp (List.mem_map_of_mem sent)).allowed
    unfold SSEHub.allows at allow
    rw [announced] at allow
    exact allow
  · have allow := (((inv.clients c).told n).mp told).allowed
    unfold SSEHub.allows at allow
    rw [is] at allow
    obtain ⟨a, announced, allow⟩ := (Option.any_eq_true _ _).mp allow
    exact allow_event announced allow
  · refine ⟨fun told => (((inv.clients c).told n).mp told).allowed, fun allow => ?_⟩
    by_contra missed
    rcases (inv.calls n).present c early there with called | none | member
    · rw [ended] at called
      cases called
    · unfold SSEHub.allows at allow
      rw [none] at allow
      cases allow
    · exact gone n c ended member allow missed there
  · have left := gone n c ended member allow missed
    obtain ⟨events, done⟩ := inv.channels c ((inv.calls n).below c member)
    rw [decide_eq_true left] at events done
    exact ⟨left, events, done⟩
  · rcases (inv.clients c).left attached left with asked | closed | ⟨n, drop⟩
    · exact .inl asked
    · exact .inr (.inl closed)
    · obtain ⟨member, allow, -⟩ := (inv.calls n).dropped c drop
      exact .inr (.inr ⟨n, member, allow, fun told => (((inv.clients c).told n).mp told).fitted drop⟩)

/-! ### A private memo is changed -/

def plainMarshal : Marshal := fun _ name _ => some name

def privateMemo : SSEEvent where
  type := .MemoUpdated
  name := "memos/diary"
  visibility := some .Private
  creatorID := 1

def threeConnected : List SSEHub.Action :=
  [.subscribe { userID := 1 }, .subscribe { userID := 2 }, .subscribe { userID := 3, role := .Admin },
    .publish (.Broadcast (some privateMemo)), .run 0 0, .run 0 2, .run 0 1, .run 0 0, .run 0 0, .run 0 0,
    .receive 0, .unsubscribe 1]

theorem hub_delivers_private : ∃ t,
    follow (SSEHub.step plainMarshal) (fun _ _ => True) NewSSEHub threeConnected = some t ∧
    t.panicked = false ∧
    (0 ∈ (t.client 0).stream ↔ t.allows plainMarshal 0 0 = true) ∧
    (0 ∈ (t.client 2).stream ↔ t.allows plainMarshal 0 2 = true) ∧
    (t.client 0).received.map Message.frame = ["data: memos/diary\n\n"] := by
  obtain ⟨t, follows, ended, early, early', there, there', received⟩ : ∃ t,
      follow (SSEHub.step plainMarshal) (fun _ _ => True) NewSSEHub threeConnected = some t ∧
      (t.call 0).phase = .finished ∧ 0 ∈ (t.call 0).subscribers ∧ 2 ∈ (t.call 0).subscribers ∧
      0 ∈ t.clients ∧ 2 ∈ t.clients ∧
      (t.client 0).received.map Message.frame = ["data: memos/diary\n\n"] :=
    ⟨_, rfl, rfl, by decide, by decide, by decide, by decide, rfl⟩
  obtain ⟨quiet, -, told, -, -⟩ := hub_delivers plainMarshal (run_of_follow follows)
  exact ⟨t, follows, quiet, told 0 0 ended early there, told 0 2 ended early' there', received⟩

end Memos.Api.SSE
