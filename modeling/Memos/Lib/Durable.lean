/-
Computations that can be cut off.

The writes of a computation last one by one.  It may be cut off before each of them, and
what is stored then is all that is left of it; what it would have written next tells one
such state from another.  A computation that ends may also fail, with what it has written
so far.

The rules say how a computation that is put together ends and where it can be cut off, in
terms of its parts.
-/
import Mathlib.Tactic.Common

namespace Durable

variable {ω σ ε ε' α β γ : Type}

structure Outcome (ω σ ε α : Type) where
  /-- Each place to be cut off: the write that is next, and what is stored. -/
  cuts : List (ω × σ)
  last : σ
  result : Except ε α

def Process (ω σ ε α : Type) : Type := σ → Outcome ω σ ε α

namespace Process

def pure (a : α) : Process ω σ ε α := fun s => ⟨[], s, .ok a⟩

def bind (m : Process ω σ ε α) (next : α → Process ω σ ε β) : Process ω σ ε β := fun s =>
  match (m s).result with
  | .error e => ⟨(m s).cuts, (m s).last, .error e⟩
  | .ok a =>
      let rest := next a (m s).last
      ⟨(m s).cuts ++ rest.cuts, rest.last, rest.result⟩

instance : Monad (Process ω σ ε) where
  pure := pure
  bind := bind

/-- What is stored is read, and may be a reason to fail. -/
def check (f : σ → Except ε α) : Process ω σ ε α := fun s => ⟨[], s, f s⟩

def write (w : ω) (f : σ → Except ε σ) : Process ω σ ε Unit := fun s =>
  match f s with
  | .ok t => ⟨[(w, s)], t, .ok ()⟩
  | .error e => ⟨[(w, s)], s, .error e⟩

def mapError (f : ε → ε') (m : Process ω σ ε α) : Process ω σ ε' α := fun s =>
  ⟨(m s).cuts, (m s).last, (m s).result.mapError f⟩

def onlyIf (condition : Bool) (m : Process ω σ ε Unit) : Process ω σ ε Unit :=
  if condition then m else pure ()

def forEach (l : List α) (f : α → Process ω σ ε Unit) : Process ω σ ε Unit :=
  match l with
  | [] => pure ()
  | a :: l => do
      f a
      forEach l f

/-! ### How it ends, and where it can be cut off -/

def Ends (m : Process ω σ ε α) (s : σ) (a : α) (t : σ) : Prop :=
  (m s).result = .ok a ∧ (m s).last = t

def Cut (m : Process ω σ ε α) (s : σ) (w : ω) (t : σ) : Prop := (w, t) ∈ (m s).cuts

variable {m : Process ω σ ε α} {next : α → Process ω σ ε β} {s t u : σ} {a : α} {b : β} {w v : ω}

theorem Ends.unique {a' : α} {t' : σ} (h : Ends m s a t) (h' : Ends m s a' t') :
    a = a' ∧ t = t' := by
  obtain ⟨result, rfl⟩ := h
  obtain ⟨result', rfl⟩ := h'
  rw [result] at result'
  injection result' with same
  exact ⟨same, rfl⟩

@[simp] theorem ends_pure {a' : α} : Ends (Pure.pure a : Process ω σ ε α) s a' t ↔ a = a' ∧ s = t := by
  constructor
  · rintro ⟨result, last⟩
    injection result with same
    exact ⟨same, last⟩
  · rintro ⟨rfl, rfl⟩
    exact ⟨rfl, rfl⟩

@[simp] theorem not_cut_pure : ¬Cut (Pure.pure a : Process ω σ ε α) s w t := List.not_mem_nil

theorem ends_bind : Ends (m >>= next) s b u ↔ ∃ a t, Ends m s a t ∧ Ends (next a) t b u := by
  have unfolded : (m >>= next) s = bind m next s := rfl
  unfold Ends
  rw [unfolded]
  unfold bind
  cases result : (m s).result with
  | error e =>
      constructor
      · rintro ⟨h, -⟩
        cases h
      · rintro ⟨_, _, ⟨h, -⟩, -⟩
        cases h
  | ok a =>
      constructor
      · rintro ⟨h, last⟩
        exact ⟨a, (m s).last, ⟨rfl, rfl⟩, h, last⟩
      · rintro ⟨_, _, ⟨same, rfl⟩, h, last⟩
        injection same with same
        rw [same]
        exact ⟨h, last⟩

theorem cut_bind : Cut (m >>= next) s w u ↔
    Cut m s w u ∨ ∃ a t, Ends m s a t ∧ Cut (next a) t w u := by
  have unfolded : (m >>= next) s = bind m next s := rfl
  unfold Cut Ends
  rw [unfolded]
  unfold bind
  cases result : (m s).result with
  | error e =>
      constructor
      · intro h
        exact .inl h
      · rintro (h | ⟨_, _, ⟨h, -⟩, -⟩)
        · exact h
        · cases h
  | ok a =>
      rw [List.mem_append]
      constructor
      · rintro (h | h)
        · exact .inl h
        · exact .inr ⟨a, (m s).last, ⟨rfl, rfl⟩, h⟩
      · rintro (h | ⟨_, _, ⟨same, rfl⟩, h⟩)
        · exact .inl h
        · injection same with same
          rw [same]
          exact .inr h

@[simp] theorem ends_check {f : σ → Except ε α} : Ends (check f : Process ω σ ε α) s a t ↔ f s = .ok a ∧ s = t :=
  Iff.rfl

@[simp] theorem not_cut_check {f : σ → Except ε α} : ¬Cut (check f) s w t := List.not_mem_nil

@[simp] theorem ends_write {f : σ → Except ε σ} {x : Unit} : Ends (write w f) s x t ↔ f s = .ok t := by
  unfold Ends write
  cases f s with
  | ok u =>
      constructor
      · rintro ⟨-, rfl⟩
        rfl
      · intro h
        injection h with h
        exact ⟨rfl, h⟩
  | error e =>
      constructor
      · rintro ⟨h, -⟩
        cases h
      · intro h
        cases h

@[simp] theorem cut_write {f : σ → Except ε σ} : Cut (write w f) s v t ↔ v = w ∧ t = s := by
  unfold Cut write
  cases f s with
  | ok u => rw [List.mem_singleton, Prod.mk.injEq]
  | error e => rw [List.mem_singleton, Prod.mk.injEq]

@[simp] theorem ends_mapError {f : ε → ε'} : Ends (m.mapError f) s a t ↔ Ends m s a t := by
  unfold Ends mapError
  cases (m s).result with
  | ok a' =>
      show Except.ok a' = Except.ok a ∧ _ ↔ _
      rw [Except.ok.injEq, Except.ok.injEq]
  | error e =>
      constructor
      · rintro ⟨h, -⟩
        cases h
      · rintro ⟨h, -⟩
        cases h

@[simp] theorem cut_mapError {f : ε → ε'} : Cut (m.mapError f) s w t ↔ Cut m s w t := Iff.rfl

section Unit

variable {c : Bool} {m : Process ω σ ε Unit} {f : α → Process ω σ ε Unit} {l : List α} {x : Unit}

@[simp] theorem ends_onlyIf : Ends (onlyIf c m) s x t ↔ c = true ∧ Ends m s () t ∨ c = false ∧ s = t := by
  unfold onlyIf
  cases c with
  | true =>
      rw [if_pos rfl]
      exact ⟨fun h => .inl ⟨rfl, h⟩, fun h => h.elim And.right fun h => nomatch h.1⟩
  | false =>
      rw [if_neg Bool.false_ne_true]
      exact ⟨fun h => .inr ⟨rfl, (ends_pure.mp h).2⟩,
        fun h => h.elim (fun h => nomatch h.1) fun h => ends_pure.mpr ⟨rfl, h.2⟩⟩

@[simp] theorem cut_onlyIf : Cut (onlyIf c m) s w t ↔ c = true ∧ Cut m s w t := by
  unfold onlyIf
  cases c with
  | true =>
      rw [if_pos rfl]
      exact ⟨fun h => ⟨rfl, h⟩, And.right⟩
  | false =>
      rw [if_neg Bool.false_ne_true]
      exact ⟨fun h => absurd h not_cut_pure, fun h => nomatch h.1⟩

theorem ends_forEach_nil : Ends (forEach [] f) s x t ↔ s = t :=
  ⟨fun h => (ends_pure.mp h).2, fun h => ends_pure.mpr ⟨rfl, h⟩⟩

theorem not_cut_forEach_nil : ¬Cut (forEach [] f) s w t := not_cut_pure

theorem ends_forEach_cons : Ends (forEach (a :: l) f) s x u ↔
    ∃ t, Ends (f a) s () t ∧ Ends (forEach l f) t () u := by
  show Ends (f a >>= fun _ => forEach l f) s x u ↔ _
  rw [ends_bind]
  exact ⟨fun ⟨_, t, first, rest⟩ => ⟨t, first, rest⟩, fun ⟨t, first, rest⟩ => ⟨(), t, first, rest⟩⟩

theorem cut_forEach_cons : Cut (forEach (a :: l) f) s w u ↔
    Cut (f a) s w u ∨ ∃ t, Ends (f a) s () t ∧ Cut (forEach l f) t w u := by
  show Cut (f a >>= fun _ => forEach l f) s w u ↔ _
  rw [cut_bind]
  exact or_congr Iff.rfl
    ⟨fun ⟨_, t, first, rest⟩ => ⟨t, first, rest⟩, fun ⟨t, first, rest⟩ => ⟨(), t, first, rest⟩⟩

/-- What is cut off in a list has ended for the elements before. -/
theorem cut_forEach (h : Cut (forEach l f) s w u) : ∃ before a after t, l = before ++ a :: after ∧
    Ends (forEach before f) s () t ∧ Cut (f a) t w u := by
  induction l generalizing s with
  | nil => exact absurd h not_cut_forEach_nil
  | cons a l ih =>
      rcases cut_forEach_cons.mp h with here | ⟨t, first, later⟩
      · exact ⟨[], a, l, s, rfl, ends_forEach_nil.mpr rfl, here⟩
      · obtain ⟨before, b, after, t', rfl, ended, cut⟩ := ih later
        exact ⟨a :: before, b, after, t', rfl, ends_forEach_cons.mpr ⟨t, first, ended⟩, cut⟩

end Unit

/-! ### How it fails -/

def Fails (m : Process ω σ ε α) (s : σ) (e : ε) (t : σ) : Prop :=
  (m s).result = .error e ∧ (m s).last = t

theorem fails_bind {e : ε} : Fails (m >>= next) s e u ↔
    Fails m s e u ∨ ∃ a t, Ends m s a t ∧ Fails (next a) t e u := by
  have unfolded : (m >>= next) s = bind m next s := rfl
  unfold Fails Ends
  rw [unfolded]
  unfold bind
  cases result : (m s).result with
  | error e' =>
      constructor
      · rintro ⟨h, last⟩
        injection h with same
        exact .inl ⟨congrArg _ same, last⟩
      · rintro (⟨h, last⟩ | ⟨_, _, ⟨h, -⟩, -⟩)
        · injection h with same
          exact ⟨congrArg _ same, last⟩
        · cases h
  | ok a =>
      constructor
      · intro h
        exact .inr ⟨a, (m s).last, ⟨rfl, rfl⟩, h⟩
      · rintro (⟨h, -⟩ | ⟨_, _, ⟨same, rfl⟩, h⟩)
        · cases h
        · injection same with same
          rw [same]
          exact h

theorem fails_check {f : σ → Except ε α} {e : ε} :
    Fails (check f : Process ω σ ε α) s e t ↔ f s = .error e ∧ s = t :=
  Iff.rfl

def FailsAtWrite (m : Process ω σ ε α) : Prop := ∀ s e t, Fails m s e t → ∃ w, Cut m s w t

theorem failsAtWrite_pure : FailsAtWrite (Pure.pure a : Process ω σ ε α) :=
  fun _ _ _ h => nomatch h.1

theorem failsAtWrite_check {f : σ → α} :
    FailsAtWrite (check fun s => .ok (f s) : Process ω σ ε α) :=
  fun _ _ _ h => nomatch h.1

theorem failsAtWrite_write {f : σ → Except ε σ} : FailsAtWrite (write w f) := by
  intro s e t h
  refine ⟨w, cut_write.mpr ⟨rfl, ?_⟩⟩
  unfold Fails write at h
  cases written : f s with
  | ok u =>
      rw [written] at h
      cases h.1
  | error e' =>
      rw [written] at h
      exact h.2.symm

theorem FailsAtWrite.bind (first : FailsAtWrite m) (rest : ∀ a, FailsAtWrite (next a)) :
    FailsAtWrite (m >>= next) := by
  intro s e u h
  rcases fails_bind.mp h with here | ⟨a, t, ended, later⟩
  · obtain ⟨w, cut⟩ := first s e u here
    exact ⟨w, cut_bind.mpr (.inl cut)⟩
  · obtain ⟨w, cut⟩ := rest a t e u later
    exact ⟨w, cut_bind.mpr (.inr ⟨a, t, ended, cut⟩)⟩

theorem FailsAtWrite.onlyIf {c : Bool} {m : Process ω σ ε Unit} (h : FailsAtWrite m) :
    FailsAtWrite (Process.onlyIf c m) := by
  cases c with
  | true => exact h
  | false => exact failsAtWrite_pure

theorem FailsAtWrite.forEach {f : α → Process ω σ ε Unit} (l : List α)
    (h : ∀ a, FailsAtWrite (f a)) : FailsAtWrite (Process.forEach l f) := by
  induction l with
  | nil => exact failsAtWrite_pure
  | cons a l ih => exact (h a).bind fun _ => ih

/-! ### What is kept -/

/-- What is stored before and what is stored when it ends or is cut off are related. -/
structure Keeps (R : σ → σ → Prop) (m : Process ω σ ε α) : Prop where
  ends : ∀ s a t, Ends m s a t → R s t
  cut : ∀ s w t, Cut m s w t → R s t

theorem Keeps.mapError {R : σ → σ → Prop} {f : ε → ε'} (h : Keeps R m) : Keeps R (m.mapError f) :=
  ⟨fun s a t e => h.ends s a t (ends_mapError.mp e), fun s w t e => h.cut s w t e⟩

section Keeps

variable {R : σ → σ → Prop} [IsPreorder σ R]

theorem keeps_pure : Keeps R (Pure.pure a : Process ω σ ε α) :=
  ⟨fun s _ _ h => (ends_pure.mp h).2 ▸ refl_of R s, fun _ _ _ h => absurd h not_cut_pure⟩

theorem keeps_check {f : σ → Except ε α} : Keeps R (check f : Process ω σ ε α) :=
  ⟨fun s _ _ h => (ends_check.mp h).2 ▸ refl_of R s, fun _ _ _ h => absurd h not_cut_check⟩

theorem keeps_write {f : σ → Except ε σ} (kept : ∀ s t, f s = .ok t → R s t) : Keeps R (write w f) := by
  refine ⟨fun s _ t h => kept s t (ends_write.mp h), fun s _ t h => ?_⟩
  rw [(cut_write.mp h).2]
  exact refl_of R s

theorem Keeps.bind (first : Keeps R m) (rest : ∀ a, Keeps R (next a)) : Keeps R (m >>= next) := by
  refine ⟨fun s b u h => ?_, fun s w u h => ?_⟩
  · obtain ⟨a, t, here, later⟩ := ends_bind.mp h
    exact trans_of R (first.ends s a t here) ((rest a).ends t b u later)
  · rcases cut_bind.mp h with h | ⟨a, t, here, later⟩
    · exact first.cut s w u h
    · exact trans_of R (first.ends s a t here) ((rest a).cut t w u later)

theorem Keeps.onlyIf {c : Bool} {m : Process ω σ ε Unit} (h : Keeps R m) : Keeps R (onlyIf c m) := by
  cases c with
  | true => exact h
  | false => exact keeps_pure

theorem Keeps.forEach_mem {f : α → Process ω σ ε Unit} {l : List α}
    (h : ∀ a ∈ l, Keeps R (f a)) : Keeps R (Process.forEach l f) := by
  induction l with
  | nil => exact keeps_pure
  | cons a l ih =>
      exact (h a List.mem_cons_self).bind fun _ => ih fun b mem => h b (List.mem_cons_of_mem a mem)

theorem Keeps.forEach {f : α → Process ω σ ε Unit} (l : List α) (h : ∀ a, Keeps R (f a)) :
    Keeps R (Process.forEach l f) :=
  Keeps.forEach_mem fun a _ => h a

end Keeps

/-! ### Which writes it makes -/

/-- It is cut off only before writes of one kind. -/
def Writes (P : ω → Prop) (m : Process ω σ ε α) : Prop := ∀ s w t, Cut m s w t → P w

section Writes

variable {P : ω → Prop}

theorem writes_write {f : σ → Except ε σ} (h : P w) : Writes P (write w f) := by
  intro s v t cut
  rw [(cut_write.mp cut).1]
  exact h

theorem Writes.bind (first : Writes P m) (rest : ∀ a, Writes P (next a)) : Writes P (m >>= next) := by
  intro s w u cut
  rcases cut_bind.mp cut with here | ⟨a, t, -, later⟩
  · exact first s w u here
  · exact rest a t w u later

theorem Writes.onlyIf {c : Bool} {m : Process ω σ ε Unit} (h : Writes P m) : Writes P (onlyIf c m) :=
  fun s w t cut => h s w t (cut_onlyIf.mp cut).2

theorem Writes.forEach {f : α → Process ω σ ε Unit} (l : List α) (h : ∀ a, Writes P (f a)) :
    Writes P (forEach l f) := by
  induction l with
  | nil => exact fun _ _ _ cut => absurd cut not_cut_forEach_nil
  | cons a l ih => exact (h a).bind fun _ => ih

end Writes

end Process

/-! ### Steps that may be made again -/

/-- A step that is made stays made through the others, and changes nothing when it is made
again. -/
def Resumable (f : σ → α → Except ε σ) (l : List α) : Prop :=
  ∃ done : α → σ → Prop, (∀ a ∈ l, ∀ s t, f s a = .ok t → done a t) ∧
    (∀ a ∈ l, ∀ b ∈ l, ∀ s t, done a s → f s b = .ok t → done a t) ∧
    ∀ a ∈ l, ∀ s, done a s → f s a = .ok s

/-- Where some of the steps are made, all of them lead to the same end as the others. -/
theorem Resumable.again {f : σ → α → Except ε σ} {made left : List α} {s t u : σ}
    (resumable : Resumable f (made ++ left)) (before : made.foldlM f s = .ok t)
    (after : left.foldlM f t = .ok u) : (made ++ left).foldlM f t = .ok u := by
  obtain ⟨done, makes, stays, again⟩ := resumable
  -- What is made at first or made on the way is made in the end.
  have all : ∀ (l : List α) s, (∀ a ∈ l, a ∈ made) → l.foldlM f s = .ok t →
      ∀ a ∈ made, (done a s ∨ a ∈ l) → done a t := by
    intro l
    induction l with
    | nil =>
        intro s _ folds a _ made
        injection folds with same
        rw [← same]
        exact made.resolve_right List.not_mem_nil
    | cons b l ih =>
        intro s sub folds a member made
        rw [List.foldlM_cons] at folds
        cases step : f s b with
        | error e =>
            rw [step] at folds
            cases folds
        | ok v =>
            rw [step] at folds
            have there := sub b List.mem_cons_self
            refine ih v (fun c hc => sub c (List.mem_cons_of_mem b hc)) folds a member ?_
            rcases made with made | listed
            · exact .inl (stays a (List.mem_append_left left member) b
                (List.mem_append_left left there) s v made step)
            · rcases List.mem_cons.mp listed with rfl | later
              · exact .inl (makes a (List.mem_append_left left there) s v step)
              · exact .inr later
  have still : ∀ l : List α, (∀ a ∈ l, a ∈ made) → l.foldlM f t = .ok t := by
    intro l
    induction l with
    | nil => exact fun _ => rfl
    | cons b l ih =>
        intro sub
        have member := sub b List.mem_cons_self
        have made := all made s (fun _ h => h) before b member (.inr member)
        rw [List.foldlM_cons, again b (List.mem_append_left left member) t made]
        exact ih fun c hc => sub c (List.mem_cons_of_mem b hc)
  rw [List.foldlM_append, still made fun _ h => h]
  exact after

end Durable
