/-
The rule for emails, and the scan over the introducers.

The pattern of the domain tries as many labels as there are and then fewer, so what it matches
is the longest domain that starts there.  The scan looks for the local part only down to the
last email, and goes on behind an introducer that no email is around; so every email of the
rule shares something with one that is found.
-/
import Memos.Markdown.GfmEmail
import Memos.Lib.Scan

namespace Memos.Markdown.GfmEmail

open Base

variable {α : Type} {code : α → Nat} {source value l d : List α} {start stop introducer cursor lower n : Nat}

theorem standsAt_iff {index : Nat} {char : Char} :
    standsAt code source index char = true ↔ ∃ unit, source[index]? = some unit ∧ code unit = char.toNat := by
  unfold standsAt
  rw [Option.any_eq_true]
  exact exists_congr fun unit => and_congr_right fun _ => decide_eq_true_iff

/-! ### Domains -/

/-- Labels with dots between them; the last may start with anything and ends in a letter or digit. -/
inductive DomainTail (code : α → Nat) : List α → Prop
  | last (front : List α) (unit : α) (all : ∀ u ∈ front, isLabelChar (code u) = true)
      (ends : isASCIIAlphanumeric (code unit) = true) : DomainTail code (front ++ [unit])
  | label (label : List α) (dot : α) (rest : List α) (some : label ≠ [])
      (all : ∀ u ∈ label, isLabelChar (code u) = true) (isDot : code dot = '.'.toNat)
      (tail : DomainTail code rest) : DomainTail code (label ++ dot :: rest)

/-- At least one label with a dot, and more. -/
inductive Domain (code : α → Nat) : List α → Prop
  | mk (label : List α) (dot : α) (rest : List α) (some : label ≠ [])
      (all : ∀ u ∈ label, isLabelChar (code u) = true) (isDot : code dot = '.'.toNat)
      (tail : DomainTail code rest) : Domain code (label ++ dot :: rest)

theorem isLabelChar_of_alphanumeric {char : Nat} (is : isASCIIAlphanumeric char = true) :
    isLabelChar char = true := by
  unfold isLabelChar
  rw [is]
  rfl

theorem Domain.tail (is : Domain code d) : DomainTail code d := by
  cases is with
  | mk label dot rest some all isDot tail => exact .label label dot rest some all isDot tail

theorem DomainTail.concat {unit : α} (is : DomainTail code d) (ends : isASCIIAlphanumeric (code unit) = true) :
    DomainTail code (d ++ [unit]) := by
  induction is with
  | last front last all ends' =>
      refine .last (front ++ [last]) unit (fun u mem => ?_) ends
      rcases List.mem_append.mp mem with mem | mem
      · exact all u mem
      · exact List.mem_singleton.mp mem ▸ isLabelChar_of_alphanumeric ends'
  | label label dot rest some all isDot _ ih =>
      rw [List.append_assoc]
      exact .label label dot (rest ++ [unit]) some all isDot ih

theorem Domain.concat {unit : α} (is : Domain code d) (ends : isASCIIAlphanumeric (code unit) = true) :
    Domain code (d ++ [unit]) := by
  cases is with
  | mk label dot rest some all isDot tail =>
      rw [List.append_assoc]
      exact .mk label dot (rest ++ [unit]) some all isDot (tail.concat ends)

theorem DomainTail.ascii (is : DomainTail code d) : ∀ u ∈ d, code u < 128 := by
  have small : ∀ n, isLabelChar n = true → n < 128 := by
    intro n is
    unfold isLabelChar isASCIIAlphanumeric isASCIILetter isASCIIDigit at is
    simp at is
    omega
  induction is with
  | last front unit all ends =>
      intro u mem
      rcases List.mem_append.mp mem with mem | mem
      · exact small _ (all u mem)
      · exact List.mem_singleton.mp mem ▸ small _ (isLabelChar_of_alphanumeric ends)
  | label label dot rest _ all isDot _ ih =>
      intro u mem
      rcases List.mem_append.mp mem with mem | mem
      · exact small _ (all u mem)
      · rcases List.mem_cons.mp mem with rfl | mem
        · rw [isDot]
          decide
        · exact ih u mem

/-! ### What the pattern matches -/

theorem lastLabelLength_sound (found : lastLabelLength code l = some n) :
    n ≤ (l.takeWhile fun u => isLabelChar (code u)).length ∧ DomainTail code (l.take n) := by
  unfold lastLabelLength at found
  dsimp only at found
  split at found
  next => cases found
  next some =>
    cases found
    have front := List.rdropWhile_prefix (fun u => !isASCIIAlphanumeric (code u))
      (l.takeWhile fun u => isLabelChar (code u))
    refine ⟨front.length_le, ?_⟩
    have whole := List.prefix_iff_eq_take.mp (front.trans (List.takeWhile_prefix _))
    rw [← whole, ← List.dropLast_concat_getLast some]
    refine .last _ _ (fun u mem => ?_) ?_
    · exact List.mem_takeWhile_imp (p := fun u => isLabelChar (code u))
        (front.subset (List.dropLast_subset _ mem))
    · have ends := List.rdropWhile_last_not _ _ some
      simpa using ends

theorem le_length_rdropWhile (p : α → Bool) {unit : α} (kept : p unit = false) (front more : List α) :
    (front ++ [unit]).length ≤ ((front ++ [unit] ++ more).rdropWhile p).length := by
  induction more using List.reverseRecOn with
  | nil => rw [List.append_nil, List.rdropWhile_concat_neg p front unit (Bool.eq_false_iff.mp kept)]
  | append_singleton more last ih =>
      rw [← List.append_assoc, List.rdropWhile_concat]
      split
      · exact ih
      · simp only [List.length_append]
        omega

theorem lastLabelLength_complete {front : List α} {unit : α} (within : front ++ [unit] <+: l)
    (all : ∀ u ∈ front, isLabelChar (code u) = true) (ends : isASCIIAlphanumeric (code unit) = true) :
    (front ++ [unit]).length ≤ (l.takeWhile fun u => isLabelChar (code u)).length ∧
      ∃ n, lastLabelLength code l = some n ∧ (front ++ [unit]).length ≤ n := by
  obtain ⟨rest, rfl⟩ := within
  have label : ∀ u ∈ front ++ [unit], isLabelChar (code u) = true := by
    intro u mem
    rcases List.mem_append.mp mem with mem | mem
    · exact all u mem
    · exact List.mem_singleton.mp mem ▸ isLabelChar_of_alphanumeric ends
  have run : (front ++ [unit] ++ rest).takeWhile (fun u => isLabelChar (code u)) =
      front ++ [unit] ++ rest.takeWhile fun u => isLabelChar (code u) :=
    List.takeWhile_append_of_pos label
  have kept : (!isASCIIAlphanumeric (code unit)) = false := by
    rw [ends]
    rfl
  have long := le_length_rdropWhile (fun u => !isASCIIAlphanumeric (code u)) kept front
    (rest.takeWhile fun u => isLabelChar (code u))
  rw [← run] at long
  refine ⟨by rw [run]; simp, ?_⟩
  unfold lastLabelLength
  dsimp only
  rw [if_neg]
  · exact ⟨_, rfl, long⟩
  · intro none
    rw [none, List.length_nil, List.length_append, List.length_singleton] at long
    omega

theorem eq_of_dot {label : List α} (is : label = l.takeWhile fun u => isLabelChar (code u))
    (dot : standsAt code l label.length '.' = true) :
    ∃ unit, code unit = '.'.toNat ∧ l = label ++ unit :: l.drop (label.length + 1) := by
  obtain ⟨unit, there, isDot⟩ := standsAt_iff.mp dot
  obtain ⟨inside, rfl⟩ := List.getElem?_eq_some_iff.mp there
  refine ⟨_, isDot, ?_⟩
  have front : label = l.take label.length :=
    List.prefix_iff_eq_take.mp (is ▸ List.takeWhile_prefix _)
  calc l = l.take label.length ++ l.drop label.length := (List.take_append_drop _ l).symm
    _ = label ++ l[label.length] :: l.drop (label.length + 1) := by
        rw [← front, List.drop_eq_getElem_cons inside]

theorem labelsLength_sound (found : labelsLength code l = some n) :
    n ≤ l.length ∧ Domain code (l.take n) ∧
      (l.takeWhile fun u => isLabelChar (code u)).length < n := by
  induction l using labelsLength.induct code generalizing n with
  | case1 source label inside rest =>
      rename_i ih
      rw [labelsLength, dif_pos inside] at found
      obtain ⟨m, from', rfl⟩ := Option.map_eq_some_iff.mp found
      obtain ⟨dot, isDot, parts⟩ := eq_of_dot rfl inside.2
      have tail : DomainTail code (rest.take m) ∧ m ≤ rest.length := by
        rcases Option.or_eq_some_iff.mp from' with more | ⟨-, last⟩
        · obtain ⟨fits, domain, -⟩ := ih more
          exact ⟨domain.tail, fits⟩
        · obtain ⟨fits, tail⟩ := lastLabelLength_sound last
          exact ⟨tail, Nat.le_trans fits (List.takeWhile_prefix _).length_le⟩
      have front : source.take (label.length + 1 + m) = label ++ dot :: rest.take m := by
        rw [parts, Nat.add_assoc, List.take_length_add_append, Nat.add_comm 1 m, List.take_succ_cons]
      refine ⟨?_, ?_, by omega⟩
      · have whole : source.length = label.length + (rest.length + 1) := by
          rw [← List.length_cons, ← List.length_append, ← parts]
        have fits := tail.2
        show label.length + 1 + m ≤ source.length
        omega
      · rw [front]
        refine .mk label dot _ inside.1 (fun u mem => ?_) isDot tail.1
        exact List.mem_takeWhile_imp (p := fun u => isLabelChar (code u)) mem
  | case2 source label =>
      rename_i outside
      rw [labelsLength, dif_neg outside] at found
      cases found

theorem labelsLength_complete (within : d <+: l) (is : Domain code d) :
    ∃ n, labelsLength code l = some n ∧ d.length ≤ n := by
  obtain ⟨first, dot, tail, some, all, isDot, isTail⟩ := is
  obtain ⟨more, rfl⟩ := within
  induction h : first.length + 1 + tail.length using Nat.strong_induction_on generalizing first dot tail more with
  | _ size ih =>
  have label : (first ++ dot :: tail ++ more).takeWhile (fun u => isLabelChar (code u)) = first := by
    rw [List.append_assoc, List.cons_append]
    refine Span.takeWhile_eq all fun u mem => ?_
    cases mem
    rw [isDot]
    decide
  have inside : first ≠ [] ∧ standsAt code (first ++ dot :: tail ++ more) first.length '.' = true := by
    refine ⟨some, standsAt_iff.mpr ⟨dot, ?_, isDot⟩⟩
    simp
  have rest : (first ++ dot :: tail ++ more).drop (first.length + 1) = tail ++ more := by
    simp [List.drop_append]
  have found : ∃ n, (labelsLength code (tail ++ more)).or (lastLabelLength code (tail ++ more)) = .some n ∧
      tail.length ≤ n := by
    cases isTail with
    | last front unit all ends =>
        obtain ⟨short, n, found, fits⟩ := lastLabelLength_complete (List.prefix_append _ more) all ends
        cases longer : labelsLength code (front ++ [unit] ++ more) with
        | none => exact ⟨n, by rw [Option.none_or, found], fits⟩
        | some m => exact ⟨m, rfl, Nat.le_trans short (Nat.le_of_lt (labelsLength_sound longer).2.2)⟩
    | label first' dot' tail' some' all' isDot' isTail' =>
        obtain ⟨n, found, fits⟩ := ih (first'.length + 1 + tail'.length) (by simp at h; omega)
          first' dot' tail' some' all' isDot' isTail' more rfl
        exact ⟨n, by rw [found, Option.some_or], fits⟩
  obtain ⟨n, found, fits⟩ := found
  refine ⟨first.length + 1 + n, ?_, ?_⟩
  · rw [labelsLength, label, dif_pos inside, rest]
    exact congrArg (Option.map (first.length + 1 + ·)) found
  · rw [List.length_append, List.length_cons]
    omega

/-- The longest domain behind an introducer ends at `stop`. -/
structure DomainAt (code : α → Nat) (value : List α) (introducer stop : Nat) : Prop where
  sign : standsAt code value introducer '@' = true
  inside : stop ≤ value.length
  domain : Domain code ((value.take stop).drop (introducer + 1))
  longest : ∀ d, d <+: value.drop (introducer + 1) → Domain code d → d.length ≤ stop - (introducer + 1)

theorem standsAt_drop {char : Char} :
    standsAt code (value.drop introducer) 0 char = standsAt code value introducer char := by
  unfold standsAt
  rw [List.getElem?_drop, Nat.add_zero]

theorem domainLength_sound (found : domainLength code (value.drop introducer) = some n) :
    DomainAt code value introducer (introducer + n) := by
  unfold domainLength at found
  split at found
  next sign =>
    obtain ⟨m, labels, rfl⟩ := Option.map_eq_some_iff.mp found
    rw [List.drop_drop] at labels
    obtain ⟨fits, domain, -⟩ := labelsLength_sound labels
    rw [standsAt_drop] at sign
    have before := lt_of_standsAt sign
    rw [List.length_drop] at fits
    refine ⟨sign, by omega, ?_, fun d within is => ?_⟩
    · rw [List.drop_take]
      have count : introducer + (1 + m) - (introducer + 1) = m := by omega
      rwa [count]
    · obtain ⟨m', labels', le⟩ := labelsLength_complete within is
      rw [labels, Option.some_inj] at labels'
      omega
  next => cases found

theorem Domain.length_pos (is : Domain code d) : 0 < d.length := by
  cases is
  simp only [List.length_append, List.length_cons]
  omega

theorem DomainAt.lt (is : DomainAt code value introducer stop) : introducer + 1 < stop := by
  have some := is.domain.length_pos
  rw [List.length_drop, List.length_take] at some
  omega

theorem domainLength_complete (is : DomainAt code value introducer stop) :
    domainLength code (value.drop introducer) = some (stop - introducer) := by
  have whole : (value.take stop).drop (introducer + 1) <+: value.drop (introducer + 1) := by
    rw [List.drop_take]
    exact List.take_prefix _ _
  obtain ⟨n, labels, le⟩ := labelsLength_complete whole is.domain
  obtain ⟨fits, domain, -⟩ := labelsLength_sound labels
  have least := is.longest _ (List.take_prefix n _) domain
  have lt := is.lt
  have inside := is.inside
  rw [List.length_drop, List.length_take] at le
  rw [List.length_take, Nat.min_eq_left fits] at least
  unfold domainLength
  rw [standsAt_drop, if_pos is.sign, List.drop_drop, labels, Option.map_some]
  congr 1
  omega

/-- What follows a domain is no letter or digit. -/
theorem DomainAt.not_alphanumeric (is : DomainAt code value introducer stop) {unit : α}
    (there : value[stop]? = some unit) : isASCIIAlphanumeric (code unit) = false := by
  by_contra more
  have lt := is.lt
  obtain ⟨inside, rfl⟩ := List.getElem?_eq_some_iff.mp there
  have longer := is.domain.concat (Bool.not_eq_false _ ▸ more)
  have within : (value.take stop).drop (introducer + 1) ++ [value[stop]] <+: value.drop (introducer + 1) := by
    have taken : (value.take stop).drop (introducer + 1) ++ [value[stop]] =
        (value.take (stop + 1)).drop (introducer + 1) := by
      rw [List.take_add_one, there, List.drop_append_of_le_length]
      · rfl
      · rw [List.length_take]
        omega
    rw [taken, List.drop_take]
    exact List.take_prefix _ _
  have bound := is.longest _ within longer
  rw [List.length_append, List.length_drop, List.length_take, List.length_singleton] at bound
  omega

/-! ### Emails -/

def LocalAt (code : α → Nat) (value : List α) (index : Nat) : Prop :=
  ∃ unit, value[index]? = some unit ∧ isLocalChar (code unit) = true

/-- An email of the rule: characters of a local part, an introducer, and the longest domain
behind it, if no hyphen or underscore follows. -/
structure Email (code : α → Nat) (value : List α) (start introducer stop : Nat) : Prop where
  some : start < introducer
  own : ∀ i, start ≤ i → i < introducer → LocalAt code value i
  domain : DomainAt code value introducer stop
  ends : standsAt code value stop '-' = false ∧ standsAt code value stop '_' = false

theorem localStart_spec (code : α → Nat) (value : List α) (le : lower ≤ introducer) :
    lower ≤ localStart code value lower introducer ∧ localStart code value lower introducer ≤ introducer ∧
      (∀ i, localStart code value lower introducer ≤ i → i < introducer → LocalAt code value i) ∧
      ∀ s, lower ≤ s → s ≤ introducer → (∀ i, s ≤ i → i < introducer → LocalAt code value i) →
        localStart code value lower introducer ≤ s := by
  induction introducer with
  | zero => exact ⟨le, Nat.le_refl 0, fun i _ lt => absurd lt (Nat.not_lt_zero i), fun s _ _ _ => Nat.zero_le s⟩
  | succ start ih =>
      rw [localStart]
      split
      next more =>
        obtain ⟨inside, here⟩ := Bool.and_eq_true _ _ ▸ more
        have here : LocalAt code value start := by
          obtain ⟨unit, there, is⟩ := (Option.any_eq_true _ _).mp here
          exact ⟨unit, there, is⟩
        obtain ⟨above, below, own, least⟩ := ih (Nat.le_of_lt_succ (of_decide_eq_true inside))
        refine ⟨above, Nat.le_succ_of_le below, fun i from' lt => ?_, fun s from' le' own' => ?_⟩
        · by_cases last : i = start
          · exact last ▸ here
          · exact own i from' (by omega)
        · by_cases last : s = start + 1
          · omega
          · exact least s from' (by omega) fun i after before => own' i after (by omega)
      next stops =>
        refine ⟨le, Nat.le_refl _, fun i from' lt => by omega, fun s from' le' own' => ?_⟩
        by_contra before
        obtain ⟨unit, there, is⟩ := own' start (by omega) (Nat.lt_succ_self start)
        refine stops ?_
        rw [there, Option.any_some, is, Bool.and_true]
        exact decide_eq_true (by omega)

theorem matchEmailAt_sound (le : lower ≤ introducer)
    (found : matchEmailAt code value introducer lower value.length = some (start, stop)) :
    lower ≤ start ∧ Email code value start introducer stop := by
  unfold matchEmailAt at found
  dsimp only at found
  rw [List.take_length] at found
  obtain ⟨above, below, own, -⟩ := localStart_spec code value le
  split at found
  next => cases found
  next apart =>
    split at found
    next => cases found
    next length domain =>
      have is := domainLength_sound domain
      split at found
      next => cases found
      next ends =>
        cases found
        refine ⟨above, Nat.lt_of_le_of_ne below apart, own, is, ?_⟩
        by_cases last : introducer + length < value.length
        · rw [decide_eq_true last, Bool.true_and, Bool.not_eq_true] at ends
          exact Bool.or_eq_false_iff.mp ends
        · have none : ∀ char, standsAt code value (introducer + length) char = false := by
            intro char
            by_contra there
            exact last (lt_of_standsAt (Bool.not_eq_false _ ▸ there))
          exact ⟨none _, none _⟩

theorem matchEmailAt_complete (is : Email code value start introducer stop) (lt : lower < introducer) :
    ∃ start', matchEmailAt code value introducer lower value.length = some (start', stop) := by
  obtain ⟨-, below, -, least⟩ := localStart_spec code value (Nat.le_of_lt lt)
  have apart : localStart code value lower introducer ≠ introducer := by
    have some := is.some
    have before := least (introducer - 1) (by omega) (Nat.sub_le introducer 1) fun i after before =>
      is.own i (by omega) before
    omega
  have after := is.domain.lt
  refine ⟨localStart code value lower introducer, ?_⟩
  unfold matchEmailAt
  dsimp only
  rw [List.take_length, if_neg apart, domainLength_complete is.domain]
  dsimp only
  have place : introducer + (stop - introducer) = stop := by omega
  rw [place, is.ends.1, is.ends.2, Bool.or_self, Bool.and_false, if_neg Bool.false_ne_true]

/-! ### The scan -/

/-- What the scan finds from `cursor` on: emails apart from each other, and every email of the
rule shares something with one of them, except for one whose local part ends at `cursor`. -/
structure Scans (code : α → Nat) (value : List α) (cursor : Nat) (found : List (Nat × Nat)) : Prop where
  sound : ∀ m ∈ found, cursor ≤ m.1 ∧ ∃ introducer, Email code value m.1 introducer m.2
  apart : found.Pairwise fun m m' => m.2 ≤ m'.1
  complete : ∀ start introducer stop, Email code value start introducer stop → cursor < introducer →
    ∃ m ∈ found, m.1 < stop ∧ start < m.2

/-- The next introducer, and none before it. -/
theorem next_introducer {relativeAt : Nat}
    (found : ((value.drop cursor).findIdx? fun unit => code unit = '@'.toNat) = some relativeAt) :
    standsAt code value (cursor + relativeAt) '@' = true ∧
      ∀ i, cursor ≤ i → i < cursor + relativeAt → standsAt code value i '@' = false := by
  obtain ⟨inside, is, first⟩ := List.findIdx?_eq_some_iff_getElem.mp found
  constructor
  · refine standsAt_iff.mpr ⟨_, ?_, of_decide_eq_true is⟩
    rw [← List.getElem?_drop]
    exact List.getElem?_eq_getElem inside
  · intro i from' before
    by_contra there
    obtain ⟨unit, there, isSign⟩ := standsAt_iff.mp (Bool.not_eq_false _ ▸ there)
    refine first (i - cursor) (by omega) (decide_eq_true ?_)
    have same : (value.drop cursor)[i - cursor]? = some unit := by
      rw [List.getElem?_drop, Nat.add_sub_cancel' from', there]
    rw [List.getElem?_eq_getElem (by omega), Option.some_inj] at same
    rw [same, isSign]

theorem no_introducer (none : ((value.drop cursor).findIdx? fun unit => code unit = '@'.toNat) = none)
    (from' : cursor ≤ introducer) : standsAt code value introducer '@' = false := by
  by_contra there
  obtain ⟨unit, there, isSign⟩ := standsAt_iff.mp (Bool.not_eq_false _ ▸ there)
  have mem : unit ∈ value.drop cursor := by
    refine List.mem_of_getElem? (i := introducer - cursor) ?_
    rw [List.getElem?_drop, Nat.add_sub_cancel' from', there]
  have other := List.findIdx?_eq_none_iff.mp none unit mem
  rw [isSign] at other
  cases other

theorem Email.sign (is : Email code value start introducer stop) :
    standsAt code value introducer '@' = true := is.domain.sign

/-- The introducer of an email does not stand right behind another one. -/
theorem Email.not_behind (is : Email code value start introducer stop)
    (sign : standsAt code value n '@' = true) : introducer ≠ n + 1 := by
  rintro rfl
  have some := is.some
  obtain ⟨unit, there, isSign⟩ := standsAt_iff.mp sign
  obtain ⟨unit', there', isLocal⟩ := is.own n (by omega) (Nat.lt_succ_self n)
  rw [there, Option.some_inj] at there'
  rw [← there', isSign] at isLocal
  exact absurd isLocal (by decide)

theorem scans_findEmails : Scans code value cursor (findEmails code value cursor) := by
  fun_induction findEmails code value cursor with
  | case1 cursor inside none =>
      refine ⟨fun m mem => absurd mem List.not_mem_nil, .nil, fun start introducer stop is after => ?_⟩
      have sign := is.sign
      rw [no_introducer none (Nat.le_of_lt after)] at sign
      cases sign
  | case2 cursor inside relativeAt found introducer fails ih =>
      obtain ⟨sign, first⟩ := next_introducer found
      refine ⟨fun m mem => ?_, ih.apart, fun start at' stop is after => ?_⟩
      · obtain ⟨later, is⟩ := ih.sound m mem
        exact ⟨by omega, is⟩
      · have later : cursor + relativeAt ≤ at' := by
          by_contra before
          have other := first at' (Nat.le_of_lt after) (Nat.lt_of_not_le before)
          rw [is.sign] at other
          cases other
        by_cases here : at' = introducer
        · obtain ⟨start', matches'⟩ := matchEmailAt_complete is after
          rw [here, fails] at matches'
          cases matches'
        · exact ih.complete start at' stop is (by have := is.not_behind sign; omega)
  | case3 cursor inside relativeAt found introducer first last matches' ih =>
      obtain ⟨sign, before⟩ := next_introducer found
      obtain ⟨above, email⟩ := matchEmailAt_sound (Nat.le_add_right cursor relativeAt) matches'
      have some := email.some
      have behind := email.domain.lt
      refine ⟨fun m mem => ?_, ?_, fun start at' stop is after => ?_⟩
      · rcases List.mem_cons.mp mem with rfl | mem
        · exact ⟨above, introducer, email⟩
        · obtain ⟨later, is⟩ := ih.sound m mem
          exact ⟨by omega, is⟩
      · exact List.pairwise_cons.mpr ⟨fun m mem => (ih.sound m mem).1, ih.apart⟩
      · have later : introducer ≤ at' := by
          by_contra earlier
          have other := before at' (Nat.le_of_lt after) (Nat.lt_of_not_le earlier)
          rw [is.sign] at other
          cases other
        have some' := is.some
        have behind' := is.domain.lt
        by_cases beyond : last < at'
        · obtain ⟨m, mem, overlaps⟩ := ih.complete start at' stop is beyond
          exact ⟨m, List.mem_cons_of_mem _ mem, overlaps⟩
        · refine ⟨(first, last), List.mem_cons_self, ?_, ?_⟩
          · show first < stop
            omega
          · show start < last
            omega
  | case4 cursor outside =>
      refine ⟨fun m mem => absurd mem List.not_mem_nil, .nil, fun start introducer stop is after => ?_⟩
      have before := lt_of_standsAt is.sign
      omega

end Memos.Markdown.GfmEmail

/-
Emails in the codings of a text.

A domain is ASCII, and so is a local part, so an email in the bytes or in the code units of a
text is an email in the text.  The scan goes through the units by the same steps as through
the text, only at the offsets of the characters.
-/

namespace Memos.Markdown.GfmEmail

open Base

variable {α β : Type} {code : α → Nat} {code' : β → Nat} {e : Coding α} {text : List Char} {i lower introducer : Nat}

/-! ### Domains -/

theorem forall_of_map_eq {p : Nat → Bool} {d : List α} {d' : List β} (same : d'.map code' = d.map code)
    (all : ∀ u ∈ d, p (code u) = true) : ∀ u ∈ d', p (code' u) = true := by
  intro u mem
  obtain ⟨v, mem', is⟩ := List.mem_map.mp (same ▸ List.mem_map_of_mem (f := code') mem)
  exact is ▸ all v mem'

theorem DomainTail.congr {d : List α} {d' : List β} (is : DomainTail code d)
    (same : d'.map code' = d.map code) : DomainTail code' d' := by
  induction is generalizing d' with
  | last front unit all ends =>
      rw [List.map_append] at same
      obtain ⟨front', last', rfl, sameFront, sameLast⟩ := List.map_eq_append_iff.mp same
      obtain ⟨unit', rfl, sameUnit⟩ := List.map_eq_singleton_iff.mp sameLast
      exact .last front' unit' (forall_of_map_eq sameFront all) (sameUnit ▸ ends)
  | label label dot rest some all isDot _ ih =>
      rw [List.map_append] at same
      obtain ⟨label', more', rfl, sameLabel, sameMore⟩ := List.map_eq_append_iff.mp same
      obtain ⟨dot', rest', rfl, sameDot, sameRest⟩ := List.map_eq_cons_iff.mp sameMore
      refine .label label' dot' rest' ?_ (forall_of_map_eq sameLabel all) (sameDot.trans isDot) (ih sameRest)
      rintro rfl
      exact some (List.map_eq_nil_iff.mp sameLabel.symm)

theorem Domain.congr {d : List α} {d' : List β} (is : Domain code d) (same : d'.map code' = d.map code) :
    Domain code' d' := by
  cases is with
  | mk label dot rest some all isDot tail =>
      rw [List.map_append] at same
      obtain ⟨label', more', rfl, sameLabel, sameMore⟩ := List.map_eq_append_iff.mp same
      obtain ⟨dot', rest', rfl, sameDot, sameRest⟩ := List.map_eq_cons_iff.mp sameMore
      refine .mk label' dot' rest' ?_ (forall_of_map_eq sameLabel all) (sameDot.trans isDot) (tail.congr sameRest)
      rintro rfl
      exact some (List.map_eq_nil_iff.mp sameLabel.symm)

/-- The domain at the start of the units is the one at the start of the text. -/
theorem labelsLength_encode (text : List Char) :
    labelsLength e.code (e.encode text) = labelsLength Char.toNat text := by
  have up : ∀ n, labelsLength e.code (e.encode text) = some n →
      ∃ m, labelsLength Char.toNat text = some m ∧ n ≤ m := by
    intro n found
    obtain ⟨fits, domain, -⟩ := labelsLength_sound found
    obtain ⟨r, a, rfl, units, -, codes⟩ :=
      Coding.exists_run (List.take_append_drop n (e.encode text)).symm domain.tail.ascii
    have length := congrArg List.length codes
    rw [List.length_map, List.length_map, List.length_take, Nat.min_eq_left fits] at length
    obtain ⟨m, found', le⟩ := labelsLength_complete (List.prefix_append r a) (domain.congr codes)
    exact ⟨m, found', length ▸ le⟩
  have down : ∀ m, labelsLength Char.toNat text = some m →
      ∃ n, labelsLength e.code (e.encode text) = some n ∧ m ≤ n := by
    intro m found
    obtain ⟨fits, domain, -⟩ := labelsLength_sound found
    have codes := Coding.encode_ascii (e := e) domain.tail.ascii
    have within : e.encode (text.take m) <+: e.encode text := by
      refine ⟨e.encode (text.drop m), ?_⟩
      rw [← Coding.encode_append, List.take_append_drop]
    obtain ⟨n, found', le⟩ := labelsLength_complete within (domain.congr codes)
    have length := congrArg List.length codes
    rw [List.length_map, List.length_map, List.length_take, Nat.min_eq_left fits] at length
    exact ⟨n, found', length ▸ le⟩
  cases units : labelsLength e.code (e.encode text) with
  | none =>
      cases chars : labelsLength Char.toNat text with
      | none => rfl
      | some m =>
          obtain ⟨n, found, -⟩ := down m chars
          rw [units] at found
          cases found
  | some n =>
      obtain ⟨m, chars, le⟩ := up n units
      obtain ⟨n', found, le'⟩ := down m chars
      rw [units, Option.some_inj] at found
      rw [chars, Option.some_inj]
      omega

/-! ### Places -/

theorem standsAt_encode {char : Char} (small : char.toNat < 128) (inside : i ≤ text.length) :
    standsAt e.code (e.encode text) (e.offset text i) char = standsAt Char.toNat text i char := by
  unfold standsAt
  cases there : text[i]? with
  | none =>
      have last : i = text.length := Nat.le_antisymm inside (List.getElem?_eq_none_iff.mp there)
      rw [last, Coding.offset_length, List.getElem?_eq_none (Nat.le_refl _)]
      rfl
  | some c =>
      obtain ⟨u, there', same⟩ := Coding.exists_first (e := e) there
      rw [there', Option.any_some, Option.any_some]
      exact decide_eq_decide.mpr (by omega)

theorem lt_of_isLocalChar {char : Nat} (is : isLocalChar char = true) : char < 128 := by
  unfold isLocalChar isASCIIAlphanumeric isASCIILetter isASCIIDigit at is
  simp at is
  omega

theorem localStart_encode (le : lower ≤ introducer) (inside : introducer ≤ text.length) :
    localStart e.code (e.encode text) (e.offset text lower) (e.offset text introducer) =
      e.offset text (localStart Char.toNat text lower introducer) := by
  induction introducer with
  | zero =>
      rw [Nat.le_zero.mp le]
      rfl
  | succ i ih =>
      have there := List.getElem?_eq_getElem (Nat.lt_of_succ_le inside)
      obtain ⟨m, u, next, last, same⟩ := Coding.exists_last (e := e) there
      have before : e.offset text lower < m + 1 ↔ lower < i + 1 := next ▸ Coding.offset_lt_iff inside
      rw [next, localStart, localStart, there, last, Option.any_some, Option.any_some, decide_eq_decide.mpr before]
      rcases same with here | ⟨large, large'⟩
      · have isU : isLocalChar (e.code u) = isLocalChar text[i].toNat := congrArg isLocalChar here.1
        rw [isU]
        split
        next more =>
          rw [here.2]
          refine ih ?_ (Nat.le_of_succ_le inside)
          exact Nat.le_of_lt_succ (of_decide_eq_true (Bool.and_eq_true _ _ ▸ more).1)
        next => exact next.symm
      · have none : ∀ n, 128 ≤ n → isLocalChar n = false := by
          intro n large
          by_contra is
          have small := lt_of_isLocalChar (Bool.not_eq_false _ ▸ is)
          omega
        rw [none _ large, none _ large', Bool.and_false, if_neg Bool.false_ne_true, if_neg Bool.false_ne_true]
        exact next.symm

theorem offset_behind (sign : standsAt Char.toNat text introducer '@' = true) :
    e.offset text (introducer + 1) = e.offset text introducer + 1 := by
  obtain ⟨c, there, isSign⟩ := standsAt_iff.mp sign
  exact (Coding.offset_succ there (by rw [isSign]; decide)).1

theorem offset_of_domainAt {stop : Nat} (is : DomainAt Char.toNat text introducer stop) :
    e.offset text introducer + (stop - introducer) = e.offset text stop := by
  have lt := is.lt
  have inside := is.inside
  have split : stop = introducer + 1 + (stop - (introducer + 1)) := by omega
  have one := offset_behind (e := e) is.sign
  have rest : e.offset (text.drop (introducer + 1)) (stop - (introducer + 1)) = stop - (introducer + 1) := by
    unfold Coding.offset
    rw [← List.drop_take, Coding.length_encode_ascii is.domain.tail.ascii, List.length_drop, List.length_take]
    omega
  calc e.offset text introducer + (stop - introducer)
      = e.offset text (introducer + 1) + (stop - (introducer + 1)) := by omega
    _ = e.offset text (introducer + 1) + e.offset (text.drop (introducer + 1)) (stop - (introducer + 1)) := by
        rw [rest]
    _ = e.offset text (introducer + 1 + (stop - (introducer + 1))) := (Coding.offset_add _ _).symm
    _ = e.offset text stop := by rw [← split]

/-! ### The scan -/

theorem domainLength_encode (text : List Char) :
    domainLength e.code (e.encode text) = domainLength Char.toNat text := by
  have sign : standsAt e.code (e.encode text) 0 '@' = standsAt Char.toNat text 0 '@' :=
    standsAt_encode (by decide) (Nat.zero_le text.length)
  unfold domainLength
  rw [sign]
  split
  next there =>
    obtain ⟨c, head, isSign⟩ := standsAt_iff.mp there
    have drop : (e.encode text).drop 1 = e.encode (text.drop 1) := by
      cases text with
      | nil => rfl
      | cons c' text =>
          rw [List.getElem?_cons_zero, Option.some_inj] at head
          obtain ⟨u, is, -⟩ := e.ascii c' (by rw [head, isSign]; decide)
          rw [Coding.encode_cons, is]
          rfl
    rw [drop, labelsLength_encode]
  next => rfl

theorem matchEmailAt_encode (le : lower ≤ introducer) (inside : introducer < text.length) :
    matchEmailAt e.code (e.encode text) (e.offset text introducer) (e.offset text lower) (e.encode text).length =
      (matchEmailAt Char.toNat text introducer lower text.length).map fun m =>
        (e.offset text m.1, e.offset text m.2) := by
  obtain ⟨-, below, -, -⟩ := localStart_spec Char.toNat text le
  have empty : e.offset text (localStart Char.toNat text lower introducer) = e.offset text introducer ↔
      localStart Char.toNat text lower introducer = introducer := by
    constructor
    · intro same
      by_contra apart
      have lt := Coding.offset_lt (e := e) (Nat.lt_of_le_of_ne below apart) (Nat.lt_of_le_of_lt below inside)
      omega
    · exact fun same => congrArg _ same
  unfold matchEmailAt
  dsimp only
  rw [List.take_length, List.take_length, localStart_encode le (Nat.le_of_lt inside), Coding.drop_offset,
    domainLength_encode]
  by_cases apart : localStart Char.toNat text lower introducer = introducer
  · rw [if_pos (empty.mpr apart), if_pos apart]
    rfl
  · rw [if_neg (apart ∘ empty.mp), if_neg apart]
    cases domain : domainLength Char.toNat (text.drop introducer) with
    | none => rfl
    | some length =>
        have is := domainLength_sound domain
        have stop := offset_of_domainAt (e := e) is
        rw [Nat.add_sub_cancel_left] at stop
        have before : e.offset text (introducer + length) < (e.encode text).length ↔
            introducer + length < text.length := by
          rw [← Coding.offset_length]
          exact Coding.offset_lt_iff (Nat.le_refl _)
        have within : decide (e.offset text (introducer + length) < (e.encode text).length) =
            decide (introducer + length < text.length) := decide_eq_decide.mpr before
        dsimp only
        rw [stop, standsAt_encode (by decide) is.inside, standsAt_encode (by decide) is.inside, within]
        split
        · rfl
        · rfl

theorem findEmails_next {value : List α} {cursor relativeAt : Nat} (here : cursor < value.length)
    (found : ((value.drop cursor).findIdx? fun unit => code unit = '@'.toNat) = some relativeAt) :
    findEmails code value cursor =
      ((matchEmailAt code value (cursor + relativeAt) cursor value.length).map fun m =>
        m :: findEmails code value m.2).getD (findEmails code value (cursor + relativeAt + 1)) := by
  rw [findEmails, if_pos here, found]
  dsimp only
  split
  next fails => rw [fails, Option.map_none, Option.getD_none]
  next first last matches' => rw [matches', Option.map_some, Option.getD_some]

theorem findEmails_encode (inside : i ≤ text.length) :
    findEmails e.code (e.encode text) (e.offset text i) =
      (findEmails Char.toNat text i).map fun m => (e.offset text m.1, e.offset text m.2) := by
  have next (i : Nat) : ((e.encode text).drop (e.offset text i)).findIdx? (fun u => e.code u = '@'.toNat) =
      ((text.drop i).findIdx? fun c => c.toNat = '@'.toNat).map (e.offset (text.drop i)) := by
    rw [Coding.drop_offset]
    refine Coding.findIdx?_encode (p := fun n => n = '@'.toNat) (fun n is => ?_) (text.drop i)
    rw [of_decide_eq_true is]
    decide
  have more (i : Nat) (inside : i ≤ text.length) : e.offset text i < (e.encode text).length ↔ i < text.length := by
    rw [← Coding.offset_length]
    exact Coding.offset_lt_iff (Nat.le_refl _)
  induction i using findEmails.induct Char.toNat text with
  | case1 i here none =>
      rw [findEmails, if_pos ((more i inside).mpr here), next, none, findEmails, if_pos here, none]
      rfl
  | case2 i here relativeAt found introducer fails ih =>
      have found' : ((e.encode text).drop (e.offset text i)).findIdx? (fun u => e.code u = '@'.toNat) =
          some (e.offset (text.drop i) relativeAt) := by
        rw [next, found, Option.map_some]
      obtain ⟨sign, -⟩ := next_introducer found
      have before := lt_of_standsAt sign
      have behind : e.offset text (introducer + 1) = e.offset text introducer + 1 := offset_behind sign
      rw [findEmails_next ((more i inside).mpr here) found', ← Coding.offset_add,
        matchEmailAt_encode (Nat.le_add_right i relativeAt) before, findEmails_next here found, fails]
      exact behind ▸ ih before
  | case3 i here relativeAt found introducer first last matches' ih =>
      have found' : ((e.encode text).drop (e.offset text i)).findIdx? (fun u => e.code u = '@'.toNat) =
          some (e.offset (text.drop i) relativeAt) := by
        rw [next, found, Option.map_some]
      obtain ⟨sign, -⟩ := next_introducer found
      have before := lt_of_standsAt sign
      obtain ⟨-, email⟩ := matchEmailAt_sound (Nat.le_add_right i relativeAt) matches'
      rw [findEmails_next ((more i inside).mpr here) found', ← Coding.offset_add,
        matchEmailAt_encode (Nat.le_add_right i relativeAt) before, findEmails_next here found, matches']
      exact congrArg _ (ih email.domain.inside)
  | case4 i outside =>
      rw [findEmails, if_neg (outside ∘ (more i inside).mp), findEmails, if_neg outside]
      rfl

end Memos.Markdown.GfmEmail
