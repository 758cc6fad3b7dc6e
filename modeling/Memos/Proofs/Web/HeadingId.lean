/-
Whether the ids of headings are different.

Before each heading, the ids that were given are used, and so are those that headings had from
the start.  Of these, one that was given is claimed.  So a claim gives an id that was not
given, and so does a slug that is not used.
-/
import Memos.Web.HeadingId

namespace Memos.Web

open FirstFree Utf16

/-! ### The tree without the ids -/

def forgetIds : Hast → Hast
  | .nil => .nil
  | .element tagName className id children rest =>
      .element tagName className (if isHeadingElement tagName then none else id) (forgetIds children)
        (forgetIds rest)
  | .text value rest => .text value (forgetIds rest)
  | .other rest => .other (forgetIds rest)

/-! ### Slugs -/

theorem slugAt_injective (baseSlug : Units) : Function.Injective (slugAt baseSlug) := by
  intro n m same
  unfold slugAt at same
  have nonempty (n : Nat) : baseSlug ++ units ("-" ++ toString n) ≠ baseSlug := fun same => by
    have nil : units ("-" ++ toString n) = encode [] := List.append_right_eq_self.mp same
    have text := encode_injective nil
    rw [String.toList_append] at text
    cases text
  by_cases n0 : n = 0 <;> by_cases m0 : m = 0
  · rw [n0, m0]
  · rw [if_pos n0, if_neg m0] at same
    exact absurd same.symm (nonempty m)
  · rw [if_neg n0, if_pos m0] at same
    exact absurd same (nonempty n)
  · rw [if_neg n0, if_neg m0] at same
    have text := encode_injective (List.append_cancel_left same)
    rw [String.toList_append, String.toList_append] at text
    have digits := List.append_cancel_left text
    rw [Nat.toString_eq_repr, Nat.toString_eq_repr, Nat.toList_repr, Nat.toList_repr] at digits
    calc n = Nat.ofDigitChars 10 (Nat.toDigits 10 n) 0 := Nat.ofDigitChars_ten_toDigits.symm
      _ = m := by rw [digits, Nat.ofDigitChars_ten_toDigits]

theorem slugAt_ne_nil {baseSlug : Units} (some : baseSlug ≠ []) (suffix : Nat) :
    slugAt baseSlug suffix ≠ [] := by
  unfold slugAt
  by_cases zero : suffix = 0
  · rwa [if_pos zero]
  · rw [if_neg zero]
    exact List.append_ne_nil_of_left_ne_nil some _

/-! ### One heading after another -/

/-- What holds when the headings with the ids `before` have got the ids `given`. -/
structure Assigned (own before given : List Units) (s : HeadingIdState) : Prop where
  length : before.length = given.length
  nodup : given.Nodup
  named : [] ∉ given
  used : ∀ id ∈ given, id ∈ s.usedSlugs
  reserved : ∀ id ∈ own, id ∈ s.usedSlugs
  met : ∀ id ∈ s.claimedExistingIds, id ∈ before
  claimed : ∀ id ∈ given, id ∈ own → id ∈ s.claimedExistingIds
  kept : ∀ (i : Nat) (id : Units),
    before[i]? = some id → id ≠ [] → id ∉ before.take i → given[i]? = some id

variable {own before given : List Units} {s : HeadingIdState} {tree : Hast} {x new : Units}
  {tagName : String} {id : Option Units}

theorem Assigned.kept_push (h : Assigned own before given s)
    (keeps : x ≠ [] → x ∉ before → new = x) {i : Nat} {y : Units}
    (at' : (before ++ [x])[i]? = some y) (some : y ≠ []) (first : y ∉ (before ++ [x]).take i) :
    (given ++ [new])[i]? = .some y := by
  rcases Nat.lt_trichotomy i before.length with lt | rfl | gt
  · rw [List.getElem?_append_left lt] at at'
    rw [List.take_append_of_le_length lt.le] at first
    rw [List.getElem?_append_left (h.length ▸ lt)]
    exact h.kept i y at' some first
  · rw [List.getElem?_concat_length, Option.some_inj] at at'
    subst at'
    rw [List.take_left] at first
    rw [h.length, List.getElem?_concat_length, keeps some first]
  · rw [List.getElem?_eq_none (by rw [List.length_append]; exact gt)] at at'
    cases at'

theorem Assigned.push {s' : HeadingIdState} (h : Assigned own before given s) (some : new ≠ [])
    (fresh : new ∉ given) (grows : ∀ y ∈ s.usedSlugs, y ∈ s'.usedSlugs) (uses : new ∈ s'.usedSlugs)
    (met : ∀ y ∈ s'.claimedExistingIds, y ∈ before ++ [x])
    (claims : ∀ y ∈ s.claimedExistingIds, y ∈ s'.claimedExistingIds)
    (mine : new ∈ own → new ∈ s'.claimedExistingIds) (keeps : x ≠ [] → x ∉ before → new = x) :
    Assigned own (before ++ [x]) (given ++ [new]) s' where
  length := by rw [List.length_append, List.length_append, h.length]; rfl
  nodup := List.nodup_append_comm.mp (List.nodup_cons.mpr ⟨fresh, h.nodup⟩)
  named mem := (List.mem_append.mp mem).elim h.named fun mem => some (List.mem_singleton.mp mem).symm
  used y mem := by
    rcases List.mem_append.mp mem with mem | mem
    · exact grows y (h.used y mem)
    · exact List.mem_singleton.mp mem ▸ uses
  reserved y mem := grows y (h.reserved y mem)
  met := met
  claimed y mem reserved := by
    rcases List.mem_append.mp mem with mem | mem
    · exact claims y (h.claimed y mem reserved)
    · rw [List.mem_singleton.mp mem] at reserved ⊢
      exact mine reserved
  kept _ _ := h.kept_push keeps

/-- The first heading that has an id keeps it. -/
theorem Assigned.keep (h : Assigned own before given s) (some : x ≠ []) (mine : x ∈ own)
    (free : x ∉ s.claimedExistingIds) :
    Assigned own (before ++ [x]) (given ++ [x])
      { s with claimedExistingIds := x :: s.claimedExistingIds } := by
  refine h.push some (fun mem => free (h.claimed x mem mine)) (fun _ mem => mem)
    (h.reserved x mine) (fun y mem => ?_) (fun _ => List.mem_cons_of_mem x)
    (fun _ => List.mem_cons_self) fun _ _ => rfl
  rcases List.mem_cons.mp mem with rfl | mem
  · exact List.mem_concat_self
  · exact List.mem_append_left _ (h.met y mem)

/-- Any other gets a slug that is no heading's id. -/
theorem Assigned.make (h : Assigned own before given s) (some : new ≠ []) (free : new ∉ s.usedSlugs)
    (taken : x ≠ [] → x ∈ s.claimedExistingIds) :
    Assigned own (before ++ [x]) (given ++ [new]) { s with usedSlugs := new :: s.usedSlugs } :=
  h.push some (fun mem => free (h.used new mem)) (fun _ => List.mem_cons_of_mem new)
    List.mem_cons_self (fun y mem => List.mem_append_left _ (h.met y mem)) (fun _ mem => mem)
    (fun reserved => absurd (h.reserved new reserved) free)
    fun some first => absurd (h.met x (taken some)) first

theorem Assigned.assignId (h : Assigned own before given s) (slugify : Units → Units) (children : Hast)
    (mine : ∀ x ∈ elementId tagName id, x ≠ [] → x ∈ own) :
    ∃ s' id', assignId slugify s tagName id children = some (s', id') ∧
      Assigned own (before ++ elementId tagName id) (given ++ elementId tagName id') s' ∧
      (if isHeadingElement tagName then none else id') = if isHeadingElement tagName then none else id := by
  unfold Web.assignId elementId
  unfold elementId at mine
  cases heading : isHeadingElement tagName with
  | false =>
      refine ⟨s, id, rfl, ?_, rfl⟩
      rwa [if_neg nofun, List.append_nil, List.append_nil]
  | true =>
      rw [heading, if_pos rfl] at mine
      have mine := mine (id.getD []) (List.mem_singleton_self _)
      dsimp only
      rw [if_neg nofun, if_pos rfl]
      generalize id.getD [] = existingId at mine ⊢
      generalize slugify (getHeadingText children) = slug
      by_cases keeps : existingId ≠ [] ∧ existingId ∉ s.claimedExistingIds
      · rw [if_pos keeps]
        exact ⟨_, _, rfl, h.keep keeps.1 (mine keeps.1) keeps.2, rfl⟩
      · rw [if_neg keeps]
        have taken (some : existingId ≠ []) : existingId ∈ s.claimedExistingIds :=
          Classical.not_not.mp fun free => keeps ⟨some, free⟩
        generalize base : (if existingId ≠ [] then existingId else if slug ≠ [] then slug
          else FALLBACK_HEADING_SLUG) = baseSlug
        have some : baseSlug ≠ [] := by
          rw [← base]
          split
          · assumption
          · split
            · assumption
            · decide
        obtain ⟨n, found, free⟩ := exists_firstFree s.usedSlugs (slugAt_injective baseSlug)
        refine ⟨_, .some (slugAt baseSlug n), ?_, h.make (slugAt_ne_nil some n) free taken, rfl⟩
        unfold makeUniqueSlug
        rw [found]
        rfl

/-- A visit goes on with what it has given. -/
theorem assignIds_spec (slugify : Units → Units) (h : Assigned own before given s)
    (mine : ∀ id ∈ headingIds tree, id ≠ [] → id ∈ own) :
    ∃ s' tree', assignIds slugify s tree = some (s', tree') ∧
      Assigned own (before ++ headingIds tree) (given ++ headingIds tree') s' ∧
      forgetIds tree' = forgetIds tree := by
  induction tree generalizing s before given with
  | nil =>
      refine ⟨s, .nil, rfl, ?_, rfl⟩
      rwa [headingIds, List.append_nil, List.append_nil]
  | text value rest ih =>
      obtain ⟨s', rest', run, done, same⟩ := ih h mine
      refine ⟨s', .text value rest', ?_, done, congrArg (Hast.text value) same⟩
      rw [assignIds, run]
      rfl
  | other rest ih =>
      obtain ⟨s', rest', run, done, same⟩ := ih h mine
      refine ⟨s', .other rest', ?_, done, congrArg Hast.other same⟩
      rw [assignIds, run]
      rfl
  | element tagName className id children rest ihChildren ihRest =>
      rw [headingIds] at mine
      obtain ⟨s₁, id', run, h, sameId⟩ := h.assignId slugify children fun id mem =>
        mine id (List.mem_append_left _ mem)
      obtain ⟨s₂, children', runChildren, h, sameChildren⟩ := ihChildren h fun id mem =>
        mine id (List.mem_append_right _ (List.mem_append_left _ mem))
      obtain ⟨s₃, rest', runRest, h, sameRest⟩ := ihRest h fun id mem =>
        mine id (List.mem_append_right _ (List.mem_append_right _ mem))
      refine ⟨s₃, .element tagName className id' children' rest', ?_, ?_, ?_⟩
      · simp only [assignIds, run, runChildren, runRest, Option.bind_eq_bind, Option.bind_some]
      · rw [headingIds, headingIds, ← List.append_assoc, ← List.append_assoc, ← List.append_assoc,
          ← List.append_assoc]
        exact h
      · rw [forgetIds, forgetIds, sameId, sameChildren, sameRest]

theorem extractHeadings_sublist (tree : Hast) :
    ((extractHeadings tree).map (·.slug)).Sublist (headingIds tree) := by
  induction tree with
  | nil => exact List.Sublist.slnil
  | text _ rest ih => exact ih
  | other rest ih => exact ih
  | element tagName className id children rest ihChildren ihRest =>
      rw [extractHeadings, headingIds, List.map_append, List.map_append]
      refine List.Sublist.append ?_ (ihChildren.append ihRest)
      unfold elementId
      split
      case isTrue shown =>
        rw [if_pos shown.1]
        exact List.Sublist.refl _
      case isFalse => exact List.nil_sublist _

/-- **Headings have different ids, and an id that was there stays where it is first.** -/
theorem heading_ids_unique (slugify : Units → Units) (tree : Hast) :
    ∃ tree', rehypeHeadingId slugify tree = some tree' ∧ forgetIds tree' = forgetIds tree ∧
      [] ∉ headingIds tree' ∧ (headingIds tree').Nodup ∧
      ((extractHeadings tree').map (·.slug)).Sublist (headingIds tree') ∧
      ∀ front id back, headingIds tree = front ++ id :: back → id ≠ [] → id ∉ front →
        (headingIds tree')[front.length]? = some id := by
  have start : Assigned (existingIds tree) [] [] ⟨existingIds tree, []⟩ :=
    ⟨rfl, List.nodup_nil, List.not_mem_nil, nofun, fun _ mem => mem, nofun, nofun, nofun⟩
  obtain ⟨s', tree', run, done, same⟩ := assignIds_spec slugify start fun id mem some =>
    List.mem_filter.mpr ⟨mem, decide_eq_true some⟩
  refine ⟨tree', ?_, same, done.named, done.nodup, extractHeadings_sublist tree', ?_⟩
  · rw [rehypeHeadingId, run]
    rfl
  · intro front id back parts some first
    refine done.kept front.length id ?_ some ?_
    · rw [List.nil_append, parts, List.getElem?_append_right (Nat.le_refl _), Nat.sub_self]
      rfl
    · rw [List.nil_append, parts, List.take_left]
      exact first

end Memos.Web
