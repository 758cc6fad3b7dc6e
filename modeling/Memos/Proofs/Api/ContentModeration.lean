/-
The automaton finds the blocked words, all of them and nothing else.

A node is known by the text that leads to it from the root.  While the words are inserted
the nodes only grow, and every word leads to a node that is marked.  After that the edges
stay as they are, and the loop over the queue settles the nodes depth by depth: `fail`
points to the longest proper suffix that is a node, and `output` says whether some word
ends there.  A settled node needs settled nodes above its own depth only, which is what
the order of the queue provides.
-/
import Memos.Api.ContentModeration
import Memos.Lib.Scan

namespace Memos.Api

open BlockedWordMatcher LongestSuffix

/-! ### Walks -/

section Nodes

variable {nodes : Nodes}

theorem node_modify {k : Nat} (hk : k < nodes.length) (f : BlockedWordNode → BlockedWordNode)
    (i : Nat) : node (nodes.modify k f) i = if k = i then f (node nodes i) else node nodes i := by
  rw [node, node]
  by_cases hi : k = i
  · subst hi
    rw [if_pos rfl, List.getElem?_modify_eq, List.getElem?_eq_getElem hk]
    rfl
  · rw [if_neg hi, List.getElem?_modify_ne _ _ hi]

theorem node_concat (n : BlockedWordNode) (i : Nat) :
    node (nodes ++ [n]) i = if i = nodes.length then n else node nodes i := by
  rw [node, node]
  rcases Nat.lt_trichotomy i nodes.length with hi | rfl | hi
  · rw [if_neg (Nat.ne_of_lt hi), List.getElem?_append_left hi]
  · simp
  · rw [if_neg (Nat.ne_of_gt hi), List.getElem?_eq_none (by simp; omega),
      List.getElem?_eq_none (by omega)]

theorem node_of_length_le {i : Nat} (hi : nodes.length ≤ i) : node nodes i = { next := ∅ } := by
  rw [node, List.getElem?_eq_none hi]
  rfl

/-- Where the edges lead from the root along a text. -/
def walk (nodes : Nodes) (s : List Char) : Option Nat := s.foldlM (next nodes) 0

@[simp] theorem walk_nil : walk nodes [] = some 0 := rfl

theorem walk_concat (s : List Char) (r : Char) :
    walk nodes (s ++ [r]) = (walk nodes s).bind fun i => next nodes i r := by
  rw [walk, List.foldlM_append, walk]
  cases List.foldlM (next nodes) 0 s with
  | none => rfl
  | some i => simp [List.foldlM_cons]

theorem walk_concat_eq_some {s : List Char} {r : Char} {j : Nat} :
    walk nodes (s ++ [r]) = some j ↔ ∃ i, walk nodes s = some i ∧ next nodes i r = some j := by
  rw [walk_concat, Option.bind_eq_some_iff]

/-- Every edge leads to a later node, whose text has one more character. -/
structure Labelled (nodes : Nodes) (label : Nat → List Char) : Prop where
  root : label 0 = []
  edge : ∀ i r j, next nodes i r = some j → i < j ∧ j < nodes.length ∧ label j = label i ++ [r]

variable {label : Nat → List Char}

theorem Labelled.label_eq (h : Labelled nodes label) {s : List Char} {i : Nat}
    (hi : walk nodes s = some i) : label i = s := by
  induction s using List.reverseRecOn generalizing i with
  | nil =>
      injection hi with hi
      rw [← hi, h.root]
  | append_singleton s r ih =>
      obtain ⟨k, hk, edge⟩ := walk_concat_eq_some.mp hi
      rw [(h.edge k r i edge).2.2, ih hk]

theorem Labelled.walk_lt (h : Labelled nodes label) (pos : 0 < nodes.length) {s : List Char}
    {i : Nat} (hi : walk nodes s = some i) : i < nodes.length := by
  induction s using List.reverseRecOn with
  | nil =>
      injection hi with hi
      rwa [← hi]
  | append_singleton s r _ =>
      obtain ⟨k, -, edge⟩ := walk_concat_eq_some.mp hi
      exact (h.edge k r i edge).2.1

theorem Labelled.length_le (h : Labelled nodes label) {s : List Char} {i : Nat}
    (hi : walk nodes s = some i) : s.length ≤ i := by
  induction s using List.reverseRecOn generalizing i with
  | nil => exact Nat.zero_le i
  | append_singleton s r ih =>
      obtain ⟨k, hk, edge⟩ := walk_concat_eq_some.mp hi
      have shorter := ih hk
      have later := (h.edge k r i edge).1
      rw [List.length_append, List.length_singleton]
      omega

end Nodes

/-! ### Inserting the words -/

/-- Edges stay, and nothing else about a node changes. -/
structure Grows (nodes nodes' : Nodes) : Prop where
  edges : ∀ i r j, next nodes i r = some j → next nodes' i r = some j
  fail : ∀ i, (node nodes' i).fail = (node nodes i).fail
  output : ∀ i, (node nodes' i).output = (node nodes i).output
  length_le : nodes.length ≤ nodes'.length

namespace Grows

variable {nodes nodes' nodes'' : Nodes}

theorem refl (nodes : Nodes) : Grows nodes nodes :=
  ⟨fun _ _ _ h => h, fun _ => rfl, fun _ => rfl, Nat.le_refl _⟩

theorem trans (h : Grows nodes nodes') (h' : Grows nodes' nodes'') : Grows nodes nodes'' where
  edges i r j edge := h'.edges i r j (h.edges i r j edge)
  fail i := (h'.fail i).trans (h.fail i)
  output i := (h'.output i).trans (h.output i)
  length_le := Nat.le_trans h.length_le h'.length_le

theorem walk (h : Grows nodes nodes') {s : List Char} {i : Nat} (hi : walk nodes s = some i) :
    Api.walk nodes' s = some i := by
  induction s using List.reverseRecOn generalizing i with
  | nil => exact hi
  | append_singleton s r ih =>
      obtain ⟨k, hk, edge⟩ := walk_concat_eq_some.mp hi
      exact walk_concat_eq_some.mpr ⟨k, ih hk, h.edges k r i edge⟩

end Grows

theorem insertRune_spec {nodes : Nodes} {label : Nat → List Char} (h : Labelled nodes label)
    {i : Nat} (hi : i < nodes.length) (r : Char) :
    (∃ label', Labelled (insertRune nodes i r).1 label') ∧ Grows nodes (insertRune nodes i r).1 ∧
      next (insertRune nodes i r).1 i r = some (insertRune nodes i r).2 := by
  rw [insertRune]
  cases edge : next nodes i r with
  | some j => exact ⟨⟨label, h⟩, .refl nodes, edge⟩
  | none =>
      -- The new node is the last, and the only new edge leads to it.
      have hnode : ∀ k, node (nodes.modify i (fun n =>
          { n with next := n.next.insert r nodes.length }) ++ [{ next := ∅ }]) k =
          if i = k then { node nodes k with next := (node nodes k).next.insert r nodes.length }
          else node nodes k := by
        intro k
        rw [node_concat, List.length_modify, node_modify hi]
        split
        · rename_i last
          rw [if_neg (by omega), node_of_length_le (Nat.le_of_eq last.symm)]
        · rfl
      have hnext : ∀ k c, next (nodes.modify i (fun n =>
          { n with next := n.next.insert r nodes.length }) ++ [{ next := ∅ }]) k c =
          if i = k ∧ c = r then some nodes.length else next nodes k c := by
        intro k c
        rw [next, hnode, next]
        by_cases hk : i = k
        · by_cases hc : c = r
          · rw [if_pos hk, if_pos ⟨hk, hc⟩, hc]
            exact AList.lookup_insert _
          · rw [if_pos hk, if_neg fun both => hc both.2]
            exact AList.lookup_insert_ne hc
        · rw [if_neg hk, if_neg fun both => hk both.1]
      refine ⟨⟨fun k => if k = nodes.length then label i ++ [r] else label k, ?_, ?_⟩, ⟨?_, ?_, ?_, ?_⟩, ?_⟩
      · rw [if_neg (by omega), h.root]
      · intro k c j hj
        rw [hnext] at hj
        rw [List.length_append, List.length_modify, List.length_singleton]
        split at hj
        · rename_i new
          injection hj with hj
          rw [← new.1, new.2, ← hj, if_pos rfl, if_neg (Nat.ne_of_lt hi)]
          exact ⟨hi, Nat.lt_succ_self _, rfl⟩
        · obtain ⟨later, bound, hlabel⟩ := h.edge k c j hj
          rw [if_neg (Nat.ne_of_lt bound), if_neg (by omega)]
          exact ⟨later, Nat.lt_succ_of_lt bound, hlabel⟩
      · intro k c j hj
        rw [hnext, if_neg ?_]
        · exact hj
        · rintro ⟨rfl, rfl⟩
          rw [edge] at hj
          cases hj
      · intro k
        rw [hnode]
        split
        · rfl
        · rfl
      · intro k
        rw [hnode]
        split
        · rfl
        · rfl
      · simp
      · rw [hnext, if_pos ⟨rfl, rfl⟩]

theorem insertRunes_spec (word : List Char) {nodes : Nodes} {label : Nat → List Char}
    (h : Labelled nodes label) (pos : 0 < nodes.length) {s : List Char} {i : Nat}
    (hi : walk nodes s = some i) :
    (∃ label', Labelled (insertRunes nodes i word).1 label') ∧
      Grows nodes (insertRunes nodes i word).1 ∧
      walk (insertRunes nodes i word).1 (s ++ word) = some (insertRunes nodes i word).2 := by
  induction word generalizing nodes label s i with
  | nil =>
      rw [insertRunes, List.append_nil]
      exact ⟨⟨label, h⟩, .refl nodes, hi⟩
  | cons r word ih =>
      rw [insertRunes]
      obtain ⟨⟨label', h'⟩, grows, edge⟩ := insertRune_spec h (h.walk_lt pos hi) r
      have here : walk (insertRune nodes i r).1 (s ++ [r]) = some (insertRune nodes i r).2 :=
        walk_concat_eq_some.mpr ⟨i, grows.walk hi, edge⟩
      obtain ⟨labelled, grows', there⟩ := ih h' (Nat.lt_of_lt_of_le pos grows.length_le) here
      rw [List.append_assoc] at there
      exact ⟨labelled, grows.trans grows', there⟩

structure Built (nodes : Nodes) (words : List (List Char)) : Prop where
  labelled : ∃ label, Labelled nodes label
  pos : 0 < nodes.length
  fail : ∀ i, (node nodes i).fail = 0
  marked : ∀ w ∈ words, ∃ i, walk nodes w = some i ∧ (node nodes i).output = true
  output : ∀ i, (node nodes i).output = true → ∃ w ∈ words, walk nodes w = some i

theorem built_nil : Built [{ next := ∅ }] [] := by
  have hnode : ∀ i, node [{ next := ∅ }] i = { next := ∅ } := by
    intro i
    cases i with
    | zero => rfl
    | succ i => rfl
  refine ⟨⟨fun _ => [], rfl, fun i r j hj => ?_⟩, Nat.one_pos, fun i => ?_, fun _ hw => ?_, fun i hi => ?_⟩
  · rw [next, hnode] at hj
    cases hj
  · rw [hnode]
  · cases hw
  · rw [hnode] at hi
    cases hi

theorem Built.insertWord {letters : LowerCase} {nodes : Nodes} {words : List (List Char)}
    (h : Built nodes words) (word : List Char) :
    Built (insertWord letters nodes word) (words ++ [foldModerationText letters word]) := by
  obtain ⟨label, labelled⟩ := h.labelled
  rw [BlockedWordMatcher.insertWord]
  obtain ⟨⟨label', labelled'⟩, grows, there⟩ :=
    insertRunes_spec (foldModerationText letters word) labelled h.pos (@walk_nil nodes)
  rw [List.nil_append] at there
  generalize insertRunes nodes 0 (foldModerationText letters word) = inserted
    at labelled' grows there
  have pos : 0 < inserted.1.length := Nat.lt_of_lt_of_le h.pos grows.length_le
  have hnode := node_modify (labelled'.walk_lt pos there) fun n => { n with output := true }
  have hnext : ∀ i r, next (inserted.1.modify inserted.2 fun n => { n with output := true }) i r
      = next inserted.1 i r := by
    intro i r
    rw [next, hnode, next]
    split
    · rfl
    · rfl
  have hwalk : ∀ s, walk (inserted.1.modify inserted.2 fun n => { n with output := true }) s
      = walk inserted.1 s := by
    intro s
    rw [walk, walk, show next _ = next inserted.1 from funext fun i => funext (hnext i)]
  refine ⟨⟨label', labelled'.root, fun i r j hj => ?_⟩, ?_, fun i => ?_, fun w hw => ?_, fun i hi => ?_⟩
  · rw [hnext] at hj
    rw [List.length_modify]
    exact labelled'.edge i r j hj
  · rwa [List.length_modify]
  · rw [hnode, apply_ite BlockedWordNode.fail, ite_self, grows.fail, h.fail]
  · rcases List.mem_append.mp hw with hw | hw
    · obtain ⟨i, hi, output⟩ := h.marked w hw
      refine ⟨i, by rw [hwalk]; exact grows.walk hi, ?_⟩
      rw [hnode, apply_ite BlockedWordNode.output, grows.output, output, ite_self]
    · rw [List.mem_singleton.mp hw]
      exact ⟨inserted.2, by rw [hwalk]; exact there, by rw [hnode, if_pos rfl]⟩
  · rw [hnode] at hi
    split at hi
    · rename_i last
      exact ⟨_, List.mem_append_right _ (List.mem_singleton_self _), by rw [hwalk, ← last]; exact there⟩
    · rw [grows.output] at hi
      obtain ⟨w, hw, walked⟩ := h.output i hi
      exact ⟨w, List.mem_append_left _ hw, by rw [hwalk]; exact grows.walk walked⟩

theorem built_words (letters : LowerCase) (words : List (List Char)) {nodes : Nodes}
    {done : List (List Char)} (h : Built nodes done) :
    Built (words.foldl (insertWord letters) nodes)
      (done ++ words.map (foldModerationText letters)) := by
  induction words generalizing nodes done with
  | nil =>
      rw [List.map_nil, List.append_nil]
      exact h
  | cons word words ih =>
      have longer : Built (insertWord letters nodes word) _ := h.insertWord word
      have further := ih longer
      rw [List.append_assoc] at further
      exact further

/-! ### Settled nodes -/

def IsText (nodes : Nodes) (s : List Char) : Prop := ∃ i, walk nodes s = some i

theorem isText_concat {nodes : Nodes} {s : List Char} {i : Nat} (hi : walk nodes s = some i)
    (r : Char) : IsText nodes (s ++ [r]) ↔ ∃ j, next nodes i r = some j := by
  constructor
  · rintro ⟨j, hj⟩
    obtain ⟨k, hk, edge⟩ := walk_concat_eq_some.mp hj
    rw [hi] at hk
    injection hk with hk
    exact ⟨j, hk ▸ edge⟩
  · rintro ⟨j, edge⟩
    exact ⟨j, walk_concat_eq_some.mpr ⟨i, hi, edge⟩⟩

theorem isText_beginnings (nodes : Nodes) : Beginnings (IsText nodes) where
  nil := ⟨0, rfl⟩
  init s r := by
    rintro ⟨j, hj⟩
    obtain ⟨i, hi, -⟩ := walk_concat_eq_some.mp hj
    exact ⟨i, hi⟩

/-- The finished trie, of which the rest only fills in `fail` and `output`. -/
structure Trie (T : Nodes) (W : List Char → Prop) : Prop where
  labelled : ∃ label, Labelled T label
  pos : 0 < T.length
  words : ∀ w, W w → IsText T w
  no_empty : ¬ W []

/-- The node of a text has its final values. -/
structure Settled (T nodes : Nodes) (W : List Char → Prop) (s : List Char) (i : Nat) : Prop where
  fail : ∃ u, Longest (IsText T) s.tail u ∧ walk T u = some (node nodes i).fail
  output : (node nodes i).output = true ↔ ∃ w, W w ∧ w <:+ s

/-- What holds of every node at all times. -/
structure Sound (T nodes : Nodes) (W : List Char → Prop) (s : List Char) (i : Nat) : Prop where
  fail : (node nodes i).fail = 0 ∨
    ∃ u, Longest (IsText T) s.tail u ∧ walk T u = some (node nodes i).fail
  marked : W s → (node nodes i).output = true
  output : (node nodes i).output = true → ∃ w, W w ∧ w <:+ s

structure Stage (T nodes : Nodes) (W : List Char → Prop) : Prop where
  next : ∀ i, (node nodes i).next = (node T i).next
  length : nodes.length = T.length
  sound : ∀ s i, walk T s = some i → Sound T nodes W s i

section Queue

variable {T nodes : Nodes} {W : List Char → Prop}

theorem Stage.next_eq (h : Stage T nodes W) (i : Nat) (r : Char) :
    BlockedWordMatcher.next nodes i r = BlockedWordMatcher.next T i r := by
  rw [BlockedWordMatcher.next, h.next, BlockedWordMatcher.next]

theorem Trie.walk_inj (h : Trie T W) {s t : List Char} {i : Nat} (hs : walk T s = some i)
    (ht : walk T t = some i) : s = t := by
  obtain ⟨label, labelled⟩ := h.labelled
  rw [← labelled.label_eq hs, labelled.label_eq ht]

theorem Trie.walk_zero (h : Trie T W) {s : List Char} (hs : walk T s = some 0) : s = [] :=
  h.walk_inj hs walk_nil

theorem Trie.length_le (h : Trie T W) {s : List Char} {i : Nat} (hs : walk T s = some i) :
    s.length ≤ T.length := by
  obtain ⟨label, labelled⟩ := h.labelled
  exact Nat.le_of_lt (Nat.lt_of_le_of_lt (labelled.length_le hs) (labelled.walk_lt h.pos hs))

/-- Where the loop along `fail` ends, when every node up to the depth of the start is settled. -/
theorem followFailure_spec (trie : Trie T W) (stage : Stage T nodes W) (r : Char) {d : Nat}
    (below : ∀ t j, walk T t = some j → t.length ≤ d → Settled T nodes W t j) (steps : Nat)
    {s : List Char} {i : Nat} (hs : walk T s = some i) (depth : s.length ≤ d)
    (enough : s.length ≤ steps) :
    ∃ v, Longest (Extendable (IsText T) r) s v ∧
      walk T v = some (followFailure nodes r steps i) := by
  induction steps generalizing s i with
  | zero =>
      have hnil : s = [] := List.length_eq_zero_iff.mp (Nat.le_zero.mp enough)
      exact ⟨s, .self (.inl hnil), hs⟩
  | succ steps ih =>
      rw [followFailure]
      split
      · rename_i stop
        refine ⟨s, .self ?_, hs⟩
        rw [Bool.or_eq_true, decide_eq_true_eq, Option.isSome_iff_exists] at stop
        rcases stop with rfl | ⟨j, edge⟩
        · exact .inl (trie.walk_zero hs)
        · rw [stage.next_eq] at edge
          exact .inr ((isText_concat hs r).mpr ⟨j, edge⟩)
      · rename_i on
        rw [Bool.or_eq_true, decide_eq_true_eq, Option.isSome_iff_exists, not_or] at on
        have no : ¬ Extendable (IsText T) r s := by
          rintro (hnil | text)
          · rw [hnil, walk_nil] at hs
            injection hs with hs
            exact on.1 hs.symm
          · obtain ⟨j, edge⟩ := (isText_concat hs r).mp text
            exact on.2 ⟨j, by rw [stage.next_eq]; exact edge⟩
        obtain ⟨u, longest, hu⟩ := (below s i hs depth).fail
        have shorter : u.length < s.length := by
          have := longest.suffix.length_le
          have : s ≠ [] := fun hnil => no (.inl hnil)
          have := List.length_pos_iff.mpr this
          rw [List.length_tail] at *
          omega
        obtain ⟨v, hv, walked⟩ := ih hu (by omega) (by omega)
        exact ⟨v, longest_extendable_of_tail (isText_beginnings T) no longest hv, walked⟩

/-- Writing to a node other than the root keeps the stage where the new values are sound. -/
theorem Stage.modify (trie : Trie T W) (stage : Stage T nodes W) {s : List Char} {i : Nat}
    (hs : walk T s = some i) (f : BlockedWordNode → BlockedWordNode)
    (hnext : ∀ n, (f n).next = n.next) (sound : Sound T (nodes.modify i f) W s i) :
    Stage T (nodes.modify i f) W := by
  obtain ⟨label, labelled⟩ := trie.labelled
  have hi : i < nodes.length := stage.length ▸ labelled.walk_lt trie.pos hs
  refine ⟨fun k => ?_, by rw [List.length_modify, stage.length], fun t k hk => ?_⟩
  · rw [node_modify hi]
    split
    · rw [hnext, stage.next]
    · rw [stage.next]
  · by_cases same : i = k
    · subst same
      rw [trie.walk_inj hk hs]
      exact sound
    · have h := stage.sound t k hk
      refine ⟨?_, ?_, ?_⟩
      · rw [node_modify hi, if_neg same]
        exact h.fail
      · rw [node_modify hi, if_neg same]
        exact h.marked
      · rw [node_modify hi, if_neg same]
        exact h.output

theorem Settled.of_node_eq {nodes' : Nodes} {s : List Char} {i : Nat}
    (h : Settled T nodes W s i) (same : node nodes' i = node nodes i) :
    Settled T nodes' W s i := by
  refine ⟨?_, ?_⟩
  · rw [same]
    exact h.fail
  · rw [same]
    exact h.output

/-- The child's `fail` is the longest proper suffix of its text, and no other node changes. -/
theorem setFailure_spec (trie : Trie T W) (stage : Stage T nodes W) {s u v : List Char}
    {failure child : Nat} {r : Char} (hne : s ≠ []) (hchild : walk T (s ++ [r]) = some child)
    (longest : Longest (IsText T) s.tail u) (hv : Longest (Extendable (IsText T) r) u v)
    (walked : walk T v = some failure) :
    Stage T (setFailure nodes failure r child) W ∧
      (∀ k, k ≠ child → node (setFailure nodes failure r child) k = node nodes k) ∧
      ∃ t, Longest (IsText T) (s ++ [r]).tail t ∧ t.length ≤ s.length ∧
        walk T t = some (node (setFailure nodes failure r child) child).fail := by
  obtain ⟨label, labelled⟩ := trie.labelled
  have hlt : child < nodes.length := stage.length ▸ labelled.walk_lt trie.pos hchild
  have tail_concat : (s ++ [r]).tail = s.tail ++ [r] := List.tail_append_of_ne_nil hne
  have hshort : v.length < s.length := by
    have := (hv.suffix.trans longest.suffix).length_le
    have := List.length_pos_iff.mpr hne
    rw [List.length_tail] at *
    omega
  have before := stage.sound _ child hchild
  rw [setFailure, stage.next_eq]
  cases lookup : next T failure r with
  | none =>
      have found : Longest (IsText T) (s ++ [r]).tail [] := by
        rw [tail_concat]
        refine longest.concat_nil (isText_beginnings T) hv fun text => ?_
        obtain ⟨j, hj⟩ := (isText_concat walked r).mp text
        rw [lookup] at hj
        cases hj
      refine ⟨stage, fun _ _ => rfl, [], found, Nat.zero_le _, ?_⟩
      rcases before.fail with zero | ⟨t, ht, hfail⟩
      · rw [zero, walk_nil]
      · rw [← ht.unique found]
        exact hfail
  | some target =>
      have htarget : walk T (v ++ [r]) = some target :=
        walk_concat_eq_some.mpr ⟨failure, walked, lookup⟩
      have found : Longest (IsText T) (s ++ [r]).tail (v ++ [r]) := by
        rw [tail_concat]
        exact longest.concat (isText_beginnings T) hv ⟨target, htarget⟩
      have other : target ≠ child := by
        rintro rfl
        have same := congrArg List.length (trie.walk_inj htarget hchild)
        rw [List.length_append, List.length_append] at same
        omega
      have written : node (nodes.modify child fun n => { n with fail := target }) child
          = { node nodes child with fail := target } := by
        rw [node_modify hlt, if_pos rfl]
      dsimp only
      rw [if_pos other]
      refine ⟨stage.modify trie hchild _ (fun _ => rfl) ⟨.inr ⟨_, found, ?_⟩, ?_, ?_⟩,
        fun k hk => ?_, v ++ [r], found, ?_, ?_⟩
      · rw [written]
        exact htarget
      · rw [written]
        exact before.marked
      · rw [written]
        exact before.output
      · rw [node_modify hlt, if_neg (Ne.symm hk)]
      · rw [List.length_append, List.length_singleton]
        omega
      · rw [written]
        exact htarget

/-- A child whose `fail` is right and points to a settled node is settled. -/
theorem inheritOutput_spec (trie : Trie T W) (stage : Stage T nodes W) {s t : List Char}
    {child : Nat} (hchild : walk T s = some child) (hne : s ≠ [])
    (ht : Longest (IsText T) s.tail t) (hfail : walk T t = some (node nodes child).fail)
    (settled : Settled T nodes W t (node nodes child).fail) :
    Stage T (inheritOutput nodes child) W ∧ Settled T (inheritOutput nodes child) W s child ∧
      ∀ k, k ≠ child → node (inheritOutput nodes child) k = node nodes k := by
  obtain ⟨label, labelled⟩ := trie.labelled
  have hlt : child < nodes.length := stage.length ▸ labelled.walk_lt trie.pos hchild
  have before := stage.sound _ child hchild
  have ends := ht.exists_suffix_iff_of_tail hne trie.words
  rw [inheritOutput]
  split
  · rename_i output
    have ending : ∃ w, W w ∧ w <:+ s := ends.mpr (.inr (settled.output.mp output))
    have written : node (nodes.modify child fun n => { n with output := true }) child
        = { node nodes child with output := true } := by
      rw [node_modify hlt, if_pos rfl]
    refine ⟨stage.modify trie hchild _ (fun _ => rfl) ⟨.inr ⟨t, ht, ?_⟩, ?_, fun _ => ending⟩,
      ⟨⟨t, ht, ?_⟩, ?_⟩, fun k hk => ?_⟩
    · rw [written]
      exact hfail
    · rw [written]
      exact fun _ => rfl
    · rw [written]
      exact hfail
    · rw [written]
      exact iff_of_true rfl ending
    · rw [node_modify hlt, if_neg (Ne.symm hk)]
  · rename_i quiet
    refine ⟨stage, ⟨⟨t, ht, hfail⟩, before.output, fun ending => ?_⟩, fun _ _ => rfl⟩
    rcases ends.mp ending with word | shorter
    · exact before.marked word
    · exact absurd (settled.output.mpr shorter) quiet

/-- The body of the loop over the edges settles the child and changes no other node. -/
theorem visitChild_spec (trie : Trie T W) (stage : Stage T nodes W) {s : List Char}
    (below : ∀ t j, walk T t = some j → t.length ≤ s.length → Settled T nodes W t j)
    {state child : Nat} {r : Char} (hs : walk T s = some state) (hne : s ≠ [])
    (edge : next T state r = some child) :
    Stage T (visitChild state nodes ⟨r, child⟩) W ∧
      Settled T (visitChild state nodes ⟨r, child⟩) W (s ++ [r]) child ∧
      ∀ k, k ≠ child → node (visitChild state nodes ⟨r, child⟩) k = node nodes k := by
  have hchild : walk T (s ++ [r]) = some child := walk_concat_eq_some.mpr ⟨state, hs, edge⟩
  obtain ⟨u, longest, hu⟩ := (below s state hs (Nat.le_refl _)).fail
  have shorter : u.length ≤ s.length := (longest.suffix.trans (List.tail_suffix s)).length_le
  obtain ⟨v, hv, walked⟩ := followFailure_spec trie stage r below nodes.length hu shorter
    (stage.length ▸ trie.length_le hu)
  obtain ⟨stage₁, rest₁, t, ht, hdepth, hfail⟩ :=
    setFailure_spec trie stage hne hchild longest hv walked
  rw [visitChild]
  generalize setFailure nodes (followFailure nodes r nodes.length (node nodes state).fail) r child
    = nodes₁ at stage₁ rest₁ hfail
  have other : (node nodes₁ child).fail ≠ child := by
    intro same
    rw [same] at hfail
    have := congrArg List.length (trie.walk_inj hfail hchild)
    rw [List.length_append, List.length_singleton] at this
    omega
  obtain ⟨stage₂, settled, rest₂⟩ := inheritOutput_spec trie stage₁ hchild (by simp) ht hfail
    ((below t _ hfail hdepth).of_node_eq (rest₁ _ other))
  exact ⟨stage₂, settled, fun k hk => (rest₂ k hk).trans (rest₁ k hk)⟩

/-! ### The loop over the queue -/

structure EdgesOf (T : Nodes) (state : Nat) (edges : List (Σ _ : Char, Nat)) : Prop where
  mem : ∀ r child, ⟨r, child⟩ ∈ edges ↔ next T state r = some child
  nodup : edges.Nodup

theorem Stage.edgesOf (stage : Stage T nodes W) (order : RangeOrder) (n state : Nat) :
    EdgesOf T state (order.visit n (node nodes state).next.entries) where
  mem r child := by
    rw [(order.perm n _).mem_iff, stage.next, BlockedWordMatcher.next, ← AList.mem_lookup_iff,
      Option.mem_def]
  nodup := (order.perm n _).nodup_iff.mpr (AList.nodupKeys _).nodup

theorem visitChildren_spec (trie : Trie T W) {s : List Char} {state : Nat}
    (hs : walk T s = some state) (hne : s ≠ []) (edges : List (Σ _ : Char, Nat))
    (hedges : ∀ e ∈ edges, next T state e.1 = some e.2) (stage : Stage T nodes W)
    (below : ∀ t j, walk T t = some j → t.length ≤ s.length → Settled T nodes W t j) :
    Stage T (edges.foldl (visitChild state) nodes) W ∧
      (∀ t j, walk T t = some j → Settled T nodes W t j →
        Settled T (edges.foldl (visitChild state) nodes) W t j) ∧
      ∀ e ∈ edges, Settled T (edges.foldl (visitChild state) nodes) W (s ++ [e.1]) e.2 := by
  induction edges generalizing nodes with
  | nil => exact ⟨stage, fun _ _ _ h => h, fun _ he => absurd he List.not_mem_nil⟩
  | cons e edges ih =>
      have edge := hedges e List.mem_cons_self
      have hchild : walk T (s ++ [e.1]) = some e.2 := walk_concat_eq_some.mpr ⟨state, hs, edge⟩
      obtain ⟨stage', settled, rest⟩ := visitChild_spec trie stage below hs hne edge
      have keeps : ∀ t j, walk T t = some j → Settled T nodes W t j →
          Settled T (visitChild state nodes e) W t j := by
        intro t j hj h
        by_cases same : j = e.2
        · rw [same] at hj
          rw [same, trie.walk_inj hj hchild]
          exact settled
        · exact h.of_node_eq (rest j same)
      obtain ⟨stage'', keeps', children⟩ := ih (fun e' he' => hedges e' (List.mem_cons_of_mem e he'))
        stage' fun t j hj short => keeps t j hj (below t j hj short)
      refine ⟨stage'', fun t j hj h => keeps' t j hj (keeps t j hj h), fun e' he' => ?_⟩
      rcases List.mem_cons.mp he' with rfl | he'
      · exact keeps' _ _ hchild settled
      · exact children e' he'

/-- The queue holds the rest of one depth and, after it, the children of what was visited.
Everything up to this depth is settled. -/
structure Level (T nodes : Nodes) (W : List Char → Prop) (d : Nat) (visited here ahead : List Nat) :
    Prop where
  stage : Stage T nodes W
  depth_pos : 0 < d
  below : ∀ s i, walk T s = some i → s.length ≤ d → Settled T nodes W s i
  visited_depth : ∀ i ∈ visited, ∃ s, walk T s = some i ∧ 0 < s.length ∧ s.length ≤ d
  here_depth : ∀ i ∈ here, ∃ s, walk T s = some i ∧ s.length = d
  ahead_depth : ∀ i ∈ ahead, ∃ s r k, walk T s = some k ∧ k ∈ visited ∧
    walk T (s ++ [r]) = some i ∧ s.length = d ∧ Settled T nodes W (s ++ [r]) i
  cover : ∀ s r k i, walk T s = some k → s.length = d → walk T (s ++ [r]) = some i →
    k ∈ here ∨ i ∈ ahead
  nodup : (visited ++ (here ++ ahead)).Nodup

variable {d : Nat} {visited here ahead : List Nat} {state : Nat}

theorem Level.visited_lt (trie : Trie T W) (h : Level T nodes W d visited here ahead) :
    visited.length < T.length := by
  obtain ⟨label, labelled⟩ := trie.labelled
  have sub : (0 :: visited).length ≤ (List.range T.length).length := by
    refine (List.subperm_of_subset (List.nodup_cons.mpr ⟨fun zero => ?_, ?_⟩) fun i hi => ?_).length_le
    · obtain ⟨s, hs, positive, -⟩ := h.visited_depth 0 zero
      rw [trie.walk_zero hs, List.length_nil] at positive
      exact Nat.lt_irrefl 0 positive
    · exact h.nodup.sublist (List.sublist_append_left visited _)
    · rw [List.mem_range]
      rcases List.mem_cons.mp hi with rfl | hi
      · exact trie.pos
      · obtain ⟨s, hs, -, -⟩ := h.visited_depth i hi
        exact labelled.walk_lt trie.pos hs
  rwa [List.length_range] at sub

theorem Level.descend (trie : Trie T W) (h : Level T nodes W d visited [] ahead) :
    Level T nodes W (d + 1) visited ahead [] where
  stage := h.stage
  depth_pos := Nat.succ_pos d
  below s i hs short := by
    rcases Nat.lt_or_ge d s.length with deep | shallow
    · have exact' : s.length = d + 1 := Nat.le_antisymm short deep
      rcases List.eq_nil_or_concat s with rfl | ⟨t, r, rfl⟩
      · cases exact'
      · rw [List.concat_eq_append] at *
        rw [List.length_append, List.length_singleton] at exact'
        obtain ⟨k, hk, -⟩ := walk_concat_eq_some.mp hs
        rcases h.cover t r k i hk (by omega) hs with none | hi
        · exact absurd none List.not_mem_nil
        · obtain ⟨t', r', _, -, -, hi', -, settled⟩ := h.ahead_depth i hi
          rw [trie.walk_inj hs hi']
          exact settled
    · exact h.below s i hs shallow
  visited_depth i hi := by
    obtain ⟨s, hs, positive, short⟩ := h.visited_depth i hi
    exact ⟨s, hs, positive, Nat.le_succ_of_le short⟩
  here_depth i hi := by
    obtain ⟨s, r, _, -, -, hi, depth, -⟩ := h.ahead_depth i hi
    exact ⟨s ++ [r], hi, by rw [List.length_append, depth, List.length_singleton]⟩
  ahead_depth _ hi := absurd hi List.not_mem_nil
  cover s r k i hk depth _ := by
    rcases List.eq_nil_or_concat s with rfl | ⟨t, r', rfl⟩
    · cases depth
    · rw [List.concat_eq_append] at *
      rw [List.length_append, List.length_singleton] at depth
      obtain ⟨k', hk', -⟩ := walk_concat_eq_some.mp hk
      rcases h.cover t r' k' k hk' (by omega) hk with none | hk
      · exact absurd none List.not_mem_nil
      · exact .inl hk
  nodup := by
    rw [List.append_nil]
    exact h.nodup

theorem Level.visit (trie : Trie T W) (h : Level T nodes W d visited (state :: here) ahead)
    {edges : List (Σ _ : Char, Nat)} (hedges : EdgesOf T state edges) :
    Level T (edges.foldl (visitChild state) nodes) W d (visited ++ [state]) here
      (ahead ++ edges.map Sigma.snd) := by
  obtain ⟨s, hs, depth⟩ := h.here_depth state List.mem_cons_self
  have hne : s ≠ [] := by
    rintro rfl
    have := h.depth_pos
    rw [List.length_nil] at depth
    omega
  obtain ⟨stage, keeps, children⟩ := visitChildren_spec trie hs hne edges
    (fun e he => (hedges.mem e.1 e.2).mp he) h.stage (by rw [depth]; exact h.below)
  have childWalk : ∀ e ∈ edges, walk T (s ++ [e.1]) = some e.2 := fun e he =>
    walk_concat_eq_some.mpr ⟨state, hs, (hedges.mem e.1 e.2).mp he⟩
  have old := h.nodup
  refine ⟨stage, h.depth_pos, fun t j hj short => keeps t j hj (h.below t j hj short), ?_,
    fun i hi => h.here_depth i (List.mem_cons_of_mem state hi), ?_, ?_, ?_⟩
  · intro i hi
    rcases List.mem_append.mp hi with hi | hi
    · exact h.visited_depth i hi
    · rw [List.mem_singleton.mp hi]
      exact ⟨s, hs, List.length_pos_iff.mpr hne, Nat.le_of_eq depth⟩
  · intro i hi
    rcases List.mem_append.mp hi with hi | hi
    · obtain ⟨t, r, k, hk, seen, hi, ht, settled⟩ := h.ahead_depth i hi
      exact ⟨t, r, k, hk, List.mem_append_left _ seen, hi, ht, keeps _ _ hi settled⟩
    · obtain ⟨e, he, rfl⟩ := List.mem_map.mp hi
      exact ⟨s, e.1, state, hs, List.mem_append_right _ (List.mem_singleton_self state),
        childWalk e he, depth, children e he⟩
  · intro t r k i hk ht hi
    rcases h.cover t r k i hk ht hi with hk' | hi'
    · rcases List.mem_cons.mp hk' with rfl | hk'
      · obtain ⟨k', hk'', edge⟩ := walk_concat_eq_some.mp hi
        rw [hk] at hk''
        injection hk'' with hk''
        rw [← hk''] at edge
        exact .inr (List.mem_append_right _
          (List.mem_map.mpr ⟨⟨r, i⟩, (hedges.mem r i).mpr edge, rfl⟩))
      · exact .inl hk'
    · exact .inr (List.mem_append_left _ hi')
  · have regroup : (visited ++ [state]) ++ (here ++ (ahead ++ edges.map Sigma.snd))
        = (visited ++ (state :: here ++ ahead)) ++ edges.map Sigma.snd := by simp
    rw [regroup, List.nodup_append]
    refine ⟨old, ?_, ?_⟩
    · refine hedges.nodup.map_on fun e he e' he' same => ?_
      have walked := childWalk e he
      rw [same] at walked
      have hr := List.append_inj_right' (trie.walk_inj walked (childWalk e' he')) rfl
      injection hr with hr
      exact Sigma.ext hr (heq_of_eq same)
    · rintro i hi _ hchild rfl
      obtain ⟨e, he, rfl⟩ := List.mem_map.mp hchild
      -- A child is one deeper than this depth, and its parent was not visited before.
      rcases List.mem_append.mp hi with seen | queued
      · obtain ⟨t, ht, -, short⟩ := h.visited_depth _ seen
        have := congrArg List.length (trie.walk_inj ht (childWalk e he))
        rw [List.length_append, List.length_singleton] at this
        omega
      · rcases List.mem_append.mp queued with level | next
        · obtain ⟨t, ht, exact'⟩ := h.here_depth _ level
          have := congrArg List.length (trie.walk_inj ht (childWalk e he))
          rw [List.length_append, List.length_singleton] at this
          omega
        · obtain ⟨t, r, k, hk, seen, ht, -, -⟩ := h.ahead_depth _ next
          have hts := List.append_inj_left' (trie.walk_inj ht (childWalk e he)) rfl
          rw [hts, hs] at hk
          injection hk with hk
          rw [← hk] at seen
          exact (List.nodup_append.mp old).2.2 state seen state
            (List.mem_append_left _ List.mem_cons_self) rfl

structure Finished (T nodes : Nodes) (W : List Char → Prop) : Prop where
  stage : Stage T nodes W
  settled : ∀ s i, walk T s = some i → Settled T nodes W s i

theorem Level.finished (h : Level T nodes W d visited [] []) : Finished T nodes W := by
  refine ⟨h.stage, fun s i hs => ?_⟩
  rcases Nat.lt_or_ge d s.length with deep | shallow
  · have split : s.take d ++ [s[d]] = s.take (d + 1) := List.take_append_getElem deep
    obtain ⟨j, hj⟩ := (isText_beginnings T).shorten (List.take_prefix (d + 1) s) ⟨i, hs⟩
    rw [← split] at hj
    obtain ⟨k, hk, -⟩ := walk_concat_eq_some.mp hj
    rcases h.cover _ _ k j hk (by rw [List.length_take]; omega) hj with none | none
    · exact absurd none List.not_mem_nil
    · exact absurd none List.not_mem_nil
  · exact h.below s i hs shallow

/-- The loop ends with an empty queue: it is given a step for each node, and visits no
node twice. -/
theorem visitQueue_spec (trie : Trie T W) (order : RangeOrder) (steps head : Nat)
    (h : Level T nodes W d visited here ahead) (enough : T.length ≤ visited.length + steps) :
    Finished T (visitQueue order steps head nodes (here ++ ahead)) W := by
  induction steps generalizing head nodes d visited here ahead with
  | zero =>
      have := h.visited_lt trie
      omega
  | succ steps ih =>
      have advance : ∀ {d : Nat} {state : Nat} {here ahead : List Nat},
          Level T nodes W d visited (state :: here) ahead →
          Finished T (visitQueue order (steps + 1) head nodes (state :: here ++ ahead)) W := by
        intro d state here ahead h
        rw [List.cons_append, visitQueue]
        have next := h.visit trie (h.stage.edgesOf order (head + 1) state)
        rw [List.append_assoc]
        refine ih (head + 1) next ?_
        rw [List.length_append, List.length_singleton]
        omega
      cases here with
      | cons state here => exact advance h
      | nil =>
          cases ahead with
          | nil => exact h.finished
          | cons state ahead =>
              have next := advance (h.descend trie)
              rwa [List.append_nil] at next

end Queue

theorem Built.trie {nodes : Nodes} {words : List (List Char)} (h : Built nodes words)
    (nonempty : [] ∉ words) : Trie nodes (· ∈ words) where
  labelled := h.labelled
  pos := h.pos
  words w hw := by
    obtain ⟨i, hi, -⟩ := h.marked w hw
    exact ⟨i, hi⟩
  no_empty := nonempty

theorem Built.stage {nodes : Nodes} {words : List (List Char)} (h : Built nodes words)
    (nonempty : [] ∉ words) : Stage nodes nodes (· ∈ words) where
  next _ := rfl
  length := rfl
  sound s i hs := by
    refine ⟨.inl (h.fail i), fun hw => ?_, fun output => ?_⟩
    · obtain ⟨j, hj, output⟩ := h.marked s hw
      rw [hs] at hj
      injection hj with hj
      rwa [hj]
    · obtain ⟨w, hw, hi⟩ := h.output i output
      rw [(h.trie nonempty).walk_inj hs hi]
      exact ⟨w, hw, List.suffix_rfl⟩

/-- Before the loop the queue holds the children of the root, which are settled: their only
proper suffix is empty. -/
theorem Built.level {nodes : Nodes} {words : List (List Char)} (h : Built nodes words)
    (nonempty : [] ∉ words) {edges : List (Σ _ : Char, Nat)} (hedges : EdgesOf nodes 0 edges) :
    Level nodes nodes (· ∈ words) 1 [] (edges.map Sigma.snd) [] := by
  have trie := h.trie nonempty
  have stage := h.stage nonempty
  have childWalk : ∀ e ∈ edges, walk nodes ([] ++ [e.1]) = some e.2 := fun e he =>
    walk_concat_eq_some.mpr ⟨0, rfl, (hedges.mem e.1 e.2).mp he⟩
  refine ⟨stage, Nat.one_pos, fun s i hs short => ?_, fun _ hi => absurd hi List.not_mem_nil, ?_,
    fun _ hi => absurd hi List.not_mem_nil, ?_, ?_⟩
  · have htail : s.tail = [] := by
      rw [← List.length_eq_zero_iff, List.length_tail]
      omega
    refine ⟨⟨[], ?_, by rw [h.fail, walk_nil]⟩, (stage.sound s i hs).output, ?_⟩
    · rw [htail]
      exact .self ⟨0, rfl⟩
    · rintro ⟨w, hw, suffix⟩
      have hwne : w ≠ [] := fun hnil => nonempty (hnil ▸ hw)
      have hne : s ≠ [] := fun hnil => hwne (List.suffix_nil.mp (hnil ▸ suffix))
      rcases (suffix_iff_eq_or_tail hne).mp suffix with rfl | suffix
      · exact (stage.sound w i hs).marked hw
      · rw [htail] at suffix
        exact absurd (List.suffix_nil.mp suffix) hwne
  · intro i hi
    obtain ⟨e, he, rfl⟩ := List.mem_map.mp hi
    exact ⟨[] ++ [e.1], childWalk e he, rfl⟩
  · intro s r k i hk depth _
    obtain ⟨c, rfl⟩ := List.length_eq_one_iff.mp depth
    obtain ⟨j, hj, edge⟩ := (walk_concat_eq_some (s := [])).mp hk
    rw [walk_nil] at hj
    injection hj with hj
    rw [← hj] at edge
    exact .inl (List.mem_map.mpr ⟨⟨c, k⟩, (hedges.mem c k).mpr edge, rfl⟩)
  · rw [List.append_nil, List.nil_append]
    refine hedges.nodup.map_on fun e he e' he' same => ?_
    have walked := childWalk e he
    rw [same] at walked
    have hr := List.append_inj_right' (trie.walk_inj walked (childWalk e' he')) rfl
    injection hr with hr
    exact Sigma.ext hr (heq_of_eq same)

/-! ### The search -/

/-- The state is the longest suffix of the text read so far that is a node. -/
theorem scan_iff {T nodes : Nodes} {W : List Char → Prop} (trie : Trie T W)
    (finished : Finished T nodes W) (text : List Char) {read s : List Char} {state : Nat}
    (longest : Longest (IsText T) read s) (hs : walk T s = some state) :
    scan nodes state text = true ↔ ∃ p, p ≠ [] ∧ p <+: text ∧ ∃ w, W w ∧ w <:+ read ++ p := by
  induction text generalizing read s state with
  | nil =>
      rw [scan]
      refine iff_of_false Bool.false_ne_true ?_
      rintro ⟨p, hne, beginning, -⟩
      exact hne (List.prefix_nil.mp beginning)
  | cons r rest ih =>
      obtain ⟨v, hv, walked⟩ := followFailure_spec trie finished.stage r
        (fun t j hj _ => finished.settled t j hj) nodes.length hs (Nat.le_refl _)
        (finished.stage.length ▸ trie.length_le hs)
      have step : ∃ s', Longest (IsText T) (read ++ [r]) s' ∧ walk T s' =
          some ((next nodes (followFailure nodes r nodes.length state) r).getD
            (followFailure nodes r nodes.length state)) := by
        rw [finished.stage.next_eq]
        cases lookup : next T (followFailure nodes r nodes.length state) r with
        | some target =>
            have there : walk T (v ++ [r]) = some target :=
              walk_concat_eq_some.mpr ⟨_, walked, lookup⟩
            exact ⟨v ++ [r], longest.concat (isText_beginnings T) hv ⟨target, there⟩, there⟩
        | none =>
            have no : ¬ IsText T (v ++ [r]) := by
              intro text
              obtain ⟨j, hj⟩ := (isText_concat walked r).mp text
              rw [lookup] at hj
              cases hj
            have hnil : v = [] := hv.holds.resolve_right no
            rw [hnil] at walked
            exact ⟨[], longest.concat_nil (isText_beginnings T) hv no, walked⟩
      obtain ⟨s', longest', hs'⟩ := step
      have here := (finished.settled s' _ hs').output.trans
        (longest'.exists_suffix_iff trie.words).symm
      rw [scan, Bool.or_eq_true, here, ih longest' hs']
      constructor
      · rintro (ends | ⟨p, -, beginning, ends⟩)
        · exact ⟨[r], List.cons_ne_nil r [], ⟨rest, rfl⟩, ends⟩
        · rw [List.append_assoc] at ends
          exact ⟨r :: p, List.cons_ne_nil r p, (List.prefix_cons_inj r).mpr beginning, ends⟩
      · rintro ⟨p, hne, beginning, ends⟩
        obtain ⟨c, p, rfl⟩ := List.exists_cons_of_ne_nil hne
        obtain ⟨rfl, shorter⟩ := List.cons_prefix_cons.mp beginning
        by_cases hp : p = []
        · rw [hp] at ends
          exact .inl ends
        · rw [List.append_cons] at ends
          exact .inr ⟨p, hp, shorter, ends⟩

theorem foldModerationText_infix (letters : LowerCase) {word content : List Char}
    (h : word <:+: content) :
    foldModerationText letters word <:+: foldModerationText letters content := by
  obtain ⟨front, back, rfl⟩ := h
  refine ⟨foldModerationText letters front, foldModerationText letters back, ?_⟩
  simp only [foldModerationText, List.filter_append, List.map_append]

/-- **The matcher reports exactly the texts with a blocked word in them.**

Whatever the words are, as long as none of them folds to nothing, and in whatever order
the maps are visited, the search finds a match if and only if a folded word occurs in the
folded text.  A word that stands in the text as it is written is always found. -/
theorem matches_iff (letters : LowerCase) (order : RangeOrder) (words : List (List Char))
    (nonempty : ∀ word ∈ words, foldModerationText letters word ≠ []) (content : List Char) :
    ((newBlockedWordMatcher letters order words).matches letters content = true ↔
      ∃ word ∈ words, foldModerationText letters word <:+: foldModerationText letters content) ∧
    ∀ word ∈ words, word <:+: content →
      (newBlockedWordMatcher letters order words).matches letters content = true := by
  have built := built_words letters words built_nil
  rw [List.nil_append] at built
  have none_empty : [] ∉ words.map (foldModerationText letters) := by
    intro hnil
    obtain ⟨word, hword, folded⟩ := List.mem_map.mp hnil
    exact nonempty word hword folded
  have trie := built.trie none_empty
  have stage := built.stage none_empty
  have finished : Finished (words.foldl (insertWord letters) [{ next := ∅ }])
      (newBlockedWordMatcher letters order words).nodes
      (· ∈ words.map (foldModerationText letters)) := by
    have level := built.level none_empty (stage.edgesOf order 0 0)
    have done := visitQueue_spec trie order _ 0 level (Nat.le_add_left _ _)
    rwa [List.append_nil] at done
  have exact' : (newBlockedWordMatcher letters order words).matches letters content = true ↔
      ∃ word ∈ words, foldModerationText letters word <:+: foldModerationText letters content := by
    rw [BlockedWordMatcher.matches]
    have found := scan_iff trie finished (foldModerationText letters content)
      (Longest.self (isText_beginnings _).nil) walk_nil
    have words_iff : (∃ word ∈ words,
        foldModerationText letters word <:+: foldModerationText letters content) ↔
        ∃ w, w ∈ words.map (foldModerationText letters) ∧
          w <:+: foldModerationText letters content := by
      simp only [List.mem_map, exists_exists_and_eq_and]
    split
    · rename_i single
      refine iff_of_false Bool.false_ne_true ?_
      rintro ⟨word, hword, -⟩
      obtain ⟨i, hi⟩ := trie.words _ (List.mem_map_of_mem hword)
      have short := trie.length_le hi
      have low := trie.labelled.choose_spec.walk_lt trie.pos hi
      have pos := List.length_pos_of_ne_nil (nonempty word hword)
      have long := trie.labelled.choose_spec.length_le hi
      rw [finished.stage.length] at single
      omega
    · rw [found, words_iff, exists_infix_iff]
      constructor
      · rintro ⟨p, -, beginning, ends⟩
        exact ⟨p, beginning, ends⟩
      · rintro ⟨p, beginning, w, hw, suffix⟩
        refine ⟨p, ?_, beginning, w, hw, suffix⟩
        rintro rfl
        exact none_empty (List.suffix_nil.mp suffix ▸ hw)
  exact ⟨exact', fun word hword h => exact'.mpr ⟨word, hword, foldModerationText_infix letters h⟩⟩

def latinLetters : LowerCase where
  toLower := Char.toLower
  zeroWidth r h := by
    by_cases upper : r.toLower = r
    · rwa [upper] at h
    · exfalso
      have capital : 'A'.val ≤ r.val ∧ r.val ≤ 'Z'.val := by
        by_contra no
        exact upper (dif_neg no)
      have value : r.toLower.val = r.val + ('a'.val - 'A'.val) :=
        congrArg Char.val (dif_pos capital)
      simp only [isZeroWidth, Bool.or_eq_true, decide_eq_true_eq, Char.ext_iff] at h
      rw [value] at h
      obtain ⟨least, most⟩ := capital
      simp only [UInt32.le_iff_toNat_le, ← UInt32.toNat_inj, UInt32.toNat_add] at least most h
      have small : ∀ n : Nat, n ≤ 90 → (n + ('a'.val - 'A'.val).toNat) % 2 ^ 32 ≤ 122 := by
        intro n hn
        exact Nat.le_trans (Nat.mod_le _ _) (Nat.add_le_add_right hn 32)
      have low := small _ most
      rcases h with (((h | h) | h) | h) | h <;>
        (rw [h] at low; exact absurd low (by decide))

def insertionOrder : RangeOrder where
  visit _ entries := entries
  perm _ entries := List.Perm.refl entries

theorem matches_iff_ushers :
    (newBlockedWordMatcher latinLetters insertionOrder [['h', 'E'], ['s', 'h', 'e']]).matches
      latinLetters ['u', 'S', 'h', '\u200b', 'e', 'r'] = true :=
  (matches_iff latinLetters insertionOrder [['h', 'E'], ['s', 'h', 'e']] (by decide)
    ['u', 'S', 'h', '\u200b', 'e', 'r']).1.mpr
    ⟨['s', 'h', 'e'], by decide, ['u'], ['r'], by decide⟩

/-! ### The word list -/

theorem mem_of_mem_trimSpace {value : List Char} {r : Char} (h : r ∈ trimSpace value) :
    r ∈ value := by
  rw [trimSpace, List.mem_reverse] at h
  have back := List.dropWhile_suffix isSpace |>.subset h
  rw [List.mem_reverse] at back
  exact List.dropWhile_suffix isSpace |>.subset back

theorem foldModerationText_ne_nil (letters : LowerCase) {part word : List Char}
    (subset : ∀ r ∈ word, r ∈ foldModerationText letters part) (hword : word ≠ []) :
    foldModerationText letters word ≠ [] := by
  obtain ⟨r, word, rfl⟩ := List.exists_cons_of_ne_nil hword
  obtain ⟨r', hr', lower⟩ := List.mem_map.mp (subset r List.mem_cons_self)
  have kept : isZeroWidth r' = false := by simpa using (List.mem_filter.mp hr').2
  have keeps : isZeroWidth r = false := by
    rw [Bool.eq_false_iff]
    intro zero
    rw [← lower] at zero
    rw [letters.zeroWidth r' zero] at kept
    cases kept
  rw [foldModerationText, List.filter_cons_of_pos (by simp [keeps])]
  exact List.cons_ne_nil _ _

theorem collectBlockedWords_spec (letters : LowerCase) (parts : List (List Char))
    {words result : List (List Char)} (h : collectBlockedWords letters parts words = .ok result)
    (distinct : words.Nodup) (few : words.length ≤ maxBlockedWordsCount)
    (short : ∀ word ∈ words, word.length ≤ maxBlockedWordRunes) :
    result.Nodup ∧ result.length ≤ maxBlockedWordsCount ∧
      (∀ word ∈ result, word.length ≤ maxBlockedWordRunes) ∧
      ∀ word, word ∈ result ↔ word ∈ words ∨
        word ≠ [] ∧ ∃ part ∈ parts, trimSpace (foldModerationText letters part) = word := by
  induction parts generalizing words with
  | nil =>
      injection h with h
      rw [← h]
      exact ⟨distinct, few, short, fun word => by simp⟩
  | cons part parts ih =>
      unfold collectBlockedWords at h
      dsimp only at h
      generalize folded : trimSpace (foldModerationText letters part) = first at h
      split at h
      · rename_i blank
        obtain ⟨distinct, few, short, mem⟩ := ih h distinct few short
        refine ⟨distinct, few, short, fun word => (mem word).trans (or_congr_right ?_)⟩
        rw [List.isEmpty_iff] at blank
        simp only [List.mem_cons, exists_eq_or_imp, folded, blank]
        exact and_congr_right fun filled => (or_iff_right fun same => filled same.symm).symm
      · rename_i filled
        split at h
        · cases h
        · rename_i fits
          split at h
          · rename_i known
            obtain ⟨distinct, few, short, mem⟩ := ih h distinct few short
            refine ⟨distinct, few, short, fun word => ?_⟩
            rw [List.contains_iff_mem] at known
            simp only [mem word, List.mem_cons, exists_eq_or_imp, folded]
            grind
          · rename_i new
            split at h
            · cases h
            · rename_i room
              have distinct' : (words ++ [first]).Nodup := by
                rw [← List.concat_eq_append]
                exact distinct.concat (by simpa using new)
              have few' : (words ++ [first]).length ≤ maxBlockedWordsCount := by
                rw [List.length_append]
                exact Nat.le_of_not_lt room
              obtain ⟨distinct, few, short, mem⟩ := ih h distinct' few' fun word mem => by
                rcases List.mem_append.mp mem with mem | mem
                · exact short word mem
                · exact List.mem_singleton.mp mem ▸ Nat.le_of_not_lt fits
              refine ⟨distinct, few, short, fun word => ?_⟩
              rw [List.isEmpty_iff] at filled
              simp only [mem word, List.mem_append, List.mem_cons, List.not_mem_nil, or_false,
                exists_eq_or_imp, folded]
              grind

/-- **The list that is stored.** It has what the parts of the text fold to, each once, nothing that
is too long and nothing that would fold to the empty text. -/
theorem normalizeBlockedWords_spec (letters : LowerCase) {content : List Char}
    {words : List (List Char)} (h : normalizeBlockedWords letters content = .ok words) :
    words ≠ [] ∧ words.Nodup ∧ words.length ≤ maxBlockedWordsCount ∧
      (∀ word ∈ words, word.length ≤ maxBlockedWordRunes ∧ foldModerationText letters word ≠ []) ∧
      ∀ word, word ∈ words ↔ word ≠ [] ∧ ∃ part ∈ fieldsFunc isWordSeparator (trimPrefix '\ufeff' content),
        trimSpace (foldModerationText letters part) = word := by
  unfold normalizeBlockedWords at h
  split at h
  · cases h
  · split at h
    · cases h
    · cases h
    · rename_i some' collected
      injection h with h
      rw [← h]
      obtain ⟨distinct, few, short, mem⟩ := collectBlockedWords_spec letters _ collected
        List.nodup_nil (Nat.zero_le _) nofun
      simp only [List.not_mem_nil, false_or] at mem
      refine ⟨some', distinct, few, fun word here => ⟨short word here, ?_⟩, mem⟩
      obtain ⟨filled, part, -, folded⟩ := (mem word).mp here
      exact foldModerationText_ne_nil letters (fun r inside => mem_of_mem_trimSpace (folded ▸ inside))
        filled

theorem normalizeBlockedWords_spec_twice :
    normalizeBlockedWords latinLetters "Ham, ,HAM;eggs".toList = .ok [['h', 'a', 'm'], ['e', 'g', 'g', 's']] ∧
      ([['h', 'a', 'm'], ['e', 'g', 'g', 's']] : List (List Char)).Nodup :=
  have accepted : normalizeBlockedWords latinLetters "Ham, ,HAM;eggs".toList
      = .ok [['h', 'a', 'm'], ['e', 'g', 'g', 's']] := by rfl
  ⟨accepted, (normalizeBlockedWords_spec latinLetters accepted).2.1⟩

end Memos.Api
