/-
Tables whose rows obey constraints.

A schema names the primary key of a row, says which pairs of rows may not stand in one
table (those that agree on the primary key or on another unique column) and which rows
pass the `CHECK` constraints.  A table is a list of rows with the evidence that all of
it holds, so a table that violates its schema cannot be written down, and an `INSERT` or
`UPDATE` that would produce one is a violation instead of a table.

The lemmas say which rows are in the result of each statement, and what a `COUNT` of
more than one is worth: a second row with another key.
-/
import Mathlib.Data.List.Nodup
import Mathlib.Data.List.Pairwise

namespace Keyed

structure Schema (Key Row : Type) where
  key : Row → Key
  clash : Row → Row → Bool
  check : Row → Bool
  clash_of_key : ∀ r s, key r = key s → clash r s = true

inductive Violation where
  | unique
  | check
deriving DecidableEq

structure Table {Key Row : Type} (schema : Schema Key Row) where
  rows : List Row
  separate : rows.Pairwise fun r s => schema.clash r s = false
  checked : ∀ r ∈ rows, schema.check r = true

namespace Table

variable {Key Row : Type} {schema : Schema Key Row}

instance : Membership Row (Table schema) := ⟨fun t r => r ∈ t.rows⟩

theorem mem_def {t : Table schema} {r : Row} : r ∈ t ↔ r ∈ t.rows := Iff.rfl

def empty : Table schema := ⟨[], List.Pairwise.nil, by simp⟩

/-- A list of rows as a table, if the constraints allow it. -/
def ofRows (rows : List Row) : Except Violation (Table schema) :=
  if checked : ∀ r ∈ rows, schema.check r = true then
    if separate : rows.Pairwise fun r s => schema.clash r s = false then
      .ok ⟨rows, separate, checked⟩
    else .error .unique
  else .error .check

def insert (t : Table schema) (row : Row) : Except Violation (Table schema) :=
  ofRows (t.rows ++ [row])

/-- `UPDATE … SET f WHERE p`. -/
def update (t : Table schema) (p : Row → Bool) (f : Row → Row) :
    Except Violation (Table schema) :=
  ofRows (t.rows.map fun r => if p r then f r else r)

/-- A function that changes no column a constraint is about. -/
structure Free (schema : Schema Key Row) (f : Row → Row) : Prop where
  key : ∀ r, schema.key (f r) = schema.key r
  clash : ∀ r s, schema.clash (f r) s = schema.clash r s ∧ schema.clash r (f s) = schema.clash r s
  check : ∀ r, schema.check (f r) = schema.check r

/-- `UPDATE … SET f WHERE p` of columns no constraint is about. -/
def modify (t : Table schema) (p : Row → Bool) (f : Row → Row) (free : Free schema f) :
    Table schema where
  rows := t.rows.map fun r => if p r then f r else r
  separate := by
    rw [List.pairwise_map]
    refine t.separate.imp fun {r s} apart => ?_
    split
    · rw [(free.clash r _).1]
      split
      · rw [(free.clash r s).2, apart]
      · exact apart
    · split
      · rw [(free.clash r s).2, apart]
      · exact apart
  checked := by
    intro r hr
    obtain ⟨s, hs, rfl⟩ := List.mem_map.mp hr
    split
    · rw [free.check]
      exact t.checked s hs
    · exact t.checked s hs

/-- `DELETE … WHERE p`: no constraint stands in its way. -/
def delete (t : Table schema) (p : Row → Bool) : Table schema where
  rows := t.rows.filter fun r => !p r
  separate := t.separate.sublist List.filter_sublist
  checked := fun r hr => t.checked r (List.mem_of_mem_filter hr)

/-- `INSERT … ON CONFLICT DO NOTHING` of a row that passes the checks. -/
def insertOrIgnore (t : Table schema) (row : Row) (passes : schema.check row = true) :
    Table schema :=
  if apart : ∀ r ∈ t.rows, schema.clash r row = false then
    { rows := t.rows ++ [row]
      separate := List.pairwise_append.mpr ⟨t.separate, List.pairwise_singleton _ _,
        fun r hr _ hs => List.mem_singleton.mp hs ▸ apart r hr⟩
      checked := fun r hr => (List.mem_append.mp hr).elim (t.checked r)
        fun h => List.mem_singleton.mp h ▸ passes }
  else t

def select (t : Table schema) (p : Row → Bool) : List Row := t.rows.filter p

def any (t : Table schema) (p : Row → Bool) : Bool := t.rows.any p

def count (t : Table schema) (p : Row → Bool) : Nat := t.rows.countP p

/-- The row a query on the primary key returns. -/
def find? [DecidableEq Key] (t : Table schema) (k : Key) : Option Row :=
  t.rows.find? fun r => schema.key r = k

/-! ### Which rows a statement leaves -/

theorem rows_of_ofRows {rows : List Row} {t : Table schema} (h : ofRows rows = .ok t) :
    t.rows = rows := by
  rw [ofRows] at h
  split at h
  · split at h
    · injection h with h
      rw [← h]
    · exact nomatch h
  · exact nomatch h

theorem ofRows_rows (t : Table schema) : ofRows t.rows = .ok t := by
  unfold ofRows
  rw [dif_pos t.checked, dif_pos t.separate]

theorem mem_insert {t t' : Table schema} {row r : Row} (h : t.insert row = .ok t') :
    r ∈ t' ↔ r ∈ t ∨ r = row := by
  rw [mem_def, mem_def, rows_of_ofRows h, List.mem_append, List.mem_singleton]

/-- An `UPDATE` of columns no constraint is about is not refused. -/
theorem update_of_free (t : Table schema) (p : Row → Bool) {f : Row → Row} (free : Free schema f) :
    t.update p f = .ok (t.modify p f free) :=
  ofRows_rows (t.modify p f free)

/-- An `UPDATE` whose rows pass the checks and clash as they did is not refused. -/
theorem update_ok (t : Table schema) (p : Row → Bool) {f : Row → Row}
    (clash : ∀ r s, schema.clash (f r) s = schema.clash r s ∧ schema.clash r (f s) = schema.clash r s)
    (check : ∀ r, schema.check (f r) = true) : ∃ t', t.update p f = .ok t' := by
  have checked : ∀ r ∈ t.rows.map (fun r => if p r then f r else r), schema.check r = true := by
    intro r mem
    obtain ⟨s, there, rfl⟩ := List.mem_map.mp mem
    split
    · exact check s
    · exact t.checked s there
  have separate : (t.rows.map fun r => if p r then f r else r).Pairwise
      fun r s => schema.clash r s = false := by
    rw [List.pairwise_map]
    refine t.separate.imp fun {r s} apart => ?_
    split
    · rw [(clash r _).1]
      split
      · rw [(clash r s).2, apart]
      · exact apart
    · split
      · rw [(clash r s).2, apart]
      · exact apart
  exact ⟨⟨_, separate, checked⟩, by rw [update, ofRows, dif_pos checked, dif_pos separate]⟩

theorem mem_update {t t' : Table schema} {p : Row → Bool} {f : Row → Row} {r : Row}
    (h : t.update p f = .ok t') : r ∈ t' ↔ ∃ s ∈ t, (if p s then f s else s) = r := by
  rw [mem_def, rows_of_ofRows h, List.mem_map]
  rfl

@[simp] theorem mem_delete {t : Table schema} {p : Row → Bool} {r : Row} :
    r ∈ t.delete p ↔ r ∈ t ∧ p r = false := by
  rw [mem_def, mem_def, delete, List.mem_filter, Bool.not_eq_true']

theorem ext_rows {t t' : Table schema} (h : t.rows = t'.rows) : t = t' := by
  obtain ⟨rows, _, _⟩ := t
  obtain ⟨rows', _, _⟩ := t'
  cases h
  rfl

theorem delete_delete (t : Table schema) (p q : Row → Bool) :
    (t.delete p).delete q = t.delete fun r => p r || q r := by
  refine ext_rows ?_
  show (t.rows.filter fun r => !p r).filter (fun r => !q r) = t.rows.filter fun r => !(p r || q r)
  rw [List.filter_filter]
  refine List.filter_congr fun r _ => ?_
  rw [Bool.not_or, Bool.and_comm]

theorem delete_false (t : Table schema) : (t.delete fun _ => false) = t :=
  ext_rows (List.filter_eq_self.mpr fun _ _ => rfl)

/-- A row is there already, or is inserted, or another row stands in its way. -/
theorem mem_insertOrIgnore {t : Table schema} {row r : Row} (passes : schema.check row = true) :
    r ∈ t.insertOrIgnore row passes ↔
      r ∈ t ∨ (r = row ∧ ∀ s ∈ t, schema.clash s row = false) := by
  unfold insertOrIgnore
  split
  · rename_i apart
    rw [mem_def, List.mem_append, List.mem_singleton]
    exact or_congr_right (and_iff_left apart).symm
  · rename_i conflict
    exact (or_iff_left fun h => conflict h.2).symm

@[simp] theorem mem_select {t : Table schema} {p : Row → Bool} {r : Row} :
    r ∈ t.select p ↔ r ∈ t ∧ p r = true := by
  rw [select, List.mem_filter, mem_def]

@[simp] theorem any_eq_true {t : Table schema} {p : Row → Bool} :
    t.any p = true ↔ ∃ r ∈ t, p r = true := by
  rw [any, List.any_eq_true]
  rfl

theorem any_eq_false {t : Table schema} {p : Row → Bool} :
    t.any p = false ↔ ∀ r ∈ t, p r = false := by
  rw [any, List.any_eq_false]
  exact forall₂_congr fun r _ => by rw [Bool.not_eq_true]

theorem any_congr {t : Table schema} {p q : Row → Bool} (h : ∀ r ∈ t, p r = q r) :
    t.any p = t.any q := by
  rw [Bool.eq_iff_iff, any_eq_true, any_eq_true]
  exact exists_congr fun r => and_congr_right fun hr => by rw [h r hr]

/-- Asking the first row of a query for what all its rows satisfy asks whether it has one. -/
theorem any_head?_select {t : Table schema} {p q : Row → Bool}
    (h : ∀ r, p r = true → q r = true) : (t.select p).head?.any q = t.any p := by
  rw [any, select]
  induction t.rows with
  | nil => rfl
  | cons r rest ih =>
      by_cases hr : p r = true
      · simp [List.filter_cons_of_pos hr, hr, h r hr]
      · rw [List.filter_cons_of_neg hr, ih, List.any_cons, Bool.eq_false_iff.mpr hr, Bool.false_or]

/-! ### The primary key -/

/-- Rows that clash both ways are one row. -/
theorem eq_of_clash {t : Table schema} {r s : Row} (hr : r ∈ t) (hs : s ∈ t)
    (there : schema.clash r s = true) (back : schema.clash s r = true) : r = s := by
  by_contra hne
  have apart : t.rows.Pairwise fun r s => ¬ (schema.clash r s = true ∧ schema.clash s r = true) :=
    t.separate.imp fun no both => by rw [both.1] at no; exact nomatch no
  have symmetric : Std.Symm fun r s => ¬ (schema.clash r s = true ∧ schema.clash s r = true) :=
    ⟨fun _ _ no both => no both.symm⟩
  exact apart.forall hr hs hne ⟨there, back⟩

theorem eq_of_key {t : Table schema} {r s : Row} (hr : r ∈ t) (hs : s ∈ t)
    (hkey : schema.key r = schema.key s) : r = s :=
  eq_of_clash hr hs (schema.clash_of_key r s hkey) (schema.clash_of_key s r hkey.symm)

theorem keys_nodup (t : Table schema) : (t.rows.map schema.key).Nodup := by
  rw [List.Nodup, List.pairwise_map]
  refine t.separate.imp fun {r s} apart same => ?_
  rw [schema.clash_of_key r s same] at apart
  exact nomatch apart

section Find

variable [DecidableEq Key]

theorem find?_eq_some {t : Table schema} {k : Key} {r : Row} :
    t.find? k = some r ↔ r ∈ t ∧ schema.key r = k := by
  constructor
  · intro h
    exact ⟨List.mem_of_find?_eq_some h, by simpa using List.find?_some h⟩
  · rintro ⟨hr, hkey⟩
    cases found : t.find? k with
    | none =>
        have := List.find?_eq_none.mp found r hr
        exact absurd hkey (by simpa using this)
    | some s =>
        have hs : s ∈ t := List.mem_of_find?_eq_some found
        have hkey' : schema.key s = k := by simpa using List.find?_some found
        rw [eq_of_key hr hs (hkey.trans hkey'.symm)]

theorem find?_map_rows (rows : List Row) (p : Row → Bool) {f : Row → Row}
    (kept : ∀ r, schema.key (f r) = schema.key r) (k : Key) :
    (rows.map fun r => if p r then f r else r).find? (fun r => decide (schema.key r = k))
      = (rows.find? fun r => decide (schema.key r = k)).map fun r => if p r then f r else r := by
  have key : ∀ r, schema.key (if p r then f r else r) = schema.key r := by
    intro r
    split
    · exact kept r
    · rfl
  rw [List.find?_map]
  refine congrArg _ (congrArg (fun q => rows.find? q) (funext fun r => ?_))
  show decide (schema.key (if p r then f r else r) = k) = decide (schema.key r = k)
  rw [key]

/-- The row with a key after an update that leaves keys alone. -/
theorem find?_modify (t : Table schema) (p : Row → Bool) (f : Row → Row) (free : Free schema f)
    (k : Key) : (t.modify p f free).find? k = (t.find? k).map fun r => if p r then f r else r :=
  find?_map_rows t.rows p free.key k

theorem find?_update {t t' : Table schema} {p : Row → Bool} {f : Row → Row}
    (h : t.update p f = .ok t') (kept : ∀ r, schema.key (f r) = schema.key r) (k : Key) :
    t'.find? k = (t.find? k).map fun r => if p r then f r else r := by
  rw [find?, rows_of_ofRows h]
  exact find?_map_rows t.rows p kept k

theorem find?_delete {t : Table schema} {p : Row → Bool} {k : Key}
    (spared : ∀ r ∈ t, schema.key r = k → p r = false) : (t.delete p).find? k = t.find? k := by
  refine Option.ext fun r => ?_
  rw [find?_eq_some, find?_eq_some, mem_delete]
  exact ⟨fun h => ⟨h.1.1, h.2⟩, fun h => ⟨⟨h.1, spared r h.1 h.2⟩, h.2⟩⟩

theorem find?_eq_none {t : Table schema} {k : Key} :
    t.find? k = none ↔ ∀ r ∈ t, schema.key r ≠ k := by
  rw [find?, List.find?_eq_none]
  exact forall₂_congr fun r _ => by simp

/-- A `DELETE` by the keys of rows that were listed before. -/
theorem mem_delete_keys {t : Table schema} {rows : List Row} {p : Row → Prop}
    (listed : ∀ r, r ∈ rows ↔ r ∈ t ∧ p r) {r : Row} :
    (r ∈ t.delete fun r => (rows.map schema.key).contains (schema.key r)) ↔ r ∈ t ∧ ¬ p r := by
  rw [mem_delete, List.contains_eq_mem, decide_eq_false_iff_not]
  refine and_congr_right fun hr => not_congr ⟨fun h => ?_, fun h => ?_⟩
  · obtain ⟨s, hs, same⟩ := List.mem_map.mp h
    obtain ⟨stored, hp⟩ := (listed s).mp hs
    rwa [eq_of_key hr stored same.symm]
  · exact List.mem_map.mpr ⟨r, (listed r).mpr ⟨hr, h⟩, rfl⟩

/-- A condition on the row with a given key, asked as a subquery or of the row found. -/
theorem any_key {t : Table schema} {k : Key} {p : Row → Bool} :
    (t.any fun r => decide (schema.key r = k) && p r) = (t.find? k).any p := by
  rw [Bool.eq_iff_iff, any_eq_true]
  cases found : t.find? k with
  | none =>
      rw [find?_eq_none] at found
      simp only [Option.any_none, Bool.false_eq_true, iff_false, not_exists, not_and]
      intro r hr
      simp [found r hr]
  | some s =>
      obtain ⟨hs, hkey⟩ := find?_eq_some.mp found
      rw [Option.any_some]
      constructor
      · rintro ⟨r, hr, h⟩
        simp only [Bool.and_eq_true, decide_eq_true_eq] at h
        rw [eq_of_key hs hr (hkey.trans h.1.symm)]
        exact h.2
      · intro h
        exact ⟨s, hs, by simp [hkey, h]⟩

end Find

/-! ### Counting -/

theorem nodup (t : Table schema) : t.rows.Nodup := List.Nodup.of_map schema.key t.keys_nodup

/-- A count above one leaves a row with another key. -/
theorem exists_other {t : Table schema} {p : Row → Bool} (many : 1 < t.count p) (k : Key) :
    ∃ s ∈ t, p s = true ∧ schema.key s ≠ k := by
  by_contra none
  push Not at none
  have same : ∀ r ∈ t.rows.filter p, ∀ s ∈ t.rows.filter p, r = s := by
    intro r hr s hs
    rw [List.mem_filter] at hr hs
    exact eq_of_key hr.1 hs.1 ((none r hr.1 hr.2).trans (none s hs.1 hs.2).symm)
  have distinct := t.nodup.filter p
  rw [count, List.countP_eq_length_filter] at many
  match hlist : t.rows.filter p, many with
  | r :: s :: rest, _ =>
      rw [hlist] at same distinct
      have : r = s := same r (by simp) s (by simp)
      rw [this] at distinct
      simp at distinct

theorem count_pos {t : Table schema} {p : Row → Bool} :
    0 < t.count p ↔ ∃ r ∈ t, p r = true := List.countP_pos_iff

end Table

end Keyed
