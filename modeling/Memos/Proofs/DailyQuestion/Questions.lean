/-
A bank of questions that is accepted is accepted again, as it is.

Every kept question is normal: its texts are trimmed, short and not empty, and it has no
simpler form.  A normal question is read back from what is written for it and left alone,
with the same texts for the moderation.  The keys tell the kept questions apart, so none of
them is dropped the second time.
-/
import Memos.DailyQuestion.Questions
import Memos.Lib.Fallible

namespace Memos.DailyQuestion

open Api Fallible

/-! ### Texts -/

theorem trimSpace_eq_trim (text : List Char) : trimSpace text = Trim.trim isSpace text := rfl

theorem TrimSpace_TrimSpace (text : String) : TrimSpace (TrimSpace text) = TrimSpace text := by
  unfold TrimSpace
  rw [String.toList_ofList, trimSpace_eq_trim, trimSpace_eq_trim, Trim.trim_trim]

/-- A text that is kept as it is. -/
structure Clean (text : String) : Prop where
  trimmed : TrimSpace text = text
  some : text ≠ ""
  short : text.length ≤ MaxQuestionRunes

theorem Clean.normalizeText {text : String} (clean : Clean text) (index : Nat) :
    normalizeText text index = .ok (Option.some text, [text]) := by
  unfold DailyQuestion.normalizeText
  dsimp only
  rw [clean.trimmed, if_neg (Nat.not_lt.mpr clean.short), if_neg clean.some]

theorem normalizeText_ok {text : String} {index : Nat} {normalized : Option String}
    {moderation : List String} (h : normalizeText text index = .ok (normalized, moderation)) :
    normalized = none ∧ moderation = [] ∨
      normalized = some (TrimSpace text) ∧ moderation = [TrimSpace text] ∧
        Clean (TrimSpace text) := by
  unfold normalizeText at h
  dsimp only at h
  split_ifs at h with long blank
  · left
    injection h with h
    injection h with none empty
    exact ⟨none.symm, empty.symm⟩
  · right
    injection h with h
    injection h with some one
    exact ⟨some.symm, one.symm, TrimSpace_TrimSpace text, blank, Nat.not_lt.mp long⟩

/-! ### Maps -/

theorem lookup_eq_some_iff_mem {β : Type} {l : List (String × β)} (nodup : (l.map Prod.fst).Nodup)
    {key : String} {value : β} : l.lookup key = some value ↔ (key, value) ∈ l := by
  rw [List.lookup_eq_some_iff]
  constructor
  · rintro ⟨before, after, rfl, -⟩
    exact List.mem_append_right _ List.mem_cons_self
  · intro mem
    obtain ⟨before, after, rfl⟩ := List.append_of_mem mem
    refine ⟨before, after, rfl, fun other there => ?_⟩
    rw [List.map_append, List.map_cons, List.nodup_append] at nodup
    have apart := nodup.2.2 other.1 (List.mem_map_of_mem there) key List.mem_cons_self
    simpa using apart.symm

theorem lookup_perm {β : Type} {l l' : List (String × β)} (perm : l.Perm l')
    (nodup : (l'.map Prod.fst).Nodup) (key : String) : l.lookup key = l'.lookup key := by
  have same : (l.map Prod.fst).Nodup := (perm.map _).nodup_iff.mpr nodup
  refine Option.ext fun value => ?_
  rw [lookup_eq_some_iff_mem same, lookup_eq_some_iff_mem nodup, perm.mem_iff]

theorem supportedQuestionLocales_nodup : supportedQuestionLocales.Nodup := by decide

theorem Translations.nodup {locales : List String} (translations : Translations locales)
    (nodup : locales.Nodup) : (translations.texts.map Prod.fst).Nodup :=
  nodup.sublist translations.ordered

/-! ### Translations -/

def Translations.Clean {locales : List String} (translations : Translations locales) : Prop :=
  ∀ translation ∈ translations.texts, DailyQuestion.Clean translation.2

theorem normalizeTranslations_ok {index : Nat} {fields : List (String × Value)}
    {locales : List String} {translations : Translations locales} {moderation : List String}
    (h : normalizeTranslations index fields locales = .ok (translations, moderation)) :
    translations.Clean ∧ moderation = translations.texts.map Prod.snd := by
  induction locales generalizing moderation with
  | nil =>
      injection h with h
      injection h with empty none
      rw [← empty, ← none]
      exact ⟨List.forall_mem_nil _, rfl⟩
  | cons locale locales ih =>
      unfold normalizeTranslations at h
      split at h
      · obtain ⟨⟨rest, texts⟩, later, h⟩ := bind_ok.mp h
        injection h with h
        injection h with skipped same
        rw [← skipped, ← same]
        exact ih later
      · obtain ⟨⟨clean, texts⟩, here, h⟩ := bind_ok.mp h
        obtain ⟨⟨rest, texts'⟩, later, h⟩ := bind_ok.mp h
        obtain ⟨cleanRest, same⟩ := ih later
        rcases normalizeText_ok here with ⟨rfl, rfl⟩ | ⟨rfl, rfl, cleanHere⟩
        · injection h with h
          injection h with skipped texts
          rw [← skipped, ← texts]
          exact ⟨cleanRest, same⟩
        · injection h with h
          injection h with added texts
          rw [← added, ← texts, same]
          exact ⟨List.forall_mem_cons.mpr ⟨cleanHere, cleanRest⟩, rfl⟩
      · cases h

/-- Translations that are kept as they are, read from any map with them. -/
theorem normalizeTranslations_self {index : Nat} {fields : List (String × Value)}
    {locales : List String} (nodup : locales.Nodup) (translations : Translations locales)
    (clean : translations.Clean)
    (reads : ∀ locale ∈ locales,
      fields.lookup locale = (translations.texts.lookup locale).map Value.string) :
    normalizeTranslations index fields locales
      = .ok (translations, translations.texts.map Prod.snd) := by
  induction locales with
  | nil =>
      obtain ⟨texts, ordered⟩ := translations
      cases texts with
      | nil => rfl
      | cons text texts => cases ordered
  | cons locale locales ih =>
      rw [List.nodup_cons] at nodup
      obtain ⟨texts, ordered⟩ := translations
      have other : ∀ l ∈ locales, l ≠ locale := fun l mem same => nodup.1 (same ▸ mem)
      have here := reads locale List.mem_cons_self
      unfold normalizeTranslations
      rcases List.sublist_cons_iff.mp ordered with later | ⟨names, same, later⟩
      · -- There is none under the first locale.
        have missing : texts.lookup locale = none := by
          rw [List.lookup_eq_none_iff]
          intro text mem
          have inLocales := later.subset (List.mem_map_of_mem mem)
          simpa using (other _ inLocales).symm
        dsimp only at here
        rw [missing] at here
        rw [here]
        dsimp only [Option.map_none]
        rw [ih nodup.2 ⟨texts, later⟩ clean fun l mem => reads l (List.mem_cons_of_mem _ mem)]
        rfl
      · cases texts with
        | nil => cases same
        | cons text texts =>
            obtain ⟨name, text⟩ := text
            injection same with first rest
            dsimp only at first rest
            subst first
            rw [← rest] at later
            have cleanText := clean _ List.mem_cons_self
            dsimp only at here
            rw [List.lookup_cons_self] at here
            rw [here]
            dsimp only [Option.map_some]
            rw [cleanText.normalizeText, ih nodup.2 ⟨texts, later⟩
              (fun t mem => clean t (List.mem_cons_of_mem _ mem)) fun l mem => ?_]
            · show Except.ok _ = Except.ok _
              rw [cleanText.trimmed]
              rfl
            · rw [reads l (List.mem_cons_of_mem _ mem), List.lookup_cons]
              have apart : (l == name) = false := by simpa using other l mem
              rw [apart]

/-! ### One question -/

def Entry.Normal : Entry → Prop
  | .text t => Clean t
  | .question q =>
      (∃ id, q = { builtin := some id } ∧ 0 ≤ id ∧ id < BuiltinQuestionCount) ∨
        q.builtin = none ∧ Clean q.text ∧ validLocale q.locale = true ∧ q.translations.Clean ∧
          ¬(q.locale = "" ∧ q.translations.texts = [])

def Entry.texts : Entry → List String
  | .text t => [t]
  | .question q =>
      (if q.text = "" then [] else [q.text]) ++ q.translations.texts.map Prod.snd

theorem readBuiltin_ok {fields : List (String × Value)} {index : Nat} {builtin : Value}
    {entry : Entry} {texts : List String}
    (h : readBuiltin fields index builtin = .ok (some entry, texts)) :
    entry.Normal ∧ texts = entry.texts := by
  unfold readBuiltin at h
  split at h
  · rename_i number
    split_ifs at h with invalid
    injection h with h
    injection h with same none
    injection same with same
    rw [← same, ← none]
    refine ⟨.inl ⟨number.num, rfl, ?_⟩, rfl⟩
    rw [Bool.not_eq_true, Bool.or_eq_false_iff, Bool.or_eq_false_iff, decide_eq_false_iff_not,
      Bool.or_eq_false_iff, decide_eq_false_iff_not] at invalid
    exact ⟨Int.not_lt.mp invalid.1.1.2, Int.not_le.mp invalid.1.2⟩
  · cases h

theorem readTranslations_ok {fields : List (String × Value)} {index : Nat}
    {translations : Translations supportedQuestionLocales} {moderation : List String}
    (h : readTranslations fields index = .ok (translations, moderation)) :
    translations.Clean ∧ moderation = translations.texts.map Prod.snd := by
  unfold readTranslations at h
  split at h
  · injection h with h
    injection h with same none
    rw [← same, ← none]
    exact ⟨List.forall_mem_nil _, rfl⟩
  · split_ifs at h
    exact normalizeTranslations_ok h
  · cases h

theorem readLocale_ok {fields : List (String × Value)} {index : Nat} {locale : String}
    (h : readLocale fields index = .ok locale) : validLocale locale = true := by
  unfold readLocale at h
  split at h
  · injection h with h
    rw [← h]
    rfl
  · split_ifs at h with valid
    injection h with h
    rw [← h]
    exact valid
  · cases h

theorem normalizeObject_ok {fields : List (String × Value)} {index : Nat} {entry : Entry}
    {texts : List String} (h : normalizeObject fields index = .ok (some entry, texts)) :
    entry.Normal ∧ texts = entry.texts := by
  unfold normalizeObject at h
  split at h
  · exact readBuiltin_ok h
  · split_ifs at h with unknown
    obtain ⟨text, -, h⟩ := bind_ok.mp h
    obtain ⟨⟨normalized, moderation⟩, normalizes, h⟩ := bind_ok.mp h
    obtain ⟨locale, readsLocale, h⟩ := bind_ok.mp h
    obtain ⟨⟨translations, translated⟩, readsTranslations, h⟩ := bind_ok.mp h
    obtain ⟨cleanTranslations, rfl⟩ := readTranslations_ok readsTranslations
    rcases normalizeText_ok normalizes with ⟨rfl, rfl⟩ | ⟨rfl, rfl, clean⟩
    · have blank : (if (none : Option String).isSome = true then TrimSpace text else "") = "" := rfl
      dsimp only at h
      rw [blank, if_pos rfl] at h
      split_ifs at h
      injection h with h
      injection h with none
      cases none
    · have kept : (if (some (TrimSpace text)).isSome = true then TrimSpace text else "")
          = TrimSpace text := rfl
      dsimp only at h
      rw [kept, if_neg clean.some] at h
      split_ifs at h with bare
      · injection h with h
        injection h with same one
        injection same with same
        rw [← same, ← one, bare.2]
        exact ⟨clean, rfl⟩
      · injection h with h
        injection h with same all
        injection same with same
        rw [← same, ← all]
        refine ⟨.inr ⟨rfl, clean, readLocale_ok readsLocale, cleanTranslations, bare⟩, ?_⟩
        show _ = (if TrimSpace text = "" then [] else [TrimSpace text]) ++ _
        rw [if_neg clean.some]

theorem normalizeQuestion_ok {value : Value} {index : Nat} {entry : Entry} {texts : List String}
    (h : normalizeQuestion value index = .ok (some entry, texts)) :
    entry.Normal ∧ texts = entry.texts := by
  unfold normalizeQuestion at h
  split at h
  · obtain ⟨⟨normalized, moderation⟩, normalizes, h⟩ := bind_ok.mp h
    rcases normalizeText_ok normalizes with ⟨rfl, rfl⟩ | ⟨rfl, rfl, clean⟩
    · injection h with h
      injection h with none
      cases none
    · injection h with h
      injection h with same one
      injection same with same
      rw [← same, ← one]
      exact ⟨clean, rfl⟩
  · exact normalizeObject_ok h
  · cases h

/-! ### Reading a question back -/

section Fields

variable {question : Question} {fields translations : List (String × Value)}

theorem Question.fields_names :
    ((question.fields translations).map Prod.fst).Sublist
      ["builtin", "text", "locale", "translations"] := by
  unfold Question.fields
  rw [List.map_append, List.map_append, List.map_append]
  show List.Sublist _ ((["builtin"] ++ ["text"] ++ ["locale"]) ++ ["translations"])
  refine ((List.Sublist.append ?_ ?_).append ?_).append ?_
  · cases question.builtin with
    | none => exact List.nil_sublist _
    | some id => exact List.Sublist.refl _
  · split_ifs
    · exact List.nil_sublist _
    · exact List.Sublist.refl _
  · split_ifs
    · exact List.nil_sublist _
    · exact List.Sublist.refl _
  · split_ifs
    · exact List.nil_sublist _
    · exact List.Sublist.refl _

theorem lookup_single {β : Type} {name key : String} {value : β} :
    [(name, value)].lookup key = if key = name then some value else none := by
  by_cases same : key = name
  · rw [if_pos same, same, List.lookup_cons_self]
  · rw [if_neg same, List.lookup_eq_none_iff, List.forall_mem_singleton]
    simpa using same

theorem lookup_unless {β : Type} {name key : String} {value : β} {p : Prop} [Decidable p] :
    (if p then [] else [(name, value)]).lookup key
      = if key = name then if p then none else some value else none := by
  split_ifs with empty same same
  · rfl
  · rfl
  · rw [lookup_single, if_pos same]
  · rw [lookup_single, if_neg same]

theorem Question.lookup_fields (key : String) :
    (question.fields translations).lookup key =
      if key = "builtin" then question.builtin.map fun id : Int => Value.number (.ofInt id)
      else if key = "text" then if question.text = "" then none else some (.string question.text)
      else if key = "locale" then
        if question.locale = "" then none else some (.string question.locale)
      else if key = "translations" then
        if translations = [] then none else some (.object translations)
      else none := by
  have builtin : (question.builtin.map fun id : Int => ("builtin", Value.number (.ofInt id))).toList.lookup key
      = if key = "builtin" then question.builtin.map fun id : Int => Value.number (.ofInt id) else none := by
    cases question.builtin with
    | none => exact (ite_self none).symm
    | some id => exact lookup_single
  unfold Question.fields
  rw [List.lookup_append, List.lookup_append, List.lookup_append, builtin, lookup_unless,
    lookup_unless, lookup_unless]
  by_cases first : key = "builtin"
  · subst first
    simp
  by_cases second : key = "text"
  · subst second
    simp
  by_cases third : key = "locale"
  · subst third
    simp
  rw [if_neg first, if_neg first, if_neg second, if_neg second, if_neg third, if_neg third,
    Option.none_or, Option.none_or, Option.none_or]

theorem lookup_map_snd {β γ : Type} (f : β → γ) (l : List (String × β)) (key : String) :
    (l.map fun t => (t.1, f t.2)).lookup key = (l.lookup key).map f := by
  induction l with
  | nil => rfl
  | cons t l ih =>
      rw [List.map_cons, List.lookup_cons, List.lookup_cons]
      split
      · rfl
      · exact ih

/-- What is written for a question, in any order. -/
structure Written (question : Question) (fields translations : List (String × Value)) : Prop where
  map : translations.Perm (question.translations.texts.map fun t => (t.1, Value.string t.2))
  fields : fields.Perm (question.fields translations)

theorem Written.lookup (written : Written question fields translations) (key : String) :
    fields.lookup key = (question.fields translations).lookup key :=
  lookup_perm written.fields (List.Nodup.sublist Question.fields_names (by decide)) key

theorem Written.readText (written : Written question fields translations)
    (some : question.text ≠ "") (index : Nat) : readText fields index = .ok question.text := by
  unfold DailyQuestion.readText
  rw [written.lookup, Question.lookup_fields, if_neg (by decide), if_pos rfl, if_neg some]

theorem Written.readLocale (written : Written question fields translations)
    (valid : validLocale question.locale = true) (index : Nat) :
    readLocale fields index = .ok question.locale := by
  unfold DailyQuestion.readLocale
  rw [written.lookup, Question.lookup_fields, if_neg (by decide), if_neg (by decide), if_pos rfl]
  by_cases none : question.locale = ""
  · rw [if_pos none, none]
  · rw [if_neg none]
    dsimp only
    rw [if_pos valid]

theorem Written.readTranslations (written : Written question fields translations)
    (clean : question.translations.Clean) (index : Nat) :
    readTranslations fields index
      = .ok (question.translations, question.translations.texts.map Prod.snd) := by
  have names := supportedQuestionLocales_nodup
  unfold DailyQuestion.readTranslations
  rw [written.lookup, Question.lookup_fields, if_neg (by decide), if_neg (by decide),
    if_neg (by decide), if_pos rfl]
  by_cases none : translations = []
  · have empty := written.map
    rw [none, List.nil_perm, List.map_eq_nil_iff] at empty
    rw [if_pos none]
    dsimp only
    generalize question.translations = map at empty
    obtain ⟨texts, ordered⟩ := map
    dsimp only at empty
    subst empty
    rfl
  · rw [if_neg none]
    dsimp only
    rw [if_neg, normalizeTranslations_self names question.translations clean]
    · intro locale _
      rw [lookup_perm written.map, lookup_map_snd]
      rw [List.map_map]
      exact question.translations.nodup names
    · -- Every locale is one of the supported ones.
      rw [Bool.not_eq_true, List.any_eq_false]
      intro translation mem
      obtain ⟨t, listed, rfl⟩ := List.mem_map.mp (written.map.subset mem)
      have supported : t.1 ∈ supportedQuestionLocales :=
        question.translations.ordered.subset (List.mem_map_of_mem listed)
      have named : t.1 ≠ "" := by
        intro blank
        rw [blank] at supported
        exact absurd supported (by decide)
      unfold validLocale
      simp [named, supported]

theorem Written.known (written : Written question fields translations)
    (custom : question.builtin = none) {field : String × Value} (mem : field ∈ fields) :
    field.1 ∈ ["text", "locale", "translations"] := by
  have absent : (question.fields translations).lookup "builtin" = none := by
    rw [Question.lookup_fields, if_pos rfl, custom]
    rfl
  have there := written.fields.subset mem
  have name := Question.fields_names.subset (List.mem_map_of_mem there)
  rcases List.mem_cons.mp name with builtin | name
  · rw [List.lookup_eq_none_iff] at absent
    have apart := absent field there
    rw [builtin] at apart
    cases apart
  · exact name

theorem Written.normalizeObject (written : Written question fields translations)
    (normal : (Entry.question question).Normal) (index : Nat) :
    normalizeObject fields index
      = .ok (some (.question question), (Entry.question question).texts) := by
  unfold DailyQuestion.normalizeObject
  rw [written.lookup, Question.lookup_fields, if_pos rfl]
  rcases normal with ⟨id, rfl, positive, small⟩ | ⟨custom, clean, valid, cleanAll, needed⟩
  · have none := written.map
    change translations.Perm [] at none
    rw [List.perm_nil] at none
    have one := written.fields
    rw [none] at one
    change fields.Perm [("builtin", Value.number (.ofInt id))] at one
    rw [List.perm_singleton] at one
    dsimp only [Option.map_some]
    unfold readBuiltin
    dsimp only
    rw [one, if_neg]
    · rfl
    · rw [Bool.not_eq_true]
      show (false || decide (id < 0) || decide ((BuiltinQuestionCount : Int) ≤ id) || false) = false
      rw [decide_eq_false (Int.not_lt.mpr positive), decide_eq_false (Int.not_le.mpr small)]
      rfl
  · rw [custom]
    dsimp only [Option.map_none]
    rw [if_neg]
    · rw [written.readText clean.some, ok_bind, clean.normalizeText, ok_bind]
      simp only [Option.isSome_some, if_true, clean.trimmed]
      rw [written.readLocale valid, ok_bind, written.readTranslations cleanAll, ok_bind]
      dsimp only
      rw [if_neg clean.some, if_neg needed]
      obtain ⟨builtin, text, locale, translations'⟩ := question
      dsimp only at custom clean
      subst custom
      show _ = Except.ok (_, (if text = "" then [] else [text]) ++ _)
      rw [if_neg clean.some]
      rfl
    · rw [Bool.not_eq_true, List.any_eq_false]
      intro field mem unknown
      rw [Bool.not_eq_true', ← Bool.not_eq_true, List.contains_iff_mem] at unknown
      exact unknown (written.known custom mem)

theorem normalizeQuestion_decodes {value : Value} {entry : Entry} (normal : entry.Normal)
    (decodes : Decodes value entry) (index : Nat) :
    normalizeQuestion value index = .ok (some entry, entry.texts) := by
  cases entry with
  | text t =>
      change value = .string t at decodes
      rw [decodes]
      unfold normalizeQuestion
      dsimp only
      rw [Clean.normalizeText normal]
      rfl
  | question q =>
      obtain ⟨fields, translations, rfl, same, perm⟩ := decodes
      exact Written.normalizeObject ⟨same, perm⟩ normal index

end Fields

/-! ### The list -/

section Lists

variable {json : Encoding}

/-- What is known of the questions that are kept, by their keys. -/
structure Kept (json : Encoding) (seen : List String) (entries : List Entry) : Prop where
  normal : ∀ entry ∈ entries, entry.Normal
  fresh : ∀ entry ∈ entries, ∃ key, json.marshalEntry entry = .ok key ∧ key ∉ seen
  distinct : entries.Nodup

theorem normalizeAll_ok {index : Nat} {seen : List String} {input : List Value}
    {questions : List Entry} {moderation : List String}
    (h : normalizeAll json index seen input = .ok (questions, moderation)) :
    Kept json seen questions ∧ moderation = questions.flatMap Entry.texts ∧
      questions.length ≤ input.length := by
  induction input generalizing index seen questions moderation with
  | nil =>
      injection h with h
      injection h with none empty
      rw [← none, ← empty]
      exact ⟨⟨List.forall_mem_nil _, List.forall_mem_nil _, List.nodup_nil⟩, rfl, Nat.le_refl _⟩
  | cons value input ih =>
      obtain ⟨⟨question, texts⟩, normalizes, h⟩ := bind_ok.mp h
      cases question with
      | none =>
          obtain ⟨kept, same, few⟩ := ih h
          exact ⟨kept, same, Nat.le_succ_of_le few⟩
      | some entry =>
          obtain ⟨normal, rfl⟩ := normalizeQuestion_ok normalizes
          obtain ⟨key, marshals, h⟩ := bind_ok.mp h
          split_ifs at h with repeated
          · obtain ⟨kept, same, few⟩ := ih h
            exact ⟨kept, same, Nat.le_succ_of_le few⟩
          · obtain ⟨⟨rest, later⟩, normalizes, h⟩ := bind_ok.mp h
            obtain ⟨kept, rfl, few⟩ := ih normalizes
            injection h with h
            injection h with same all
            rw [← same, ← all]
            have new : key ∉ seen := by simpa using repeated
            refine ⟨⟨List.forall_mem_cons.mpr ⟨normal, kept.normal⟩,
              List.forall_mem_cons.mpr ⟨⟨key, marshals, new⟩, fun other mem => ?_⟩,
              List.nodup_cons.mpr ⟨fun mem => ?_, kept.distinct⟩⟩, rfl, Nat.succ_le_succ few⟩
            · obtain ⟨key', marshals', fresh⟩ := kept.fresh other mem
              exact ⟨key', marshals', fun old => fresh (List.mem_cons_of_mem _ old)⟩
            · obtain ⟨key', marshals', fresh⟩ := kept.fresh entry mem
              obtain rfl : key = key' := Except.ok.inj (marshals.symm.trans marshals')
              exact fresh List.mem_cons_self

theorem normalizeAll_decodes {index : Nat} {seen : List String} {input : List Value}
    {questions : List Entry} (kept : Kept json seen questions)
    (decodes : List.Forall₂ Decodes input questions) :
    normalizeAll json index seen input = .ok (questions, questions.flatMap Entry.texts) := by
  induction decodes generalizing index seen with
  | nil => rfl
  | @cons value entry input questions here rest ih =>
      obtain ⟨key, marshals, new⟩ := kept.fresh entry List.mem_cons_self
      have distinct := List.nodup_cons.mp kept.distinct
      have later : Kept json (key :: seen) questions := by
        refine ⟨fun other mem => kept.normal other (List.mem_cons_of_mem _ mem),
          fun other mem => ?_, distinct.2⟩
        obtain ⟨key', marshals', fresh⟩ := kept.fresh other (List.mem_cons_of_mem _ mem)
        refine ⟨key', marshals', fun seen => ?_⟩
        rcases List.mem_cons.mp seen with rfl | old
        · exact distinct.1 (json.marshalEntry_injective _ _ _ marshals' marshals ▸ mem)
        · exact fresh old
      have unseen : seen.contains key = false := by simpa using new
      unfold normalizeAll
      rw [normalizeQuestion_decodes (kept.normal entry List.mem_cons_self) here, ok_bind]
      dsimp only
      rw [marshals, ok_bind, unseen, if_neg Bool.false_ne_true, ih later]
      rfl

/-! ### The bank -/

theorem byteSize_map_char (s : List Char) : byteSize (s.map .char) = Utf8.byteLength s := by
  induction s with
  | nil => rfl
  | cons c s ih =>
      rw [Utf8.byteLength_cons, ← ih]
      rfl

theorem byteSize_runes (text : String) : byteSize (runes text) = text.utf8ByteSize := by
  unfold runes
  rw [byteSize_map_char, ← Utf8.utf8ByteSize_ofList, String.ofList_toList]

/-- No white space stands around an array. -/
theorem trim_runes {text : String} (first : text.toList.head? = some '[')
    (last : text.toList.getLast? = some ']') :
    Trim.trim Rune.isSpace (runes text) = runes text := by
  refine Trim.Trimmed.trim_eq ⟨fun r start => ?_, fun r final => ?_⟩
  · unfold runes at start
    rw [List.head?_map, first] at start
    cases start
    rfl
  · unfold runes at final
    rw [List.getLast?_map, last] at final
    cases final
    rfl

theorem Entry.Normal.clean {entry : Entry} (normal : entry.Normal) :
    ∀ text ∈ entry.texts, Clean text := by
  cases entry with
  | text t => exact List.forall_mem_singleton.mpr normal
  | question q =>
      unfold Entry.texts
      rcases normal with ⟨id, rfl, -, -⟩ | ⟨-, clean, -, cleanAll, -⟩
      · exact List.forall_mem_nil _
      · dsimp only
        rw [if_neg clean.some]
        refine List.forall_mem_cons.mpr ⟨clean, fun text mem => ?_⟩
        obtain ⟨translation, there, rfl⟩ := List.mem_map.mp mem
        exact cleanAll translation there

theorem Entry.Normal.exact {entry : Entry} (normal : entry.Normal) : entry.Exact := by
  cases entry with
  | text t => trivial
  | question q =>
      intro id built
      rcases normal with ⟨id', rfl, positive, small⟩ | ⟨custom, -⟩
      · obtain rfl : id' = id := Option.some_inj.mp built
        have bound : BuiltinQuestionCount = 365 := rfl
        omega
      · rw [custom] at built
        cases built

/-- The questions that are stored as a text. -/
structure Stored (json : Encoding) (questions : List Entry) (out : String) : Prop where
  kept : Kept json [] questions
  few : questions.length ≤ MaxQuestions
  none : questions = [] → out = ""
  written : questions ≠ [] → json.marshal questions = .ok out
  small : out.utf8ByteSize ≤ MaxJSONBytes

theorem normalizeQuestions_stored {raw : List Rune} {out : String} {moderation : List String}
    (accepted : NormalizeQuestions json raw = .ok (out, moderation)) :
    ∃ questions, Stored json questions out ∧ moderation = questions.flatMap Entry.texts := by
  have nothing : out = "" → moderation = [] →
      ∃ questions, Stored json questions out ∧ moderation = questions.flatMap Entry.texts := by
    rintro rfl rfl
    exact ⟨[], ⟨⟨List.forall_mem_nil _, List.forall_mem_nil _, List.nodup_nil⟩, Nat.zero_le _,
      fun _ => rfl, fun some => absurd rfl some, Nat.zero_le _⟩, rfl⟩
  unfold NormalizeQuestions at accepted
  split_ifs at accepted
  dsimp only at accepted
  split at accepted
  · injection accepted with accepted
    injection accepted with blank none
    exact nothing blank.symm none.symm
  · unfold normalizeArray at accepted
    obtain ⟨input, -, accepted⟩ := bind_ok.mp accepted
    split_ifs at accepted with many
    obtain ⟨⟨questions, texts⟩, normalizes, accepted⟩ := bind_ok.mp accepted
    obtain ⟨kept, rfl, few⟩ := normalizeAll_ok normalizes
    dsimp only at accepted
    split_ifs at accepted with empty
    · injection accepted with accepted
      injection accepted with blank none
      exact nothing blank.symm none.symm
    · obtain ⟨value, marshals, accepted⟩ := bind_ok.mp accepted
      split_ifs at accepted with large
      injection accepted with accepted
      injection accepted with same all
      rw [← same, ← all]
      exact ⟨questions, ⟨kept, few.trans (Nat.not_lt.mp many), fun none => absurd none empty,
        fun _ => mapError_ok.mp marshals, Nat.not_lt.mp large⟩, rfl⟩
  · cases accepted

theorem Stored.normalizeQuestions {questions : List Entry} {out : String}
    (stored : Stored json questions out) :
    NormalizeQuestions json (runes out) = .ok (out, questions.flatMap Entry.texts) := by
  unfold NormalizeQuestions
  rw [byteSize_runes, if_neg (Nat.not_lt.mpr stored.small)]
  by_cases empty : questions = []
  · rw [stored.none empty, empty]
    rfl
  · have written := stored.written empty
    obtain ⟨first, last⟩ := json.marshal_array _ _ written
    obtain ⟨values, reads, decodes⟩ := json.unmarshal_marshal _ _
      (fun entry mem => (stored.kept.normal entry mem).exact) written
    obtain ⟨rest, chars⟩ := List.head?_eq_some_iff.mp first
    have starts : runes out = .char '[' :: rest.map .char := by
      unfold runes
      rw [chars, List.map_cons]
    have few : ¬MaxQuestions < values.length := by
      rw [decodes.length_eq]
      exact Nat.not_lt.mpr stored.few
    have array : normalizeArray json (runes out) = .ok (out, questions.flatMap Entry.texts) := by
      unfold normalizeArray
      rw [reads, mapError_ok.mpr rfl, ok_bind, if_neg few, normalizeAll_decodes stored.kept decodes,
        ok_bind]
      dsimp only
      rw [if_neg empty, written, mapError_ok.mpr rfl, ok_bind, if_neg (Nat.not_lt.mpr stored.small)]
      rfl
    dsimp only
    rw [trim_runes first last]
    rw [starts] at array ⊢
    exact array

/-- A bank that is accepted is accepted again, as it is and with the same texts for the
moderation.  What is stored is within the bounds, has no question twice, and the moderation sees
its texts and no others. -/
theorem normalizeQuestions_again (json : Encoding) {raw : List Rune} {out : String}
    {moderation : List String} (accepted : NormalizeQuestions json raw = .ok (out, moderation)) :
    NormalizeQuestions json (runes out) = .ok (out, moderation) ∧
      ∃ questions : List Entry, (questions = [] → out = "") ∧
        (questions ≠ [] → json.marshal questions = .ok out) ∧
        questions.length ≤ MaxQuestions ∧
        (∀ text ∈ questions.flatMap Entry.texts, text ≠ "" ∧ text.length ≤ MaxQuestionRunes) ∧
        out.utf8ByteSize ≤ MaxJSONBytes ∧ questions.Nodup ∧
        moderation = questions.flatMap Entry.texts := by
  obtain ⟨questions, stored, rfl⟩ := normalizeQuestions_stored accepted
  refine ⟨stored.normalizeQuestions, questions, stored.none, stored.written, stored.few,
    fun text mem => ?_, stored.small, stored.kept.distinct, rfl⟩
  obtain ⟨entry, there, mem⟩ := List.mem_flatMap.mp mem
  have clean := (stored.kept.normal entry there).clean text mem
  exact ⟨clean.some, clean.short⟩

/-! ### Two questions -/

def whyText : String :=
  "[\" Why? \",\x7b\"text\":\"Why?\"\x7d,\x7b\"builtin\":3\x7d]"

def whyOnce : String := "[\"Why?\",\x7b\"builtin\":3\x7d]"

def whyEntries : List Entry := [.text "Why?", .question { builtin := some 3 }]

/-- The library, as far as these questions go. -/
def whyJson : Encoding where
  unmarshal raw :=
    if raw = runes whyText then
      .ok [.string " Why? ", .object [("text", .string "Why?")], .object [("builtin", .number (.ofInt 3))]]
    else if raw = runes whyOnce then .ok [.string "Why?", .object [("builtin", .number (.ofInt 3))]]
    else .error "unexpected end of JSON input"
  marshal entries := if entries = whyEntries then .ok whyOnce else .error "unsupported value"
  marshalEntry entry :=
    if entry = .text "Why?" then .ok "\"Why?\""
    else if entry = .question { builtin := some 3 } then .ok "\x7b\"builtin\":3\x7d"
    else .error "unsupported value"
  marshal_array entries text h := by
    split_ifs at h
    injection h with h
    rw [← h]
    exact ⟨rfl, rfl⟩
  unmarshal_marshal entries text _ h := by
    split_ifs at h with same
    injection h with h
    rw [← h, same]
    refine ⟨_, rfl, .cons rfl (.cons ?_ .nil)⟩
    exact ⟨_, [], rfl, .refl _, .refl _⟩
  marshalEntry_injective entry entry' key h h' := by
    split_ifs at h h' with first first' second' second first' second'
    · rw [first, first']
    · exact absurd (h.trans h'.symm) (by decide)
    · exact absurd (h.trans h'.symm) (by decide)
    · rw [second, second']

theorem normalizeQuestions_again_why :
    NormalizeQuestions whyJson (runes whyText) = .ok (whyOnce, ["Why?"]) ∧
      NormalizeQuestions whyJson (runes whyOnce) = .ok (whyOnce, ["Why?"]) := by
  have accepted : NormalizeQuestions whyJson (runes whyText) = .ok (whyOnce, ["Why?"]) := by rfl
  exact ⟨accepted, (normalizeQuestions_again whyJson accepted).1⟩

end Lists

end Memos.DailyQuestion
