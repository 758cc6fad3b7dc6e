/-
Which banks of questions of the right shape are accepted.

A question has the right shape if its fields are known and have the types they should.
What is left to be checked are its texts: none is too long, and without a text there is no
translation.  What is kept of a question can then be said without the checks, and of the
bank the first of each kept question.
-/
import Memos.Lib.Firsts
import Memos.Proofs.DailyQuestion.Questions

namespace Memos.DailyQuestion

open Api Fallible

/-! ### Shapes -/

def Value.isString : Value → Bool
  | .string _ => true
  | _ => false

structure CustomShape (fields : List (String × Value)) : Prop where
  custom : fields.lookup "builtin" = none
  known : ∀ field ∈ fields, field.1 ∈ ["text", "locale", "translations"]
  text : ∃ text, fields.lookup "text" = some (.string text)
  locale : fields.lookup "locale" = none ∨
    ∃ locale, fields.lookup "locale" = some (.string locale) ∧ validLocale locale = true
  translations : fields.lookup "translations" = none ∨
    ∃ translations, fields.lookup "translations" = some (.object translations) ∧
      ∀ translation ∈ translations,
        translation.1 ∈ supportedQuestionLocales ∧ translation.2.isString = true

structure BuiltinShape (fields : List (String × Value)) (n : Rat) : Prop where
  builtin : fields = [("builtin", .number n)]
  whole : n.isInt = true
  positive : 0 ≤ n.num
  small : n.num < BuiltinQuestionCount

/-- A text, a built-in question or a question with known fields of the right types. -/
def Shaped : Value → Prop
  | .string _ => True
  | .object fields => CustomShape fields ∨ ∃ n, BuiltinShape fields n
  | _ => False

/-! ### What is kept of a question -/

def asText : Option Value → String
  | some (.string text) => text
  | _ => ""

def translationText (fields : List (String × Value)) (locale : String) : String :=
  match fields.lookup "translations" with
  | some (.object translations) => asText (translations.lookup locale)
  | _ => ""

/-- The texts that are not blank, trimmed. -/
def translated (text : String → String) : (locales : List String) → Translations locales
  | [] => .empty
  | locale :: locales =>
      if TrimSpace (text locale) = "" then (translated text locales).skip locale
      else (translated text locales).add locale (TrimSpace (text locale))

def settled : Value → Option Entry
  | .string text => if TrimSpace text = "" then none else some (.text (TrimSpace text))
  | .object fields =>
      match fields.lookup "builtin" with
      | some (.number n) => some (.question { builtin := some n.num })
      | _ =>
          let text := TrimSpace (asText (fields.lookup "text"))
          let locale := asText (fields.lookup "locale")
          let translations := translated (translationText fields) supportedQuestionLocales
          if text = "" then none
          else if locale = "" ∧ translations.texts = [] then some (.text text)
          else some (.question { text, locale, translations })
  | _ => none

def Short (text : String) : Prop := (TrimSpace text).length ≤ MaxQuestionRunes

/-- No text is too long, and there is no translation without a text. -/
def Fits : Value → Prop
  | .string text => Short text
  | .object fields => Short (asText (fields.lookup "text")) ∧
      ∀ locale ∈ supportedQuestionLocales, Short (translationText fields locale) ∧
        (TrimSpace (asText (fields.lookup "text")) = "" →
          TrimSpace (translationText fields locale) = "")
  | _ => True

/-! ### One question -/

section Question

variable {index : Nat}

theorem normalizeText_short {text : String} (short : Short text) :
    normalizeText text index = if TrimSpace text = "" then .ok (none, [])
      else .ok (some (TrimSpace text), [TrimSpace text]) := by
  unfold normalizeText
  dsimp only
  rw [if_neg (Nat.not_lt.mpr short)]

theorem normalizeText_long {text : String} (long : ¬Short text) :
    ∃ e, normalizeText text index = .error e := by
  unfold normalizeText
  dsimp only
  rw [if_pos (Nat.not_le.mp long)]
  exact ⟨_, rfl⟩

theorem normalizeText_short_eq {text : String} (short : Short text) : ∃ moderation,
    normalizeText text index
      = .ok (if TrimSpace text = "" then none else some (TrimSpace text), moderation) := by
  rw [normalizeText_short short]
  split_ifs
  · exact ⟨_, rfl⟩
  · exact ⟨_, rfl⟩

theorem error_bind {α β : Type} {x : Except String α} {f : α → Except String β}
    (failed : ∃ e, x = .error e) : ∃ e, (x >>= f) = .error e := by
  obtain ⟨e, rfl⟩ := failed
  exact ⟨e, rfl⟩

/-- The translations are read, and the texts are all that can be wrong with them. -/
theorem normalizeTranslations_shaped {fields : List (String × Value)}
    (strings : ∀ translation ∈ fields, translation.2.isString = true) (locales : List String) :
    ((∀ locale ∈ locales, Short (asText (fields.lookup locale))) →
        ∃ moderation, normalizeTranslations index fields locales
          = .ok (translated (fun locale => asText (fields.lookup locale)) locales, moderation)) ∧
      ((∃ locale ∈ locales, ¬Short (asText (fields.lookup locale))) →
        ∃ e, normalizeTranslations index fields locales = .error e) := by
  induction locales with
  | nil => exact ⟨fun _ => ⟨[], rfl⟩, fun ⟨_, mem, _⟩ => absurd mem List.not_mem_nil⟩
  | cons locale locales ih =>
      have blank : TrimSpace "" = "" := rfl
      have empty : Short "" := Nat.zero_le _
      unfold normalizeTranslations
      cases found : fields.lookup locale with
      | none =>
          dsimp only
          constructor
          · intro short
            obtain ⟨moderation, later⟩ := ih.1 fun l mem => short l (List.mem_cons_of_mem _ mem)
            rw [later, translated, found]
            exact ⟨moderation, rfl⟩
          · rintro ⟨l, mem, long⟩
            refine error_bind (ih.2 ⟨l, ?_, long⟩)
            rcases List.mem_cons.mp mem with rfl | mem
            · rw [found] at long
              exact absurd empty long
            · exact mem
      | some value =>
          obtain ⟨before, after, split, -⟩ := List.lookup_eq_some_iff.mp found
          have string := strings (locale, value) (by simp [split])
          cases value with
          | string text =>
              dsimp only
              constructor
              · intro short
                have here := short locale List.mem_cons_self
                rw [found] at here
                change Short text at here
                obtain ⟨moderation, later⟩ := ih.1 fun l mem => short l (List.mem_cons_of_mem _ mem)
                rw [normalizeText_short here, translated, found]
                show ∃ _, _ = Except.ok (if TrimSpace text = "" then _ else _, _)
                split_ifs with none
                · rw [ok_bind]
                  dsimp only
                  rw [later]
                  exact ⟨_, rfl⟩
                · rw [ok_bind]
                  dsimp only
                  rw [later]
                  exact ⟨_, rfl⟩
              · rintro ⟨l, mem, long⟩
                by_cases here : Short text
                · obtain ⟨moderation, normalizes⟩ := normalizeText_short_eq here
                  rw [normalizes, ok_bind]
                  refine error_bind (ih.2 ⟨l, ?_, long⟩)
                  rcases List.mem_cons.mp mem with rfl | mem
                  · rw [found] at long
                    exact absurd here long
                  · exact mem
                · exact error_bind (normalizeText_long here)
          | null => cases string
          | bool _ => cases string
          | number _ => cases string
          | array _ => cases string
          | object _ => cases string

theorem translated_eq_none {text : String → String} {locales : List String} :
    (translated text locales).texts = [] ↔ ∀ locale ∈ locales, TrimSpace (text locale) = "" := by
  induction locales with
  | nil => exact iff_of_true rfl (List.forall_mem_nil _)
  | cons locale locales ih =>
      rw [translated, List.forall_mem_cons, ← ih]
      split_ifs with blank
      · exact (and_iff_right blank).symm
      · exact iff_of_false (List.cons_ne_nil _ _) fun both => blank both.1

theorem Translations.eq_of_texts {locales : List String} {a b : Translations locales}
    (same : a.texts = b.texts) : a = b := by
  cases a
  cases b
  cases same
  rfl

section Fields

variable {fields : List (String × Value)}

theorem readTranslations_shaped (shape : CustomShape fields) :
    ((∀ locale ∈ supportedQuestionLocales, Short (translationText fields locale)) →
        ∃ moderation, readTranslations fields index
          = .ok (translated (translationText fields) supportedQuestionLocales, moderation)) ∧
      ((∃ locale ∈ supportedQuestionLocales, ¬Short (translationText fields locale)) →
        ∃ e, readTranslations fields index = .error e) := by
  unfold readTranslations
  rcases shape.translations with none | ⟨translations, found, named⟩
  · have blank : ∀ locale, translationText fields locale = "" := by
      intro locale
      rw [translationText, none]
    rw [none]
    constructor
    · intro _
      refine ⟨[], congrArg (fun t => Except.ok (t, [])) (Translations.eq_of_texts ?_)⟩
      refine (translated_eq_none.mpr fun locale _ => ?_).symm
      rw [blank]
      rfl
    · rintro ⟨locale, _, long⟩
      rw [blank] at long
      exact absurd (Nat.zero_le _) long
  · have texts : translationText fields = fun locale => asText (translations.lookup locale) := by
      funext locale
      rw [translationText, found]
    have known : ¬(translations.any fun translation =>
        translation.1 = "" || !validLocale translation.1) = true := by
      rw [Bool.not_eq_true, List.any_eq_false]
      intro translation mem
      have supported := (named translation mem).1
      have some : translation.1 ≠ "" := by
        intro blank
        rw [blank] at supported
        exact absurd supported (by decide)
      unfold validLocale
      simp [some, supported]
    rw [found, texts]
    dsimp only
    rw [if_neg known]
    exact normalizeTranslations_shaped (fun translation mem => (named translation mem).2) _

theorem readLocale_shaped (shape : CustomShape fields) :
    readLocale fields index = .ok (asText (fields.lookup "locale")) := by
  unfold readLocale
  rcases shape.locale with none | ⟨locale, found, valid⟩
  · rw [none]
    rfl
  · rw [found]
    exact if_pos valid

section Custom

variable {text : String} (shape : CustomShape fields)
  (found : fields.lookup "text" = some (.string text))
include shape found

omit shape in
theorem fits_custom : Fits (.object fields) ↔ Short text ∧
    ∀ locale ∈ supportedQuestionLocales, Short (translationText fields locale) ∧
      (TrimSpace text = "" → TrimSpace (translationText fields locale) = "") := by
  show (Short (asText (fields.lookup "text")) ∧ ∀ locale ∈ supportedQuestionLocales, _ ∧
    (TrimSpace (asText (fields.lookup "text")) = "" → _)) ↔ _
  rw [found]
  rfl

theorem settled_custom : settled (.object fields) =
    if TrimSpace text = "" then none
    else if asText (fields.lookup "locale") = "" ∧
        (translated (translationText fields) supportedQuestionLocales).texts = [] then
      some (.text (TrimSpace text))
    else some (.question
      { text := TrimSpace text, locale := asText (fields.lookup "locale")
        translations := translated (translationText fields) supportedQuestionLocales }) := by
  unfold settled
  dsimp only
  rw [shape.custom, found]
  rfl

theorem normalizeObject_eq : normalizeObject fields index = do
    let (normalized, moderation) ← normalizeText text index
    let text := if normalized.isSome then TrimSpace text else ""
    let locale ← readLocale fields index
    let (translations, translated) ← readTranslations fields index
    if text = "" then
      if translations.texts ≠ [] then .error (questionError index "requires fallback text")
      else return (none, [])
    else if locale = "" ∧ translations.texts = [] then
      return (some (.text text), moderation ++ translated)
    else return (some (.question { text, locale, translations }), moderation ++ translated) := by
  have known : ¬(fields.any fun field => !(["text", "locale", "translations"].contains field.1))
      = true := by
    rw [Bool.not_eq_true, List.any_eq_false]
    intro field mem unknown
    rw [Bool.not_eq_true', ← Bool.not_eq_true, List.contains_iff_mem] at unknown
    exact unknown (shape.known field mem)
  have reads : readText fields index = .ok text := by
    unfold readText
    rw [found]
  unfold normalizeObject
  rw [shape.custom]
  dsimp only
  rw [if_neg known, reads, ok_bind]

theorem normalizeObject_short (short : Short text)
    (shorts : ∀ locale ∈ supportedQuestionLocales, Short (translationText fields locale)) :
    ((TrimSpace text = "" → ∀ locale ∈ supportedQuestionLocales,
          TrimSpace (translationText fields locale) = "") →
        ∃ texts, normalizeObject fields index = .ok (settled (.object fields), texts)) ∧
      ((TrimSpace text = "" ∧ ∃ locale ∈ supportedQuestionLocales,
          TrimSpace (translationText fields locale) ≠ "") →
        ∃ e, normalizeObject fields index = .error e) := by
  obtain ⟨moderation, readsAll⟩ := (readTranslations_shaped shape).1 shorts
  rw [normalizeObject_eq shape found, settled_custom shape found, normalizeText_short short]
  by_cases blank : TrimSpace text = ""
  · rw [if_pos blank, if_pos blank, ok_bind]
    dsimp only [Option.isSome_none]
    rw [readLocale_shaped shape, ok_bind, readsAll, ok_bind]
    simp only [Bool.false_eq_true, if_false, if_true]
    constructor
    · intro complete
      rw [if_neg (not_not_intro (translated_eq_none.mpr (complete blank)))]
      exact ⟨[], rfl⟩
    · rintro ⟨-, locale, mem, some⟩
      rw [if_pos fun none => some (translated_eq_none.mp none locale mem)]
      exact ⟨_, rfl⟩
  · rw [if_neg blank, if_neg blank, ok_bind]
    dsimp only [Option.isSome_some]
    rw [readLocale_shaped shape, ok_bind, readsAll, ok_bind]
    simp only [if_true, blank, if_false]
    refine ⟨fun _ => ?_, fun both => absurd both.1 id⟩
    split_ifs
    · exact ⟨_, rfl⟩
    · exact ⟨_, rfl⟩

theorem normalizeObject_custom :
    (Fits (.object fields) →
        ∃ texts, normalizeObject fields index = .ok (settled (.object fields), texts)) ∧
      (¬Fits (.object fields) → ∃ e, normalizeObject fields index = .error e) := by
  rw [fits_custom found]
  by_cases short : Short text
  · by_cases shorts : ∀ locale ∈ supportedQuestionLocales, Short (translationText fields locale)
    · obtain ⟨accepts, refuses⟩ := normalizeObject_short shape found short shorts
      refine ⟨fun fits => accepts fun blank locale mem => (fits.2 locale mem).2 blank, fun not => ?_⟩
      by_contra ok
      refine not ⟨short, fun locale mem => ⟨shorts locale mem, fun blank => ?_⟩⟩
      by_contra some
      exact ok (refuses ⟨blank, locale, mem, some⟩)
    · refine ⟨fun fits => absurd (fun locale mem => (fits.2 locale mem).1) shorts, fun _ => ?_⟩
      have long : ∃ locale ∈ supportedQuestionLocales, ¬Short (translationText fields locale) := by
        by_contra none
        exact shorts fun locale mem => by_contra fun long => none ⟨locale, mem, long⟩
      obtain ⟨moderation, normalizes⟩ := normalizeText_short_eq short
      rw [normalizeObject_eq shape found, normalizes, ok_bind, readLocale_shaped shape]
      dsimp only
      rw [ok_bind]
      exact error_bind ((readTranslations_shaped shape).2 long)
  · refine ⟨fun fits => absurd fits.1 short, fun _ => ?_⟩
    rw [normalizeObject_eq shape found]
    exact error_bind (normalizeText_long short)

end Custom

theorem normalizeQuestion_shaped {value : Value} (shaped : Shaped value) :
    (Fits value → ∃ texts, normalizeQuestion value index = .ok (settled value, texts)) ∧
      (¬Fits value → ∃ e, normalizeQuestion value index = .error e) := by
  cases value with
  | string text =>
      constructor
      · intro short
        unfold normalizeQuestion settled
        dsimp only
        rw [normalizeText_short short]
        split_ifs
        · exact ⟨_, rfl⟩
        · exact ⟨_, rfl⟩
      · intro long
        exact error_bind (normalizeText_long long)
  | object fields =>
      rcases shaped with shape | ⟨n, shape⟩
      · obtain ⟨text, found⟩ := shape.text
        exact normalizeObject_custom shape found
      · obtain ⟨rfl, whole, positive, small⟩ := shape
        have invalid : ¬(!n.isInt || decide (n.num < 0) || decide (BuiltinQuestionCount ≤ n.num)
            || decide ([("builtin", Value.number n)].length ≠ 1)) = true := by
          have positive : ¬n.num < 0 := Int.not_lt.mpr positive
          have small : ¬(BuiltinQuestionCount : Int) ≤ n.num := Int.not_le.mpr small
          simp [whole, positive, small]
        refine ⟨fun _ => ⟨[], ?_⟩, fun not => absurd ?_ not⟩
        · show readBuiltin _ index (.number n) = _
          unfold readBuiltin
          dsimp only
          rw [if_neg invalid]
          rfl
        · exact ⟨Nat.zero_le _, fun locale _ => ⟨Nat.zero_le _, fun _ => rfl⟩⟩
  | null => cases shaped
  | bool _ => cases shaped
  | number _ => cases shaped
  | array _ => cases shaped

end Fields

end Question

/-! ### The bank -/

section Bank

variable {json : Encoding}

def Encodes (json : Encoding) (entry : Entry) : Prop :=
  ∃ key, json.marshalEntry entry = .ok key

/-- The first of each question is kept.  The keys that were seen are those of the questions that
were met. -/
theorem normalizeAll_shaped {seen : List String} {met : List Entry} {input : List Value}
    {index : Nat}
    (keys : ∀ entry key, json.marshalEntry entry = .ok key → (key ∈ seen ↔ entry ∈ met))
    (shaped : ∀ value ∈ input, Shaped value) :
    ((∀ value ∈ input, Fits value) → (∀ entry ∈ input.filterMap settled, Encodes json entry) →
        ∃ moderation, normalizeAll json index seen input
          = .ok (Firsts.firsts id met (input.filterMap settled), moderation)) ∧
      ((∃ value ∈ input, ¬Fits value) ∨
          (∃ entry ∈ input.filterMap settled, ¬Encodes json entry) →
        ∃ e, normalizeAll json index seen input = .error e) := by
  induction input generalizing index seen met with
  | nil =>
      refine ⟨fun _ _ => ⟨[], rfl⟩, ?_⟩
      rintro (⟨_, mem, _⟩ | ⟨_, mem, _⟩)
      · exact absurd mem List.not_mem_nil
      · exact absurd mem List.not_mem_nil
  | cons value input ih =>
      obtain ⟨here, later⟩ := List.forall_mem_cons.mp shaped
      obtain ⟨accepts, refuses⟩ := normalizeQuestion_shaped here
      unfold normalizeAll
      by_cases fits : Fits value
      · obtain ⟨texts, normalizes⟩ := accepts fits
        rw [normalizes, ok_bind, List.forall_mem_cons, List.exists_mem_cons_iff, and_iff_right fits,
          or_iff_right (not_not_intro fits)]
        cases kept : settled value with
        | none =>
            rw [List.filterMap_cons_none kept]
            exact ih keys later
        | some entry =>
            rw [List.filterMap_cons_some kept, List.forall_mem_cons, List.exists_mem_cons_iff]
            dsimp only
            cases marshals : json.marshalEntry entry with
            | error e =>
                have unwritten : ¬Encodes json entry := by
                  rintro ⟨key, written⟩
                  rw [marshals] at written
                  cases written
                exact ⟨fun _ all => absurd all.1 unwritten, fun _ => ⟨e, rfl⟩⟩
            | ok key =>
                have written : Encodes json entry := ⟨key, marshals⟩
                have known : seen.contains key = true ↔ entry ∈ met :=
                  List.contains_iff_mem.trans (keys entry key marshals)
                rw [ok_bind, and_iff_right written, or_iff_right (not_not_intro written)]
                unfold Firsts.firsts
                show (_ → _ → ∃ _, _ = Except.ok (if entry ∈ met then _ else _, _)) ∧ _
                by_cases repeated : entry ∈ met
                · rw [if_pos (known.mpr repeated), if_pos repeated]
                  exact ih keys later
                · rw [if_neg (known.not.mpr repeated), if_neg repeated]
                  have keys' : ∀ other key', json.marshalEntry other = .ok key' →
                      (key' ∈ key :: seen ↔ other ∈ entry :: met) := by
                    intro other key' written
                    rw [List.mem_cons, List.mem_cons, keys other key' written]
                    refine or_congr ⟨fun same => ?_, fun same => ?_⟩ Iff.rfl
                    · exact json.marshalEntry_injective _ _ _ written (same ▸ marshals)
                    · rw [same] at written
                      exact Except.ok.inj (written.symm.trans marshals)
                  obtain ⟨accepts, refuses⟩ := ih keys' later
                  refine ⟨fun fits encodes => ?_, fun wrong => error_bind (refuses wrong)⟩
                  obtain ⟨moderation, rest⟩ := accepts fits encodes
                  rw [rest, ok_bind]
                  exact ⟨_, rfl⟩
      · refine ⟨fun all => absurd (all value List.mem_cons_self) fits, fun _ => ?_⟩
        exact error_bind (refuses fits)

/-- The texts fit, and what is kept can be encoded in the space there is. -/
structure Savable (json : Encoding) (values : List Value) : Prop where
  fits : ∀ value ∈ values, Fits value
  encodes : ∀ entry ∈ values.filterMap settled, Encodes json entry
  small : values.filterMap settled ≠ [] →
    ∃ text, json.marshal (Firsts.firsts id [] (values.filterMap settled)) = .ok text ∧
      text.utf8ByteSize ≤ MaxJSONBytes

theorem firsts_eq_nil {entries : List Entry} :
    Firsts.firsts id [] entries = [] ↔ entries = [] := by
  cases entries with
  | nil => exact Iff.rfl
  | cons entry entries =>
      unfold Firsts.firsts
      rw [if_neg List.not_mem_nil]
      exact iff_of_false (List.cons_ne_nil _ _) (List.cons_ne_nil _ _)

theorem normalizeArray_shaped {trimmed : List Rune} {values : List Value}
    (reads : json.unmarshal trimmed = .ok values) (shaped : ∀ value ∈ values, Shaped value)
    (few : values.length ≤ MaxQuestions) :
    (∃ result, normalizeArray json trimmed = .ok result) ↔ Savable json values := by
  obtain ⟨accepts, refuses⟩ := normalizeAll_shaped
    (fun _ _ _ => iff_of_false List.not_mem_nil List.not_mem_nil) shaped
  unfold normalizeArray
  rw [reads, mapError_ok.mpr rfl, ok_bind, if_neg (Nat.not_lt.mpr few)]
  by_cases right : (∀ value ∈ values, Fits value) ∧
      ∀ entry ∈ values.filterMap settled, Encodes json entry
  · obtain ⟨fits, encodes⟩ := right
    obtain ⟨moderation, normalizes⟩ := accepts fits encodes
    rw [normalizes, ok_bind]
    dsimp only
    by_cases empty : values.filterMap settled = []
    · rw [if_pos (firsts_eq_nil.mpr empty)]
      exact iff_of_true ⟨_, rfl⟩ ⟨fits, encodes, fun some => absurd empty some⟩
    · rw [if_neg (firsts_eq_nil.not.mpr empty)]
      constructor
      · rintro ⟨result, accepted⟩
        obtain ⟨text, marshals, accepted⟩ := bind_ok.mp accepted
        split_ifs at accepted with large
        exact ⟨fits, encodes, fun _ => ⟨text, mapError_ok.mp marshals, Nat.not_lt.mp large⟩⟩
      · intro savable
        obtain ⟨text, marshals, small⟩ := savable.small empty
        rw [marshals, mapError_ok.mpr rfl, ok_bind, if_neg (Nat.not_lt.mpr small)]
        exact ⟨_, rfl⟩
  · have wrong : (∃ value ∈ values, ¬Fits value) ∨
        ∃ entry ∈ values.filterMap settled, ¬Encodes json entry := by
      by_contra none
      rw [not_or] at none
      refine right ⟨fun value mem => ?_, fun entry mem => ?_⟩
      · by_contra not
        exact none.1 ⟨value, mem, not⟩
      · by_contra not
        exact none.2 ⟨entry, mem, not⟩
    obtain ⟨e, fails⟩ := refuses wrong
    rw [fails]
    exact iff_of_false (fun ⟨_, h⟩ => nomatch h) fun savable => right ⟨savable.fits, savable.encodes⟩

end Bank

end Memos.DailyQuestion
