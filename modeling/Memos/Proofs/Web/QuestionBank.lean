/-
When the server accepts a bank of questions the form finds nothing wrong with.

The form makes sure of the shape of a bank.  It leaves the texts to the server where the
two have other ideas of white space, and it does not know how long the bank will be when
it is encoded again.
-/
import Memos.Proofs.DailyQuestion.Shapes
import Memos.Web.QuestionBank

namespace Memos.Web

open DailyQuestion Utf16

/-! ### The same names -/

theorem units_injective {name name' : String} (same : units name = units name') : name = name' :=
  String.toList_inj.mp (encode_injective same)

theorem known_plain : ∀ name ∈ ["builtin", "text", "locale", "translations"] ++ QUESTION_LANGUAGES,
    ∀ u ∈ units name, isSurrogate u = false := by
  have ascii : ((["builtin", "text", "locale", "translations"] ++ QUESTION_LANGUAGES).all
      fun name => name.toList.all fun c => c.toNat < 0xd800) = true := by rfl
  rw [List.all_eq_true] at ascii
  intro name mem
  refine encode_plain fun c inName => ?_
  exact of_decide_eq_true (List.all_eq_true.mp (ascii name mem) c inName)

theorem supported_of_language {name : String} (listed : name ∈ QUESTION_LANGUAGES) :
    name ∈ supportedQuestionLocales := by
  have all : ∀ name ∈ QUESTION_LANGUAGES, name ∈ supportedQuestionLocales := by decide
  exact all name listed

theorem isQuestionLanguage_iff {locale : Units} :
    isQuestionLanguage locale = true ↔ ∃ name ∈ QUESTION_LANGUAGES, units name = locale := by
  unfold isQuestionLanguage
  rw [List.contains_iff_mem, List.mem_map]

theorem isQuestionLanguage_units {name : String} :
    isQuestionLanguage (units name) = true ↔ name ∈ QUESTION_LANGUAGES := by
  rw [isQuestionLanguage_iff]
  constructor
  · rintro ⟨other, mem, same⟩
    exact units_injective same ▸ mem
  · intro mem
    exact ⟨name, mem, rfl⟩

/-! ### The same fields -/

section Fields

variable {fields : List (Units × JsValue)} {fields' named : List (String × Value)}

/-- A field of the browser's object and one of the server's. -/
def SameField (field : Units × JsValue) (field' : String × Value) : Prop :=
  field.1 = units field'.1 ∧ Same field.2 field'.2

theorem sameFields (names : fields.map Prod.fst = named.map fun field => units field.1)
    (same : List.Forall₂ Same (fields.map Prod.snd) (named.map Prod.snd)) :
    List.Forall₂ SameField fields named := by
  induction fields generalizing named with
  | nil =>
      cases named with
      | nil => exact .nil
      | cons field' named => cases names
  | cons field fields ih =>
      cases named with
      | nil => cases names
      | cons field' named =>
          injection names with first rest
          cases same with
          | cons here later => exact .cons ⟨first, here⟩ (ih rest later)

theorem lookup_same (same : List.Forall₂ SameField fields named) (name : String) :
    property fields name = none ∧ named.lookup name = none ∨
      ∃ value value', property fields name = some value ∧ named.lookup name = some value' ∧
        Same value value' := by
  unfold property
  induction same with
  | nil => exact .inl ⟨rfl, rfl⟩
  | @cons field field' fields named here rest ih =>
      rw [List.lookup_cons, List.lookup_cons, here.1]
      by_cases hit : name = field'.1
      · rw [hit, beq_self_eq_true, beq_self_eq_true]
        exact .inr ⟨_, _, rfl, rfl, here.2⟩
      · have miss : (name == field'.1) = false := beq_eq_false_iff_ne.mpr hit
        have miss' : (units name == units field'.1) = false :=
          beq_eq_false_iff_ne.mpr fun same => hit (units_injective same)
        rw [miss, miss']
        exact ih

theorem exists_of_forall₂ {α β : Type} {R : α → β → Prop} {l : List α} {l' : List β}
    (all : List.Forall₂ R l l') {b : β} (mem : b ∈ l') : ∃ a ∈ l, R a b := by
  induction all with
  | nil => cases mem
  | cons here rest ih =>
      rcases List.mem_cons.mp mem with rfl | mem
      · exact ⟨_, List.mem_cons_self, here⟩
      · obtain ⟨a, there, related⟩ := ih mem
        exact ⟨a, List.mem_cons_of_mem _ there, related⟩

/-- The two objects are the same map. -/
structure SameMap (fields : List (Units × JsValue)) (fields' : List (String × Value)) : Prop where
  lookup : ∀ name, property fields name = none ∧ fields'.lookup name = none ∨
    ∃ value value', property fields name = some value ∧ fields'.lookup name = some value' ∧
      Same value value'
  field : ∀ field' ∈ fields', ∃ field ∈ fields, SameField field field'
  length : fields.length = fields'.length

theorem Same.object_cases {value' : Value} (same : Same (.object fields) value') :
    ∃ fields', value' = .object fields' ∧
      (SameMap fields fields' ∨ ∃ field ∈ fields, ∃ u ∈ field.1, isSurrogate u = true) := by
  cases same with
  | @object _ named fields' perm distinct names same =>
      have all := sameFields names same
      refine ⟨fields', rfl, .inl ⟨fun name => ?_, fun field' mem => ?_, ?_⟩⟩
      · rw [lookup_perm perm ((perm.map _).nodup_iff.mp distinct)]
        exact lookup_same all name
      · exact exists_of_forall₂ all (perm.subset mem)
      · rw [all.length_eq, perm.length_eq]
  | foreign field mem surrogate => exact ⟨_, rfl, .inr ⟨field, mem, surrogate⟩⟩

end Fields

/-! ### The shape of an entry -/

theorem string_of_isString {value : JsValue} {value' : Value} (same : Same value value')
    (string : value.isString = true) : value'.isString = true := by
  cases same with
  | string _ => rfl
  | null => cases string
  | bool _ => cases string
  | number _ => cases string
  | array _ => cases string
  | object _ _ _ _ => cases string
  | foreign _ _ _ => cases string

section Entries

variable {fields : List (Units × JsValue)} {fields' : List (String × Value)}

theorem builtinShape (same : SameMap fields fields') {builtin : JsValue}
    (found : property fields "builtin" = some builtin) (index : isBuiltinIndex builtin = true)
    (one : fields.length = 1) : ∃ n, BuiltinShape fields' n := by
  rcases same.lookup "builtin" with ⟨none, -⟩ | ⟨value, value', found', there, reads⟩
  · rw [none] at found
    cases found
  · rw [found] at found'
    obtain rfl : builtin = value := Option.some_inj.mp found'
    have single : fields'.length = 1 := same.length.symm.trans one
    obtain ⟨field, rfl⟩ := List.length_eq_one_iff.mp single
    rw [lookup_single] at there
    split_ifs at there with name
    unfold isBuiltinIndex at index
    split at index
    · rename_i n
      cases reads
      rw [Bool.and_eq_true, Bool.and_eq_true, decide_eq_true_eq, decide_eq_true_eq] at index
      obtain ⟨⟨whole, positive⟩, small⟩ := index
      refine ⟨n, ?_, whole, positive, small⟩
      rw [name]
      exact congrArg (fun v => [(field.1, v)]) (Option.some_inj.mp there)
    · cases index

theorem customLocale (same : SameMap fields fields')
    (optional : isOptionalLocale (property fields "locale") = true) :
    fields'.lookup "locale" = none ∨
      ∃ locale, fields'.lookup "locale" = some (.string locale) ∧ validLocale locale = true := by
  rcases same.lookup "locale" with ⟨-, none⟩ | ⟨value, value', found, there, reads⟩
  · exact .inl none
  · right
    rw [found] at optional
    unfold isOptionalLocale at optional
    split at optional
    · rename_i missing
      cases missing
    · rename_i locale is
      obtain rfl : value = .string locale := Option.some_inj.mp is
      cases reads with
      | @string _ locale' sameText =>
          refine ⟨locale', there, ?_⟩
          rw [Bool.or_eq_true, decide_eq_true_eq] at optional
          unfold validLocale
          rw [Bool.or_eq_true, decide_eq_true_eq, List.contains_iff_mem]
          rcases optional with rfl | listed
          · left
            exact units_injective (sameText fun u mem => absurd mem List.not_mem_nil).symm
          · right
            obtain ⟨name, mem, rfl⟩ := isQuestionLanguage_iff.mp listed
            have plain := known_plain name (List.mem_append_right _ mem)
            exact units_injective (sameText plain) ▸ supported_of_language mem
    · cases optional

theorem customTranslations (same : SameMap fields fields')
    (object : isOptionalObject (property fields "translations") = true)
    (entries : ((translationEntries fields).all fun translation =>
      isQuestionLanguage translation.1 && translation.2.isString) = true) :
    fields'.lookup "translations" = none ∨
      ∃ translations, fields'.lookup "translations" = some (.object translations) ∧
        ∀ translation ∈ translations,
          translation.1 ∈ supportedQuestionLocales ∧ translation.2.isString = true := by
  rcases same.lookup "translations" with ⟨-, none⟩ | ⟨value, value', found, there, reads⟩
  · exact .inl none
  · right
    rw [found] at object
    unfold isOptionalObject at object
    split at object
    · rename_i missing
      cases missing
    · rename_i translations is
      obtain rfl : value = .object translations := Option.some_inj.mp is
      unfold translationEntries at entries
      rw [found] at entries
      rw [List.all_eq_true] at entries
      obtain ⟨translations', rfl, map | ⟨field, mem, u, inName, surrogate⟩⟩ := reads.object_cases
      · refine ⟨translations', there, fun translation' mem => ?_⟩
        obtain ⟨translation, listed, name, string⟩ := map.field translation' mem
        have both := entries translation listed
        rw [Bool.and_eq_true, name, isQuestionLanguage_units] at both
        exact ⟨supported_of_language both.1, string_of_isString string both.2⟩
      · have both := entries field mem
        rw [Bool.and_eq_true, isQuestionLanguage_iff] at both
        obtain ⟨⟨name, listed, same⟩, -⟩ := both
        have plain := known_plain name (List.mem_append_right _ listed) u (same ▸ inName)
        rw [plain] at surrogate
        cases surrogate
    · cases object

theorem shaped_of_entry {value : JsValue} {value' : Value} (same : Same value value')
    (entry : isDailyQuestionEntry value = true) : Shaped value' := by
  cases value with
  | string text =>
      cases same
      trivial
  | object fields =>
      obtain ⟨fields', rfl, map⟩ := same.object_cases
      unfold isDailyQuestionEntry at entry
      dsimp only at entry
      split at entry
      · rename_i builtin found
        rw [Bool.and_eq_true, decide_eq_true_eq] at entry
        rcases map with map | ⟨field, mem, u, inName, surrogate⟩
        · exact .inr (builtinShape map found entry.1 entry.2)
        · -- The one field is the number.
          obtain ⟨only, rfl⟩ := List.length_eq_one_iff.mp entry.2
          obtain rfl : field = only := List.mem_singleton.mp mem
          obtain ⟨before, after, split, -⟩ := List.lookup_eq_some_iff.mp found
          have there : (units "builtin", builtin) ∈ [field] := by
            rw [split]
            exact List.mem_append_right _ List.mem_cons_self
          rw [← List.mem_singleton.mp there] at inName
          have plain := known_plain "builtin" (by decide) u inName
          rw [plain] at surrogate
          cases surrogate
      · rename_i custom
        rw [Bool.and_eq_true, Bool.and_eq_true, Bool.and_eq_true, Bool.and_eq_true,
          List.all_eq_true] at entry
        obtain ⟨⟨⟨⟨text, locale⟩, object⟩, known⟩, entries⟩ := entry
        have name : ∀ field ∈ fields, ∃ name ∈ ["text", "locale", "translations"],
            units name = field.1 := by
          intro field mem
          exact List.mem_map.mp (List.contains_iff_mem.mp (known field mem))
        rcases map with map | ⟨field, mem, u, inName, surrogate⟩
        · refine .inl ⟨?_, fun field' mem => ?_, ?_, customLocale map locale,
            customTranslations map object entries⟩
          · rcases map.lookup "builtin" with ⟨-, none⟩ | ⟨value, value', found, -⟩
            · exact none
            · rw [custom] at found
              cases found
          · obtain ⟨field, there, same, -⟩ := map.field field' mem
            obtain ⟨known, listed, is⟩ := name field there
            exact units_injective (is.trans same) ▸ listed
          · rcases map.lookup "text" with ⟨none, -⟩ | ⟨value, value', found, there, reads⟩
            · rw [none] at text
              cases text
            · rw [found] at text
              cases reads with
              | @string _ text' _ => exact ⟨text', there⟩
              | null => cases text
              | bool _ => cases text
              | number _ => cases text
              | array _ => cases text
              | object _ _ _ _ => cases text
              | foreign _ _ _ => cases text
        · obtain ⟨known, listed, same⟩ := name field mem
          have listed : known ∈ ["builtin", "text", "locale", "translations"] ++ QUESTION_LANGUAGES :=
            List.mem_append_left _ (List.mem_cons_of_mem _ listed)
          have plain := known_plain known listed u (same ▸ inName)
          rw [plain] at surrogate
          cases surrogate
  | null => cases entry
  | bool _ => cases entry
  | number _ => cases entry
  | array _ => cases entry

end Entries

/-! ### The bank -/

section Bank

variable {parsers : Parsers} {raw : Units}

theorem not_isSurrogate_of_isWhiteSpace {u : UInt16} (white : isWhiteSpace u = true) :
    isSurrogate u = false := by
  unfold isWhiteSpace at white
  unfold isSurrogate isHigh isLow
  simp only [Bool.or_eq_true, Bool.and_eq_true, decide_eq_true_eq] at white
  simp only [Bool.or_eq_false_iff, Bool.and_eq_false_iff, decide_eq_false_iff_not]
  omega

theorem not_isWhiteSpace_bracket {u : UInt16} (bracket : Char.ofNat u.toNat = '[') :
    ¬isWhiteSpace u = true := by
  intro white
  have plain := not_isSurrogate_of_isWhiteSpace white
  have point : (Char.ofNat u.toNat).toNat = u.toNat := by
    unfold isSurrogate isHigh isLow at plain
    simp only [Bool.or_eq_false_iff, Bool.and_eq_false_iff, decide_eq_false_iff_not] at plain
    have small := u.toNat_lt
    have valid : u.toNat.isValidChar := by
      unfold Nat.isValidChar
      omega
    rw [Char.ofNat, dif_pos valid]
    rfl
  rw [bracket] at point
  unfold isWhiteSpace at white
  rw [← point] at white
  cases white

/-- A blank text is accepted where it is blank for the server too. -/
theorem normalizeQuestions_blank (blank : jsTrim raw = []) :
    (∃ result, NormalizeQuestions parsers.server (sent raw) = .ok result) ↔
      byteSize (sent raw) ≤ MaxJSONBytes ∧ ∀ c ∈ decode raw, Api.isSpace c = true := by
  have white : ∀ u ∈ raw, isWhiteSpace u = true := Trim.trim_eq_nil_iff.mp blank
  have plain := decode_plain fun u mem => not_isSurrogate_of_isWhiteSpace (white u mem)
  have spaces : Trim.trim Rune.isSpace (sent raw) = [] ↔ ∀ c ∈ decode raw, Api.isSpace c = true := by
    rw [Trim.trim_eq_nil_iff, sent, List.forall_mem_map]
    rfl
  unfold NormalizeQuestions
  dsimp only
  split_ifs with large
  · exact iff_of_false (fun ⟨_, h⟩ => nomatch h) fun both => Nat.not_le.mpr large both.1
  · rw [and_iff_right (Nat.not_lt.mp large), ← spaces]
    cases trimmed : Trim.trim Rune.isSpace (sent raw) with
    | nil => exact iff_of_true ⟨_, rfl⟩ rfl
    | cons first rest =>
        refine iff_of_false ?_ (List.cons_ne_nil _ _)
        have mem : first ∈ sent raw := Trim.mem_of_mem_trim (p := Rune.isSpace) (by
          rw [trimmed]
          exact List.mem_cons_self)
        unfold sent at mem
        rw [plain, List.mem_map] at mem
        obtain ⟨c, there, rfl⟩ := mem
        obtain ⟨u, inRaw, rfl⟩ := List.mem_map.mp there
        rintro ⟨result, accepted⟩
        split at accepted
        · rename_i none
          cases none
        · rename_i opens
          injection opens with opens
          injection opens with opens
          exact not_isWhiteSpace_bracket opens (white u inRaw)
        · cases accepted

def ServerAgrees (parsers : Parsers) (raw : Units) : Prop :=
  (jsTrim raw = [] → byteSize (sent raw) ≤ MaxJSONBytes ∧ ∀ c ∈ decode raw, Api.isSpace c = true) ∧
    (jsTrim raw ≠ [] → ∃ values,
      parsers.server.unmarshal (Trim.trim Rune.isSpace (sent raw)) = .ok values ∧
        Savable parsers.server values)

/-- Where the form finds no issue, the server accepts the bank exactly if a blank one is blank for
it and not too long, and otherwise it can read the bank, finds its texts short and no translation
without a text, and can encode the trimmed questions, each once, in 256 KiB. -/
theorem question_bank_accepted (parsers : Parsers) {raw : Units}
    (clear : dailyQuestionBankIssue parsers.parse raw = none) :
    (∃ result, NormalizeQuestions parsers.server (sent raw) = .ok result) ↔
      ServerAgrees parsers raw := by
  unfold ServerAgrees
  by_cases blank : jsTrim raw = []
  · rw [normalizeQuestions_blank blank]
    exact ⟨fun agrees => ⟨fun _ => agrees, fun some => absurd blank some⟩, fun both => both.1 blank⟩
  · unfold dailyQuestionBankIssue at clear
    rw [if_neg blank] at clear
    split_ifs at clear with large
    split at clear
    · rename_i items parsed
      split_ifs at clear with invalid many long
      rw [Bool.or_eq_true, not_or, Bool.not_eq_true', Bool.not_eq_false, List.all_eq_true] at invalid
      have array := parsers.parse_array raw items parsed
      obtain ⟨rest, trimmed⟩ := List.head?_eq_some_iff.mp array
      have size : byteSize (sent raw) ≤ MaxJSONBytes := by
        rw [sent, byteSize_map_char]
        exact Nat.not_lt.mp large
      have whole : NormalizeQuestions parsers.server (sent raw)
          = normalizeArray parsers.server (Trim.trim Rune.isSpace (sent raw)) := by
        unfold NormalizeQuestions
        rw [if_neg (Nat.not_lt.mpr size)]
        change Trim.trim Rune.isSpace (sent raw) = _ at trimmed
        dsimp only
        rw [trimmed]
        rfl
      rw [whole]
      have array : (∃ result,
          normalizeArray parsers.server (Trim.trim Rune.isSpace (sent raw)) = .ok result) ↔
          ∃ values, parsers.server.unmarshal (Trim.trim Rune.isSpace (sent raw)) = .ok values ∧
            Savable parsers.server values := by
        cases reads : parsers.server.unmarshal (Trim.trim Rune.isSpace (sent raw)) with
        | error e =>
            unfold normalizeArray
            rw [reads]
            exact iff_of_false (fun ⟨_, h⟩ => nomatch h) fun ⟨_, h, _⟩ => nomatch h
        | ok values =>
            have same := parsers.unmarshal_parse raw items values parsed reads
            have few : values.length ≤ MaxQuestions := by
              rw [← same.length_eq]
              exact Nat.not_lt.mp many
            have shaped : ∀ value ∈ values, Shaped value := by
              intro value mem
              obtain ⟨item, there, same⟩ := exists_of_forall₂ same mem
              exact shaped_of_entry same (invalid.2 item there)
            rw [normalizeArray_shaped reads shaped few]
            exact ⟨fun savable => ⟨values, rfl, savable⟩,
              fun ⟨values', is, savable⟩ => Except.ok.inj is ▸ savable⟩
      rw [array]
      exact ⟨fun agrees => ⟨fun none => absurd none blank, fun _ => agrees⟩, fun both => both.2 blank⟩
    · cases clear

end Bank

/-! ### A next line -/

/-- The text is a next line, which only the server takes for white space. -/
def lineText : String :=
  "[\x7b\"text\":\"\u0085\",\"translations\":\x7b\"en\":\"Hi\"\x7d\x7d]"

def lineJson : Encoding where
  unmarshal raw :=
    if raw = runes lineText then
      .ok [.object
        [("text", .string "\u0085"), ("translations", .object [("en", .string "Hi")])]]
    else whyJson.unmarshal raw
  marshal := whyJson.marshal
  marshalEntry := whyJson.marshalEntry
  marshal_array := whyJson.marshal_array
  unmarshal_marshal entries text exact h := by
    have other : runes text ≠ runes lineText := by
      unfold whyJson at h
      dsimp only at h
      split_ifs at h
      injection h with h
      rw [← h]
      decide
    rw [if_neg other]
    exact whyJson.unmarshal_marshal entries text exact h
  marshalEntry_injective := whyJson.marshalEntry_injective

theorem trim_units {text : String} (first : text.toList.head? = some '[')
    (last : text.toList.getLast? = some ']') :
    Trim.trim Rune.isSpace ((decode (units text)).map .char) = runes text := by
  unfold units
  rw [decode_encode]
  exact trim_runes first last

def lineParsers : Parsers where
  server := lineJson
  parse raw :=
    if raw = units lineText then
      some (.array [.object [(units "text", .string (units "\u0085")),
        (units "translations", .object [(units "en", .string (units "Hi"))])]])
    else if raw = units whyText then
      some (.array [.string (units " Why? "), .object [(units "text", .string (units "Why?"))],
        .object [(units "builtin", .number (some (.ofInt 3)))]])
    else none
  parse_array raw items h := by
    split_ifs at h with same same
    · rw [same, trim_units rfl rfl]
      rfl
    · rw [same, trim_units rfl rfl]
      rfl
  unmarshal_parse raw items values parsed reads := by
    split_ifs at parsed with same same
    · rw [same, trim_units rfl rfl] at reads
      cases parsed
      cases reads
      refine .cons (.object (.refl _) (by decide) rfl ?_) .nil
      refine .cons (.string fun _ => rfl) (.cons (.object (.refl _) (by decide) rfl ?_) .nil)
      exact .cons (.string fun _ => rfl) .nil
    · rw [same, trim_units rfl rfl] at reads
      cases parsed
      have other : runes whyText ≠ runes lineText := by decide
      unfold lineJson at reads
      dsimp only at reads
      rw [if_neg other] at reads
      cases reads
      refine .cons (.string fun _ => rfl) (.cons (.object (.refl _) (by decide) rfl ?_)
        (.cons (.object (.refl _) (by decide) rfl ?_) .nil))
      · exact .cons (.string fun _ => rfl) .nil
      · exact .cons (.number (.ofInt 3)) .nil

theorem question_bank_accepted_why : dailyQuestionBankIssue lineParsers.parse (units whyText) = none ∧
    (∃ result, NormalizeQuestions lineParsers.server (sent (units whyText)) = .ok result) ∧
    ServerAgrees lineParsers (units whyText) := by
  have clear : dailyQuestionBankIssue lineParsers.parse (units whyText) = none := by decide +kernel
  have accepted : ∃ result,
      NormalizeQuestions lineParsers.server (sent (units whyText)) = .ok result := ⟨_, rfl⟩
  exact ⟨clear, accepted, (question_bank_accepted lineParsers clear).mp accepted⟩

/-- The form finds nothing wrong with a text that is a next line and has a translation, nor with
a byte order mark, and the server refuses both. -/
theorem line_refused :
    dailyQuestionBankIssue lineParsers.parse (units lineText) = none ∧
    NormalizeQuestions lineParsers.server (sent (units lineText))
      = .error "daily_questions_json question 1 requires fallback text" ∧
    dailyQuestionBankIssue lineParsers.parse [0xfeff] = none ∧
    NormalizeQuestions lineParsers.server (sent [0xfeff])
      = .error "daily_questions_json must be a JSON question array" := by
  refine ⟨?_, rfl, rfl, rfl⟩
  decide +kernel

end Memos.Web
