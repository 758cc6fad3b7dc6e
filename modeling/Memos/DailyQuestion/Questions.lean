/-
The questions an administrator may put in the place of the built-in ones.

A question is a text, the number of a built-in question, or an object with a text, the
locale it is written in and translations.  What is submitted is trimmed, bounded and freed
of repetitions, and an object that says no more than its text becomes the text.

JSON is read into values.  A submitted text is a sequence of bytes that need not be
UTF-8; a byte that is part of no code point stands for itself.
-/
import Memos.Api.ContentModeration
import Memos.Lib.Scan

namespace Memos.DailyQuestion

open Api

def MaxJSONBytes : Nat := 256 <<< 10

def MaxQuestions : Nat := 2000

def MaxQuestionRunes : Nat := 200

def BuiltinQuestionCount : Nat := 365

def supportedQuestionLocales : List String :=
  ["ar", "bg", "ca", "cs", "da", "de", "el", "en", "en-GB", "es", "et", "fa", "fi", "fr", "gl", "he",
    "hi", "hr", "hu", "id", "it", "ja", "ka-GE", "ko", "lt", "lv", "mr", "nb", "nl", "pl", "pt-BR",
    "pt-PT", "ro", "ru", "sk", "sl", "sr", "sv", "th", "tr", "uk", "vi", "zh-Hans", "zh-Hant"]

/-! ### Values -/

/-- A value of JSON.  A number is the `float64` it is read as, and the fields of an object
have no order and different names. -/
inductive Value where
  | null
  | bool (value : Bool)
  | number (value : Rat)
  | string (text : String)
  | array (items : List Value)
  | object (fields : List (String × Value))

structure Translations (locales : List String) where
  texts : List (String × String)
  ordered : (texts.map Prod.fst).Sublist locales
deriving DecidableEq

namespace Translations

variable {locales : List String}

def empty : Translations [] := ⟨[], List.Sublist.refl []⟩

def skip (locale : String) (translations : Translations locales) :
    Translations (locale :: locales) :=
  ⟨translations.texts, translations.ordered.cons locale⟩

def add (locale text : String) (translations : Translations locales) :
    Translations (locale :: locales) :=
  ⟨(locale, text) :: translations.texts, translations.ordered.cons_cons locale⟩

def none : Translations locales := ⟨[], List.nil_sublist locales⟩

end Translations

structure Question where
  builtin : Option Int := none
  text : String := ""
  locale : String := ""
  translations : Translations supportedQuestionLocales := .none
deriving DecidableEq

/-- What stands in the list that is stored. -/
inductive Entry where
  | text (text : String)
  | question (question : Question)
deriving DecidableEq

def validLocale (locale : String) : Bool :=
  locale = "" || supportedQuestionLocales.contains locale

def TrimSpace (text : String) : String := String.ofList (trimSpace text.toList)

/-! ### One question -/

def questionError (index : Nat) (message : String) : String :=
  s!"daily_questions_json question {index + 1} {message}"

/-- `normalizeQuestion` of a string: the text, if any is left, and what is moderated. -/
def normalizeText (text : String) (index : Nat) : Except String (Option String × List String) :=
  let text := TrimSpace text
  if MaxQuestionRunes < text.length then .error (questionError index "exceeds 200 characters")
  else if text = "" then .ok (none, [])
  else .ok (some text, [text])

def normalizeTranslations (index : Nat) (translations : List (String × Value)) :
    (locales : List String) → Except String (Translations locales × List String)
  | [] => .ok (.empty, [])
  | locale :: locales =>
      match translations.lookup locale with
      | none => do
          let (rest, moderation) ← normalizeTranslations index translations locales
          return (rest.skip locale, moderation)
      | some (.string translation) => do
          let (clean, texts) ← normalizeText translation index
          let (rest, moderation) ← normalizeTranslations index translations locales
          if clean.isSome then
            return (rest.add locale (TrimSpace translation), texts ++ moderation)
          else return (rest.skip locale, moderation)
      | some _ => .error (questionError index "translation must be a string")

def readBuiltin (fields : List (String × Value)) (index : Nat) (builtin : Value) :
    Except String (Option Entry × List String) :=
  match builtin with
  | .number number =>
      if !number.isInt || number.num < 0 || BuiltinQuestionCount ≤ number.num
          || fields.length ≠ 1 then
        .error (questionError index "has an invalid built-in index")
      else .ok (some (.question { builtin := some number.num }), [])
  | _ => .error (questionError index "has an invalid built-in index")

def readText (fields : List (String × Value)) (index : Nat) : Except String String :=
  match fields.lookup "text" with
  | some (.string text) => .ok text
  | _ => .error (questionError index "requires text")

def readLocale (fields : List (String × Value)) (index : Nat) : Except String String :=
  match fields.lookup "locale" with
  | none => .ok ""
  | some (.string locale) =>
      if validLocale locale then .ok locale
      else .error (questionError index "has an invalid locale")
  | some _ => .error (questionError index "has an invalid locale")

def readTranslations (fields : List (String × Value)) (index : Nat) :
    Except String (Translations supportedQuestionLocales × List String) :=
  match fields.lookup "translations" with
  | none => .ok (.none, [])
  | some (.object translations) =>
      if translations.any fun translation => translation.1 = "" || !validLocale translation.1 then
        .error (questionError index "has an invalid translation locale")
      else normalizeTranslations index translations supportedQuestionLocales
  | some _ => .error (questionError index "translations must be an object")

def normalizeObject (fields : List (String × Value)) (index : Nat) :
    Except String (Option Entry × List String) :=
  match fields.lookup "builtin" with
  | some builtin => readBuiltin fields index builtin
  | none =>
      if fields.any fun field => !(["text", "locale", "translations"].contains field.1) then
        .error (questionError index "has an unknown field")
      else do
        let text ← readText fields index
        let (normalized, moderation) ← normalizeText text index
        let text := if normalized.isSome then TrimSpace text else ""
        let locale ← readLocale fields index
        let (translations, translated) ← readTranslations fields index
        if text = "" then
          if translations.texts ≠ [] then .error (questionError index "requires fallback text")
          else return (none, [])
        else if locale = "" ∧ translations.texts = [] then
          return (some (.text text), moderation ++ translated)
        else return (some (.question { text, locale, translations }), moderation ++ translated)

def normalizeQuestion (value : Value) (index : Nat) : Except String (Option Entry × List String) :=
  match value with
  | .string text => do
      let (normalized, moderation) ← normalizeText text index
      return (normalized.map .text, moderation)
  | .object fields => normalizeObject fields index
  | _ => .error (questionError index "must be a string or question object")

/-! ### The list -/

inductive Rune where
  | char (c : Char)
  | invalid (byte : UInt8)
deriving DecidableEq

def Rune.isSpace : Rune → Bool
  | .char c => Api.isSpace c
  | .invalid _ => false

def Rune.size : Rune → Nat
  | .char c => c.utf8Size
  | .invalid _ => 1

def runes (text : String) : List Rune := text.toList.map .char

def byteSize (raw : List Rune) : Nat := raw.foldr (fun r size => r.size + size) 0

/-- The fields that are written: those that are not empty. -/
def Question.fields (question : Question) (translations : List (String × Value)) :
    List (String × Value) :=
  (question.builtin.map fun id => ("builtin", .number (.ofInt id))).toList
    ++ (if question.text = "" then [] else [("text", .string question.text)])
    ++ (if question.locale = "" then [] else [("locale", .string question.locale)])
    ++ if translations = [] then [] else [("translations", .object translations)]

/-- A question is read back as this value. -/
def Decodes (value : Value) : Entry → Prop
  | .text text => value = .string text
  | .question question => ∃ fields translations, value = .object fields ∧
      translations.Perm (question.translations.texts.map fun t => (t.1, Value.string t.2)) ∧
      fields.Perm (question.fields translations)

/-- The number of a built-in question is one that a `float64` can be. -/
def Entry.Exact : Entry → Prop
  | .text _ => True
  | .question q => ∀ id, q.builtin = some id → 0 ≤ id ∧ id ≤ 0x20000000000000

/-- `encoding/json`, and what is relied on: a list that has been written is an array and is
read back, and two questions are written differently. -/
structure Encoding where
  /-- Into a list of any values; bytes that are no UTF-8 are replaced. -/
  unmarshal : List Rune → Except String (List Value)
  marshal : List Entry → Except String String
  marshalEntry : Entry → Except String String
  marshal_array : ∀ entries text, marshal entries = .ok text →
    text.toList.head? = some '[' ∧ text.toList.getLast? = some ']'
  unmarshal_marshal : ∀ entries text, (∀ entry ∈ entries, entry.Exact) →
    marshal entries = .ok text →
    ∃ values, unmarshal (runes text) = .ok values ∧ List.Forall₂ Decodes values entries
  marshalEntry_injective : ∀ entry entry' key, marshalEntry entry = .ok key →
    marshalEntry entry' = .ok key → entry = entry'

variable (json : Encoding)

/-- The loop over the questions, with the keys of those that are kept. -/
def normalizeAll (index : Nat) (seen : List String) :
    List Value → Except String (List Entry × List String)
  | [] => .ok ([], [])
  | value :: input => do
      let (question, texts) ← normalizeQuestion value index
      match question with
      | none => normalizeAll (index + 1) seen input
      | some question => do
          let key ← json.marshalEntry question
          if seen.contains key then normalizeAll (index + 1) seen input
          else do
            let (questions, moderation) ← normalizeAll (index + 1) (key :: seen) input
            return (question :: questions, texts ++ moderation)

def normalizeArray (trimmed : List Rune) : Except String (String × List String) := do
  let input ← (json.unmarshal trimmed).mapError fun e =>
    "daily_questions_json must be a JSON question array: " ++ e
  if MaxQuestions < input.length then
    .error "daily_questions_json cannot contain more than 2000 questions"
  else do
    let (questions, moderation) ← normalizeAll json 0 [] input
    if questions = [] then return ("", [])
    else do
      let value ← (json.marshal questions).mapError fun e => "encode daily question bank: " ++ e
      if MaxJSONBytes < value.utf8ByteSize then
        .error "normalized daily_questions_json exceeds 256 KiB"
      else return (value, moderation)

def NormalizeQuestions (raw : List Rune) : Except String (String × List String) :=
  if MaxJSONBytes < byteSize raw then .error "daily_questions_json exceeds 256 KiB"
  else
    let trimmed := Trim.trim Rune.isSpace raw
    match trimmed with
    | [] => .ok ("", [])
    | .char '[' :: _ => normalizeArray json trimmed
    | _ => .error "daily_questions_json must be a JSON question array"

end Memos.DailyQuestion
