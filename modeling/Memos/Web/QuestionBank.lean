/-
What the form says about a bank of questions before it is sent.

A string of the browser is one of UTF-16 code units, and is sent as the Unicode text it
stands for.  Its white space is not that of the server: it has the byte order mark, and the
next line is none of it.
-/
import Memos.DailyQuestion.Questions

namespace Memos.Web

open DailyQuestion Utf16

/-! ### Strings and values -/

/-- White space and line terminators, which `trim` cuts. -/
def isWhiteSpace (u : UInt16) : Bool :=
  let n := u.toNat
  (9 ≤ n && n ≤ 13) || n = 0x20 || n = 0xa0 || n = 0x1680 || (0x2000 ≤ n && n ≤ 0x200a)
    || n = 0x2028 || n = 0x2029 || n = 0x202f || n = 0x205f || n = 0x3000 || n = 0xfeff

def jsTrim (text : Units) : Units := Trim.trim isWhiteSpace text

/-- What `JSON.parse` makes.  A number may be too large, and is infinite then. -/
inductive JsValue where
  | null
  | bool (value : Bool)
  | number (value : Option Rat)
  | string (text : Units)
  | array (items : List JsValue)
  | object (fields : List (Units × JsValue))

def units (name : String) : Units := encode name.toList

/-- `undefined` is none. -/
def property (fields : List (Units × JsValue)) (name : String) : Option JsValue :=
  fields.lookup (units name)

def QUESTION_LANGUAGES : List String :=
  ["ar", "bg", "ca", "cs", "da", "de", "el", "en", "en-GB", "es", "et", "fa", "fi", "fr", "gl", "he",
    "hi", "hr", "hu", "id", "it", "ja", "ka-GE", "ko", "lt", "lv", "mr", "nb", "nl", "pl", "pt-PT",
    "pt-BR", "ro", "ru", "sk", "sl", "sr", "sv", "th", "tr", "uk", "vi", "zh-Hans", "zh-Hant"]

def isQuestionLanguage (locale : Units) : Bool := (QUESTION_LANGUAGES.map units).contains locale

def BUILTIN_QUESTION_COUNT : Nat := 365

def MAX_DAILY_QUESTIONS : Nat := 2000

def MAX_QUESTION_CHARACTERS : Nat := 200

/-! ### One entry -/

def isBuiltinIndex : JsValue → Bool
  | .number (some n) => n.isInt && 0 ≤ n.num && n.num < BUILTIN_QUESTION_COUNT
  | _ => false

def isFallbackText : Option JsValue → Bool
  | some (.string text) => jsTrim text ≠ []
  | _ => false

def isOptionalLocale : Option JsValue → Bool
  | none => true
  | some (.string locale) => locale = [] || isQuestionLanguage locale
  | some _ => false

def isOptionalObject : Option JsValue → Bool
  | none => true
  | some (.object _) => true
  | some _ => false

/-- `item.translations ?? {}`, once it is known to be an object. -/
def translationEntries (fields : List (Units × JsValue)) : List (Units × JsValue) :=
  match property fields "translations" with
  | some (.object translations) => translations
  | _ => []

def JsValue.isString : JsValue → Bool
  | .string _ => true
  | _ => false

def isDailyQuestionEntry : JsValue → Bool
  | .string text => jsTrim text ≠ []
  | .object fields =>
      match property fields "builtin" with
      | some builtin => isBuiltinIndex builtin && fields.length = 1
      | none =>
          isFallbackText (property fields "text") && isOptionalLocale (property fields "locale")
            && isOptionalObject (property fields "translations")
            && (fields.all fun field =>
              (["text", "locale", "translations"].map units).contains field.1)
            && (translationEntries fields).all fun translation =>
              isQuestionLanguage translation.1 && translation.2.isString
  | _ => false

/-- The texts whose length is looked at; a built-in question has none. -/
def entryTexts : JsValue → List Units
  | .string text => [text]
  | .object fields =>
      if (property fields "builtin").isSome then []
      else
        (((property fields "text").toList ++ (translationEntries fields).map Prod.snd).filterMap
          fun
            | .string text => some text
            | _ => none)
  | _ => []

/-! ### The bank -/

inductive BankIssue where
  | invalid
  | tooMany
  | tooLong
  | tooLarge
deriving DecidableEq

/-- `JSON.parse`, which fails on what is not JSON. -/
def dailyQuestionBankIssue (parse : Units → Option JsValue) (raw : Units) : Option BankIssue :=
  if jsTrim raw = [] then none
  else if 256 * 1024 < Utf8.byteLength (decode raw) then some .tooLarge
  else
    match parse raw with
    | some (.array values) =>
        if values.isEmpty || !values.all isDailyQuestionEntry then some .invalid
        else if MAX_DAILY_QUESTIONS < values.length then some .tooMany
        else if values.any fun entry => (entryTexts entry).any fun text =>
            MAX_QUESTION_CHARACTERS < (decode (jsTrim text)).length then some .tooLong
        else none
    | _ => some .invalid

/-! ### The two readers of JSON -/

/-- A string without surrogates is the same text for both. -/
def SameText (text : Units) (text' : String) : Prop :=
  (∀ u ∈ text, isSurrogate u = false) → text = units text'

/-- What the browser and the server read in the same place.  The fields of an object are
those of a map; where a name has surrogates, the server may have another name for it. -/
inductive Same : JsValue → Value → Prop where
  | null : Same .null .null
  | bool (value : Bool) : Same (.bool value) (.bool value)
  | number (value : Rat) : Same (.number (some value)) (.number value)
  | string {text : Units} {text' : String} (same : SameText text text') :
      Same (.string text) (.string text')
  | array {items : List JsValue} {items' : List Value} (same : List.Forall₂ Same items items') :
      Same (.array items) (.array items')
  | object {fields : List (Units × JsValue)} {named fields' : List (String × Value)}
      (perm : fields'.Perm named) (distinct : (fields'.map Prod.fst).Nodup)
      (names : fields.map Prod.fst = named.map fun field => units field.1)
      (same : List.Forall₂ Same (fields.map Prod.snd) (named.map Prod.snd)) :
      Same (.object fields) (.object fields')
  | foreign {fields : List (Units × JsValue)} {fields' : List (String × Value)}
      (field : Units × JsValue) (mem : field ∈ fields)
      (surrogate : ∃ u ∈ field.1, isSurrogate u = true) :
      Same (.object fields) (.object fields')

/-- `JSON.parse` and `encoding/json`, and what is relied on: an array that the browser reads
starts as one when it is trimmed, and if the server reads it too, they read the same. -/
structure Parsers where
  server : Encoding
  parse : Units → Option JsValue
  parse_array : ∀ raw items, parse raw = some (.array items) →
    (Trim.trim Rune.isSpace ((decode raw).map .char)).head? = some (.char '[')
  unmarshal_parse : ∀ raw items values, parse raw = some (.array items) →
    server.unmarshal (Trim.trim Rune.isSpace ((decode raw).map .char)) = .ok values →
    List.Forall₂ Same items values

def sent (raw : Units) : List Rune := (decode raw).map .char

end Memos.Web
