/-
# The log patcher

`maskRecord` is the patcher of every log record: it masks the forbidden keys of
what is bound as extra, and the values that a pattern finds in the message. The
extra is searched with the keys in any letter case, the message with the
lower-case ones only; and a value ends at the first space, so after `Bearer`.

A secret that the message has once, after a forbidden name, does not stay in it
exactly if a match of the pattern has a value that goes on in the secret after
its eighth character, and no preview with the text before it ends with the
secret (`message_masked_iff`). What is outside of the values stays as it is.

Key definitions: `LogLibrary.redactMessage`, `LogLibrary.maskRecord`,
`LogLibrary.Exposes`, `LogLibrary.Masks`.
Key theorems: `redactMessage_onlyValues`, `message_masked_iff`.
-/
import OllamaProxy.Python
import OllamaProxy.Lib.Pieces

namespace OllamaProxy

open Kit

/-! ### Records -/

inductive LogKey
  | str (s : String)
  | other (n : ℕ)
deriving DecidableEq

/-- What is bound as extra, and its parts. -/
inductive LogValue
  | none
  | str (s : String)
  | dict (items : List (LogKey × LogValue))
  | list (items : List LogValue)
  | other (n : ℕ)

/-- The two items of a record that the patcher reads. -/
structure LogRecord where
  extra : LogValue
  message : LogValue

/-- `isAlnum` and `lower` are the methods of `str`, `str` is `str()` of a value
that is no string. -/
structure LogLibrary where
  isAlnum : Char → Bool
  lower : String → String
  str : LogValue → String
  lower_of_isLower : ∀ s : String, (∀ c ∈ s.toList, c.isLower = true ∨ c = '_') → lower s = s

/-! ### The patcher -/

def forbiddenKeys : List String :=
  ["key_hash", "raw_key", "api_key", "authorization", "secret", "password", "bearer"]

def previewLen : ℕ := 8

def maxRecursionDepth : ℕ := 3

/-- `_preview` of a string. -/
def previewText (s : String) : String :=
  if s = "" then ""
  else if s.length ≤ previewLen then s ++ "…"
  else String.ofList (s.toList.take previewLen) ++ "…"

theorem toList_previewText {s : String} (h : s ≠ "") :
    (previewText s).toList = s.toList.take previewLen ++ ['…'] := by
  rw [previewText, if_neg h]
  split_ifs with hlen
  · rw [String.toList_append, List.take_of_length_le (by rwa [String.length_toList])]
    rfl
  · rw [String.toList_append, String.toList_ofList]
    rfl

/-- `(key)(\s*)([=:])(\s*)(\S+)`: the first four groups, and the last one. No
group can give back what it has taken, as a separator is no space. -/
def matchKey (key l : List Char) : Option (List Char × List Char) :=
  if key <+: l then
    match (l.drop key.length).dropWhile isSpace with
    | [] => none
    | sep :: rest =>
      if sep = '=' ∨ sep = ':' then
        let value := (rest.dropWhile isSpace).takeWhile (!isSpace ·)
        if value = [] then none
        else some (key ++ (l.drop key.length).takeWhile isSpace ++ sep :: rest.takeWhile isSpace, value)
      else none
  else none

namespace LogLibrary

variable (lib : LogLibrary)

def preview : LogValue → String
  | .none => ""
  | .str s => previewText s
  | v => previewText (lib.str v)

def forbidden : LogKey → Bool
  | .str s => lib.lower s ∈ forbiddenKeys
  | .other _ => false

mutual

def maskDict (depth : ℕ) : List (LogKey × LogValue) → List (LogKey × LogValue)
  | [] => []
  | (k, v) :: items =>
    if maxRecursionDepth ≤ depth then (k, v) :: items
    else (k, if lib.forbidden k then .str (lib.preview v) else maskValue depth v) :: maskDict depth items

def maskList (depth : ℕ) : List LogValue → List LogValue
  | [] => []
  | v :: items =>
    if maxRecursionDepth ≤ depth then v :: items else maskValue depth v :: maskList depth items

/-- What both do with a value. -/
def maskValue (depth : ℕ) : LogValue → LogValue
  | .dict items => .dict (maskDict (depth + 1) items)
  | .list items => .list (maskList depth items)
  | v => v

end

/-- `\w`. -/
def isWord (c : Char) : Bool := lib.isAlnum c || c = '_'

/-- `\b`, between two characters. -/
def boundary (prev next : Option Char) : Bool := prev.any lib.isWord != next.any lib.isWord

end LogLibrary

theorem key_ne_nil {key : String} (h : key ∈ forbiddenKeys) : key.toList ≠ [] := by
  have hall : ∀ key ∈ forbiddenKeys, key.toList ≠ [] := by decide
  exact hall key h

/-- The match of a key, with what is left of the list. -/
theorem matchKey_eq_some {key l text value : List Char} (h : matchKey key l = some (text, value)) :
    ∃ left sep right rest, l = text ++ value ++ rest ∧ text = key ++ left ++ sep :: right ∧
      (∀ c ∈ left, isSpace c = true) ∧ (sep = '=' ∨ sep = ':') ∧ (∀ c ∈ right, isSpace c = true) ∧
      value ≠ [] ∧ (∀ c ∈ value, (!isSpace c) = true) ∧ ∀ c ∈ rest.head?, (!isSpace c) = false := by
  unfold matchKey at h
  split_ifs at h with hkey
  obtain ⟨l, rfl⟩ := hkey
  rw [List.drop_left] at h
  split at h
  · cases h
  · rename_i sep rest hdrop
    simp only at h
    split_ifs at h with hsep hvalue
    cases h
    refine ⟨l.takeWhile isSpace, sep, rest.takeWhile isSpace,
      (rest.dropWhile isSpace).dropWhile (!isSpace ·), ?_, rfl, ?_, hsep, ?_, hvalue, ?_, ?_⟩
    · calc key ++ l = key ++ (l.takeWhile isSpace ++ l.dropWhile isSpace) := by rw [List.takeWhile_append_dropWhile]
        _ = key ++ (l.takeWhile isSpace ++ sep :: (rest.takeWhile isSpace ++ rest.dropWhile isSpace)) := by
          rw [hdrop, List.takeWhile_append_dropWhile]
        _ = _ := by
          nth_rewrite 2 [← List.takeWhile_append_dropWhile (p := (!isSpace ·)) (l := rest.dropWhile isSpace)]
          simp
    · exact fun c hc => List.mem_takeWhile_imp hc
    · exact fun c hc => List.mem_takeWhile_imp hc
    · exact fun c hc => List.mem_takeWhile_imp (p := (!isSpace ·)) hc
    · intro c hc
      have hstops := List.head?_dropWhile_not (!isSpace ·) (rest.dropWhile isSpace)
      rw [Option.mem_def.mp hc] at hstops
      exact hstops

namespace LogLibrary

variable (lib : LogLibrary)

/-- `_REDACT_PATTERN`. The order of the keys is that of a set, but none is the
beginning of another. -/
def redactPattern : Matcher (!isSpace ·) where
  find prev l :=
    if lib.boundary prev l.head? then forbiddenKeys.findSome? fun key => matchKey key.toList l else none
  sound := by
    intro prev l text value h
    simp only [Option.ite_none_right_eq_some] at h
    obtain ⟨key, -, hkey⟩ := List.exists_of_findSome?_eq_some h.2
    obtain ⟨left, sep, right, rest, hl, -, -, -, -, hne, hvalue, hstops⟩ := matchKey_eq_some hkey
    exact ⟨rest, hl, hne, hvalue, hstops⟩

/-- The matches of the pattern, with the text before each. -/
def pieces (message : String) : Pieces Char := lib.redactPattern.scan 0 none message.toList

def redactMessage (message : String) : String :=
  String.ofList ((lib.pieces message).image fun value => (lib.preview (.str (String.ofList value))).toList)

def maskRecord (record : LogRecord) : LogRecord where
  extra :=
    match record.extra with
    | .dict items => .dict (lib.maskDict 0 items)
    | extra => extra
  message :=
    match record.message with
    | .str message => .str (lib.redactMessage message)
    | message => message

/-! ### Secrets -/

/-- A forbidden name in any letter case, at a word boundary, with `=` or `:` and
spaces. -/
def EndsWithName (before : List Char) : Prop :=
  ∃ start name left sep right, before = start ++ name ++ left ++ sep :: right ∧
    lib.boundary start.getLast? name.head? = true ∧ lib.lower (String.ofList name) ∈ forbiddenKeys ∧
    (∀ c ∈ left, isSpace c = true) ∧ (sep = '=' ∨ sep = ':') ∧ ∀ c ∈ right, isSpace c = true

/-- After a forbidden name, and the word `Bearer` if it is there, comes a secret
that the message has nowhere else. -/
def Exposes (message secret : String) : Prop :=
  (∃ before scheme after, lib.EndsWithName before ∧
    (scheme = [] ∨ ∃ c, isSpace c = true ∧ scheme = "Bearer".toList ++ [c]) ∧
    message.toList = before ++ scheme ++ secret.toList ++ after) ∧
  8 < secret.length ∧ (∀ c ∈ secret.toList, isSpace c = false) ∧ Once secret.toList message.toList

/-- The messages differ in values of forbidden names only. -/
def OnlyValues (message out : String) : Prop :=
  ∃ (p : Pieces Char) (f : List Char → List Char), p.source = message.toList ∧ p.image f = out.toList ∧
    p.Each (fun before value => lib.EndsWithName before ∧ ∀ c ∈ value, isSpace c = false) []

def Masks (message secret : String) : LogValue → Prop
  | .str out => ¬ secret.toList <:+: out.toList ∧ lib.OnlyValues message out
  | _ => False

/-- A value goes on in the secret after its eighth character. -/
def Reaches (message secret : String) : Prop :=
  ∃ z ∈ (lib.pieces message).pairs, secret.toList <:+: z.1 ++ z.2 ∧ ¬ secret.toList <:+: z.1 ++ z.2.take previewLen

/-- A preview, with the text before it, ends with the secret. -/
def Remains (message secret : String) : Prop :=
  ∃ z ∈ (lib.pieces message).pairs, secret.toList <:+ z.1 ++ z.2.take previewLen ++ ['…']

variable {lib} {message secret : String}

theorem preview_value {value : List Char} (h : value ≠ []) :
    (lib.preview (.str (String.ofList value))).toList = value.take previewLen ++ ['…'] := by
  have hne : String.ofList value ≠ "" := by
    rw [Ne, ← String.toList_inj]
    simpa using h
  rw [preview, toList_previewText hne, String.toList_ofList]

theorem lower_forbidden {key : String} (h : key ∈ forbiddenKeys) : lib.lower key = key := by
  have hall : ∀ key ∈ forbiddenKeys, (key.toList.all fun c => c.isLower || c = '_') = true := by decide
  exact lib.lower_of_isLower key (by simpa using hall key h)

/-- A match is a forbidden name with its value. -/
theorem find_endsWithName {before l text value : List Char}
    (h : lib.redactPattern.find before.getLast? l = some (text, value)) : lib.EndsWithName (before ++ text) := by
  simp only [redactPattern, Option.ite_none_right_eq_some] at h
  obtain ⟨hboundary, hsome⟩ := h
  obtain ⟨key, hmem, hkey⟩ := List.exists_of_findSome?_eq_some hsome
  obtain ⟨left, sep, right, rest, hl, rfl, hleft, hsep, hright, -, -, -⟩ := matchKey_eq_some hkey
  have hhead : l.head? = key.toList.head? := by
    rw [hl, List.append_assoc, List.append_assoc, List.append_assoc, List.head?_append_of_ne_nil _ (key_ne_nil hmem)]
  rw [hhead] at hboundary
  refine ⟨before, key.toList, left, sep, right, by simp, hboundary, ?_, hleft, hsep, hright⟩
  rw [String.ofList_toList, lower_forbidden hmem]
  exact hmem

theorem pieces_source (message : String) : (lib.pieces message).source = message.toList := by
  rw [pieces, Matcher.scan_source, List.drop_zero]

theorem pieces_separated (message : String) : (lib.pieces message).Separated (!isSpace ·) :=
  Matcher.scan_separated _ _ _ _

/-- What is outside of the values stays. -/
theorem redactMessage_onlyValues (message : String) : lib.OnlyValues message (lib.redactMessage message) := by
  refine ⟨lib.pieces message, _, pieces_source message, String.toList_ofList.symm, ?_⟩
  refine lib.redactPattern.scan_each (fun before l text value hfind => ?_) 0 [] message.toList
  obtain ⟨rest, -, -, hvalue, -⟩ := lib.redactPattern.sound hfind
  exact ⟨find_endsWithName hfind, fun c hc => by simpa using hvalue c hc⟩

/-- Where a list without spaces occurs in the masked message. -/
theorem infix_redactMessage_iff {s : List Char} (hs : ∀ c ∈ s, isSpace c = false) :
    s <:+: (lib.redactMessage message).toList ↔
      (∃ z ∈ (lib.pieces message).pairs,
        s <:+ z.1 ++ z.2.take previewLen ++ ['…'] ∨ s <:+: z.1 ++ z.2.take previewLen) ∨
      s <:+: (lib.pieces message).tail := by
  have himage : (lib.pieces message).image (fun value => (lib.preview (.str (String.ofList value))).toList) =
      (lib.pieces message).image fun value => value.take previewLen ++ ['…'] :=
    Pieces.image_congr fun z hz => preview_value ((pieces_separated message).value_ne_nil z hz)
  rw [redactMessage, String.toList_ofList, himage,
    Pieces.infix_image_iff _ (pieces_separated message) (by simpa using hs)]
  simp only [← List.append_assoc, List.infix_concat_iff]

theorem message_masked_iff (extra : LogValue) (h : lib.Exposes message secret) :
    lib.Masks message secret (lib.maskRecord ⟨extra, .str message⟩).message ↔
      lib.Reaches message secret ∧ ¬ lib.Remains message secret := by
  obtain ⟨⟨before, scheme, after, -, -, hmessage⟩, hlength, hspace, honce⟩ := h
  have hne : secret.toList ≠ [] := by
    rintro hnil
    rw [← String.length_toList, hnil] at hlength
    cases hlength
  have hsource : (lib.pieces message).source = message.toList := pieces_source message
  rw [← hsource] at honce hmessage
  have hin : secret.toList <:+: (lib.pieces message).source := ⟨before ++ scheme, after, hmessage.symm⟩
  show ¬ secret.toList <:+: (lib.redactMessage message).toList ∧ _ ↔ _
  rw [and_iff_left (redactMessage_onlyValues message), infix_redactMessage_iff hspace]
  constructor
  · intro hout
    rw [not_or] at hout
    obtain ⟨hpairs, htail⟩ := hout
    refine ⟨?_, fun ⟨z, hz, hends⟩ => hpairs ⟨z, hz, Or.inl hends⟩⟩
    -- the secret lies in one text and value, or in the tail
    rw [Pieces.source, Pieces.infix_image_iff id (pieces_separated message) (by simpa using hspace)] at hin
    rcases hin with ⟨z, hz, hin⟩ | hin
    · exact ⟨z, hz, hin, fun hkept => hpairs ⟨z, hz, Or.inr hkept⟩⟩
    · exact absurd hin htail
  · rintro ⟨⟨z, hz, hin, hbeyond⟩, hends⟩ hout
    obtain ⟨htail, hunique⟩ := honce.piece_unique hne hz hin
    rcases hout with ⟨z', hz', hends' | hkept⟩ | hkept
    · exact hends ⟨z', hz', hends'⟩
    · -- what is kept of a value is a part of it
      have hin' : secret.toList <:+: z'.1 ++ z'.2 :=
        hkept.trans ((List.prefix_append_right_inj _).mpr (List.take_prefix _ _)).isInfix
      rw [hunique z' hz' hin'] at hkept
      exact hbeyond hkept
    · exact htail hkept

namespace Sample

def library : LogLibrary where
  isAlnum c := c.isAlphanum
  lower s := String.ofList (s.toList.map Char.toLower)
  str _ := ""
  lower_of_isLower s hs := by
    have hmap : s.toList.map Char.toLower = s.toList.map id := by
      refine List.map_congr_left fun c hc => ?_
      rcases hs c hc with hlower | rfl
      · exact Char.toLower_eq_of_not_isUpper (Char.not_isUpper_of_isLower hlower)
      · rfl
    rw [hmap, List.map_id, String.ofList_toList]

theorem message_masked_rawKey :
    library.Masks "raw_key=sk-123456789" "sk-123456789"
      (library.maskRecord ⟨.none, .str "raw_key=sk-123456789"⟩).message := by
  have hexposes : library.Exposes "raw_key=sk-123456789" "sk-123456789" :=
    ⟨⟨"raw_key=".toList, [], [], ⟨[], "raw_key".toList, [], '=', [], rfl, by decide, by decide +kernel, by simp,
      by decide, by simp⟩, Or.inl rfl, rfl⟩, by decide +kernel, by simp [isSpace], by decide +kernel⟩
  refine (message_masked_iff .none hexposes).mpr ⟨?_, ?_⟩
  · unfold Reaches
    decide
  · unfold Remains
    decide

def Leaks (message : String) : Prop :=
  library.Exposes message "sk-123456789" ∧
    ¬ library.Masks message "sk-123456789" (library.maskRecord ⟨.none, .str message⟩).message

/-- A name in capitals, the word `Bearer`, and a name in the place of a value. -/
theorem secret_leaks : Leaks "API_KEY=sk-123456789" ∧ Leaks "authorization: Bearer sk-123456789" ∧
    Leaks "secret: api_key: sk-123456789" := by
  have hlength : 8 < "sk-123456789".length := by decide +kernel
  have hspace : ∀ c ∈ "sk-123456789".toList, isSpace c = false := by simp [isSpace]
  refine ⟨?_, ?_, ?_⟩
  · have hname : library.EndsWithName "API_KEY=".toList :=
      ⟨[], "API_KEY".toList, [], '=', [], rfl, by decide, by decide +kernel, by simp, by decide, by simp⟩
    refine ⟨⟨⟨_, [], [], hname, Or.inl rfl, rfl⟩, hlength, hspace, by decide +kernel⟩, fun h => h.1 ?_⟩
    decide
  · have hname : library.EndsWithName "authorization: ".toList :=
      ⟨[], "authorization".toList, [], ':', [' '], rfl, by decide, by decide +kernel, by simp, by decide,
        by simp [isSpace]⟩
    refine ⟨⟨⟨_, "Bearer ".toList, [], hname, Or.inr ⟨' ', by decide, rfl⟩, rfl⟩, hlength, hspace, by decide +kernel⟩,
      fun h => h.1 ?_⟩
    decide
  · have hname : library.EndsWithName "secret: api_key: ".toList :=
      ⟨"secret: ".toList, "api_key".toList, [], ':', [' '], rfl, by decide, by decide +kernel, by simp, by decide,
        by simp [isSpace]⟩
    refine ⟨⟨⟨_, [], [], hname, Or.inl rfl, rfl⟩, hlength, hspace, by decide +kernel⟩, fun h => h.1 ?_⟩
    decide

end Sample

end LogLibrary

end OllamaProxy
