/-
# JSON texts

`dumps` writes a value the way Python's `json.dumps` does, with every character
outside ASCII escaped or as it is, and `loads` reads a text as `json.loads` does:
white space between the tokens, all escapes, no control characters in a string,
and of two members of one name the later one at the place of the earlier.
Texts with fractions, exponents or lone surrogates do not read here.

A string is read in two passes: `units` undoes the escapes, and `decode` joins
the surrogate pairs, which a character outside the basic plane is escaped to.

A value reads back from its text exactly if the names of each of its dicts
differ (`loads_dumps_iff`).

Key definitions: `Data`, `dumps`, `loads`, `Data.Distinct`.
Key theorems: `string_quote`, `value_render`, `loads_dumps_iff`.
-/
import Mathlib

namespace Kit.JsonText

/-- A value without fractions; a dict in the order of its items. -/
inductive Data
  | null
  | bool (b : Bool)
  | int (n : ℤ)
  | str (s : List Char)
  | list (xs : List Data)
  | dict (items : List (List Char × Data))

/-! ### Writing -/

def hexDigit (n : ℕ) : Char := Nat.digitChar (n % 16)

/-- `\uXXXX`. -/
def unicodeEscape (n : ℕ) : List Char :=
  ['\\', 'u', hexDigit (n / 4096), hexDigit (n / 256), hexDigit (n / 16), hexDigit n]

/-- What a character is escaped to outside ASCII: itself, or a surrogate pair. -/
def surrogates (n : ℕ) : List ℕ :=
  if n < 0x10000 then [n] else [0xd800 + (n - 0x10000) / 0x400, 0xdc00 + (n - 0x10000) % 0x400]

/-- The letter of the short escape of a character. -/
def shortEscape (c : Char) : Option Char :=
  if c = '"' then some '"'
  else if c = '\\' then some '\\'
  else if c = '\n' then some 'n'
  else if c = '\r' then some 'r'
  else if c = '\t' then some 't'
  else if c.toNat = 8 then some 'b'
  else if c.toNat = 12 then some 'f'
  else none

/-- `ascii` is `ensure_ascii`. -/
def escape (ascii : Bool) (c : Char) : List Char :=
  match shortEscape c with
  | some e => ['\\', e]
  | none =>
    if c.toNat < 32 ∨ ascii ∧ 126 < c.toNat then (surrogates c.toNat).flatMap unicodeEscape else [c]

def quote (ascii : Bool) (s : List Char) : List Char := '"' :: s.flatMap (escape ascii) ++ ['"']

def decimal : ℤ → List Char
  | .ofNat n => Nat.toDigits 10 n
  | .negSucc n => '-' :: Nat.toDigits 10 (n + 1)

mutual

def render (ascii : Bool) : Data → List Char
  | .null => "null".toList
  | .bool true => "true".toList
  | .bool false => "false".toList
  | .int n => decimal n
  | .str s => quote ascii s
  | .list xs => '[' :: [',', ' '].intercalate (renderItems ascii xs) ++ [']']
  | .dict items => '\x7b' :: [',', ' '].intercalate (renderMembers ascii items) ++ ['\x7d']

def renderItems (ascii : Bool) : List Data → List (List Char)
  | [] => []
  | x :: xs => render ascii x :: renderItems ascii xs

def renderMembers (ascii : Bool) : List (List Char × Data) → List (List Char)
  | [] => []
  | (name, x) :: items => (quote ascii name ++ ':' :: ' ' :: render ascii x) :: renderMembers ascii items

end

/-- `json.dumps(v, ensure_ascii=ascii)`. -/
def dumps (ascii : Bool) (v : Data) : String := String.ofList (render ascii v)

/-! ### Reading -/

/-- What was read, and the rest of the text. -/
abbrev Reader (α : Type) := List Char → Option (α × List Char)

def skip (text : List Char) : List Char := text.dropWhile fun c => c = ' ' || c = '\t' || c = '\n' || c = '\r'

/-- Inside a string: at a character, after a backslash, or after the first of
the four digits of `\u`, with `left + 1` to come and the value so far. -/
inductive Scan
  | plain
  | escaped
  | hex (left value : ℕ)

/-- The character of a short escape. -/
def unescape (c : Char) : Option ℕ :=
  if c = '"' ∨ c = '\\' ∨ c = '/' then some c.toNat
  else if c = 'n' then some 10
  else if c = 'r' then some 13
  else if c = 't' then some 9
  else if c = 'b' then some 8
  else if c = 'f' then some 12
  else none

def hexValue (c : Char) : Option ℕ :=
  if '0' ≤ c ∧ c ≤ '9' then some (c.toNat - 48)
  else if 'a' ≤ c ∧ c ≤ 'f' then some (c.toNat - 87)
  else if 'A' ≤ c ∧ c ≤ 'F' then some (c.toNat - 55)
  else none

/-- The code units of a string, to the quote that ends it. -/
def units : Scan → Reader (List ℕ)
  | _, [] => none
  | .plain, c :: rest =>
    if c = '"' then some ([], rest)
    else if c = '\\' then units .escaped rest
    else if c.toNat < 32 then none
    else (units .plain rest).map fun r => (c.toNat :: r.1, r.2)
  | .escaped, c :: rest =>
    if c = 'u' then units (.hex 3 0) rest
    else (unescape c).bind fun u => (units .plain rest).map fun r => (u :: r.1, r.2)
  | .hex left value, c :: rest =>
    (hexValue c).bind fun d =>
      match left with
      | 0 => (units .plain rest).map fun r => ((16 * value + d) :: r.1, r.2)
      | left + 1 => units (.hex left (16 * value + d)) rest

def isHigh (u : ℕ) : Bool := 0xd800 ≤ u && u < 0xdc00
def isLow (u : ℕ) : Bool := 0xdc00 ≤ u && u < 0xe000

def decode : List ℕ → Option (List Char)
  | [] => some []
  | [u] => if isHigh u || isLow u then none else some [Char.ofNat u]
  | u :: v :: rest =>
    if isHigh u && isLow v then
      (decode rest).map (Char.ofNat (0x10000 + (u - 0xd800) * 0x400 + (v - 0xdc00)) :: ·)
    else if isHigh u || isLow u then none
    else (decode (v :: rest)).map (Char.ofNat u :: ·)

/-- A string, after its first quote. -/
def string : Reader (List Char) := fun text =>
  (units .plain text).bind fun r => (decode r.1).map fun s => (s, r.2)

/-- `0` is read alone. -/
def natural : Reader ℕ
  | [] => none
  | '0' :: rest => some (0, rest)
  | text =>
    let digits := text.takeWhile Char.isDigit
    if digits = [] then none else some (Nat.ofDigitChars 10 digits 0, text.dropWhile Char.isDigit)

def number : Reader ℤ
  | '-' :: rest => (natural rest).map fun r => (-(r.1 : ℤ), r.2)
  | text => (natural text).map fun r => ((r.1 : ℤ), r.2)

section Sequences

variable {α : Type} (p : Reader α) (close : Char)

def elements : ℕ → Reader (List α)
  | 0, _ => none
  | n + 1, text =>
    (p text).bind fun r =>
      match skip r.2 with
      | [] => none
      | c :: rest =>
        if c = ',' then (elements n (skip rest)).map fun s => (r.1 :: s.1, s.2)
        else if c = close then some ([r.1], rest)
        else none

/-- What stands between the brackets, after the opening one. -/
def sequence : Reader (List α) := fun text =>
  match skip text with
  | [] => none
  | c :: rest => if c = close then some ([], rest) else elements p close (c :: rest).length (c :: rest)

def member : Reader (List Char × α)
  | [] => none
  | c :: rest =>
    if c = '"' then
      (string rest).bind fun r =>
        match skip r.2 with
        | ':' :: rest => (p (skip rest)).map fun s => ((r.1, s.1), s.2)
        | _ => none
    else none

end Sequences

/-- `d[name] = x`. -/
def setItem {α : Type} (items : List (List Char × α)) (item : List Char × α) : List (List Char × α) :=
  if item.1 ∈ items.map (·.1) then items.map fun other => if other.1 = item.1 then item else other
  else items ++ [item]

/-- `n` bounds the nesting. -/
def value : ℕ → Reader Data
  | 0, _ => none
  | _ + 1, [] => none
  | n + 1, c :: rest =>
    if c = '"' then (string rest).map fun r => (.str r.1, r.2)
    else if c = '[' then (sequence (value n) ']' rest).map fun r => (.list r.1, r.2)
    else if c = '\x7b' then
      (sequence (member (value n)) '\x7d' rest).map fun r => (.dict (r.1.foldl setItem []), r.2)
    else if "null".toList.isPrefixOf (c :: rest) then some (.null, rest.drop 3)
    else if "true".toList.isPrefixOf (c :: rest) then some (.bool true, rest.drop 3)
    else if "false".toList.isPrefixOf (c :: rest) then some (.bool false, rest.drop 4)
    else (number (c :: rest)).map fun r => (.int r.1, r.2)

/-- `json.loads(text)`. -/
def loads (text : String) : Option Data :=
  (value (text.toList.length + 1) (skip text.toList)).bind fun r => if skip r.2 = [] then some r.1 else none

/-! ### Strings -/

/-- The code units that a character is read as. -/
def codes (ascii : Bool) (c : Char) : List ℕ :=
  if (shortEscape c).isNone ∧ (c.toNat < 32 ∨ ascii ∧ 126 < c.toNat) then surrogates c.toNat else [c.toNat]

variable {ascii : Bool} {c : Char} {rest text : List Char}

theorem hexValue_hexDigit (n : ℕ) : hexValue (hexDigit n) = some (n % 16) := by
  have hall : ∀ d < 16, hexValue (Nat.digitChar d) = some d := by decide
  exact hall _ (Nat.mod_lt _ (by decide))

theorem units_unicodeEscape {n : ℕ} (h : n < 0x10000) (rest : List Char) :
    units .plain (unicodeEscape n ++ rest) = (units .plain rest).map fun r => (n :: r.1, r.2) := by
  have hn : 16 * (16 * (16 * (16 * 0 + n / 4096 % 16) + n / 256 % 16) + n / 16 % 16) + n % 16 = n := by omega
  simp [unicodeEscape, units, hexValue_hexDigit]
  simp only [Nat.mul_zero, Nat.zero_add] at hn
  rw [hn]

theorem surrogates_lt (h : c.toNat < 0x110000) : ∀ u ∈ surrogates c.toNat, u < 0x10000 := by
  intro u hu
  unfold surrogates at hu
  split_ifs at hu with hlow
  · rw [List.mem_singleton.mp hu]
    exact hlow
  · simp only [List.mem_cons, List.not_mem_nil, or_false] at hu
    omega

theorem units_unicodeEscapes : ∀ (us : List ℕ), (∀ u ∈ us, u < 0x10000) → ∀ rest,
    units .plain (us.flatMap unicodeEscape ++ rest) = (units .plain rest).map fun r => (us ++ r.1, r.2)
  | [], _, rest => by simp
  | u :: us, h, rest => by
    obtain ⟨hu, hus⟩ := List.forall_mem_cons.mp h
    rw [List.flatMap_cons, List.append_assoc, units_unicodeEscape hu, units_unicodeEscapes us hus, Option.map_map]
    rfl

theorem toNat_lt (c : Char) : c.toNat < 0x110000 := by
  rcases c.valid with h | h
  · exact Nat.lt_trans h (by decide)
  · exact h.2

/-- A short escape names its character. -/
theorem shortEscape_unescape {c e : Char} (h : shortEscape c = some e) : e ≠ 'u' ∧ unescape e = some c.toNat := by
  unfold shortEscape at h
  split_ifs at h with hc hc hc hc hc hc hc <;> cases h
  case pos | pos | pos | pos | pos =>
    subst hc
    decide
  case pos | pos =>
    rw [hc]
    decide

theorem units_escape (ascii : Bool) (c : Char) (rest : List Char) :
    units .plain (escape ascii c ++ rest) = (units .plain rest).map fun r => (codes ascii c ++ r.1, r.2) := by
  unfold escape codes
  cases hshort : shortEscape c with
  | some e =>
    have he := shortEscape_unescape hshort
    simp [units, he.1, he.2]
  | none =>
    simp only [Option.isNone_none, true_and]
    split_ifs with h
    · exact units_unicodeEscapes _ (surrogates_lt (toNat_lt c)) rest
    · have hquote : c ≠ '"' := by rintro rfl; cases hshort
      have hslash : c ≠ '\\' := by rintro rfl; cases hshort
      have hlow : ¬ c.toNat < 32 := fun hlt => h (Or.inl hlt)
      simp [units, hquote, hslash, hlow]

theorem decode_cons {u : ℕ} (h : isHigh u = false ∧ isLow u = false) (us : List ℕ) :
    decode (u :: us) = (decode us).map (Char.ofNat u :: ·) := by
  cases us with
  | nil => simp [decode, h.1, h.2]
  | cons v us => simp [decode, h.1, h.2]

/-- No character is a surrogate. -/
theorem not_surrogate (c : Char) : isHigh c.toNat = false ∧ isLow c.toNat = false := by
  have hvalid : c.toNat < 0xd800 ∨ 0xdfff < c.toNat := by
    rcases c.valid with h | h
    · exact Or.inl h
    · exact Or.inr h.1
  simp only [isHigh, isLow, Bool.and_eq_false_iff, decide_eq_false_iff_not]
  omega

theorem decode_surrogates (c : Char) (us : List ℕ) :
    decode (surrogates c.toNat ++ us) = (decode us).map (c :: ·) := by
  have hlt := toNat_lt c
  unfold surrogates
  split_ifs with h
  · rw [List.singleton_append, decode_cons (not_surrogate c), Char.ofNat_toNat]
  · have hhigh : isHigh (0xd800 + (c.toNat - 0x10000) / 0x400) = true := by
      simp only [isHigh, Bool.and_eq_true, decide_eq_true_eq]
      omega
    have hlow : isLow (0xdc00 + (c.toNat - 0x10000) % 0x400) = true := by
      simp only [isLow, Bool.and_eq_true, decide_eq_true_eq]
      omega
    have hjoin : 0x10000 + (0xd800 + (c.toNat - 0x10000) / 0x400 - 0xd800) * 0x400 +
        (0xdc00 + (c.toNat - 0x10000) % 0x400 - 0xdc00) = c.toNat := by omega
    rw [List.cons_append, List.singleton_append, decode, hhigh, hlow, Bool.and_self, if_pos rfl, hjoin,
      Char.ofNat_toNat]

theorem decode_codes (ascii : Bool) (c : Char) (us : List ℕ) :
    decode (codes ascii c ++ us) = (decode us).map (c :: ·) := by
  unfold codes
  split_ifs
  · exact decode_surrogates c us
  · rw [List.singleton_append, decode_cons (not_surrogate c), Char.ofNat_toNat]

theorem string_escape (ascii : Bool) (c : Char) (rest : List Char) :
    string (escape ascii c ++ rest) = (string rest).map fun r => (c :: r.1, r.2) := by
  unfold string
  rw [units_escape]
  cases units .plain rest with
  | none => rfl
  | some r =>
    simp only [Option.map_some, Option.bind_some, decode_codes, Option.map_map]
    rfl

/-- A quoted string reads back. -/
theorem string_quote (ascii : Bool) : ∀ s rest : List Char,
    string (s.flatMap (escape ascii) ++ '"' :: rest) = some (s, rest)
  | [], rest => rfl
  | c :: s, rest => by
    rw [List.flatMap_cons, List.append_assoc, string_escape, string_quote ascii s rest]
    rfl

/-! ### Numbers -/

/-- A text that goes on with no digit. -/
def NoDigit (rest : List Char) : Prop := ∀ c ∈ rest.head?, c.isDigit = false

theorem takeWhile_digits {digits : List Char} (hdigits : ∀ c ∈ digits, c.isDigit = true) (hrest : NoDigit rest) :
    (digits ++ rest).takeWhile Char.isDigit = digits ∧ (digits ++ rest).dropWhile Char.isDigit = rest := by
  rw [List.takeWhile_append_of_pos hdigits, List.dropWhile_append_of_pos hdigits]
  cases rest with
  | nil => simp
  | cons c rest =>
    have hc : c.isDigit = false := hrest c rfl
    simp [hc]

/-- A number starts with `0` only if it is `0`. -/
theorem toDigits_head : ∀ {n : ℕ}, 0 < n → ∃ c digits, Nat.toDigits 10 n = c :: digits ∧ c ≠ '0'
  | n, h => by
    by_cases hlt : n < 10
    · have hall : ∀ d < 10, 0 < d → Nat.digitChar d ≠ '0' := by decide
      exact ⟨_, [], Nat.toDigits_of_lt_base hlt, hall n hlt h⟩
    · obtain ⟨c, digits, hdigits, hc⟩ := toDigits_head (n := n / 10) (by omega)
      refine ⟨c, digits ++ [Nat.digitChar (n % 10)], ?_, hc⟩
      rw [Nat.toDigits_of_base_le (by decide) (by omega), hdigits, List.cons_append]
termination_by n => n

theorem natural_toDigits (n : ℕ) (hrest : NoDigit rest) :
    natural (Nat.toDigits 10 n ++ rest) = some (n, rest) := by
  rcases Nat.eq_zero_or_pos n with rfl | hpos
  · rfl
  · have hdigits : ∀ c ∈ Nat.toDigits 10 n, c.isDigit = true :=
      fun c hc => Nat.isDigit_of_mem_toDigits (by decide) le_rfl hc
    have hsplit := takeWhile_digits hdigits hrest
    have hvalue : Nat.ofDigitChars 10 (Nat.toDigits 10 n) 0 = n := Nat.ofDigitChars_ten_toDigits
    obtain ⟨c, digits, hhead, hc⟩ := toDigits_head hpos
    rw [hhead] at hsplit hvalue ⊢
    rw [List.cons_append] at hsplit ⊢
    unfold natural
    split
    · next heq => cases heq
    · next heq =>
      cases heq
      exact absurd rfl hc
    · simp only [hsplit.1, hsplit.2, hvalue, reduceCtorEq, if_false]

/-- A number starts with a digit or a sign. -/
theorem decimal_head (n : ℤ) : ∃ c digits, decimal n = c :: digits ∧ (c = '-' ∨ c.isDigit = true) := by
  cases n with
  | ofNat n =>
    obtain ⟨c, digits, h⟩ := List.exists_cons_of_ne_nil (Nat.toDigits_ne_nil (n := n) (b := 10))
    have hc : c ∈ Nat.toDigits 10 n := h ▸ List.mem_cons_self
    exact ⟨c, digits, h, Or.inr (Nat.isDigit_of_mem_toDigits (by decide) le_rfl hc)⟩
  | negSucc n => exact ⟨'-', _, rfl, Or.inl rfl⟩

theorem number_decimal (n : ℤ) (hrest : NoDigit rest) : number (decimal n ++ rest) = some (n, rest) := by
  cases n with
  | ofNat n =>
    obtain ⟨c, digits, h, hc⟩ := decimal_head (.ofNat n)
    have hread := natural_toDigits n hrest
    simp only [decimal] at h ⊢
    unfold number
    split
    · next heq =>
      rw [h, List.cons_append] at heq
      cases heq
      have hall : ∀ c ∈ Nat.toDigits 10 n, c.isDigit = true :=
        fun c hc => Nat.isDigit_of_mem_toDigits (by decide) le_rfl hc
      have := hall '-' (h ▸ List.mem_cons_self)
      cases this
    · rw [hread]
      rfl
  | negSucc n =>
    simp only [decimal, List.cons_append, number]
    rw [natural_toDigits (n + 1) hrest]
    rfl

/-! ### Sequences -/

/-- What follows a value: a comma, a closing bracket or the end. -/
def Closed (rest : List Char) : Prop := ∀ c ∈ rest.head?, c = ',' ∨ c = ']' ∨ c = '\x7d'

/-- What a value starts with: no white space, and no closing bracket. -/
def Opens (text : List Char) : Prop :=
  ∃ c rest, text = c :: rest ∧ (∀ rest, skip (c :: rest) = c :: rest) ∧ c ≠ ']' ∧ c ≠ '\x7d'

theorem Closed.noDigit (h : Closed rest) : NoDigit rest := by
  intro c hc
  rcases h c hc with rfl | rfl | rfl <;> rfl

theorem skip_cons_of_ne (h : c ≠ ' ' ∧ c ≠ '\t' ∧ c ≠ '\n' ∧ c ≠ '\r') (rest : List Char) :
    skip (c :: rest) = c :: rest := by
  simp [skip, h.1, h.2.1, h.2.2.1, h.2.2.2]

theorem Opens.skip_append (h : Opens text) (rest : List Char) : skip (text ++ rest) = text ++ rest := by
  obtain ⟨c, text', rfl, hskip, -⟩ := h
  exact hskip _

theorem intercalate_cons_cons (l l' : List Char) (ls : List (List Char)) :
    [',', ' '].intercalate (l :: l' :: ls) = l ++ ',' :: ' ' :: [',', ' '].intercalate (l' :: ls) := by
  simp [List.intercalate, List.intersperse]

theorem Opens.intercalate {l : List Char} (h : Opens l) (ls : List (List Char)) :
    Opens ([',', ' '].intercalate (l :: ls)) := by
  obtain ⟨c, text, rfl, hopen⟩ := h
  cases ls with
  | nil => exact ⟨c, text, by simp [List.intercalate], hopen⟩
  | cons l' ls => exact ⟨c, _, intercalate_cons_cons _ l' ls, hopen⟩

section Sequences

variable {α : Type} {p : Reader α} {f : α → List Char} {close : Char} {xs : List α}

/-- The elements, each of which reads back, read back. -/
theorem elements_intercalate (hclose : close = ']' ∨ close = '\x7d') (rest : List Char) :
    ∀ (n : ℕ) (xs : List α), xs ≠ [] → xs.length ≤ n →
      (∀ x ∈ xs, Opens (f x) ∧ ∀ rest, Closed rest → p (f x ++ rest) = some (x, rest)) →
      elements p close n ([',', ' '].intercalate (xs.map f) ++ close :: rest) = some (xs, rest)
  | _, [], hne, _, _ => absurd rfl hne
  | n + 1, [x], _, _, h => by
    have hread : p (f x ++ close :: rest) = some (x, close :: rest) :=
      (h x List.mem_cons_self).2 _ fun c hc => by
        cases hc
        exact Or.inr hclose
    have hskip : skip (close :: rest) = close :: rest := by
      rcases hclose with rfl | rfl <;> exact skip_cons_of_ne (by decide) rest
    have hcomma : close ≠ ',' := by rcases hclose with rfl | rfl <;> decide
    simp [elements, hread, hskip, hcomma]
  | n + 1, x :: y :: xs, _, hlen, h => by
    obtain ⟨hx, hys⟩ := List.forall_mem_cons.mp h
    have hread : ∀ r, p (f x ++ ',' :: r) = some (x, ',' :: r) := fun r => hx.2 _ fun c hc => by
      cases hc
      exact Or.inl rfl
    have hnext := elements_intercalate hclose rest n (y :: xs) (by simp) (by simpa using hlen) hys
    have hopens := (hys y List.mem_cons_self).1.intercalate (xs.map f)
    have hspace : ∀ r, skip (' ' :: r) = skip r := fun r => by simp [skip]
    rw [List.map_cons, List.map_cons, intercalate_cons_cons, List.append_assoc]
    simp only [List.map_cons] at hnext
    simp only [List.cons_append, elements, hread, Option.bind_some,
      skip_cons_of_ne (c := ',') (by decide), if_true, hspace, hopens.skip_append, hnext, Option.map_some]

theorem length_le_intercalate {ls : List (List Char)} {l : List Char} (h : l ∈ ls) :
    l.length ≤ ([',', ' '].intercalate ls).length := by
  induction ls with
  | nil => cases h
  | cons l' ls ih =>
    cases ls with
    | nil =>
      rw [List.mem_singleton.mp h]
      simp [List.intercalate]
    | cons l'' ls =>
      rw [intercalate_cons_cons, List.length_append, List.length_cons, List.length_cons]
      rcases List.mem_cons.mp h with rfl | h
      · omega
      · have := ih h
        omega

theorem count_le_intercalate : ∀ {ls : List (List Char)}, (∀ l ∈ ls, l ≠ []) →
    ls.length ≤ ([',', ' '].intercalate ls).length
  | [], _ => Nat.zero_le _
  | [l], h => by
    have hpos : 0 < l.length := List.length_pos_iff.mpr (h l List.mem_cons_self)
    simpa [List.intercalate] using Nat.succ_le_of_lt hpos
  | l :: l' :: ls, h => by
    have hrest := count_le_intercalate (List.forall_mem_cons.mp h).2
    have hpos : 0 < l.length := List.length_pos_iff.mpr (h l List.mem_cons_self)
    simp only [intercalate_cons_cons, List.length_append, List.length_cons] at hrest ⊢
    omega

theorem sequence_intercalate (hclose : close = ']' ∨ close = '\x7d') (rest : List Char)
    (h : ∀ x ∈ xs, Opens (f x) ∧ ∀ rest, Closed rest → p (f x ++ rest) = some (x, rest)) :
    sequence p close ([',', ' '].intercalate (xs.map f) ++ close :: rest) = some (xs, rest) := by
  cases xs with
  | nil =>
    have hskip : skip (close :: rest) = close :: rest := by
      rcases hclose with rfl | rfl <;> exact skip_cons_of_ne (by decide) rest
    simp [sequence, List.intercalate, hskip]
  | cons x xs =>
    have hopens := (h x List.mem_cons_self).1.intercalate (xs.map f)
    have hlen : (x :: xs).length ≤ ([',', ' '].intercalate ((x :: xs).map f) ++ close :: rest).length := by
      have hne : ∀ l ∈ (x :: xs).map f, l ≠ [] := by
        intro l hl
        obtain ⟨y, hy, rfl⟩ := List.mem_map.mp hl
        obtain ⟨c, text, htext, -⟩ := (h y hy).1
        rw [htext]
        exact List.cons_ne_nil _ _
      have := count_le_intercalate hne
      rw [List.length_map] at this
      rw [List.length_append]
      omega
    have hread := elements_intercalate hclose rest _ (x :: xs) (List.cons_ne_nil _ _) hlen h
    unfold sequence
    rw [List.map_cons] at hread ⊢
    rw [hopens.skip_append]
    obtain ⟨c, text, htext, -, hbracket, hbrace⟩ := hopens
    rw [htext, List.cons_append] at hread ⊢
    have hne : c ≠ close := by rcases hclose with rfl | rfl <;> assumption
    simp only [if_neg hne]
    exact hread

end Sequences

/-! ### Values -/

mutual

/-- The names of each dict differ. -/
def Data.Distinct : Data → Prop
  | .list xs => DistinctItems xs
  | .dict items => (items.map (·.1)).Nodup ∧ DistinctMembers items
  | _ => True

def DistinctItems : List Data → Prop
  | [] => True
  | x :: xs => x.Distinct ∧ DistinctItems xs

def DistinctMembers : List (List Char × Data) → Prop
  | [] => True
  | (_, x) :: items => x.Distinct ∧ DistinctMembers items

end

theorem distinctItems_iff {xs : List Data} : DistinctItems xs ↔ ∀ x ∈ xs, x.Distinct := by
  induction xs with
  | nil => simp [DistinctItems]
  | cons x xs ih => rw [DistinctItems, ih, List.forall_mem_cons]

theorem distinctMembers_iff {items : List (List Char × Data)} :
    DistinctMembers items ↔ ∀ item ∈ items, item.2.Distinct := by
  induction items with
  | nil => simp [DistinctMembers]
  | cons item items ih => rw [DistinctMembers, ih, List.forall_mem_cons]

theorem renderItems_eq (ascii : Bool) (xs : List Data) : renderItems ascii xs = xs.map (render ascii) := by
  induction xs with
  | nil => rfl
  | cons x xs ih => rw [renderItems, ih, List.map_cons]

/-- A member of a dict, as it is written. -/
def renderMember (ascii : Bool) (item : List Char × Data) : List Char :=
  quote ascii item.1 ++ ':' :: ' ' :: render ascii item.2

theorem renderMembers_eq (ascii : Bool) (items : List (List Char × Data)) :
    renderMembers ascii items = items.map (renderMember ascii) := by
  induction items with
  | nil => rfl
  | cons item items ih =>
    rw [renderMembers, ih, List.map_cons]
    rfl

theorem opens_of_ne (h : c ≠ ' ' ∧ c ≠ '\t' ∧ c ≠ '\n' ∧ c ≠ '\r') (hclose : c ≠ ']' ∧ c ≠ '\x7d')
    (rest : List Char) : Opens (c :: rest) :=
  ⟨c, rest, rfl, skip_cons_of_ne h, hclose.1, hclose.2⟩

theorem opens_quote (ascii : Bool) (s rest : List Char) : Opens (quote ascii s ++ rest) :=
  opens_of_ne (by decide) (by decide) _

theorem opens_render (ascii : Bool) (v : Data) : Opens (render ascii v) := by
  cases v with
  | null => exact opens_of_ne (by decide) (by decide) _
  | bool b => cases b <;> exact opens_of_ne (by decide) (by decide) _
  | int n =>
    obtain ⟨c, digits, h, hc⟩ := decimal_head n
    rw [render, h]
    refine opens_of_ne ?_ ?_ digits
    · refine ⟨?_, ?_, ?_, ?_⟩ <;> rintro rfl <;> revert hc <;> decide
    · refine ⟨?_, ?_⟩ <;> rintro rfl <;> revert hc <;> decide
  | str s =>
    have h := opens_quote ascii s []
    rwa [List.append_nil] at h
  | list xs => exact opens_of_ne (by decide) (by decide) _
  | dict items => exact opens_of_ne (by decide) (by decide) _

theorem setItem_of_not_mem {α : Type} {items : List (List Char × α)} {item : List Char × α}
    (h : item.1 ∉ items.map (·.1)) : setItem items item = items ++ [item] := by
  rw [setItem, if_neg h]

/-- Members of different names stay as they are. -/
theorem foldl_setItem {α : Type} : ∀ (items done : List (List Char × α)), ((done ++ items).map (·.1)).Nodup →
    items.foldl setItem done = done ++ items
  | [], done, _ => by simp
  | item :: items, done, h => by
    have hnot : item.1 ∉ done.map (·.1) := by
      rw [List.map_append, List.nodup_append] at h
      intro hmem
      exact h.2.2 item.1 hmem item.1 (by simp) rfl
    have happend : done ++ item :: items = (done ++ [item]) ++ items := by simp
    rw [happend] at h
    rw [List.foldl_cons, setItem_of_not_mem hnot, foldl_setItem items _ h, happend]

/-- Where the value of a member reads back, so does the member. -/
theorem member_render {n : ℕ} {item : List Char × Data}
    (h : ∀ rest, Closed rest → value n (render ascii item.2 ++ rest) = some (item.2, rest)) (hrest : Closed rest) :
    member (value n) (renderMember ascii item ++ rest) = some (item, rest) := by
  have hspace : ∀ r, skip (' ' :: r) = skip r := fun r => by simp [skip]
  have hvalue := h rest hrest
  simp only [renderMember, quote, List.cons_append, List.append_assoc, List.nil_append, member, if_true,
    string_quote, Option.bind_some, skip_cons_of_ne (c := ':') (by decide), hspace,
    (opens_render ascii item.2).skip_append, hvalue, Option.map_some]

theorem number_value {n : ℕ} (i : ℤ) (hrest : NoDigit rest) :
    value (n + 1) (decimal i ++ rest) = some (.int i, rest) := by
  have hread := number_decimal i hrest
  obtain ⟨c, digits, h, hc⟩ := decimal_head i
  have hne : c ≠ '"' ∧ c ≠ '[' ∧ c ≠ '\x7b' ∧ c ≠ 'n' ∧ c ≠ 't' ∧ c ≠ 'f' := by
    refine ⟨?_, ?_, ?_, ?_, ?_, ?_⟩ <;> rintro rfl <;> revert hc <;> decide
  rw [h, List.cons_append] at hread ⊢
  simp [value, List.isPrefixOf, hne, hread, eq_comm (b := c)]

mutual

/-- The text of a value reads back. -/
theorem value_render (ascii : Bool) : ∀ (v : Data), v.Distinct → ∀ (n : ℕ) (rest : List Char),
    (render ascii v).length ≤ n → Closed rest → value (n + 1) (render ascii v ++ rest) = some (v, rest)
  | .null, _, _, _, _, _ => rfl
  | .bool true, _, _, _, _, _ => rfl
  | .bool false, _, _, _, _, _ => rfl
  | .int i, _, _, _, _, hrest => number_value i hrest.noDigit
  | .str s, _, n, rest, _, _ => by
    simp only [render, quote, List.cons_append, List.append_assoc, List.nil_append, value, if_true,
      string_quote, Option.map_some]
  | .list xs, hd, n, rest, hn, _ => by
    have hitems : ∀ x ∈ xs, Opens (render ascii x) ∧
        ∀ rest, Closed rest → value n (render ascii x ++ rest) = some (x, rest) := by
      intro x hx
      refine ⟨opens_render ascii x, fun rest hrest => ?_⟩
      have hlen := length_le_intercalate (List.mem_map_of_mem (f := render ascii) hx)
      simp only [render, renderItems_eq, List.length_append, List.length_cons, List.length_nil] at hn
      obtain ⟨m, rfl⟩ := Nat.exists_eq_succ_of_ne_zero (by omega : n ≠ 0)
      exact items_render ascii xs hd x hx m rest (by omega) hrest
    have hseq := sequence_intercalate (Or.inl rfl) rest hitems
    simp only [render, renderItems_eq, List.cons_append, List.append_assoc, List.nil_append, value,
      Char.reduceEq, if_false, if_true, hseq, Option.map_some]
  | .dict items, hd, n, rest, hn, _ => by
    have hitems : ∀ item ∈ items, Opens (renderMember ascii item) ∧
        ∀ rest, Closed rest → member (value n) (renderMember ascii item ++ rest) = some (item, rest) := by
      intro item hitem
      refine ⟨opens_quote ascii item.1 _, fun rest hrest => member_render (fun rest hrest => ?_) hrest⟩
      have hlen := length_le_intercalate (List.mem_map_of_mem (f := renderMember ascii) hitem)
      simp only [renderMember, quote, List.length_append, List.length_cons] at hlen
      simp only [render, renderMembers_eq, List.length_append, List.length_cons, List.length_nil] at hn
      obtain ⟨m, rfl⟩ := Nat.exists_eq_succ_of_ne_zero (by omega : n ≠ 0)
      exact members_render ascii items hd.2 item hitem m rest (by omega) hrest
    have hseq := sequence_intercalate (Or.inr rfl) rest hitems
    have hfold := foldl_setItem items [] hd.1
    simp only [render, renderMembers_eq, List.cons_append, List.append_assoc, List.nil_append, value,
      Char.reduceEq, if_false, if_true, hseq, Option.map_some, hfold]

theorem items_render (ascii : Bool) : ∀ (xs : List Data), DistinctItems xs → ∀ x ∈ xs, ∀ (n : ℕ) (rest : List Char),
    (render ascii x).length ≤ n → Closed rest → value (n + 1) (render ascii x ++ rest) = some (x, rest)
  | x :: xs, hd, y, hy, n, rest, hn, hrest => by
    rcases List.mem_cons.mp hy with h | hy
    · rw [h] at hn ⊢
      exact value_render ascii x hd.1 n rest hn hrest
    · exact items_render ascii xs hd.2 y hy n rest hn hrest

theorem members_render (ascii : Bool) : ∀ (items : List (List Char × Data)), DistinctMembers items →
    ∀ item ∈ items, ∀ (n : ℕ) (rest : List Char), (render ascii item.2).length ≤ n → Closed rest →
      value (n + 1) (render ascii item.2 ++ rest) = some (item.2, rest)
  | (name, x) :: items, hd, item, hitem, n, rest, hn, hrest => by
    rcases List.mem_cons.mp hitem with h | hitem
    · rw [h] at hn ⊢
      exact value_render ascii x hd.1 n rest hn hrest
    · exact members_render ascii items hd.2 item hitem n rest hn hrest

end

/-! ### What is read -/

theorem keys_setItem {α : Type} (items : List (List Char × α)) (item : List Char × α) :
    (setItem items item).map (·.1) =
      if item.1 ∈ items.map (·.1) then items.map (·.1) else items.map (·.1) ++ [item.1] := by
  unfold setItem
  split_ifs
  · rw [List.map_map]
    refine List.map_congr_left fun other _ => ?_
    simp only [Function.comp_apply]
    split_ifs with h
    · exact h.symm
    · rfl
  · simp

theorem mem_setItem {α : Type} {items : List (List Char × α)} {item other : List Char × α}
    (h : other ∈ setItem items item) : other = item ∨ other ∈ items := by
  unfold setItem at h
  split_ifs at h
  · obtain ⟨x, hx, rfl⟩ := List.mem_map.mp h
    split_ifs
    · exact Or.inl rfl
    · exact Or.inr hx
  · simpa [or_comm] using h

/-- Setting items one after the other leaves one of each name. -/
theorem foldl_setItem_inv {α : Type} {P : α → Prop} : ∀ (items done : List (List Char × α)),
    (done.map (·.1)).Nodup → (∀ item ∈ done, P item.2) → (∀ item ∈ items, P item.2) →
      ((items.foldl setItem done).map (·.1)).Nodup ∧ ∀ item ∈ items.foldl setItem done, P item.2
  | [], _, hnodup, hdone, _ => ⟨hnodup, hdone⟩
  | item :: items, done, hnodup, hdone, hitems => by
    obtain ⟨hitem, hrest⟩ := List.forall_mem_cons.mp hitems
    refine foldl_setItem_inv items (setItem done item) ?_ (fun other hother => ?_) hrest
    · rw [keys_setItem]
      split_ifs with h
      · exact hnodup
      · exact List.nodup_append.mpr
          ⟨hnodup, by simp, fun a ha b hb => by
            rw [List.mem_singleton.mp hb]
            exact fun he => h (he ▸ ha)⟩
    · rcases mem_setItem hother with rfl | hother
      · exact hitem
      · exact hdone other hother

section Sequences

variable {α : Type} {p : Reader α} {close : Char} {P : α → Prop}

theorem elements_inv (hp : ∀ text x rest, p text = some (x, rest) → P x) :
    ∀ (n : ℕ) {text : List Char} {xs : List α} {rest : List Char},
      elements p close n text = some (xs, rest) → ∀ x ∈ xs, P x
  | n + 1, text, xs, rest, h => by
    unfold elements at h
    obtain ⟨⟨x, after⟩, hx, h⟩ := Option.bind_eq_some_iff.mp h
    split at h
    · cases h
    · split_ifs at h
      · obtain ⟨⟨ys, rest'⟩, hys, h⟩ := Option.map_eq_some_iff.mp h
        cases h
        exact List.forall_mem_cons.mpr ⟨hp _ _ _ hx, elements_inv hp n hys⟩
      · cases h
        exact List.forall_mem_singleton.mpr (hp _ _ _ hx)

theorem sequence_inv (hp : ∀ text x rest, p text = some (x, rest) → P x) {text : List Char} {xs : List α}
    {rest : List Char} (h : sequence p close text = some (xs, rest)) : ∀ x ∈ xs, P x := by
  unfold sequence at h
  split at h
  · cases h
  · split_ifs at h
    · cases h
      exact fun x hx => by cases hx
    · exact elements_inv hp _ h

theorem member_inv (hp : ∀ text x rest, p text = some (x, rest) → P x) {text : List Char} {item : List Char × α}
    {rest : List Char} (h : member p text = some (item, rest)) : P item.2 := by
  unfold member at h
  split at h
  · cases h
  · split_ifs at h
    obtain ⟨r, -, h⟩ := Option.bind_eq_some_iff.mp h
    split at h
    · obtain ⟨⟨x, rest'⟩, hx, h⟩ := Option.map_eq_some_iff.mp h
      cases h
      exact hp _ _ _ hx
    · cases h

end Sequences

/-- In what is read, the names of each dict differ. -/
theorem value_distinct : ∀ (n : ℕ) (text : List Char) (v : Data) (rest : List Char),
    value n text = some (v, rest) → v.Distinct
  | n + 1, c :: text, v, rest, h => by
    unfold value at h
    split_ifs at h
    · obtain ⟨r, -, h⟩ := Option.map_eq_some_iff.mp h
      cases h
      trivial
    · obtain ⟨⟨xs, rest'⟩, hxs, h⟩ := Option.map_eq_some_iff.mp h
      cases h
      exact distinctItems_iff.mpr (sequence_inv (value_distinct n) hxs)
    · obtain ⟨⟨items, rest'⟩, hitems, h⟩ := Option.map_eq_some_iff.mp h
      cases h
      have hvalues : ∀ item ∈ items, item.2.Distinct :=
        sequence_inv (fun _ _ _ hm => member_inv (value_distinct n) hm) hitems
      have hfold := foldl_setItem_inv items [] List.nodup_nil (fun item hitem => (by cases hitem)) hvalues
      exact ⟨hfold.1, distinctMembers_iff.mpr hfold.2⟩
    · cases h
      trivial
    · cases h
      trivial
    · cases h
      trivial
    · obtain ⟨r, -, h⟩ := Option.map_eq_some_iff.mp h
      cases h
      trivial

theorem loads_distinct {text : String} {v : Data} (h : loads text = some v) : v.Distinct := by
  obtain ⟨⟨v', rest⟩, hv, h⟩ := Option.bind_eq_some_iff.mp h
  split_ifs at h
  cases h
  exact value_distinct _ _ _ _ hv

/-- **The text of a value reads back as the value exactly if the names of each
of its dicts differ**, whether characters outside ASCII are escaped or not. -/
theorem loads_dumps_iff (ascii : Bool) (v : Data) : loads (dumps ascii v) = some v ↔ v.Distinct := by
  refine ⟨loads_distinct, fun hd => ?_⟩
  have hopens := (opens_render ascii v).skip_append []
  have hread := value_render ascii v hd _ [] le_rfl fun c hc => (by cases hc)
  rw [List.append_nil] at hopens hread
  simp only [loads, dumps, String.toList_ofList, hopens, hread, Option.bind_some]
  rfl

/-- A name twice in one dict: both are written, and the second is read. -/
example : dumps true (.dict [(['é'], .bool true), (['é'], .null)]) = "\x7b\"\\u00e9\": true, \"\\u00e9\": null\x7d" ∧
    ¬ (Data.dict [(['é'], .bool true), (['é'], .null)]).Distinct :=
  ⟨by decide +kernel, by simp [Data.Distinct]⟩

end Kit.JsonText
