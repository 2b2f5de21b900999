/-
# Python values the proxy computes with

Floats, JSON values and datetimes, as far as the proxy reads them. Where all
datetimes are in UTC, a datetime is the instant it denotes, in microseconds
since 1970-01-01 UTC. Where offsets differ or are missing it is a `DateTime`.
One that leaves the years 1 to 9999 raises `OverflowError`.
-/
import Mathlib

namespace OllamaProxy

/-- The exceptions of the standard library that the proxy's handlers tell
apart. -/
inductive PyError
  | valueError
  | typeError
  | overflowError
  | recursionError
  | attributeError
deriving DecidableEq, Repr

theorem ok_ne_error {ε α : Type} {v : α} : ¬ ∃ e : ε, (.ok v : Except ε α) = .error e := by
  rintro ⟨e, he⟩
  cases he

theorem bind_eq_ok {ε α β : Type} {x : Except ε α} {f : α → Except ε β} {b : β} :
    x >>= f = .ok b ↔ ∃ a, x = .ok a ∧ f a = .ok b := by
  cases x with
  | error e => exact ⟨fun h => (by cases h), fun ⟨a, h, _⟩ => (by cases h)⟩
  | ok a => exact ⟨fun h => ⟨a, rfl, h⟩, fun ⟨a', h, hf⟩ => (by cases h; exact hf)⟩

theorem ok_bind {ε α β : Type} (a : α) (f : α → Except ε β) : (.ok a : Except ε α) >>= f = f a := rfl

theorem error_bind {ε α β : Type} (e : ε) (f : α → Except ε β) : (.error e : Except ε α) >>= f = .error e := rfl

theorem toOption_eq_some_iff {ε α : Type} {x : Except ε α} {a : α} : x.toOption = some a ↔ x = .ok a := by
  cases x <;> simp [Except.toOption]

theorem mem_of_lookup {α : Type} {name : String} {value : α} {items : List (String × α)}
    (h : items.lookup name = some value) : (name, value) ∈ items := by
  obtain ⟨before, behind, hitems, -⟩ := List.lookup_eq_some_iff.mp h
  rw [hitems]
  exact List.mem_append_right _ List.mem_cons_self

/-- A float; a finite one is the rational it denotes. -/
inductive PyFloat
  | finite (q : ℚ)
  | inf
  | negInf
  | nan
deriving DecidableEq, Repr

/-- `int(x)`: truncation toward zero. -/
def PyFloat.toInt : PyFloat → Except PyError ℤ
  | .finite q => .ok (q.num.tdiv q.den)
  | .inf | .negInf => .error .overflowError
  | .nan => .error .valueError

/-- `float(n)`: the nearest float, of two equally near ones the even one. -/
def floatOfInt (n : ℤ) : Except PyError PyFloat :=
  let k := n.natAbs.size - 53
  let q := n.natAbs / 2 ^ k
  let r := n.natAbs % 2 ^ k
  let m := if 2 ^ k < 2 * r ∨ 2 * r = 2 ^ k ∧ q % 2 = 1 then q + 1 else q
  if 2 ^ 1024 ≤ m * 2 ^ k then .error .overflowError else .ok (.finite (n.sign * (m * 2 ^ k : ℕ)))

/-- A value `json.loads` returns; a dict in insertion order, each key once. -/
inductive Json
  | null
  | bool (b : Bool)
  | int (n : ℤ)
  | float (x : PyFloat)
  | str (s : String)
  | list (xs : List Json)
  | dict (items : List (String × Json))
deriving Repr

/-- `bool(x)`. -/
def Json.truthy : Json → Bool
  | .null => false
  | .bool b => b
  | .int n => n ≠ 0
  | .float x => x ≠ .finite 0
  | .str s => s ≠ ""
  | .list xs => !xs.isEmpty
  | .dict items => !items.isEmpty

/-- `int(x) if isinstance(x, int) else None`, for `x` from `dict.get`. A bool
is an int. -/
def Json.asInt : Option Json → Option ℤ
  | some (.int n) => some n
  | some (.bool b) => some (if b then 1 else 0)
  | _ => none

/-! ### Strings -/

/-- `str.isspace`, and `\s`. -/
def isSpace (c : Char) : Bool :=
  let n := c.toNat
  (9 ≤ n && n ≤ 13) || (28 ≤ n && n ≤ 32) || n = 0x85 || n = 0xa0 || n = 0x1680 || (0x2000 ≤ n && n ≤ 0x200a) ||
    n = 0x2028 || n = 0x2029 || n = 0x202f || n = 0x205f || n = 0x3000

/-- `str.strip`. -/
def strip (s : String) : String :=
  String.ofList ((s.toList.dropWhile isSpace).reverse.dropWhile isSpace).reverse

theorem strip_eq_self {s : String} (h : ∀ c ∈ s.toList, isSpace c = false) : strip s = s := by
  have hkept : ∀ l : List Char, (∀ c ∈ l, isSpace c = false) → l.dropWhile isSpace = l := by
    intro l hl
    rw [List.dropWhile_eq_self_iff]
    intro hlen
    exact Bool.eq_false_iff.mp (hl _ (List.getElem_mem hlen))
  unfold strip
  rw [hkept _ h, hkept _ fun c hc => h c (List.mem_reverse.mp hc), List.reverse_reverse, String.ofList_toList]

/-! ### Integers in SQLite -/

/-- An INTEGER column takes 64 bits; to bind another integer raises
`OverflowError`. -/
def fitsInteger (n : ℤ) : Bool := -2 ^ 63 ≤ n && n < 2 ^ 63

/-! ### Datetimes -/

/-- The last microsecond of the year 9999. -/
def maxInstant : ℤ := 253402300799999999

/-- Seconds as a time difference. -/
def seconds (s : ℤ) : ℤ := s * 1000000

/-- `t + timedelta(seconds=s)` for `s` not negative. -/
def addSeconds (t s : ℤ) : Except PyError ℤ :=
  if t + seconds s ≤ maxInstant then .ok (t + seconds s) else .error .overflowError

theorem addSeconds_ok {t s c : ℤ} (h : addSeconds t s = .ok c) : c = t + seconds s := by
  unfold addSeconds at h
  split_ifs at h
  cases h
  rfl

/-- The first microsecond of the year 1. -/
def minInstant : ℤ := -62135596800000000

/-- What the datetime's clock shows, in microseconds since 1970-01-01 00:00,
and the offset of that clock from UTC; a naive datetime has none. -/
structure DateTime where
  wall : ℤ
  offset : Option ℤ
  inYears : minInstant ≤ wall ∧ wall ≤ maxInstant
deriving DecidableEq

namespace DateTime

/-- The instant it denotes, if a naive datetime means UTC. -/
def instant (d : DateTime) : ℤ := d.wall - d.offset.getD 0

/-- `d.replace(tzinfo=UTC)`. -/
def replaceUtc (d : DateTime) : DateTime := { d with offset := some 0 }

/-- `d.astimezone(UTC)`, of a datetime with this offset. -/
def astimezoneUtc (d : DateTime) (offset : ℤ) : Except PyError DateTime :=
  if h : minInstant ≤ d.wall - offset ∧ d.wall - offset ≤ maxInstant then
    .ok ⟨d.wall - offset, some 0, h⟩
  else .error .overflowError

/-- `d.replace(tzinfo=UTC) if d.tzinfo is None else d.astimezone(UTC)`. -/
def toUtc (d : DateTime) : Except PyError DateTime :=
  match d.offset with
  | none => .ok d.replaceUtc
  | some offset => d.astimezoneUtc offset

/-- `d <= datetime.now(UTC)`; a naive datetime does not compare with it. -/
def leNow (d : DateTime) (now : ℤ) : Except PyError Bool :=
  match d.offset with
  | none => .error .typeError
  | some offset => .ok (d.wall - offset ≤ now)

/-- What SQLite gives back for it: the fields of the clock. -/
def stored (d : DateTime) : DateTime := { d with offset := none }

theorem toUtc_eq_ok {d d' : DateTime} (h : d.toUtc = .ok d') :
    d'.offset = some 0 ∧ d'.instant = d.instant := by
  unfold toUtc at h
  split at h
  · rename_i hoff
    cases h
    exact ⟨rfl, by simp [instant, replaceUtc, hoff]⟩
  · rename_i offset hoff
    unfold astimezoneUtc at h
    split_ifs at h
    cases h
    exact ⟨rfl, by simp [instant, hoff]⟩

theorem instant_stored {d : DateTime} (h : d.offset = some 0) : d.stored.instant = d.instant := by
  simp [instant, stored, h]

end DateTime

end OllamaProxy
