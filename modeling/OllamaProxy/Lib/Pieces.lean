/-
# Replacing matches from left to right

A `Matcher` finds, at a position of a list, a text to keep and a value after it.
`scan` cuts a list at its matches, each of which starts where the one before it
ends, or later. `image` replaces the values and keeps the texts.

The values are the longest runs of a kind of elements from where they start. So
a list of such elements occurs in an image only within one text with the
replaced value after it (`infix_image_iff`). Where a match takes no account of
its value, a scan of the image finds the same texts again (`scan_image`).

Key definitions: `Pieces`, `Matcher`, `scan`, `Once`.
Key theorems: `scan_source`, `scan_each`, `infix_image_iff`, `Once.piece_unique`,
`Matcher.Stable.scan_image`.
-/
import Mathlib

namespace Kit

variable {α : Type*}

/-- Texts and values in turn. -/
inductive Pieces (α : Type*)
  | last (text : List α)
  | piece (text value : List α) (rest : Pieces α)

namespace Pieces

/-- With the values replaced. -/
def image (f : List α → List α) : Pieces α → List α
  | .last text => text
  | .piece text value rest => text ++ f value ++ rest.image f

def source (p : Pieces α) : List α := p.image id

/-- The pieces with the values replaced. -/
def map (f : List α → List α) : Pieces α → Pieces α
  | .last text => .last text
  | .piece text value rest => .piece text (f value) (rest.map f)

def pairs : Pieces α → List (List α × List α)
  | .last _ => []
  | .piece text value rest => (text, value) :: rest.pairs

def tail : Pieces α → List α
  | .last text => text
  | .piece _ _ rest => rest.tail

def cons (c : α) : Pieces α → Pieces α
  | .last text => .last (c :: text)
  | .piece text value rest => .piece (c :: text) value rest

/-- `Q` holds of all that is before a value, and of the value. -/
def Each (Q : List α → List α → Prop) : List α → Pieces α → Prop
  | _, .last _ => True
  | before, .piece text value rest => Q (before ++ text) value ∧ Each Q (before ++ text ++ value) rest

/-- The values are the longest runs of `p`-elements from where they start. -/
def Separated (p : α → Bool) : Pieces α → Prop
  | .last _ => True
  | .piece _ value rest =>
    value ≠ [] ∧ (∀ c ∈ value, p c = true) ∧ (∀ c ∈ rest.source.head?, p c = false) ∧ rest.Separated p

end Pieces

/-- At a position, with the element before it: the text and the value that are
found there. -/
structure Matcher (p : α → Bool) where
  find : Option α → List α → Option (List α × List α)
  sound : ∀ {prev l text value}, find prev l = some (text, value) → ∃ rest, l = text ++ value ++ rest ∧
    value ≠ [] ∧ (∀ c ∈ value, p c = true) ∧ ∀ c ∈ rest.head?, p c = false

/-- What a match takes does not depend on its value: with another value after the
same text it is found as well, and no text goes on in the value of another match. -/
structure Matcher.Stable {p : α → Bool} (m : Matcher p) : Prop where
  find_stop : ∀ {prev c l}, p c = false → m.find prev (c :: l) = none
  find_value : ∀ {prev text value rest value' rest'}, m.find prev (text ++ value ++ rest) = some (text, value) →
    value' ≠ [] → (∀ c ∈ value', p c = true) → (∀ c ∈ rest'.head?, p c = false) →
      m.find prev (text ++ value' ++ rest') = some (text, value')
  not_infix : ∀ {prev l text value prev' l' text' value' c}, m.find prev l = some (text, value) →
    m.find prev' l' = some (text', value') → p c = true → ¬ text ++ [c] <:+: text'

/-- The next `n` elements are in the last match. -/
def Matcher.scan {p : α → Bool} (m : Matcher p) : ℕ → Option α → List α → Pieces α
  | _, _, [] => .last []
  | n + 1, _, c :: l => m.scan n (some c) l
  | 0, prev, c :: l =>
    match m.find prev (c :: l) with
    | none => (m.scan 0 (some c) l).cons c
    | some (text, value) => .piece text value (m.scan (text.length + value.length - 1) (some c) l)

/-- `s` does not start at two positions of the list. -/
def Once (s l : List α) : Prop :=
  ∀ i < l.length, ∀ j < l.length, s <+: l.drop i → s <+: l.drop j → i = j

instance [DecidableEq α] (s l : List α) : Decidable (Once s l) :=
  inferInstanceAs (Decidable (∀ i < l.length, ∀ j < l.length, s <+: l.drop i → s <+: l.drop j → i = j))

namespace Pieces

variable {p : Pieces α}

@[simp] theorem image_cons (f : List α → List α) (c : α) (p : Pieces α) : (p.cons c).image f = c :: p.image f := by
  cases p <;> rfl

@[simp] theorem source_cons (c : α) (p : Pieces α) : (p.cons c).source = c :: p.source := image_cons id c p

@[simp] theorem source_last (text : List α) : (last text).source = text := rfl

@[simp] theorem source_piece (text value : List α) (rest : Pieces α) :
    (piece text value rest).source = text ++ value ++ rest.source := rfl

theorem each_cons {Q : List α → List α → Prop} {before : List α} {c : α} :
    Each Q before (p.cons c) ↔ Each Q (before ++ [c]) p := by
  cases p <;> simp [cons, Each]

theorem separated_cons {q : α → Bool} {c : α} : (p.cons c).Separated q ↔ p.Separated q := by
  cases p <;> rfl

theorem image_congr {f g : List α → List α} (h : ∀ x ∈ p.pairs, f x.2 = g x.2) : p.image f = p.image g := by
  induction p with
  | last text => rfl
  | piece text value rest ih =>
    obtain ⟨hvalue, hrest⟩ := List.forall_mem_cons.mp h
    rw [image, image, hvalue, ih hrest]

theorem image_map (f g : List α → List α) (p : Pieces α) : (p.map f).image g = p.image fun value => g (f value) := by
  induction p with
  | last text => rfl
  | piece text value rest ih => rw [map, image, image, ih]

@[simp] theorem map_cons (f : List α → List α) (c : α) (p : Pieces α) : (p.cons c).map f = (p.map f).cons c := by
  cases p <;> rfl

theorem length_image_le {f g : List α → List α} (h : ∀ x ∈ p.pairs, (f x.2).length ≤ (g x.2).length) :
    (p.image f).length ≤ (p.image g).length := by
  induction p with
  | last text => exact le_rfl
  | piece text value rest ih =>
    have hvalue : (f value).length ≤ (g value).length := h (text, value) List.mem_cons_self
    have hrest := fun x hx => h x (List.mem_cons_of_mem _ hx)
    simp only [image, List.length_append]
    have := ih hrest
    omega

/-- Of two replacements of which one is never the shorter, the images are equal
only if all replaced values are. -/
theorem image_eq_iff {f g : List α → List α} (h : ∀ x ∈ p.pairs, (f x.2).length ≤ (g x.2).length) :
    p.image f = p.image g ↔ ∀ x ∈ p.pairs, f x.2 = g x.2 := by
  refine ⟨fun heq => ?_, image_congr⟩
  induction p with
  | last text => simp [pairs]
  | piece text value rest ih =>
    have hvalue : (f value).length ≤ (g value).length := h (text, value) List.mem_cons_self
    have hrest := fun x hx => h x (List.mem_cons_of_mem _ hx)
    have hlength := congrArg List.length heq
    have hle := length_image_le hrest
    simp only [image, List.length_append, List.append_assoc] at hlength heq
    obtain ⟨hf, htail⟩ := List.append_inj (List.append_cancel_left heq) (by omega)
    exact List.forall_mem_cons.mpr ⟨hf, ih hrest htail⟩

theorem Separated.value_ne_nil {q : α → Bool} (hp : p.Separated q) : ∀ x ∈ p.pairs, x.2 ≠ [] := by
  induction p with
  | last text => simp [pairs]
  | piece text value rest ih =>
    obtain ⟨hvalue, -, -, hrest⟩ := hp
    exact List.forall_mem_cons.mpr ⟨hvalue, ih hrest⟩

theorem pair_infix_source {z : List α × List α} (hz : z ∈ p.pairs) : z.1 ++ z.2 <:+: p.source := by
  induction p with
  | last text => cases hz
  | piece text value rest ih =>
    rw [source_piece]
    rcases List.mem_cons.mp hz with rfl | hrest
    · exact List.infix_append_left
    · exact List.infix_append_of_infix_right (ih hrest)

theorem tail_infix_source (p : Pieces α) : p.tail <:+: p.source := by
  induction p with
  | last text => exact List.infix_rfl
  | piece text value rest ih => exact List.infix_append_of_infix_right ih

/-- What does not start with a `q`-element does not do so with the values
replaced. -/
theorem Separated.image_head {q : α → Bool} (f : List α → List α) (hp : p.Separated q)
    (h : ∀ c ∈ p.source.head?, q c = false) : ∀ c ∈ (p.image f).head?, q c = false := by
  cases p with
  | last text => exact h
  | piece text value rest =>
    cases text with
    | cons c text => exact h
    | nil =>
      obtain ⟨hne, hvalue, -, -⟩ := hp
      obtain ⟨c, cs, rfl⟩ := List.exists_cons_of_ne_nil hne
      have htrue := hvalue c List.mem_cons_self
      rw [h c rfl] at htrue
      cases htrue

end Pieces

/-! ### Where a run occurs -/

section

variable {q : α → Bool} {s x y : List α}

/-- A run of `q`-elements does not go on into a list that starts with another. -/
theorem infix_append_of_stops (hs : ∀ c ∈ s, q c = true) (hy : ∀ c ∈ y.head?, q c = false) :
    s <:+: x ++ y ↔ s <:+: x ∨ s <:+: y := by
  rw [List.infix_append_iff_ne_nil]
  refine ⟨?_, fun h => h.elim Or.inl fun hy => Or.inr (Or.inl hy)⟩
  rintro (hx | hy' | ⟨l₁, l₂, -, hne, rfl, -, hpre⟩)
  · exact Or.inl hx
  · exact Or.inr hy'
  · obtain ⟨c, cs, rfl⟩ := List.exists_cons_of_ne_nil hne
    obtain ⟨rest, rfl⟩ := hpre
    have htrue := hs c (List.mem_append_right _ List.mem_cons_self)
    rw [hy c rfl] at htrue
    cases htrue

theorem takeWhile_append_of_stops (hx : ∀ c ∈ x, q c = true) (hy : ∀ c ∈ y.head?, q c = false) :
    (x ++ y).takeWhile q = x := by
  rw [List.takeWhile_append_of_pos hx]
  cases y with
  | nil => simp
  | cons c y => simp [hy c rfl]

theorem dropWhile_append_of_stops (hx : ∀ c ∈ x, q c = true) (hy : ∀ c ∈ y.head?, q c = false) :
    (x ++ y).dropWhile q = y := by
  rw [List.dropWhile_append_of_pos hx]
  cases y with
  | nil => rfl
  | cons c y => simp [hy c rfl]

theorem Pieces.infix_image_iff {p : Pieces α} (f : List α → List α) (hp : p.Separated q)
    (hs : ∀ c ∈ s, q c = true) :
    s <:+: p.image f ↔ (∃ z ∈ p.pairs, s <:+: z.1 ++ f z.2) ∨ s <:+: p.tail := by
  induction p with
  | last text => simp [pairs, image, tail]
  | piece text value rest ih =>
    obtain ⟨-, -, hstops, hrest⟩ := hp
    rw [image, infix_append_of_stops hs (hrest.image_head f hstops), ih hrest, pairs, List.exists_mem_cons_iff, tail,
      or_assoc]

theorem Once.append_right (h : Once s (x ++ y)) : Once s y := by
  intro i hi j hj hsi hsj
  have heq := h (x.length + i) (by simp [hi]) (x.length + j) (by simp [hj])
    (by rwa [List.drop_length_add_append]) (by rwa [List.drop_length_add_append])
  omega

theorem Once.not_both (h : Once s (x ++ y)) (hs : s ≠ []) (hx : s <:+: x) : ¬ s <:+: y := by
  rintro ⟨b, b', rfl⟩
  obtain ⟨a, a', rfl⟩ := hx
  have hpos := List.length_pos_iff.mpr hs
  have hi : s <+: (a ++ s ++ a' ++ (b ++ s ++ b')).drop a.length := ⟨a' ++ (b ++ s ++ b'), by simp⟩
  have hj : s <+: (a ++ s ++ a' ++ (b ++ s ++ b')).drop ((a ++ s ++ a').length + b.length) := by
    rw [List.drop_length_add_append]
    exact ⟨b', by simp⟩
  have heq := h _ (by simp; omega) _ (by simp; omega) hi hj
  simp only [List.length_append] at heq
  omega

/-- It occurs in one text and value only. -/
theorem Once.piece_unique {p : Pieces α} (h : Once s p.source) (hs : s ≠ []) {z : List α × List α}
    (hz : z ∈ p.pairs) (hin : s <:+: z.1 ++ z.2) :
    ¬ s <:+: p.tail ∧ ∀ z' ∈ p.pairs, s <:+: z'.1 ++ z'.2 → z' = z := by
  induction p with
  | last text => cases hz
  | piece text value rest ih =>
    rw [Pieces.source_piece] at h
    rw [Pieces.tail, Pieces.pairs, List.forall_mem_cons]
    rcases List.mem_cons.mp hz with rfl | hrest
    · have hnot : ¬ s <:+: rest.source := h.not_both hs hin
      refine ⟨fun htail => hnot (htail.trans rest.tail_infix_source), fun _ => rfl, fun z' hz' hin' => ?_⟩
      exact absurd (hin'.trans (Pieces.pair_infix_source hz')) hnot
    · obtain ⟨htail, hpairs⟩ := ih h.append_right hrest
      refine ⟨htail, fun hin' => ?_, hpairs⟩
      exact absurd (hin.trans (Pieces.pair_infix_source hrest)) (h.not_both hs hin')

end

/-! ### A scan -/

namespace Matcher

variable {p : α → Bool} (m : Matcher p)

variable {m} {prev : Option α} {c : α} {l text value : List α}

/-- The elements of the match, and those after it. -/
theorem find_split (h : m.find prev (c :: l) = some (text, value)) :
    c :: l.take (text.length + value.length - 1) = text ++ value ∧ value ≠ [] ∧ (∀ c ∈ value, p c = true) ∧
      ∀ c ∈ (l.drop (text.length + value.length - 1)).head?, p c = false := by
  obtain ⟨rest, hl, hne, hvalue, hrest⟩ := m.sound h
  have hlen : text.length + value.length = (text.length + value.length - 1) + 1 := by
    have := List.length_pos_iff.mpr hne
    omega
  have htake : (c :: l).take (text.length + value.length) = text ++ value := by
    rw [hl, ← List.length_append, List.take_left]
  have hdrop : (c :: l).drop (text.length + value.length) = rest := by
    rw [hl, ← List.length_append, List.drop_left]
  rw [hlen, List.take_succ_cons] at htake
  rw [hlen, List.drop_succ_cons] at hdrop
  rw [hdrop]
  exact ⟨htake, hne, hvalue, hrest⟩

variable (m)

theorem scan_source (n : ℕ) (prev : Option α) (l : List α) : (m.scan n prev l).source = l.drop n := by
  fun_induction m.scan n prev l with
  | case1 n prev => simp
  | case2 n prev c l ih => exact ih
  | case3 prev c l hfind ih => simp [ih]
  | case4 prev c l text value hfind ih =>
    obtain ⟨htake, -, -, -⟩ := find_split hfind
    rw [Pieces.source_piece, ih, ← htake, List.cons_append, List.take_append_drop, List.drop_zero]

theorem scan_separated (n : ℕ) (prev : Option α) (l : List α) : (m.scan n prev l).Separated p := by
  fun_induction m.scan n prev l with
  | case1 n prev => trivial
  | case2 n prev c l ih => exact ih
  | case3 prev c l hfind ih => exact Pieces.separated_cons.mpr ih
  | case4 prev c l text value hfind ih =>
    obtain ⟨-, hne, hvalue, hstops⟩ := find_split hfind
    exact ⟨hne, hvalue, by rwa [scan_source], ih⟩

/-- Where `find` says something of the text up to the value, the scan does, of
all that is before the value. -/
theorem scan_each {Q : List α → List α → Prop}
    (hfind : ∀ before l text value, m.find before.getLast? l = some (text, value) → Q (before ++ text) value)
    (n : ℕ) (before l : List α) : (m.scan n before.getLast? l).Each Q (before ++ l.take n) := by
  induction l generalizing n before with
  | nil => cases n <;> trivial
  | cons c l ih =>
    have hlast : some c = (before ++ [c]).getLast? := by simp
    cases n with
    | succ n =>
      have hrest := ih n (before ++ [c])
      rw [← hlast, List.append_assoc, List.singleton_append] at hrest
      exact hrest
    | zero =>
      rw [List.take_zero, List.append_nil, scan]
      cases hf : m.find before.getLast? (c :: l) with
      | none =>
        have hrest := ih 0 (before ++ [c])
        rw [← hlast, List.take_zero, List.append_nil] at hrest
        exact Pieces.each_cons.mpr hrest
      | some z =>
        obtain ⟨text, value⟩ := z
        have hrest := ih (text.length + value.length - 1) (before ++ [c])
        rw [← hlast, List.append_assoc, List.singleton_append, (find_split hf).1, ← List.append_assoc] at hrest
        exact ⟨hfind before (c :: l) text value hf, hrest⟩

/-! ### A scan of an image -/

/-- After the match the scan starts anew. -/
theorem scan_eq_drop (n : ℕ) (prev : Option α) (l : List α) : ∃ prev', m.scan n prev l = m.scan 0 prev' (l.drop n) := by
  fun_induction m.scan n prev l with
  | case1 n prev => exact ⟨prev, by simp [scan]⟩
  | case2 n prev c l ih => exact ih
  | case3 prev c l hfind ih => exact ⟨prev, by rw [List.drop_zero, scan, hfind]⟩
  | case4 prev c l text value hfind ih => exact ⟨prev, by rw [List.drop_zero, scan, hfind]⟩

variable {m} {rest : Pieces α} {f : List α → List α}

theorem scan_of_find {x : List α} (h : m.find prev (text ++ value ++ x) = some (text, value)) :
    ∃ prev', m.scan 0 prev (text ++ value ++ x) = .piece text value (m.scan 0 prev' x) := by
  obtain ⟨-, -, hne, -, -⟩ := m.sound h
  have hpos := List.length_pos_iff.mpr hne
  cases hl : text ++ value ++ x with
  | nil => simp_all
  | cons c l =>
    have hdrop : l.drop (text.length + value.length - 1) = x := by
      have hx : (c :: l).drop (text.length + value.length) = x := by
        rw [← hl, ← List.length_append, List.drop_left]
      rwa [show text.length + value.length = (text.length + value.length - 1) + 1 by omega, List.drop_succ_cons] at hx
    obtain ⟨prev', hscan⟩ := m.scan_eq_drop (text.length + value.length - 1) (some c) l
    rw [hdrop] at hscan
    refine ⟨prev', ?_⟩
    rw [scan, ← hl, h]
    exact congrArg (Pieces.piece text value) hscan

/-- The first text of a scan ends with that of a match. -/
theorem exists_find_of_scan (h : m.scan 0 prev l = .piece text value rest) :
    ∃ before prev' found l', text = before ++ found ∧ m.find prev' l' = some (found, value) := by
  induction l generalizing prev text with
  | nil => cases h
  | cons c l ih =>
    rw [scan] at h
    split at h
    · cases hscan : m.scan 0 (some c) l with
      | last text => rw [hscan] at h; cases h
      | piece text' value' rest' =>
        rw [hscan] at h
        cases h
        obtain ⟨before, prev', found, l', rfl, hfind⟩ := ih hscan
        exact ⟨c :: before, prev', found, l', rfl, hfind⟩
    · rename_i found value' hfind
      cases h
      exact ⟨[], prev, text, c :: l, rfl, hfind⟩

namespace Stable

variable (hm : m.Stable)

include hm

/-- After the text of a match there is a match, whatever value starts there. -/
theorem find_ne_none {y y' : List α} (h : m.find prev (text ++ y) = some (text, value))
    (hy' : ∃ d ∈ y'.head?, p d = true) : m.find prev (text ++ y') ≠ none := by
  obtain ⟨rest, hl, -, -, -⟩ := m.sound h
  obtain ⟨d, hd, hp⟩ := hy'
  cases y' with
  | nil => cases hd
  | cons d' y' =>
    cases hd
    have hne : (d :: y').takeWhile p ≠ [] := by simp [hp]
    have hstops : ∀ c ∈ ((d :: y').dropWhile p).head?, p c = false := by
      intro c hc
      have hhead := List.head?_dropWhile_not p (d :: y')
      rw [Option.mem_def.mp hc] at hhead
      simpa using hhead
    have hfound := hm.find_value (hl ▸ h) hne (fun c hc => List.mem_takeWhile_imp hc) hstops
    rw [List.append_assoc, List.takeWhile_append_dropWhile] at hfound
    rw [hfound]
    exact Option.some_ne_none _

/-- Where there is no match before a match, there is none with another value of
this. -/
theorem find_eq_none {x y value' : List α} (hfind : m.find prev (text ++ value ++ x) = none)
    (hvalue : ∃ d ∈ value.head?, p d = true) (hvalue' : ∃ d ∈ value'.head?, p d = true)
    (hends : ∃ before prev' found l', text = before ++ found ∧ m.find prev' l' = some (found, value)) :
    m.find prev (text ++ value' ++ y) = none := by
  by_contra hne
  obtain ⟨⟨text₂, value₂⟩, hsome⟩ := Option.ne_none_iff_exists'.mp hne
  obtain ⟨rest₂, hl, hne₂, hvalue₂, -⟩ := m.sound hsome
  rw [List.append_assoc] at hfind
  have hl' := hl
  rw [List.append_assoc, List.append_assoc, List.append_eq_append_iff] at hl'
  rcases hl' with ⟨extra, rfl, hextra⟩ | ⟨left, rfl, hleft⟩
  · cases extra with
    | nil =>
      -- it is the same text
      rw [List.append_nil] at hl hsome
      rw [hl, List.append_assoc] at hsome
      obtain ⟨d, hd, hp⟩ := hvalue
      exact hm.find_ne_none hsome ⟨d, by rw [List.head?_append, hd]; rfl, hp⟩ hfind
    | cons c extra =>
      -- it goes on in the value of the match
      obtain ⟨before, prev', found, l', rfl, hfound⟩ := hends
      obtain ⟨d, hd, hp⟩ := hvalue'
      have hc : d = c := by
        have hhead := congrArg List.head? hextra
        rw [List.head?_append, Option.mem_def.mp hd] at hhead
        exact Option.some.inj hhead
      refine hm.not_infix hfound hsome (hc ▸ hp) ⟨before, extra, ?_⟩
      simp
  · -- its value starts before that of the match, or with it
    rw [hl, List.append_assoc] at hsome
    rw [List.append_assoc] at hfind
    refine hm.find_ne_none hsome ?_ hfind
    cases left with
    | nil =>
      obtain ⟨d, hd, hp⟩ := hvalue
      exact ⟨d, by rw [List.nil_append, List.head?_append, hd]; rfl, hp⟩
    | cons c left =>
      obtain ⟨d, cs, rfl⟩ := List.exists_cons_of_ne_nil hne₂
      have hc : d = c := (List.cons.inj hleft).1
      exact ⟨c, rfl, hc ▸ hvalue₂ d List.mem_cons_self⟩

variable (hf : ∀ value, value ≠ [] → (∀ c ∈ value, p c = true) → f value ≠ [] ∧ ∀ c ∈ f value, p c = true)

include hf

/-- Where the scan goes on, the scan of the image does. -/
theorem find_image_eq_none (hfind : m.find prev (c :: l) = none) :
    m.find prev (c :: (m.scan 0 (some c) l).image f) = none := by
  have hstarts : ∀ value, value ≠ [] → (∀ c ∈ value, p c = true) → ∃ d ∈ value.head?, p d = true := by
    intro value hne hvalue
    obtain ⟨d, cs, rfl⟩ := List.exists_cons_of_ne_nil hne
    exact ⟨d, rfl, hvalue d List.mem_cons_self⟩
  have hscan : m.scan 0 prev (c :: l) = (m.scan 0 (some c) l).cons c := by rw [scan, hfind]
  have hsource := m.scan_source 0 prev (c :: l)
  have hsep := m.scan_separated 0 prev (c :: l)
  rw [← Pieces.image_cons, ← hscan]
  rw [List.drop_zero] at hsource
  cases hpieces : m.scan 0 prev (c :: l) with
  | last text =>
    rw [hpieces] at hsource
    rwa [← hsource] at hfind
  | piece text value rest =>
    rw [hpieces] at hsource hsep
    obtain ⟨hne, hvalue, -, -⟩ := hsep
    obtain ⟨hne', hvalue'⟩ := hf value hne hvalue
    rw [← hsource] at hfind
    exact hm.find_eq_none hfind (hstarts value hne hvalue) (hstarts (f value) hne' hvalue')
      (exists_find_of_scan hpieces)

/-- **A scan of an image** finds the texts again, with the replaced values. -/
theorem scan_image {prev' : Option α} (hprev : prev' = prev ∨ ∀ c ∈ l.head?, p c = false) :
    m.scan 0 prev' ((m.scan 0 prev l).image f) = (m.scan 0 prev l).map f := by
  induction hn : l.length using Nat.strong_induction_on generalizing l prev prev' with
  | _ n ih =>
  subst hn
  cases l with
  | nil => rfl
  | cons c l =>
    cases hfind : m.find prev (c :: l) with
    | none =>
      have hscan : m.scan 0 prev (c :: l) = (m.scan 0 (some c) l).cons c := by rw [scan, hfind]
      have hnone : m.find prev' (c :: (m.scan 0 (some c) l).image f) = none := by
        rcases hprev with rfl | hstop
        · exact hm.find_image_eq_none hf hfind
        · exact hm.find_stop (hstop c rfl)
      rw [hscan, Pieces.image_cons, Pieces.map_cons, scan, hnone, ih _ (Nat.lt_succ_self _) (Or.inl rfl) rfl]
    | some z =>
      obtain ⟨text, value⟩ := z
      obtain ⟨x, hl, hne, hvalue, hstops⟩ := m.sound hfind
      obtain ⟨hne', hvalue'⟩ := hf value hne hvalue
      have hsame : prev' = prev := by
        rcases hprev with rfl | hstop
        · rfl
        · rw [hm.find_stop (hstop c rfl)] at hfind
          cases hfind
      have hshort : x.length < (c :: l).length := by
        have hpos := List.length_pos_iff.mpr hne
        rw [hl, List.length_append, List.length_append]
        omega
      rw [hl] at hfind ⊢
      obtain ⟨prev₁, hscan⟩ := scan_of_find hfind
      rw [hscan, Pieces.image, Pieces.map, hsame]
      have himage : ∀ c ∈ ((m.scan 0 prev₁ x).image f).head?, p c = false :=
        (m.scan_separated 0 prev₁ x).image_head f (by rwa [scan_source, List.drop_zero])
      obtain ⟨prev₂, hscan'⟩ := scan_of_find (hm.find_value hfind hne' hvalue' himage)
      rw [hscan', ih _ hshort (Or.inr hstops) rfl]

end Stable

end Matcher

end Kit
