/-
# The redaction of a message, done twice

What a match of the pattern takes does not depend on its value, so the second
pass finds the texts of the first again, with the previews as values
(`redactPattern_stable`, `pieces_redactMessage`). A preview of eight characters
and the ellipsis is its own preview. A shorter one gets an ellipsis more.

So redaction is idempotent on the messages all of whose values have at least
eight characters (`redactMessage_idempotent_iff`).

Key definitions: `isKeyChar`.
Key theorems: `redactPattern_stable`, `redactMessage_idempotent_iff`.
-/
import OllamaProxy.Logging

namespace OllamaProxy

open Kit

/-! ### The match of a key -/

/-- What the keys consist of; a key is followed by something else. -/
def isKeyChar (c : Char) : Bool := !isSpace c && c ≠ '=' && c ≠ ':'

theorem isKeyChar_of_mem {key : String} (h : key ∈ forbiddenKeys) : ∀ c ∈ key.toList, isKeyChar c = true := by
  have hall : ∀ key ∈ forbiddenKeys, key.toList.all isKeyChar = true := by decide
  simpa using hall key h

section

variable {key left right value rest l text : List Char} {sep : Char}

theorem isSpace_sep (hsep : sep = '=' ∨ sep = ':') : isSpace sep = false := by
  rcases hsep with rfl | rfl <;> rfl

theorem isKeyChar_left (hleft : ∀ c ∈ left, isSpace c = true) (hsep : sep = '=' ∨ sep = ':') :
    ∀ c ∈ (left ++ sep :: right).head?, isKeyChar c = false := by
  intro c hc
  cases left with
  | nil =>
    cases hc
    rcases hsep with rfl | rfl <;> rfl
  | cons d left =>
    cases hc
    simp [isKeyChar, hleft c List.mem_cons_self]

theorem matchKey_shape (hleft : ∀ c ∈ left, isSpace c = true) (hsep : sep = '=' ∨ sep = ':')
    (hright : ∀ c ∈ right, isSpace c = true) (hne : value ≠ []) (hvalue : ∀ c ∈ value, (!isSpace c) = true)
    (hrest : ∀ c ∈ rest.head?, (!isSpace c) = false) :
    matchKey key (key ++ left ++ sep :: right ++ value ++ rest) = some (key ++ left ++ sep :: right, value) := by
  have hl : key ++ left ++ sep :: right ++ value ++ rest = key ++ (left ++ (sep :: (right ++ (value ++ rest)))) := by
    simp
  have hspace : ∀ c ∈ (sep :: (right ++ (value ++ rest))).head?, isSpace c = false := by
    rintro c ⟨⟩
    exact isSpace_sep hsep
  have hstarts : ∀ c ∈ (value ++ rest).head?, isSpace c = false := by
    obtain ⟨d, cs, rfl⟩ := List.exists_cons_of_ne_nil hne
    rintro c ⟨⟩
    simpa using hvalue d List.mem_cons_self
  rw [hl, matchKey, if_pos (List.prefix_append _ _), List.drop_left, dropWhile_append_of_stops hleft hspace]
  simp only [if_pos hsep]
  rw [dropWhile_append_of_stops hright hstarts, takeWhile_append_of_stops hvalue hrest, if_neg hne,
    takeWhile_append_of_stops hleft hspace, takeWhile_append_of_stops hright hstarts]

/-- Only the key that the list starts with is matched. -/
theorem takeWhile_of_matchKey {key : String} (hkey : key ∈ forbiddenKeys) (h : matchKey key.toList l = some (text, value)) :
    l.takeWhile isKeyChar = key.toList := by
  obtain ⟨left, sep, right, rest, rfl, rfl, hleft, hsep, -, -, -, -⟩ := matchKey_eq_some h
  have hl : key.toList ++ left ++ sep :: right ++ value ++ rest = key.toList ++ (left ++ sep :: (right ++ value ++ rest)) := by
    simp
  rw [hl]
  exact takeWhile_append_of_stops (isKeyChar_of_mem hkey) (isKeyChar_left hleft hsep)

end

namespace LogLibrary

variable {lib : LogLibrary}

theorem find_eq_some_iff {prev : Option Char} {l : List Char} {z : List Char × List Char} :
    lib.redactPattern.find prev l = some z ↔
      lib.boundary prev l.head? = true ∧ ∃ key ∈ forbiddenKeys, matchKey key.toList l = some z := by
  simp only [redactPattern, Option.ite_none_right_eq_some, and_congr_right_iff]
  intro hboundary
  refine ⟨List.exists_of_findSome?_eq_some, ?_⟩
  rintro ⟨key, hkey, hmatch⟩
  cases hfound : forbiddenKeys.findSome? fun key => matchKey key.toList l with
  | none =>
    rw [List.findSome?_eq_none_iff.mp hfound key hkey] at hmatch
    cases hmatch
  | some z' =>
    obtain ⟨key', hkey', hmatch'⟩ := List.exists_of_findSome?_eq_some hfound
    have hsame : key'.toList = key.toList :=
      (takeWhile_of_matchKey hkey' hmatch').symm.trans (takeWhile_of_matchKey hkey hmatch)
    rw [hsame, hmatch] at hmatch'
    rw [hmatch']

/-- The text of a match is a key, and a separator among spaces. -/
theorem find_shape {prev : Option Char} {l text value : List Char}
    (h : lib.redactPattern.find prev l = some (text, value)) :
    ∃ key ∈ forbiddenKeys, ∃ left sep right, text = key.toList ++ left ++ sep :: right ∧
      (∀ c ∈ left, isSpace c = true) ∧ (sep = '=' ∨ sep = ':') ∧ ∀ c ∈ right, isSpace c = true := by
  obtain ⟨-, key, hkey, hmatch⟩ := find_eq_some_iff.mp h
  obtain ⟨left, sep, right, -, -, htext, hleft, hsep, hright, -, -, -⟩ := matchKey_eq_some hmatch
  exact ⟨key, hkey, left, sep, right, htext, hleft, hsep, hright⟩

/-- After a separator in the text there are only spaces. -/
theorem isSpace_of_mem_text {key : String} (hkey : key ∈ forbiddenKeys) {left right x y : List Char} {sep s : Char}
    (hleft : ∀ c ∈ left, isSpace c = true) (hright : ∀ c ∈ right, isSpace c = true) (hs : s = '=' ∨ s = ':')
    (h : key.toList ++ left ++ sep :: right = x ++ s :: y) : ∀ c ∈ y, isSpace c = true := by
  have hnot : s ∉ key.toList ++ left := by
    intro hmem
    rcases List.mem_append.mp hmem with hin | hin
    · have hchar := isKeyChar_of_mem hkey s hin
      rcases hs with rfl | rfl <;> cases hchar
    · have hspace := hleft s hin
      rw [isSpace_sep hs] at hspace
      cases hspace
  rcases List.append_eq_append_iff.mp h with ⟨more, rfl, hmore⟩ | ⟨more, hx, hmore⟩
  · cases more with
    | nil =>
      cases hmore
      exact hright
    | cons d more =>
      obtain ⟨-, rfl⟩ := List.cons.inj hmore
      exact fun c hc => hright c (List.mem_append_right _ (List.mem_cons_of_mem _ hc))
  · cases more with
    | nil =>
      cases hmore
      exact hright
    | cons d more =>
      obtain ⟨rfl, -⟩ := List.cons.inj hmore
      exact absurd (hx ▸ List.mem_append_right _ List.mem_cons_self) hnot

theorem redactPattern_stable : lib.redactPattern.Stable where
  find_stop := by
    intro prev c l hc
    by_contra hne
    obtain ⟨⟨text, value⟩, hsome⟩ := Option.ne_none_iff_exists'.mp hne
    obtain ⟨-, key, hkey, hmatch⟩ := find_eq_some_iff.mp hsome
    have hstarts := takeWhile_of_matchKey hkey hmatch
    have hchar : isKeyChar c = false := by
      simp only [Bool.not_eq_false'] at hc
      simp [isKeyChar, hc]
    rw [List.takeWhile_cons, hchar] at hstarts
    exact key_ne_nil hkey hstarts.symm
  find_value := by
    intro prev text value rest value' rest' h hne hvalue hrest
    obtain ⟨hboundary, key, hkey, hmatch⟩ := find_eq_some_iff.mp h
    obtain ⟨left, sep, right, -, -, rfl, hleft, hsep, hright, -, -, -⟩ := matchKey_eq_some hmatch
    refine find_eq_some_iff.mpr ⟨?_, key, hkey, matchKey_shape hleft hsep hright hne hvalue hrest⟩
    have hhead : ∀ x y, (key.toList ++ left ++ sep :: right ++ x ++ y).head? = (key.toList ++ left ++ sep :: right).head? := by
      intro x y
      rw [List.append_assoc, List.head?_append_of_ne_nil _ (by simp)]
    rw [hhead] at hboundary ⊢
    exact hboundary
  not_infix := by
    rintro prev l text value prev' l' text' value' c h h' hc ⟨before, after, hin⟩
    obtain ⟨key, hkey, left, sep, right, rfl, hleft, hsep, hright⟩ := find_shape h
    obtain ⟨key', hkey', left', sep', right', rfl, hleft', -, hright'⟩ := find_shape h'
    have hsplit : key'.toList ++ left' ++ sep' :: right' =
        before ++ key.toList ++ left ++ sep :: (right ++ c :: after) := by
      rw [← hin]
      simp
    have hspace := isSpace_of_mem_text hkey' hleft' hright' hsep hsplit c (by simp)
    simp [hspace] at hc

/-! ### The second pass -/

theorem pieces_redactMessage (message : String) :
    lib.pieces (lib.redactMessage message) =
      (lib.pieces message).map fun value => (lib.preview (.str (String.ofList value))).toList := by
  rw [pieces, redactMessage, String.toList_ofList]
  refine redactPattern_stable.scan_image (fun value hne hvalue => ?_) (Or.inl rfl)
  rw [preview_value hne]
  refine ⟨by simp, fun c hc => ?_⟩
  rcases List.mem_append.mp hc with htake | hend
  · exact hvalue c (List.mem_of_mem_take htake)
  · rw [List.mem_singleton.mp hend]
    rfl

/-- The preview of a preview. -/
theorem preview_preview {value : List Char} (h : value ≠ []) :
    (lib.preview (.str (String.ofList (lib.preview (.str (String.ofList value))).toList))).toList =
      (value.take previewLen ++ ['…']).take previewLen ++ ['…'] := by
  rw [preview_value (by rw [preview_value h]; simp), preview_value h]

/-- Only a full preview is its own. -/
theorem preview_fixed_iff {value : List Char} :
    value.take previewLen ++ ['…'] = (value.take previewLen ++ ['…']).take previewLen ++ ['…'] ↔
      previewLen ≤ value.length := by
  constructor
  · intro h
    have hlength := congrArg List.length h
    simp only [List.length_append, List.length_take, List.length_singleton] at hlength
    omega
  · intro h
    have hfull : (value.take previewLen).length = previewLen := by simpa using h
    rw [List.take_left' hfull]

/-- **Redaction is idempotent** on a message exactly if no value in it is shorter
than a preview. -/
theorem redactMessage_idempotent_iff (message : String) :
    lib.redactMessage (lib.redactMessage message) = lib.redactMessage message ↔
      ∀ z ∈ (lib.pieces message).pairs, previewLen ≤ z.2.length := by
  have hne : ∀ z ∈ (lib.pieces message).pairs, z.2 ≠ [] := (pieces_separated message).value_ne_nil
  rw [redactMessage, pieces_redactMessage, Pieces.image_map, redactMessage, ← String.toList_inj, String.toList_ofList,
    String.toList_ofList, eq_comm, Pieces.image_eq_iff]
  · refine forall₂_congr fun z hz => ?_
    rw [preview_preview (hne z hz), preview_value (hne z hz)]
    exact preview_fixed_iff
  · intro z hz
    rw [preview_preview (hne z hz), preview_value (hne z hz)]
    simp only [List.length_append, List.length_take, List.length_singleton]
    omega

namespace Sample

/-- The second pass puts an ellipsis after that of the first. -/
theorem short_value_grows :
    library.redactMessage (library.redactMessage "password=abc") ≠ library.redactMessage "password=abc" := by
  decide

end Sample

end LogLibrary

end OllamaProxy
