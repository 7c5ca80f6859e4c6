import Mathlib

/-!
# Python text

A Python `str` is a finite sequence of code points.  Lone surrogates are code
points too: JSON escapes can produce them and UTF-8 cannot encode them, so a
model over Unicode scalar values would miss the inputs that strict encoders
reject.  This module fixes that representation and the few `str` operations
the rest of the development needs: `strip`, truncation, and the character
classes of `unicodedata`.
-/

namespace PyText

/-- One element of a Python string. -/
abbrev CodePoint := Fin 0x110000

abbrev Text := List CodePoint

instance neZeroCodePoints : NeZero 0x110000 := ⟨by decide⟩

instance : LawfulBEq CodePoint := inferInstance

instance : LawfulBEq Text := inferInstance

def ofChar (character : Char) : CodePoint :=
  Fin.ofNat 0x110000 character.toNat

/-- A string literal of the source program. -/
def lit (literal : String) : Text :=
  literal.toList.map ofChar

instance : Coe String Text := ⟨lit⟩

instance : Coe Char CodePoint := ⟨ofChar⟩

private theorem char_toNat_lt (character : Char) : character.toNat < 0x110000 := by
  rcases character.valid with hlow | ⟨_, hhigh⟩
  · exact lt_trans hlow (by decide)
  · exact hhigh

theorem ofChar_val (character : Char) : (ofChar character).val = character.toNat := by
  simp only [ofChar, Fin.val_ofNat, Nat.mod_eq_of_lt (char_toNat_lt _)]

theorem ofChar_injective : Function.Injective ofChar := by
  intro left right heq
  have hval := congrArg Fin.val heq
  rw [ofChar_val, ofChar_val] at hval
  exact Char.toNat_inj.mp hval

@[simp]
theorem ofChar_inj {left right : Char} : ofChar left = ofChar right ↔ left = right :=
  ofChar_injective.eq_iff

@[simp]
theorem lit_inj {left right : String} : lit left = lit right ↔ left = right := by
  constructor
  · intro heq
    exact String.toList_inj.mp ((List.map_injective_iff.mpr ofChar_injective) heq)
  · intro heq
    rw [heq]

/-! ## Character classes -/

/-- `str.isspace` of a one-character string. -/
def isSpace (c : CodePoint) : Bool :=
  (9 ≤ c.val && c.val ≤ 13) || (28 ≤ c.val && c.val ≤ 32) || c.val == 0x85 ||
    c.val == 0xA0 || c.val == 0x1680 || (0x2000 ≤ c.val && c.val ≤ 0x200A) ||
    c.val == 0x2028 || c.val == 0x2029 || c.val == 0x202F || c.val == 0x205F ||
    c.val == 0x3000

/-- A code point that strict UTF-8 refuses to encode. -/
def isSurrogate (c : CodePoint) : Bool :=
  0xD800 ≤ c.val && c.val ≤ 0xDFFF

/-- Unicode general category `Cc`. -/
def isControl (c : CodePoint) : Bool :=
  c.val ≤ 0x1F || (0x7F ≤ c.val && c.val ≤ 0x9F)

/-- The closed ranges of Unicode 15 general category `Cf`. -/
def formatRanges : List (ℕ × ℕ) :=
  [(0xAD, 0xAD), (0x600, 0x605), (0x61C, 0x61C), (0x6DD, 0x6DD), (0x70F, 0x70F),
    (0x890, 0x891), (0x8E2, 0x8E2), (0x180E, 0x180E), (0x200B, 0x200F),
    (0x202A, 0x202E), (0x2060, 0x2064), (0x2066, 0x206F), (0xFEFF, 0xFEFF),
    (0xFFF9, 0xFFFB), (0x110BD, 0x110BD), (0x110CD, 0x110CD), (0x13430, 0x1343F),
    (0x1BCA0, 0x1BCA3), (0x1D173, 0x1D17A), (0xE0001, 0xE0001), (0xE0020, 0xE007F)]

/-- Unicode general category `Cf`. -/
def isFormat (c : CodePoint) : Bool :=
  formatRanges.any fun range => range.1 ≤ c.val && c.val ≤ range.2

/-- The text survives `str.encode("utf-8", errors="strict")`. -/
def utf8Encodable (text : Text) : Bool :=
  text.all fun c => !isSurrogate c

/-- `len(text.encode("utf-8"))`. -/
def utf8Size (text : Text) : ℕ :=
  (text.map fun c =>
    if c.val < 0x80 then 1 else if c.val < 0x800 then 2 else if c.val < 0x10000 then 3 else 4).sum

/-- No character of category `Cc` or `Cf`. -/
def noControls (text : Text) : Bool :=
  text.all fun c => !(isControl c || isFormat c)

/-! ## `str.strip` -/

def strip (text : Text) : Text :=
  (text.dropWhile isSpace).rdropWhile isSpace

/-- A text that neither starts nor ends with white space. -/
def Trimmed (text : Text) : Prop :=
  (∀ c ∈ text.head?, isSpace c = false) ∧ ∀ c ∈ text.getLast?, isSpace c = false

/-- Decided on the two end characters, not by enumerating code points. -/
instance (text : Text) : Decidable (Trimmed text) :=
  decidable_of_iff
    (text.head?.all (fun c => !isSpace c) = true ∧
      text.getLast?.all (fun c => !isSpace c) = true)
    (by simp [Trimmed, Option.all_eq_true])

theorem strip_eq_self {text : Text} (htrimmed : Trimmed text) : strip text = text := by
  have hfront : text.dropWhile isSpace = text := by
    cases text with
    | nil => rfl
    | cons c rest =>
        have hc : isSpace c = false := htrimmed.1 c rfl
        simp [hc]
  rw [strip, hfront, List.rdropWhile_eq_self_iff]
  intro hne hlast
  have := htrimmed.2 (text.getLast hne) (List.getLast?_eq_some_getLast hne)
  simp [this] at hlast

theorem trimmed_strip (text : Text) : Trimmed (strip text) := by
  constructor
  · intro c hc
    have hpre : strip text <+: text.dropWhile isSpace :=
      List.rdropWhile_prefix isSpace _
    cases hstrip : strip text with
    | nil => simp [hstrip] at hc
    | cons d rest =>
        rw [hstrip] at hc hpre
        obtain ⟨tail, htail⟩ := hpre
        have hhead : (text.dropWhile isSpace).head? = some c := by
          rw [← htail]
          simpa using hc
        by_contra hspace
        have hdrop := List.head?_dropWhile_not isSpace text
        rw [hhead] at hdrop
        simp_all
  · intro c hc
    cases hstrip : strip text with
    | nil => simp [hstrip] at hc
    | cons d rest =>
        have hne : (text.dropWhile isSpace).rdropWhile isSpace ≠ [] := by
          have : strip text ≠ [] := by simp [hstrip]
          exact this
        have hlast := List.rdropWhile_last_not isSpace (text.dropWhile isSpace) hne
        have hc' : (strip text).getLast? = some c := hc
        rw [strip, List.getLast?_eq_some_getLast hne, Option.some.injEq] at hc'
        rw [← hc']
        simpa using hlast

@[simp]
theorem strip_strip (text : Text) : strip (strip text) = strip text :=
  strip_eq_self (trimmed_strip text)

@[simp]
theorem strip_nil : strip [] = [] := rfl

theorem strip_ne_nil {text : Text} {c : CodePoint} (hmem : c ∈ text) (hc : isSpace c = false) :
    strip text ≠ [] := by
  rw [strip, Ne, List.rdropWhile_eq_nil_iff]
  intro hspaces
  have hall : ∀ d ∈ text, isSpace d = true := by
    rw [← List.dropWhile_eq_nil_iff]
    by_contra hne
    have hhead := List.head_dropWhile_not isSpace hne
    rw [hspaces _ (List.head_mem hne)] at hhead
    cases hhead
  rw [hall c hmem] at hc
  cases hc

end PyText
