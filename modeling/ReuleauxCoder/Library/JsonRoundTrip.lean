import ReuleauxCoder.Library.JsonText

/-!
# Reading inverts writing

For every layout that only inserts white space, `loads` reads back the value
that `dumps` wrote, provided no object repeats a key.  The proof follows the
writer: each token is read back with an arbitrary rest of the input after it, as
long as that rest cannot continue a number.
-/

namespace PyJson

open PyText List

/-! ## Strings -/

theorem hexValue_hexDigit {value : ℕ} (hvalue : value < 16) :
    hexValue (hexDigit value) = some value := by
  interval_cases value <;> rfl

theorem ofNat_val (c : CodePoint) : Fin.ofNat 0x110000 c.val = c := by
  apply Fin.ext
  rw [Fin.val_ofNat]
  exact Nat.mod_eq_of_lt c.isLt

theorem parseHex4_hexDigits {value : ℕ} (hvalue : value < 0x100) (rest : Text) :
    parseHex4 (ofChar '0' :: ofChar '0' :: hexDigit (value / 16) :: hexDigit (value % 16) ::
      rest) = some (value, rest) := by
  have hhigh := hexValue_hexDigit (show value / 16 < 16 by omega)
  have hlow := hexValue_hexDigit (show value % 16 < 16 by omega)
  have hzero : hexValue (ofChar '0') = some 0 := rfl
  simp only [parseHex4, hzero, hhigh, hlow, Option.bind_eq_bind, Option.bind_some,
    Option.pure_def, Nat.zero_mul, Nat.zero_add, Nat.div_add_mod']

variable {c : CodePoint} {rest : Text}

/-- The escape of a control character without a short form. -/
theorem parseUnicode_hexDigits (hcontrol : c.val < 0x20) (rest : Text) :
    parseUnicode (ofChar '0' :: ofChar '0' :: hexDigit (c.val / 16) :: hexDigit (c.val % 16) ::
      rest) = some (c, rest) := by
  have hunit : ¬ (0xD800 ≤ c.val ∧ c.val ≤ 0xDBFF) := by omega
  rw [parseUnicode, parseHex4_hexDigits (by omega)]
  simp only [Option.bind_eq_bind, Option.bind_some, if_neg hunit, Option.pure_def, ofNat_val]

/-- Reading a backslash and what `parseEscape` takes after it. -/
theorem parseChars_backslash (fuel : ℕ) {body : Text} (hbody : parseEscape body = some (c, rest)) :
    parseChars (fuel + 1) (ofChar '\\' :: body) =
      (parseChars fuel rest).map fun result => (c :: result.1, result.2) := by
  rw [parseChars, if_neg (by decide), if_pos rfl, hbody]
  simp only [Option.bind_eq_bind, Option.bind_some]
  cases parseChars fuel rest <;> rfl

/-- Reading the escape of a character gives the character. -/
theorem parseChars_escape (c : CodePoint) (fuel : ℕ) (rest : Text) :
    parseChars (fuel + 1) (escape c ++ rest) =
      (parseChars fuel rest).map fun result => (c :: result.1, result.2) := by
  unfold escape
  split_ifs with hquote hslash hbackspace hformfeed hnewline hreturn htab hcontrol
  · exact parseChars_backslash fuel (hquote ▸ rfl)
  · exact parseChars_backslash fuel (hslash ▸ rfl)
  · exact parseChars_backslash fuel (hbackspace ▸ rfl)
  · exact parseChars_backslash fuel (hformfeed ▸ rfl)
  · exact parseChars_backslash fuel (hnewline ▸ rfl)
  · exact parseChars_backslash fuel (hreturn ▸ rfl)
  · exact parseChars_backslash fuel (htab ▸ rfl)
  · apply parseChars_backslash fuel
    exact parseUnicode_hexDigits hcontrol rest
  · rw [singleton_append, parseChars, if_neg hquote, if_neg hslash, if_neg hcontrol]
    cases parseChars fuel rest <;> rfl

theorem parseChars_escapeAll (text : Text) {fuel : ℕ} (hfuel : text.length < fuel)
    (rest : Text) :
    parseChars fuel (escapeAll text ++ ofChar '"' :: rest) = some (text, rest) := by
  induction text generalizing fuel with
  | nil =>
      obtain ⟨fuel, rfl⟩ := Nat.exists_eq_add_of_lt hfuel
      rfl
  | cons c text ih =>
      cases fuel with
      | zero => cases hfuel
      | succ fuel =>
          rw [escapeAll, flatMap_cons, append_assoc, parseChars_escape]
          rw [← escapeAll, ih (Nat.lt_of_succ_lt_succ hfuel)]
          rfl

theorem length_le_escapeAll (text : Text) : text.length ≤ (escapeAll text).length := by
  have hescape : ∀ c : CodePoint, 1 ≤ (escape c).length := by
    intro c
    unfold escape
    split_ifs
    all_goals exact Nat.succ_le_succ (Nat.zero_le _)
  induction text with
  | nil => exact le_refl _
  | cons c text ih =>
      have hc := hescape c
      simp only [escapeAll, flatMap_cons, length_append, length_cons] at ih ⊢
      omega

/-- The characters after an opening quote, read with the fuel the reader uses. -/
theorem parseChars_quoted (text rest : Text) :
    parseChars ((escapeAll text ++ ofChar '"' :: rest).length + 1)
      (escapeAll text ++ ofChar '"' :: rest) = some (text, rest) := by
  apply parseChars_escapeAll
  have hlength := length_le_escapeAll text
  simp only [length_append, length_cons]
  omega

/-! ## Numbers -/

/-- What may follow a number without continuing it. -/
def Delimited (rest : Text) : Prop :=
  ∀ c ∈ rest.head?, isDigit c = false ∧ c ≠ '.' ∧ c ≠ 'e' ∧ c ≠ 'E'

theorem isDigit_ofChar {character : Char} (hdigit : character.isDigit = true) :
    isDigit (ofChar character) = true := by
  simp only [Char.isDigit, Bool.and_eq_true, decide_eq_true_eq] at hdigit
  simp only [isDigit, Bool.and_eq_true, decide_eq_true_eq, ofChar_val]
  exact ⟨hdigit.1, hdigit.2⟩

theorem isDigit_decimal (value : ℕ) (hc : c ∈ decimal value) : isDigit c = true := by
  obtain ⟨character, hcharacter, rfl⟩ := mem_map.mp hc
  exact isDigit_ofChar (Nat.isDigit_of_mem_toDigits (by decide) (by decide) hcharacter)

theorem digitsValue_decimal (value : ℕ) : digitsValue (decimal value) = value := by
  have hdigits := Nat.ofDigitChars_ten_toDigits (n := value)
  rw [Nat.ofDigitChars_eq_foldl] at hdigits
  simp only [digitsValue, decimal, foldl_map, ofChar_val]
  exact hdigits

theorem isDigit_digit (value : Fin 10) : isDigit (digit value) = true := by
  revert value
  decide

theorem digitValue_digit (value : Fin 10) : digitValue (digit value) = value := by
  revert value
  decide

theorem takeWhile_append_of_head (digits : Text) (hdigits : ∀ c ∈ digits, isDigit c = true)
    (hrest : ∀ c ∈ rest.head?, isDigit c = false) :
    (digits ++ rest).takeWhile isDigit = digits ∧ (digits ++ rest).dropWhile isDigit = rest := by
  have hstop : rest.takeWhile isDigit = [] ∧ rest.dropWhile isDigit = rest := by
    cases rest with
    | nil => exact ⟨rfl, rfl⟩
    | cons c rest =>
        have hc := hrest c rfl
        simp [hc]
  rw [takeWhile_append_of_pos hdigits, dropWhile_append_of_pos hdigits, hstop.1, hstop.2,
    append_nil]
  exact ⟨rfl, rfl⟩

theorem toDigits_head_ne_zero (value : ℕ) (hpos : 0 < value) :
    ∀ character ∈ (Nat.toDigits 10 value).head?, character ≠ '0' := by
  induction value using Nat.strong_induction_on with
  | _ value ih =>
      by_cases hsmall : value < 10
      · rw [Nat.toDigits_of_lt_base hsmall]
        interval_cases value <;> simp [Nat.digitChar]
      · have hquotient : 0 < value / 10 := by omega
        rw [Nat.toDigits_of_base_le (by decide) (not_lt.mp hsmall),
          head?_append_of_ne_nil _ Nat.toDigits_ne_nil]
        exact ih (value / 10) (by omega) hquotient

theorem parseWhole_decimal (value : ℕ) (hrest : ∀ c ∈ rest.head?, isDigit c = false) :
    parseWhole (decimal value ++ rest) = some (value, rest) := by
  obtain ⟨htake, hdrop⟩ := takeWhile_append_of_head (decimal value)
    (fun c => isDigit_decimal value) hrest
  by_cases hpos : 0 < value
  · have hhead := toDigits_head_ne_zero value hpos
    have hvalue := digitsValue_decimal value
    cases hdigits : Nat.toDigits 10 value with
    | nil => exact absurd hdigits Nat.toDigits_ne_nil
    | cons character others =>
        have hdecimal : decimal value = ofChar character :: others.map ofChar := by
          rw [decimal, hdigits, map_cons]
        have hnonzero : ofChar character ≠ ofChar '0' := by
          rw [hdigits] at hhead
          simpa using hhead character rfl
        have hdigit : isDigit (ofChar character) = true := by
          apply isDigit_decimal value
          rw [hdecimal]
          exact mem_cons_self
        rw [hdecimal, cons_append] at htake hdrop ⊢
        rw [takeWhile_cons_of_pos hdigit] at htake
        rw [dropWhile_cons_of_pos hdigit] at hdrop
        rw [parseWhole, if_neg hnonzero, if_pos hdigit, htake, hdrop, ← hdecimal, hvalue]
  · rw [Nat.eq_zero_of_not_pos hpos]
    rfl

theorem delimited_not_digit (hrest : Delimited rest) : ∀ c ∈ rest.head?, isDigit c = false :=
  fun c hc => (hrest c hc).1

theorem parseFraction_fractionText (fraction : List (Fin 10))
    (hdigit : ∀ c ∈ rest.head?, isDigit c = false) (hpoint : ∀ c ∈ rest.head?, c ≠ '.') :
    parseFraction (fractionText fraction ++ rest) = (fraction, rest) := by
  cases fraction with
  | nil =>
      rw [fractionText, nil_append]
      match rest with
      | [] => rfl
      | [_] => rfl
      | point :: first :: rest =>
          rw [parseFraction, if_neg]
          intro hboth
          exact hpoint point rfl hboth.1
  | cons first others =>
      obtain ⟨htake, hdrop⟩ := takeWhile_append_of_head (others.map digit)
        (by simp [isDigit_digit]) hdigit
      rw [fractionText, map_cons, cons_append, cons_append, parseFraction,
        if_pos ⟨rfl, isDigit_digit first⟩, htake, hdrop, digitValue_digit, map_map]
      · congr 2
        simp [Function.comp_def, digitValue_digit]
      · simp

theorem parseExponent_exponentText (exponent : Option (Bool × Fin 10 × List (Fin 10)))
    (hrest : Delimited rest) :
    parseExponent (exponentText exponent ++ rest) = (exponent, rest) := by
  match exponent with
  | none =>
      rw [exponentText, nil_append]
      match rest with
      | [] => rfl
      | [_] => rfl
      | mark :: sign :: rest =>
          rw [parseExponent, if_neg]
          obtain ⟨-, -, hlower, hupper⟩ := hrest mark rfl
          rintro (hmark | hmark)
          · exact hlower hmark
          · exact hupper hmark
  | some (negative, first, others) =>
      obtain ⟨htake, hdrop⟩ := takeWhile_append_of_head (others.map digit)
        (by simp [isDigit_digit]) (delimited_not_digit hrest)
      have hdigits : ∀ original, parseExponentDigits negative
          (digit first :: (others.map digit ++ rest)) original =
          (some (negative, first, others), rest) := by
        intro original
        rw [parseExponentDigits, if_pos (isDigit_digit first), htake, hdrop, digitValue_digit,
          map_map]
        congr 4
        simp [Function.comp_def, digitValue_digit]
      cases negative with
      | true => exact hdigits _
      | false => exact hdigits _

theorem head_exponentText (exponent : Option (Bool × Fin 10 × List (Fin 10)))
    (hrest : Delimited rest) :
    ∀ c ∈ (exponentText exponent ++ rest).head?, isDigit c = false ∧ c ≠ '.' := by
  intro c hc
  match exponent with
  | none =>
      obtain ⟨hdigit, hpoint, -⟩ := hrest c hc
      exact ⟨hdigit, hpoint⟩
  | some (negative, first, others) =>
      cases hc
      decide

theorem head_fractionText (fraction : List (Fin 10))
    (hrest : ∀ c ∈ rest.head?, isDigit c = false ∧ c ≠ '.') :
    ∀ c ∈ (fractionText fraction ++ rest).head?, isDigit c = false := by
  intro c hc
  match fraction with
  | [] => exact (hrest c hc).1
  | first :: others =>
      cases hc
      decide

/-- The three parts of a number, read one after the other. -/
theorem parseUnsigned_text (negative : Bool) (whole : ℕ) (fraction : List (Fin 10))
    (exponent : Option (Bool × Fin 10 × List (Fin 10))) (hrest : Delimited rest) :
    parseUnsigned negative
        (decimal whole ++ (fractionText fraction ++ (exponentText exponent ++ rest))) =
      if hfloat : fraction ≠ [] ∨ exponent ≠ none then
        some (.float (.finite ⟨negative, whole, fraction, exponent, hfloat⟩), rest)
      else some (.int (if negative then -(whole : ℤ) else whole), rest) := by
  have hexponent := head_exponentText exponent hrest
  rw [parseUnsigned, parseWhole_decimal whole (head_fractionText fraction hexponent)]
  simp only [Option.bind_eq_bind, Option.bind_some,
    parseFraction_fractionText fraction (fun c hc => (hexponent c hc).1)
      (fun c hc => (hexponent c hc).2),
    parseExponent_exponentText exponent hrest]
  rfl

theorem parseUnsigned_decimal (negative : Bool) (value : ℕ) (hrest : Delimited rest) :
    parseUnsigned negative (decimal value ++ rest) =
      some (.int (if negative then -(value : ℤ) else value), rest) := by
  have htext := parseUnsigned_text negative value [] none hrest
  rw [dif_neg (by simp)] at htext
  exact htext

theorem parseUnsigned_literal (literal : FloatLiteral) (hrest : Delimited rest) :
    parseUnsigned literal.negative (decimal literal.whole ++
        (fractionText literal.fraction ++ (exponentText literal.exponent ++ rest))) =
      some (.float (.finite literal), rest) := by
  rw [parseUnsigned_text literal.negative literal.whole literal.fraction literal.exponent hrest,
    dif_pos literal.isFloat]

theorem decimal_ne_nil (value : ℕ) : decimal value ≠ [] := by
  rw [decimal, ne_eq, map_eq_nil_iff]
  exact Nat.toDigits_ne_nil

/-- A number starts with a digit, or with a sign and a digit: no word does. -/
theorem find_words_eq_none (hdigit : isDigit c = true) (rest : Text) (negative : Bool) :
    (words.find? fun word => word.1.isPrefixOf
      ((if negative then [ofChar '-'] else []) ++ c :: rest)) = none := by
  have hne : ∀ character : Char, isDigit (ofChar character) = false → ofChar character ≠ c := by
    rintro character hother rfl
    rw [hdigit] at hother
    cases hother
  have hletters : ofChar 'n' ≠ c ∧ ofChar 't' ≠ c ∧ ofChar 'f' ≠ c ∧ ofChar 'N' ≠ c ∧
      ofChar 'I' ≠ c ∧ ofChar '-' ≠ c :=
    ⟨hne _ rfl, hne _ rfl, hne _ rfl, hne _ rfl, hne _ rfl, hne _ rfl⟩
  obtain ⟨hn, ht, hf, hN, hI, hminus⟩ := hletters
  cases negative with
  | true => simp [words, lit, List.isPrefixOf, hI]
  | false => simp [words, lit, List.isPrefixOf, hn, ht, hf, hN, hI, hminus]

theorem parseScalar_unsigned (negative : Bool) {digits : Text} (hne : digits ≠ [])
    (hdigits : ∀ c ∈ digits, isDigit c = true) (rest : Text) :
    parseScalar ((if negative then [ofChar '-'] else []) ++ (digits ++ rest)) =
      parseUnsigned negative (digits ++ rest) := by
  obtain ⟨c, others, rfl⟩ := exists_cons_of_ne_nil hne
  have hdigit := hdigits c mem_cons_self
  rw [parseScalar, cons_append, find_words_eq_none hdigit]
  cases negative with
  | true => rfl
  | false =>
      have hminus : c ≠ ofChar '-' := by
        rintro rfl
        cases hdigit
      rw [if_neg Bool.false_ne_true, nil_append, parseNumber, if_neg hminus]

theorem parseScalar_intText (value : ℤ) (hrest : Delimited rest) :
    parseScalar (intText value ++ rest) = some (.int value, rest) := by
  have hscalar := parseScalar_unsigned (decide (value < 0)) (decimal_ne_nil value.natAbs)
    (fun c => isDigit_decimal value.natAbs) rest
  rw [parseUnsigned_decimal _ _ hrest] at hscalar
  by_cases hnegative : value < 0
  · rw [intText, if_pos hnegative]
    simp only [hnegative, decide_true, if_true] at hscalar
    rw [singleton_append] at hscalar
    rw [cons_append, hscalar]
    congr 3
    omega
  · rw [intText, if_neg hnegative]
    simp only [hnegative, decide_false] at hscalar
    rw [if_neg Bool.false_ne_true, nil_append] at hscalar
    rw [hscalar, if_neg Bool.false_ne_true]
    congr 3
    omega

theorem parseScalar_floatText (value : Float) (hrest : Delimited rest) :
    parseScalar (floatText value ++ rest) = some (.float value, rest) := by
  cases value with
  | finite literal =>
      have hscalar := parseScalar_unsigned literal.negative (decimal_ne_nil literal.whole)
        (fun c => isDigit_decimal literal.whole)
        (fractionText literal.fraction ++ (exponentText literal.exponent ++ rest))
      rw [parseUnsigned_literal literal hrest] at hscalar
      rw [floatText, FloatLiteral.text]
      simp only [append_assoc]
      exact hscalar
  | nan => rfl
  | posInf => rfl
  | negInf => rfl

/-! ## White space and delimiters -/

theorem skipSpace_append {gap : Text} (hgap : ∀ c ∈ gap, isJsonSpace c = true) (rest : Text) :
    skipSpace (gap ++ rest) = skipSpace rest :=
  dropWhile_append_of_pos hgap

theorem skipSpace_cons (hc : isJsonSpace c = false) (rest : Text) :
    skipSpace (c :: rest) = c :: rest := by
  rw [skipSpace, dropWhile_cons_of_neg]
  simp [hc]

theorem delimited_append {gap : Text} (hgap : ∀ c ∈ gap, isJsonSpace c = true)
    (hrest : Delimited rest) : Delimited (gap ++ rest) := by
  cases gap with
  | nil => exact hrest
  | cons c gap =>
      intro head hhead
      cases hhead
      have hspace := hgap c mem_cons_self
      simp only [isJsonSpace, Bool.or_eq_true, decide_eq_true_eq] at hspace
      rcases hspace with ((rfl | rfl) | rfl) | rfl
      all_goals decide

theorem delimited_bracket (rest : Text) : Delimited (ofChar ']' :: rest) := by
  intro c hc
  cases hc
  decide

theorem delimited_brace (rest : Text) : Delimited (ofChar '\x7d' :: rest) := by
  intro c hc
  cases hc
  decide

theorem delimited_comma (rest : Text) : Delimited (ofChar ',' :: rest) := by
  intro c hc
  cases hc
  decide

/-- The first character of a scalar: it opens no string, array or object. -/
structure ScalarHead (c : CodePoint) : Prop where
  quote : c ≠ '"'
  bracket : c ≠ '['
  brace : c ≠ '\x7b'
  closing : c ≠ ']'
  space : isJsonSpace c = false

theorem scalarHead_of_isDigit (hdigit : isDigit c = true) : ScalarHead c := by
  have hne : ∀ character : Char, isDigit (ofChar character) = false → c ≠ ofChar character := by
    rintro character hother rfl
    rw [hdigit] at hother
    cases hother
  constructor
  · exact hne _ rfl
  · exact hne _ rfl
  · exact hne _ rfl
  · exact hne _ rfl
  · simp [isJsonSpace, hne ' ' rfl, hne '\n' rfl, hne '\r' rfl, hne '\t' rfl]

theorem scalarHead_decimal (value : ℕ) (rest : Text) :
    ∃ c tail, decimal value ++ rest = c :: tail ∧ ScalarHead c := by
  obtain ⟨c, others, hdecimal⟩ := exists_cons_of_ne_nil (decimal_ne_nil value)
  refine ⟨c, others ++ rest, ?_, ?_⟩
  · rw [hdecimal, cons_append]
  · apply scalarHead_of_isDigit
    apply isDigit_decimal value
    rw [hdecimal]
    exact mem_cons_self

theorem scalarHead_minus : ScalarHead (ofChar '-') := by
  constructor <;> decide

theorem scalarHead_intText (value : ℤ) : ∃ c tail, intText value = c :: tail ∧ ScalarHead c := by
  rw [intText]
  split
  · exact ⟨_, _, rfl, scalarHead_minus⟩
  · obtain ⟨c, tail, htext, hhead⟩ := scalarHead_decimal value.natAbs []
    rw [append_nil] at htext
    exact ⟨c, tail, htext, hhead⟩

theorem scalarHead_floatText (value : Float) :
    ∃ c tail, floatText value = c :: tail ∧ ScalarHead c := by
  cases value with
  | finite literal =>
      rw [floatText, FloatLiteral.text]
      cases literal.negative with
      | true => exact ⟨_, _, rfl, scalarHead_minus⟩
      | false => exact scalarHead_decimal literal.whole _
  | nan => exact ⟨ofChar 'N', _, rfl, by constructor <;> decide⟩
  | posInf => exact ⟨ofChar 'I', _, rfl, by constructor <;> decide⟩
  | negInf => exact ⟨ofChar '-', _, rfl, scalarHead_minus⟩

/-- Written values start with neither white space nor a closing bracket. -/
theorem dumpsAt_head (layout : Layout) (value : Json) (level : ℕ) :
    ∃ c tail, dumpsAt layout value level = c :: tail ∧ isJsonSpace c = false ∧ c ≠ ']' := by
  match value with
  | .null => exact ⟨ofChar 'n', _, by rw [dumpsAt]; rfl, by decide, by decide⟩
  | .bool true => exact ⟨ofChar 't', _, by rw [dumpsAt]; rfl, by decide, by decide⟩
  | .bool false => exact ⟨ofChar 'f', _, by rw [dumpsAt]; rfl, by decide, by decide⟩
  | .int number =>
      obtain ⟨c, tail, htext, hhead⟩ := scalarHead_intText number
      exact ⟨c, tail, by rw [dumpsAt, htext], hhead.space, hhead.closing⟩
  | .float number =>
      obtain ⟨c, tail, htext, hhead⟩ := scalarHead_floatText number
      exact ⟨c, tail, by rw [dumpsAt, htext], hhead.space, hhead.closing⟩
  | .str text => exact ⟨ofChar '"', _, by rw [dumpsAt, quoted], by decide, by decide⟩
  | .arr [] => exact ⟨ofChar '[', _, by rw [dumpsAt]; rfl, by decide, by decide⟩
  | .arr (item :: rest) => exact ⟨ofChar '[', _, by rw [dumpsAt], by decide, by decide⟩
  | .obj [] => exact ⟨ofChar '\x7b', _, by rw [dumpsAt]; rfl, by decide, by decide⟩
  | .obj ((key, item) :: rest) => exact ⟨ofChar '\x7b', _, by rw [dumpsAt], by decide, by decide⟩

theorem skipSpace_dumpsAt {layout : Layout} {gap : Text}
    (hgap : ∀ c ∈ gap, isJsonSpace c = true) (value : Json) (level : ℕ) (rest : Text) :
    skipSpace (gap ++ (dumpsAt layout value level ++ rest)) =
      dumpsAt layout value level ++ rest := by
  obtain ⟨c, tail, htext, hspace, -⟩ := dumpsAt_head layout value level
  rw [skipSpace_append hgap, htext, cons_append, skipSpace_cons hspace]

theorem parseValue_scalar {text : Text} {tail : Text} (htext : text = c :: tail)
    (hhead : ScalarHead c) (fuel : ℕ) (rest : Text) :
    parseValue (fuel + 1) (text ++ rest) = parseScalar (text ++ rest) := by
  rw [htext, cons_append, parseValue, if_neg hhead.quote, if_neg hhead.bracket,
    if_neg hhead.brace]

/-! ## Keys -/

theorem store_of_notMem {α : Type*} {key : Text} (value : α) {fields : List (Text × α)}
    (hkey : key ∉ fields.map Prod.fst) : store key value fields = fields ++ [(key, value)] := by
  induction fields with
  | nil => rfl
  | cons entry rest ih =>
      rw [map_cons, mem_cons, not_or] at hkey
      rw [store, if_neg (Ne.symm hkey.1), ih hkey.2, cons_append]

theorem ofPairs_eq_self {α : Type*} {fields : List (Text × α)}
    (hnodup : (fields.map Prod.fst).Nodup) : ofPairs fields = fields := by
  have hfold : ∀ (rest before : List (Text × α)), ((before ++ rest).map Prod.fst).Nodup →
      rest.foldl (fun fields pair => store pair.1 pair.2 fields) before = before ++ rest := by
    intro rest
    induction rest with
    | nil =>
        intro before _
        rw [foldl_nil, append_nil]
    | cons entry rest ih =>
        intro before hnodup
        have hfresh : entry.1 ∉ before.map Prod.fst := by
          rw [map_append, map_cons] at hnodup
          intro hmem
          exact (nodup_append.mp hnodup).2.2 _ hmem _ mem_cons_self rfl
        rw [foldl_cons, store_of_notMem _ hfresh, ih]
        · rw [append_assoc, singleton_append]
        · rw [append_assoc, singleton_append]
          exact hnodup
  exact hfold fields [] hnodup

section Values

variable {layout : Layout} (hblank : layout.Blank)
include hblank

theorem delimited_dumpsItems (items : List Json) (level outer : ℕ) (rest : Text) :
    Delimited (dumpsItems layout items level ++ (layout.closeGap outer ++ ofChar ']' :: rest)) := by
  cases items with
  | nil =>
      rw [dumpsItems, nil_append]
      exact delimited_append (hblank.closeGap outer) (delimited_bracket rest)
  | cons item items =>
      rw [dumpsItems, cons_append]
      exact delimited_comma _

theorem delimited_dumpsFields (fields : List (Text × Json)) (level outer : ℕ) (rest : Text) :
    Delimited (dumpsFields layout fields level ++
      (layout.closeGap outer ++ ofChar '\x7d' :: rest)) := by
  cases fields with
  | nil =>
      rw [dumpsFields, nil_append]
      exact delimited_append (hblank.closeGap outer) (delimited_brace rest)
  | cons field fields =>
      rw [dumpsFields, cons_append]
      exact delimited_comma _

mutual

theorem parseValue_dumpsAt (value : Json) (hkeyed : value.WellKeyed) (level fuel : ℕ)
    (hfuel : (dumpsAt layout value level).length < fuel) {rest : Text} (hrest : Delimited rest) :
    parseValue fuel (dumpsAt layout value level ++ rest) = some (value, rest) := by
  obtain ⟨fuel, rfl⟩ : ∃ smaller, fuel = smaller + 1 := ⟨fuel - 1, by omega⟩
  match value with
  | .null => rw [dumpsAt]; rfl
  | .bool true => rw [dumpsAt]; rfl
  | .bool false => rw [dumpsAt]; rfl
  | .int number =>
      obtain ⟨c, tail, htext, hhead⟩ := scalarHead_intText number
      rw [dumpsAt, parseValue_scalar htext hhead, parseScalar_intText number hrest]
  | .float number =>
      obtain ⟨c, tail, htext, hhead⟩ := scalarHead_floatText number
      rw [dumpsAt, parseValue_scalar htext hhead, parseScalar_floatText number hrest]
  | .str text =>
      rw [dumpsAt, quoted, cons_append, append_assoc, singleton_append, parseValue,
        if_pos rfl, parseChars_quoted]
      rfl
  | .arr [] => rw [dumpsAt]; rfl
  | .arr (item :: items) =>
      rw [dumpsAt] at hfuel
      simp only [length_cons, length_append] at hfuel
      have hitems := parseItems_dumpsItems item items hkeyed (level + 1) level fuel (by omega) rest
      obtain ⟨c, tail, htext, hspace, hclosing⟩ := dumpsAt_head layout item (level + 1)
      rw [dumpsAt]
      simp only [cons_append, append_assoc, nil_append]
      rw [parseValue, if_neg (by decide), if_pos rfl,
        skipSpace_dumpsAt (hblank.openGap (level + 1)), htext, cons_append]
      rw [htext, cons_append] at hitems
      simp only [if_neg hclosing, hitems]
      rfl
  | .obj [] => rw [dumpsAt]; rfl
  | .obj ((key, item) :: fields) =>
      rw [dumpsAt] at hfuel
      simp only [length_cons, length_append] at hfuel
      have hfields := parseFields_dumpsFields key item fields hkeyed.2 (level + 1) level fuel
        (by omega) rest
      have hquote : ∀ more : Text, quoted key ++ more =
          ofChar '"' :: (escapeAll key ++ ofChar '"' :: more) := by
        intro more
        rw [quoted, cons_append, append_assoc, singleton_append]
      rw [dumpsAt]
      simp only [cons_append, append_assoc, nil_append]
      rw [hquote] at hfields ⊢
      rw [parseValue, if_neg (by decide), if_neg (by decide), if_pos rfl,
        skipSpace_append (hblank.openGap (level + 1)), skipSpace_cons (by decide)]
      have hbrace : ofChar '"' ≠ ofChar '\x7d' := by decide
      simp only [if_neg hbrace, hfields, Option.bind_eq_bind, Option.bind_some,
        ofPairs_eq_self hkeyed.1]
      rfl
termination_by fuel

theorem parseItems_dumpsItems (item : Json) (items : List Json)
    (hkeyed : Json.WellKeyedItems (item :: items)) (level outer fuel : ℕ)
    (hfuel : (dumpsAt layout item level).length + (dumpsItems layout items level).length + 1 <
      fuel) (rest : Text) :
    parseItems fuel (dumpsAt layout item level ++
        (dumpsItems layout items level ++ (layout.closeGap outer ++ ofChar ']' :: rest))) =
      some (item :: items, rest) := by
  obtain ⟨fuel, rfl⟩ : ∃ smaller, fuel = smaller + 1 := ⟨fuel - 1, by omega⟩
  have hitem := parseValue_dumpsAt item hkeyed.1 level fuel (by omega)
    (delimited_dumpsItems hblank items level outer rest)
  rw [parseItems, hitem]
  match items with
  | [] =>
      rw [dumpsItems, nil_append]
      simp only [Option.bind_eq_bind, Option.bind_some, skipSpace_append (hblank.closeGap outer)]
      rfl
  | next :: items =>
      rw [dumpsItems] at hfuel
      simp only [length_cons, length_append] at hfuel
      have hnext := parseItems_dumpsItems next items hkeyed.2 level outer fuel (by omega) rest
      rw [dumpsItems]
      simp only [Option.bind_eq_bind, Option.bind_some, cons_append, append_assoc]
      rw [skipSpace_cons (by decide)]
      simp only [if_true, skipSpace_dumpsAt (hblank.itemGap level), hnext, Option.bind_some]
      rfl
termination_by fuel

theorem parseFields_dumpsFields (key : Text) (value : Json) (fields : List (Text × Json))
    (hkeyed : Json.WellKeyedFields ((key, value) :: fields)) (level outer fuel : ℕ)
    (hfuel : (dumpsAt layout value level).length + (dumpsFields layout fields level).length + 1 <
      fuel) (rest : Text) :
    parseFields fuel (quoted key ++ (ofChar ':' :: (layout.keyGap ++
        (dumpsAt layout value level ++ (dumpsFields layout fields level ++
          (layout.closeGap outer ++ ofChar '\x7d' :: rest)))))) =
      some ((key, value) :: fields, rest) := by
  obtain ⟨fuel, rfl⟩ : ∃ smaller, fuel = smaller + 1 := ⟨fuel - 1, by omega⟩
  have hvalue := parseValue_dumpsAt value hkeyed.1 level fuel (by omega)
    (delimited_dumpsFields hblank fields level outer rest)
  rw [quoted, cons_append, append_assoc, singleton_append, parseFields, if_pos rfl,
    parseChars_quoted]
  simp only [Option.bind_eq_bind, Option.bind_some]
  rw [skipSpace_cons (by decide)]
  simp only [if_true, skipSpace_dumpsAt hblank.keyGap, hvalue, Option.bind_some]
  match fields with
  | [] =>
      rw [dumpsFields, nil_append, skipSpace_append (hblank.closeGap outer)]
      rfl
  | (nextKey, next) :: fields =>
      rw [dumpsFields] at hfuel
      simp only [length_cons, length_append] at hfuel
      have hnext := parseFields_dumpsFields nextKey next fields hkeyed.2 level outer fuel
        (by omega) rest
      have hquote : ∀ more : Text, quoted nextKey ++ more =
          ofChar '"' :: (escapeAll nextKey ++ ofChar '"' :: more) := by
        intro more
        rw [quoted, cons_append, append_assoc, singleton_append]
      rw [dumpsFields]
      simp only [cons_append, append_assoc]
      rw [skipSpace_cons (by decide)]
      rw [hquote] at hnext ⊢
      simp only [if_true, skipSpace_append (hblank.itemGap level)]
      rw [skipSpace_cons (by decide), hnext]
      rfl
termination_by fuel

end

/-- Reading back what was written. -/
theorem loads_dumps {value : Json} (hkeyed : value.WellKeyed) :
    loads (dumps layout value) = some value := by
  have hrest : Delimited [] := by
    intro c hc
    cases hc
  have hvalue := parseValue_dumpsAt hblank value hkeyed 0 ((dumps layout value).length + 1)
    (Nat.lt_succ_self _) hrest
  obtain ⟨c, tail, htext, hspace, -⟩ := dumpsAt_head layout value 0
  have hskip : skipSpace (dumps layout value) = dumps layout value := by
    rw [dumps, htext, skipSpace_cons hspace]
  rw [append_nil, ← dumps] at hvalue
  rw [loads, hskip, hvalue]
  rfl

/-- Two values with the same text are equal. -/
theorem dumps_inj {left right : Json} (hleft : left.WellKeyed) (hright : right.WellKeyed)
    (hdumps : dumps layout left = dumps layout right) : left = right := by
  have hread := loads_dumps hblank hleft
  rw [hdumps, loads_dumps hblank hright] at hread
  exact (Option.some.inj hread).symm

end Values

end PyJson
