import ShaderTint.Json.Lexeme
import ShaderTint.Json.Printer

namespace ShaderTint.Json

/-!
# Written words read back

A reader of words undoes the printer: whatever follows, a written string literal
reads back as its string, and the digits of a whole number read back as the
number when nothing follows that could belong to it.

Main statements: `stringBody_escaped` for string literals and
`readNumber_toDigits` for whole numbers. Whole numbers that do not fit 64 bits are
not read back as integers; `eq_of_readNumber_intChars` says that those which are read
as integers are read back.
-/

/-- What was read is handed on. -/
@[simp]
theorem ok_bind
    (value : α)
    (next : α → Except ε β) :
    (Except.ok value >>= next) = next value :=
  rfl

@[simp]
theorem map_ok
    (change : α → β)
    (value : α) :
    change <$> (Except.ok value : Except ε α) = .ok (change value) :=
  rfl

/-- Nothing is read after a flaw. -/
@[simp]
theorem error_bind
    (flaw : ε)
    (next : α → Except ε β) :
    (Except.error flaw >>= next) = .error flaw :=
  rfl

/-- A chain of two steps succeeds just when both steps do. -/
theorem bind_eq_ok_iff
    {first : Except ε α}
    {next : α → Except ε β}
    {final : β} :
    (first >>= next) = .ok final ↔
      ∃ value, first = .ok value ∧ next value = .ok final := by
  cases first with
  | error flaw =>
      simp
  | ok value =>
      simp

/-- Naming the faults of a step makes no difference to its success. -/
theorem mapError_eq_ok_iff
    {step : Except ε α}
    {name : ε → φ}
    {value : α} :
    step.mapError name = .ok value ↔ step = .ok value := by
  cases step with
  | error fault =>
      constructor <;>
        rintro ⟨⟩
  | ok result =>
      constructor
      · rintro ⟨⟩
        rfl
      · rintro ⟨⟩
        rfl

/-- Characters that a test tells apart are different. -/
theorem ne_of_test
    {test : Char → Bool}
    {character other : Char}
    (passes : test character = true)
    (fails : test other = false) :
    character ≠ other := by
  rintro rfl
  rw [passes] at fails
  contradiction

/-- Text that does not start with a blank is left as it is. -/
theorem skipBlanks_cons
    {character : Char}
    (notBlank : isBlank character = false)
    (text : List Char) :
    skipBlanks (character :: text) = character :: text := by
  simp [skipBlanks, notBlank]

/-! ## String literals -/

/-- A written hexadecimal digit has its value. -/
theorem hexValue?_hexDigit
    (value : Nat)
    (small : value < 16) :
    hexValue? (hexDigit value) = some value := by
  have allDigits :
      ∀ digit : Fin 16, hexValue? (hexDigit digit) = some digit.val := by
    decide
  exact allDigits ⟨value, small⟩

/-- Four characters are four bytes at least. -/
theorem hasFourBytes_of_four
    (first second third fourth : Char)
    (text : List Char) :
    hasFourBytes (first :: second :: third :: fourth :: text) = true := by
  have firstPositive := first.utf8Size_pos
  have secondPositive := second.utf8Size_pos
  have thirdPositive := third.utf8Size_pos
  have fourthPositive := fourth.utf8Size_pos
  simp [hasFourBytes]
  omega

/-- A complete numbered escape below the surrogates stands for its character. -/
theorem closeEscape_none
    {unit : Nat}
    (low : unit < 0xd800)
    (done : List Char) :
    closeEscape none unit done = .ok (.plain, Char.ofNat unit :: done) := by
  have notLow : isLowSurrogate unit = false := by
    simp [isLowSurrogate]
    omega
  have notHigh : isHighSurrogate unit = false := by
    simp [isHighSurrogate]
    omega
  simp [closeEscape, notLow, notHigh]

/-- Two written hexadecimal digits after two zeros stand for a character. -/
theorem stringRest_numbered
    {character : Char}
    (control : character.toNat < 0x20)
    (done text : List Char) :
    stringRest .plain done
        ('\\' :: 'u' :: '0' :: '0' :: hexDigit (character.toNat / 16) ::
          hexDigit (character.toNat % 16) :: text) =
      stringRest .plain (character :: done) text := by
  have high := hexValue?_hexDigit (character.toNat / 16) (by omega)
  have low := hexValue?_hexDigit (character.toNat % 16) (by omega)
  have zero : hexValue? '0' = some 0 := rfl
  have together :
      character.toNat / 16 * 16 + character.toNat % 16 = character.toNat := by
    omega
  simp [stringRest, hasFourBytes_of_four, zero, high, low, together,
    closeEscape_none (show character.toNat < 0xd800 by omega)]

/-- A written character is read back. -/
theorem stringRest_escapeChar
    (character : Char)
    (done text : List Char) :
    stringRest .plain done (escapeChar character ++ text) =
      stringRest .plain (character :: done) text := by
  unfold escapeChar
  split
  · rfl
  · rfl
  · rfl
  · rfl
  · rfl
  · rename_i notQuote notBackslash _ _ _
    split
    · rename_i isBackspace
      obtain rfl : character = '\x08' := Char.toNat_inj.mp isBackspace
      rfl
    · split
      · rename_i isFormFeed
        obtain rfl : character = '\x0c' := Char.toNat_inj.mp isFormFeed
        rfl
      · split
        · rename_i control
          exact stringRest_numbered control done text
        · rename_i notControl
          have plainQuote : character ≠ '"' := by
            simpa using notQuote
          have plainBackslash : character ≠ '\\' := by
            simpa using notBackslash
          simp [stringRest, plainQuote, plainBackslash, notControl]

/-- Written characters are read back in order. -/
theorem stringRest_escaped
    (characters done after : List Char) :
    stringRest .plain done (characters.flatMap escapeChar ++ '"' :: after) =
      .ok (String.ofList (done.reverse ++ characters), after) := by
  induction characters generalizing done with
  | nil =>
      simp [stringRest]
  | cons character rest inductionHypothesis =>
      rw [List.flatMap_cons, List.append_assoc, stringRest_escapeChar,
        inductionHypothesis]
      simp

/-- A written string literal reads back as its string. -/
theorem stringBody_escaped
    (value : String)
    (after : List Char) :
    stringBody (value.toList.flatMap escapeChar ++ '"' :: after) =
      .ok (value, after) := by
  rw [stringBody, stringRest_escaped]
  simp

/-! ## Whole numbers -/

/-- Nothing at the front of a text goes on with a whole number. -/
def EndsNumber
    (text : List Char) :
    Prop :=
  ∀ character ∈ text.head?,
    isDigit character = false ∧
      character ≠ '.' ∧ isExponentMark character = false

theorem endsNumber_cons
    {character : Char}
    (ends :
      isDigit character = false ∧
        character ≠ '.' ∧ isExponentMark character = false)
    (text : List Char) :
    EndsNumber (character :: text) := by
  intro next isNext
  obtain rfl := Option.mem_some_iff.mp isNext
  exact ends

/-- Nothing at the front of a text goes on with digits. -/
def StopsDigits
    (text : List Char) :
    Prop :=
  ∀ character ∈ text.head?, isDigit character = false

theorem EndsNumber.stopsDigits
    {text : List Char}
    (ends : EndsNumber text) :
    StopsDigits text :=
  fun character isHead => (ends character isHead).1

theorem stopsDigits_cons
    {character : Char}
    (notDigit : isDigit character = false)
    (text : List Char) :
    StopsDigits (character :: text) := by
  intro next isNext
  obtain rfl := Option.mem_some_iff.mp isNext
  exact notDigit

theorem isBlank_of_isDigit
    {character : Char}
    (digit : isDigit character = true) :
    isBlank character = false := by
  rw [Bool.eq_false_iff]
  intro blank
  simp only [isBlank, Bool.or_eq_true, beq_iff_eq] at blank
  rcases blank with ((rfl | rfl) | rfl) | rfl <;>
    exact absurd digit (by decide)

/-- The digits of a number are digits. -/
theorem isDigit_of_mem_toDigits
    {value : Nat}
    {character : Char}
    (member : character ∈ Nat.toDigits 10 value) :
    isDigit character = true := by
  have digit : character.isDigit = true :=
    Nat.isDigit_of_mem_toDigits (by decide) (by decide) member
  simpa [isDigit, Char.isDigit, UInt32.le_iff_toNat_le] using digit

/-- A number is written with a digit at the front. -/
theorem exists_toDigits_eq_cons
    (value : Nat) :
    ∃ first others,
      Nat.toDigits 10 value = first :: others ∧ isDigit first = true := by
  obtain ⟨first, others, shape⟩ :=
    List.exists_cons_of_ne_nil (Nat.toDigits_ne_nil (n := value) (b := 10))
  have written : first ∈ Nat.toDigits 10 value := by
    simp [shape]
  exact ⟨first, others, shape, isDigit_of_mem_toDigits written⟩

/-- A positive number is written without a leading zero. -/
theorem head?_toDigits
    {value : Nat}
    (positive : 0 < value) :
    (Nat.toDigits 10 value).head? ≠ some '0' := by
  induction value using Nat.strongRecOn with
  | ind value inductionHypothesis =>
      by_cases small : value < 10
      · have allDigits :
            ∀ digit : Fin 10,
              0 < digit.val → Nat.digitChar digit ≠ '0' := by
          decide
        rw [Nat.toDigits_of_lt_base small]
        simpa using allDigits ⟨value, small⟩ positive
      · have leading :=
          inductionHypothesis (value / 10) (by omega) (by omega)
        obtain ⟨first, others, shape, _⟩ := exists_toDigits_eq_cons (value / 10)
        rw [Nat.toDigits_of_base_le (by decide) (by omega)]
        rw [shape] at leading ⊢
        exact leading

/-- Digits are taken up to where they stop. -/
theorem someDigits_append
    {digits after : List Char}
    (allDigits : ∀ character ∈ digits, isDigit character = true)
    (nonempty : digits ≠ [])
    (stops : StopsDigits after) :
    someDigits (digits ++ after) = .ok (digits, after) := by
  have noMore : after.takeWhile isDigit = [] ∧ after.dropWhile isDigit = after := by
    cases after with
    | nil =>
        simp
    | cons character rest =>
        simp [stops character rfl]
  simp [someDigits, List.takeWhile_append_of_pos allDigits,
    List.dropWhile_append_of_pos allDigits, noMore, nonempty]

/-- The digits of a number make its whole part. -/
theorem wholeDigits_toDigits
    {after : List Char}
    (stops : StopsDigits after)
    (value : Nat) :
    wholeDigits (Nat.toDigits 10 value ++ after) =
      .ok (Nat.toDigits 10 value, after) := by
  have taken :=
    someDigits_append (fun _ => isDigit_of_mem_toDigits)
      (Nat.toDigits_ne_nil (n := value)) stops
  rw [wholeDigits, taken]
  split
  · rename_i second others rest shape
    have leadingZero : Nat.toDigits 10 value = '0' :: second :: others := by
      simp_all
    rcases Nat.eq_zero_or_pos value with isZero | positive
    · subst value
      simp at leadingZero
    · exact absurd (by simp [leadingZero]) (head?_toDigits positive)
  · rfl

/-- Digits that make a number of 64 bits are all taken. -/
theorem absorbDigits_eq
    {significand : Nat}
    {digits : List Char}
    (fits : Nat.ofDigitChars 10 digits significand < UInt64.size) :
    absorbDigits significand digits =
      (Nat.ofDigitChars 10 digits significand, []) := by
  induction digits generalizing significand with
  | nil =>
      rfl
  | cons digit rest inductionHypothesis =>
      have shifted :
          Nat.ofDigitChars 10 (digit :: rest) significand =
            Nat.ofDigitChars 10 rest (significand * 10 + digitValue digit) := by
        rw [Nat.ofDigitChars_cons, Nat.mul_comm]
        rfl
      rw [shifted] at fits ⊢
      have nextFits : significand * 10 + digitValue digit < UInt64.size := by
        rw [Nat.ofDigitChars_eq_ofDigitChars_zero] at fits
        have grows :=
          Nat.le_mul_of_pos_left (significand * 10 + digitValue digit)
            (Nat.pow_pos (n := rest.length) (show 0 < 10 by decide))
        omega
      rw [absorbDigits, if_pos nextFits]
      exact inductionHypothesis fits

/-- The digits of a number of 64 bits make that number. -/
theorem wholeNumber_toDigits
    {value : Nat}
    (fits : value < UInt64.size) :
    wholeNumber false (Nat.toDigits 10 value) = .ok (.integer value) := by
  have restored : Nat.ofDigitChars 10 (Nat.toDigits 10 value) 0 = value :=
    Nat.ofDigitChars_ten_toDigits
  have absorbed :
      absorbDigits 0 (Nat.toDigits 10 value) = (value, []) := by
    rw [absorbDigits_eq (by rwa [restored]), restored]
  simp [wholeNumber, absorbed]

/-- Digits with nothing after them that belongs to a number are a whole number. -/
theorem unsignedNumber_toDigits
    {after : List Char}
    (ends : EndsNumber after)
    (negative : Bool)
    (value : Nat) :
    unsignedNumber negative (Nat.toDigits 10 value ++ after) =
      (·, after) <$> wholeNumber negative (Nat.toDigits 10 value) := by
  rw [unsignedNumber, wholeDigits_toDigits ends.stopsDigits]
  cases after with
  | nil =>
      rfl
  | cons character rest =>
      obtain ⟨_, notPoint, notMark⟩ := ends character rfl
      simp [notPoint, notMark]

/-- A number that is written with digits only has no sign. -/
theorem readNumber_toDigits_append
    (value : Nat)
    (after : List Char) :
    readNumber (Nat.toDigits 10 value ++ after) =
      unsignedNumber false (Nat.toDigits 10 value ++ after) := by
  obtain ⟨first, others, shape, digit⟩ := exists_toDigits_eq_cons value
  have notSign : first ≠ '-' := ne_of_test digit rfl
  rw [shape, List.cons_append, readNumber]
  simpa using notSign

/-- The digits of a number of 64 bits read back as that number. -/
theorem readNumber_toDigits
    {value : Nat}
    {after : List Char}
    (fits : value < UInt64.size)
    (ends : EndsNumber after) :
    readNumber (Nat.toDigits 10 value ++ after) =
      .ok (.integer value, after) := by
  rw [readNumber_toDigits_append, unsignedNumber_toDigits ends,
    wholeNumber_toDigits fits]
  rfl

/-! ## Which integers are read -/

/-- A decimal is not an integer. -/
theorem realNumber_ne_integer
    (decimal : Decimal)
    (value : Int) :
    realNumber decimal ≠ .ok (.integer value) := by
  unfold realNumber
  split <;> simp

/-- A number with a fraction or an exponent is not an integer. -/
theorem scaledNumber_ne_integer
    (negative : Bool)
    (whole fraction : List Char)
    (exponent : Option (Bool × List Char))
    (value : Int) :
    scaledNumber negative whole fraction exponent ≠
      .ok (.integer value) := by
  cases exponent with
  | none =>
      exact realNumber_ne_integer _ _
  | some exponent =>
      simp only [scaledNumber]
      split
      · exact realNumber_ne_integer _ _
      · split
        · simp
        · exact realNumber_ne_integer _ _

/-- Digits that are all taken make the number that they are written for. -/
theorem eq_of_absorbDigits
    {significand whole : Nat}
    {digits : List Char}
    (absorbed : absorbDigits significand digits = (whole, [])) :
    whole = Nat.ofDigitChars 10 digits significand := by
  induction digits generalizing significand with
  | nil =>
      cases absorbed
      rfl
  | cons digit rest inductionHypothesis =>
      rw [absorbDigits] at absorbed
      split at absorbed
      · rw [inductionHypothesis absorbed, Nat.ofDigitChars_cons, Nat.mul_comm]
        rfl
      · simp at absorbed

/-- Digits that are read as an integer are read as the one they are written for. -/
theorem eq_of_wholeNumber
    {negative : Bool}
    {value : Nat}
    {found : Int}
    (isRead :
      wholeNumber negative (Nat.toDigits 10 value) = .ok (.integer found)) :
    found = if negative then -(value : Int) else value := by
  obtain ⟨whole, leftOut, absorbed⟩ :
      ∃ whole leftOut,
        absorbDigits 0 (Nat.toDigits 10 value) = (whole, leftOut) :=
    ⟨_, _, rfl⟩
  simp only [wholeNumber, absorbed] at isRead
  split at isRead
  · exact absurd isRead (realNumber_ne_integer _ _)
  · next allTaken =>
      have taken : leftOut = [] := by
        simpa using allTaken
      subst taken
      have same := eq_of_absorbDigits absorbed
      rw [Nat.ofDigitChars_ten_toDigits] at same
      subst same
      split at isRead
      · next positive =>
          cases isRead
          simp_all
      · next signed =>
          split at isRead
          · exact absurd isRead (realNumber_ne_integer _ _)
          · cases isRead
            simp_all

/-- Digits that are read as an integer after a sign are read to their end. -/
theorem eq_of_unsignedNumber
    {negative : Bool}
    {value : Nat}
    {found : Int}
    {after rest : List Char}
    (ends : EndsNumber after)
    (isRead :
      unsignedNumber negative (Nat.toDigits 10 value ++ after) =
        .ok (.integer found, rest)) :
    found = (if negative then -(value : Int) else value) ∧ rest = after := by
  rw [unsignedNumber_toDigits ends] at isRead
  cases number : wholeNumber negative (Nat.toDigits 10 value) with
  | error flaw =>
      rw [number] at isRead
      contradiction
  | ok other =>
      rw [number, map_ok] at isRead
      cases isRead
      exact ⟨eq_of_wholeNumber number, rfl⟩

/-- A written whole number that is read as an integer is read back. -/
theorem eq_of_readNumber_intChars
    {value found : Int}
    {after rest : List Char}
    (ends : EndsNumber after)
    (isRead :
      readNumber (intChars value ++ after) = .ok (.integer found, rest)) :
    found = value ∧ rest = after := by
  cases value with
  | negSucc less =>
      exact eq_of_unsignedNumber ends isRead
  | ofNat value =>
      rw [intChars, readNumber_toDigits_append] at isRead
      exact eq_of_unsignedNumber ends isRead

/-- Digits that are taken are not none. -/
theorem isEmpty_of_someDigits
    {text digits rest : List Char}
    (taken : someDigits text = .ok (digits, rest)) :
    digits.isEmpty = false := by
  simp only [someDigits] at taken
  split at taken
  · contradiction
  · next nonempty =>
      cases taken
      exact Bool.eq_false_iff.mpr nonempty

/-- A whole part that goes on with a mark is not read as an integer. -/
theorem unsignedNumber_ne_integer
    {negative : Bool}
    {text whole after : List Char}
    {mark : Char}
    (isWhole : wholeDigits text = .ok (whole, mark :: after))
    (marks : mark = '.' ∨ isExponentMark mark = true)
    (value : Int)
    (rest : List Char) :
    unsignedNumber negative text ≠ .ok (.integer value, rest) := by
  have scaled
      {fraction left : List Char}
      {exponent : Option (Bool × List Char)} :
      (scaledNumber negative whole fraction exponent >>=
          fun number => pure (number, left)) ≠
        .ok (.integer value, rest) := by
    intro isRead
    obtain ⟨number, isNumber, returned⟩ := bind_eq_ok_iff.mp isRead
    cases returned
    exact scaledNumber_ne_integer _ _ _ _ _ isNumber
  intro isRead
  rw [unsignedNumber, isWhole, ok_bind] at isRead
  rcases marks with rfl | isMark
  · -- There is a fraction, whatever follows it.
    obtain ⟨⟨fraction, left⟩, isFraction, isRead⟩ :=
      bind_eq_ok_iff.mp isRead
    simp only [isEmpty_of_someDigits isFraction, Bool.false_and,
      Bool.false_eq_true, if_false] at isRead
    split at isRead
    · split at isRead
      · obtain ⟨_, _, isRead⟩ := bind_eq_ok_iff.mp isRead
        exact scaled isRead
      · exact scaled isRead
    · exact scaled isRead
  · -- There is no fraction, so the mark begins an exponent.
    have notPoint : mark ≠ '.' := ne_of_test isMark rfl
    simp only [List.cons.injEq, notPoint, false_and, imp_self,
      implies_true, pure_bind, isMark, if_true] at isRead
    obtain ⟨_, _, isRead⟩ := bind_eq_ok_iff.mp isRead
    exact scaled isRead

end ShaderTint.Json
