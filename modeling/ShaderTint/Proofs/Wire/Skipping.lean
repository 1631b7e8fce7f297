import ShaderTint.Json.Skip
import ShaderTint.Proofs.Wire.Rendering

namespace ShaderTint.Wire

open Json

/-!
# Values that nobody asks for

A reader passes over the value of an unknown member. It looks at the words of the
value and at its brackets, keeps a list of those that are open, and takes its fuel
from the length of the text. Every step of it shortens the text, so it comes to the
end of the value with fuel to spare.

Main statement: `skipValue_renders` says that skipping a value leaves what follows it,
in every rendering of the value.
-/

/-! ## Skipping words -/

/-- What a skip has to know about where a reader stands in a string literal. -/
def skipStateOf : StringState → SkipState
  | .plain => .plain
  | .escaped => .escaped
  | .numbered _ remaining _ => .numbered remaining
  | .unpaired _ => .plain
  | .unpairedEscaped _ => .escaped

/-- After a complete numbered escape a skip reads on as usual. -/
theorem skipStateOf_of_closeEscape
    {high : Option Nat}
    {unit : Nat}
    {done more : List Char}
    {state : StringState}
    (closed : closeEscape high unit done = .ok (state, more)) :
    skipStateOf state = .plain := by
  unfold closeEscape at closed
  split at closed
  · split at closed
    · cases closed
      rfl
    · contradiction
  · split at closed
    · contradiction
    · split at closed <;> cases closed <;> rfl

/-- A string literal that can be read can be skipped. -/
theorem skipString_of_stringRest
    {state : StringState}
    {done text rest : List Char}
    {value : String}
    (read : stringRest state done text = .ok (value, rest)) :
    skipString (skipStateOf state) text = .ok rest := by
  fun_induction stringRest state done text with
  | case11 high remaining unit done character text digit isHex last
      state done closed inductionHypothesis =>
      -- The last digit of a numbered escape may leave a reader in half a pair.
      rw [skipStateOf_of_closeEscape closed] at inductionHypothesis
      simp [skipStateOf, skipString, isHex, last, inductionHypothesis read]
  | case13 high remaining unit done character text digit isHex more
      inductionHypothesis =>
      simp only [skipStateOf] at inductionHypothesis
      simp [skipStateOf, skipString, isHex, more, inductionHypothesis read]
  | _ =>
      simp_all [skipStateOf, skipString]

theorem skipString_escaped
    (value : String)
    (after : List Char) :
    skipString .plain (value.toList.flatMap escapeChar ++ '"' :: after) =
      .ok after :=
  skipString_of_stringRest (stringBody_escaped value after)

/-- Digits are skipped up to where they stop. -/
theorem skipDigits_append
    {digits after : List Char}
    (allDigits : ∀ character ∈ digits, isDigit character = true)
    (nonempty : digits ≠ [])
    (stops : StopsDigits after) :
    skipDigits (digits ++ after) = .ok after := by
  obtain ⟨digit, others, rfl⟩ := List.exists_cons_of_ne_nil nonempty
  obtain ⟨isFirst, areOthers⟩ := List.forall_mem_cons.mp allDigits
  have noMore : after.dropWhile isDigit = after := by
    cases after with
    | nil =>
        rfl
    | cons character rest =>
        simp [stops character rfl]
  simp [skipDigits, isFirst, List.dropWhile_append_of_pos areOthers,
    noMore]

theorem skipDigits_toDigits
    {after : List Char}
    (stops : StopsDigits after)
    (value : Nat) :
    skipDigits (Nat.toDigits 10 value ++ after) = .ok after :=
  skipDigits_append (fun _ => isDigit_of_mem_toDigits)
    Nat.toDigits_ne_nil stops

/-- An exponent is skipped. -/
theorem skipExponent_exponentOnto
    {after : List Char}
    (ends : EndsNumber after)
    (exponent : Option Int) :
    skipExponent (Spelling.exponentOnto exponent after) = .ok after := by
  cases exponent with
  | none =>
      cases after with
      | nil =>
          rfl
      | cons character rest =>
          simp [Spelling.exponentOnto, skipExponent,
            (ends character rfl).2.2]
  | some exponent =>
      have skipped := skipDigits_toDigits ends.stopsDigits
      cases exponent with
      | negSucc less =>
          exact skipped (less + 1)
      | ofNat value =>
          -- The first digit is not taken for a sign.
          obtain ⟨first, others, shape, digit⟩ :=
            exists_toDigits_eq_cons value
          have unsigned :
              skipExponent ('e' :: (Nat.toDigits 10 value ++ after)) =
                skipDigits (Nat.toDigits 10 value ++ after) := by
            have notPlus : first ≠ '+' := ne_of_test digit rfl
            have notMinus : first ≠ '-' := ne_of_test digit rfl
            simp [shape, skipExponent, isExponentMark, notPlus, notMinus]
          rw [Spelling.exponentOnto, intChars, unsigned, skipped]

/-- Skip what follows the whole part of a number. -/
def skipScale : List Char → Except Flaw (List Char)
  | '.' :: rest => skipDigits rest >>= skipExponent
  | rest => skipExponent rest

theorem skipScale_of_ne
    {character : Char}
    (notPoint : character ≠ '.')
    (text : List Char) :
    skipScale (character :: text) = skipExponent (character :: text) := by
  simp [skipScale, notPoint]

/-- The whole part of a number is skipped. -/
theorem skipNumber_toDigits
    {after : List Char}
    (stops : StopsDigits after)
    (value : Nat) :
    skipNumber (Nat.toDigits 10 value ++ after) = skipScale after := by
  rcases Nat.eq_zero_or_pos value with rfl | positive
  · -- A zero stands alone.
    cases after with
    | nil =>
        rfl
    | cons character rest =>
        simp only [skipNumber, Nat.toDigits_zero, List.cons_append,
          List.nil_append, List.cons.injEq, Char.reduceEq, false_and,
          imp_self, implies_true, stops character rfl, Bool.false_eq_true,
          if_false, pure_bind]
        rfl
  · have skipped := skipDigits_toDigits stops value
    have leading := head?_toDigits positive
    obtain ⟨first, others, shape, digit⟩ := exists_toDigits_eq_cons value
    have notMinus : first ≠ '-' := ne_of_test digit rfl
    rw [shape] at skipped leading ⊢
    have notZero : first ≠ '0' := by
      simpa using leading
    rw [List.cons_append] at skipped ⊢
    simp only [skipNumber, List.cons.injEq, notMinus, notZero, false_and,
      imp_self, implies_true, skipped, ok_bind]
    rfl

/-- A sign in front of digits is skipped. -/
theorem skipNumber_minus
    (value : Nat)
    (after : List Char) :
    skipNumber ('-' :: (Nat.toDigits 10 value ++ after)) =
      skipNumber (Nat.toDigits 10 value ++ after) := by
  obtain ⟨first, others, shape, digit⟩ := exists_toDigits_eq_cons value
  have notMinus : first ≠ '-' := ne_of_test digit rfl
  simp [shape, skipNumber, notMinus]

section

variable {after : List Char} (ends : EndsNumber after)

include ends

theorem stopsDigits_exponentOnto
    (exponent : Option Int) :
    StopsDigits (Spelling.exponentOnto exponent after) := by
  cases exponent with
  | none =>
      exact ends.stopsDigits
  | some exponent =>
      exact stopsDigits_cons (by decide) _

theorem stopsDigits_scaleOnto
    (spelling : Spelling) :
    StopsDigits (spelling.scaleOnto after) := by
  unfold Spelling.scaleOnto
  cases spelling.fraction with
  | nil =>
      exact stopsDigits_exponentOnto ends spelling.exponent
  | cons digit digits =>
      exact stopsDigits_cons (by decide) _

/-- A fraction and an exponent are skipped. -/
theorem skipScale_scaleOnto
    (spelling : Spelling) :
    skipScale (spelling.scaleOnto after) = .ok after := by
  obtain ⟨negative, whole, fraction, exponent, allDigits⟩ := spelling
  have skipped := skipExponent_exponentOnto ends exponent
  cases fraction with
  | cons digit digits =>
      have fractionSkipped :=
        skipDigits_append allDigits (List.cons_ne_nil digit digits)
          (stopsDigits_exponentOnto ends exponent)
      rw [List.cons_append] at fractionSkipped
      simp [Spelling.scaleOnto, Spelling.fractionOnto, skipScale,
        fractionSkipped, skipped]
  | nil =>
      cases exponent with
      | some exponent =>
          exact skipped
      | none =>
          cases after with
          | nil =>
              rfl
          | cons character rest =>
              exact (skipScale_of_ne (ends character rfl).2.1 rest).trans
                skipped

/-- A number is skipped in every spelling. -/
theorem skipNumber_onto
    (spelling : Spelling) :
    skipNumber (spelling.onto after) = .ok after := by
  have unsigned :
      skipNumber
          (Nat.toDigits 10 spelling.whole ++ spelling.scaleOnto after) =
        .ok after := by
    rw [skipNumber_toDigits (stopsDigits_scaleOnto ends spelling)]
    exact skipScale_scaleOnto ends spelling
  cases signed : spelling.negative with
  | true =>
      simpa [Spelling.onto, signed, skipNumber_minus] using unsigned
  | false =>
      simpa [Spelling.onto, signed] using unsigned

end

/-! ## Skipping values -/

/--
A skip comes to what follows, within the open brackets.

With fuel for the characters of its text it has fuel for those that are left.
-/
def SkipsTo
    (skip : Nat → List Char → Except Flaw (List Char))
    (opened : List Bracket)
    (after text : List Char) :
    Prop :=
  ∀ fuel,
    text.length ≤ fuel →
    ∃ left,
      after.length ≤ left ∧ skip fuel text = skipAfter left opened after

/-- Nothing is left to skip. -/
theorem SkipsTo.refl
    (opened : List Bracket)
    (after : List Char) :
    SkipsTo (skipAfter · opened) opened after after :=
  fun fuel enough => ⟨fuel, enough, rfl⟩

/-- A skip goes on after one of its steps. -/
theorem SkipsTo.step
    {skip next : Nat → List Char → Except Flaw (List Char)}
    {opened : List Bracket}
    {after text rest : List Char}
    (later : SkipsTo next opened after rest)
    (shorter : rest.length < text.length)
    (stepped : ∀ fuel, skip (fuel + 1) text = next fuel rest) :
    SkipsTo skip opened after text := by
  intro fuel enough
  obtain ⟨less, rfl⟩ :=
    Nat.exists_eq_add_one_of_ne_zero (show fuel ≠ 0 by omega)
  rw [stepped]
  exact later less (by omega)

/-- A skip goes on where another one comes to. -/
theorem SkipsTo.trans
    {skip : Nat → List Char → Except Flaw (List Char)}
    {inner opened : List Bracket}
    {after middle text : List Char}
    (first : SkipsTo skip inner middle text)
    (second : SkipsTo (skipAfter · inner) opened after middle) :
    SkipsTo skip opened after text := by
  intro fuel enough
  obtain ⟨left, stillEnough, skipped⟩ := first fuel enough
  rw [skipped]
  exact second left stillEnough

/-- A number is skipped as a word. -/
theorem skipsTo_number
    {opened : List Bracket}
    {after : List Char}
    (ends : EndsNumber after)
    (spelling : Spelling) :
    SkipsTo (skipValueIn · opened) opened after (spelling.onto after) := by
  apply (SkipsTo.refl opened after).step (spelling.length_lt_onto after)
  intro fuel
  have skipped := skipNumber_onto ends spelling
  obtain ⟨character, rest, shape, starts⟩ :=
    spelling.exists_onto_eq_cons after
  have opens : Opens (.ofNat 0) character := starts
  rw [shape] at skipped ⊢
  rw [skipValueIn, skipBlanks_cons opens.isBlank_eq_false]
  split
  case h_8 same =>
    cases same
    rw [if_pos starts, skipped, ok_bind]
  all_goals
    rename_i same
    cases same <;> contradiction

/-- Skip the items of an array, from the first one on or after one of them. -/
def skipItems
    (opened : List Bracket) :
    Bool → Nat → List Char → Except Flaw (List Char)
  | true, fuel, text =>
      match skipBlanks text with
      | ']' :: rest => skipAfter fuel opened rest
      | rest => skipValueIn fuel (.square :: opened) rest
  | false, fuel, text => skipAfter fuel (.square :: opened) text

/-- Skip the members of an object, from the first one on or after one of them. -/
def skipMembers
    (opened : List Bracket) :
    Bool → Nat → List Char → Except Flaw (List Char)
  | true, fuel, text =>
      match skipBlanks text with
      | '\x7d' :: rest => skipAfter fuel opened rest
      | rest => skipMemberIn fuel (.brace :: opened) rest
  | false, fuel, text => skipAfter fuel (.brace :: opened) text

/-- Items are skipped when the next one and all after it are. -/
theorem SkipsTo.items
    {opened : List Bracket}
    {after text : List Char}
    {character : Char}
    (notBlank : isBlank character = false)
    (notClosing : character ≠ ']')
    (later :
      SkipsTo (skipValueIn · (.square :: opened)) opened after
        (character :: text))
    (first : Bool) :
    SkipsTo (skipItems opened first) opened after
      (separated first (character :: text)) := by
  cases first with
  | true =>
      intro fuel enough
      have same :
          skipItems opened true fuel (character :: text) =
            skipValueIn fuel (.square :: opened) (character :: text) := by
        simp [skipItems, skipBlanks_cons notBlank, notClosing]
      simp only [separated, if_true] at enough ⊢
      rw [same]
      exact later fuel enough
  | false =>
      apply later.step
      · simp [separated]
      · intro fuel
        rfl

/-- Members are skipped when the next one and all after it are. -/
theorem SkipsTo.members
    {opened : List Bracket}
    {name : String}
    {after text : List Char}
    (later :
      SkipsTo (skipValueIn · (.brace :: opened)) opened after text)
    (first : Bool) :
    SkipsTo (skipMembers opened first) opened after
      (separated first (stringOnto name (':' :: text))) := by
  have member :
      SkipsTo (skipMemberIn · (.brace :: opened)) opened after
        (stringOnto name (':' :: text)) := by
    apply later.step
    · have longer := length_lt_stringOnto name (':' :: text)
      rw [List.length_cons] at longer
      omega
    · intro fuel
      rw [stringOnto, skipMemberIn, skipBlanks_cons (by decide)]
      simp [skipString_escaped, readColon_colon]
  cases first with
  | true =>
      exact member
  | false =>
      apply member.step
      · simp [separated]
      · intro fuel
        rfl

mutual

/-- A value is skipped in every rendering of it. -/
theorem Renders.skipsTo
    {value : Json}
    {after text : List Char} :
    Renders value after text →
      EndsNumber after →
      (opened : List Bracket) →
      SkipsTo (skipValueIn · opened) opened after text
  | .null, _, opened =>
      (SkipsTo.refl opened after).step Renders.null.length_lt fun _ => rfl
  | .true, _, opened =>
      (SkipsTo.refl opened after).step Renders.true.length_lt fun _ => rfl
  | .false, _, opened =>
      (SkipsTo.refl opened after).step Renders.false.length_lt fun _ => rfl
  | .integer, ends, opened => by
      rw [← Spelling.onto_ofInt]
      exact skipsTo_number ends _
  | .real _, ends, opened =>
      skipsTo_number ends _
  | @Renders.string value _, _, opened => by
      apply (SkipsTo.refl opened after).step Renders.string.length_lt
      intro fuel
      rw [stringOnto, skipValueIn, skipBlanks_cons (by decide)]
      simp [skipString_escaped]
  | .array items, _, opened =>
      (items.skipsTo opened).step (Nat.lt_succ_self _) fun _ => rfl
  | .object _ members, _, opened =>
      (members.skipsTo opened).step (Nat.lt_succ_self _) fun _ => rfl

theorem RendersItems.skipsTo
    {first : Bool}
    {items : List Json}
    {after text : List Char} :
    RendersItems first items after text →
      (opened : List Bracket) →
      SkipsTo (skipItems opened first) opened after text
  | .nil, opened => by
      cases first with
      | true =>
          intro fuel enough
          exact ⟨fuel, Nat.le_of_succ_le enough, rfl⟩
      | false =>
          exact (SkipsTo.refl opened after).step (Nat.lt_succ_self _)
            fun _ => rfl
  | .cons item items, opened => by
      have ofItem := item.skipsTo items.endsNumber (.square :: opened)
      obtain ⟨character, rest, rfl, opens⟩ := item.exists_eq_cons
      exact (ofItem.trans (items.skipsTo opened)).items
        opens.isBlank_eq_false opens.ne_closing first

theorem RendersMembers.skipsTo
    {first : Bool}
    {members : List (String × Json)}
    {after text : List Char} :
    RendersMembers first members after text →
      (opened : List Bracket) →
      SkipsTo (skipMembers opened first) opened after text
  | .nil, opened => by
      cases first with
      | true =>
          intro fuel enough
          exact ⟨fuel, Nat.le_of_succ_le enough, rfl⟩
      | false =>
          exact (SkipsTo.refl opened after).step (Nat.lt_succ_self _)
            fun _ => rfl
  | .cons value members, opened => by
      have ofValue := value.skipsTo members.endsNumber (.brace :: opened)
      exact (ofValue.trans (members.skipsTo opened)).members first

end

/-- Skipping a value leaves what follows it, in every rendering of the value. -/
theorem skipValue_renders
    {value : Json}
    {after text : List Char}
    (renders : Renders value after text)
    (ends : EndsNumber after) :
    skipValue text = .ok after := by
  have enough : text.length ≤ fuelFor text := by
    rw [fuelFor]
    omega
  obtain ⟨left, _, skipped⟩ := renders.skipsTo ends [] _ enough
  exact skipped.trans (by rw [skipAfter])

end ShaderTint.Wire
