import ShaderTint.Proofs.Wire.RoundTrip

namespace ShaderTint.Wire

open Json

/-!
# Renderings of a value

A value can be written as compact text in more than one way. The members of an
object have no order of their own, and a number that is not whole has several
spellings. `Renders value after text` says that the text is one of these ways,
in front of the text that follows the value.

Main statement: `renders_compactOnto` says that what the printer writes is a
rendering. How renderings begin and how long they are is what a reader needs to know
of them.
-/

/-! ## Spellings of numbers -/

/-- The parts of a written number. -/
structure Spelling where
  negative : Bool
  whole : Nat
  fraction : List Char
  exponent : Option Int
  isDigit_of_mem :
    ∀ character ∈ fraction, isDigit character = true

namespace Spelling

/-- The exponent of a number, if it has one, in front of a text. -/
def exponentOnto : Option Int → List Char → List Char
  | none, after => after
  | some exponent, after => 'e' :: (intChars exponent ++ after)

/-- The fraction of a number, if it has one, in front of a text. -/
def fractionOnto : List Char → List Char → List Char
  | [], after => after
  | digit :: digits, after => '.' :: digit :: (digits ++ after)

/-- What follows the whole part of a number, in front of a text. -/
def scaleOnto
    (spelling : Spelling)
    (after : List Char) :
    List Char :=
  fractionOnto spelling.fraction (exponentOnto spelling.exponent after)

/-- A number in front of a text. -/
def onto
    (spelling : Spelling)
    (after : List Char) :
    List Char :=
  (if spelling.negative then ['-'] else []) ++
    (Nat.toDigits 10 spelling.whole ++ spelling.scaleOnto after)

/-- The number has a fraction, an exponent or both. -/
def IsReal
    (spelling : Spelling) :
    Prop :=
  spelling.fraction ≠ [] ∨ spelling.exponent ≠ none

/-- The spelling of a whole number. -/
def ofInt
    (value : Int) :
    Spelling where
  negative := decide (value < 0)
  whole := value.natAbs
  fraction := []
  exponent := none
  isDigit_of_mem := by
    simp

/-- A whole number is written as its spelling says. -/
theorem onto_ofInt
    (value : Int)
    (after : List Char) :
    (ofInt value).onto after = intChars value ++ after := by
  cases value with
  | ofNat value =>
      simp [onto, ofInt, scaleOnto, fractionOnto, exponentOnto, intChars]
  | negSucc less =>
      simp [onto, ofInt, scaleOnto, fractionOnto, exponentOnto, intChars,
        Int.negSucc_lt_zero]

/-- The spelling of a decimal by its significand and its exponent. -/
def ofDecimal
    (decimal : Decimal) :
    Spelling where
  negative := decimal.negative
  whole := decimal.significand
  fraction := []
  exponent := some decimal.exponent
  isDigit_of_mem := by
    simp

/-- A decimal is written as its spelling says. -/
theorem onto_ofDecimal
    (decimal : Decimal)
    (after : List Char) :
    (ofDecimal decimal).onto after =
      numberChars (.real decimal) ++ after := by
  cases signed : decimal.negative <;>
    simp [onto, ofDecimal, scaleOnto, fractionOnto, exponentOnto,
      numberChars, signed]

end Spelling

/-! ## Renderings -/

mutual

/--
The text is a rendering of the value in front of what follows it.

The members of an object stand in any order. A number that is not whole stands in
any spelling with a fraction or an exponent; which number that is makes no
difference to a reader of trees.
-/
inductive Renders : Json → List Char → List Char → Prop where
  | null
      {after : List Char} :
      Renders .null after ('n' :: 'u' :: 'l' :: 'l' :: after)
  | true
      {after : List Char} :
      Renders (.bool true) after ('t' :: 'r' :: 'u' :: 'e' :: after)
  | false
      {after : List Char} :
      Renders (.bool false) after ('f' :: 'a' :: 'l' :: 's' :: 'e' :: after)
  | integer
      {value : Int}
      {after : List Char} :
      Renders (.number (.integer value)) after (intChars value ++ after)
  | real
      {decimal : Decimal}
      {spelling : Spelling}
      {after : List Char} :
      spelling.IsReal →
      Renders (.number (.real decimal)) after (spelling.onto after)
  | string
      {value : String}
      {after : List Char} :
      Renders (.string value) after (stringOnto value after)
  | array
      {items : List Json}
      {after text : List Char} :
      RendersItems true items after text →
      Renders (.array items) after ('[' :: text)
  | object
      {members others : List (String × Json)}
      {after text : List Char} :
      members.Perm others →
      RendersMembers true others after text →
      Renders (.object members) after ('\x7b' :: text)

/-- The text renders the items of an array up to its closing bracket. -/
inductive RendersItems :
    Bool → List Json → List Char → List Char → Prop where
  | nil
      {first : Bool}
      {after : List Char} :
      RendersItems first [] after (']' :: after)
  | cons
      {first : Bool}
      {item : Json}
      {items : List Json}
      {after others text : List Char} :
      Renders item others text →
      RendersItems false items after others →
      RendersItems first (item :: items) after (separated first text)

/-- The text renders the members of an object up to its closing brace. -/
inductive RendersMembers :
    Bool → List (String × Json) → List Char → List Char → Prop where
  | nil
      {first : Bool}
      {after : List Char} :
      RendersMembers first [] after ('\x7d' :: after)
  | cons
      {first : Bool}
      {name : String}
      {value : Json}
      {members : List (String × Json)}
      {after others text : List Char} :
      Renders value others text →
      RendersMembers false members after others →
      RendersMembers first ((name, value) :: members) after
        (separated first (stringOnto name (':' :: text)))

end

/-! ## The printer -/

mutual

/-- What the printer writes is a rendering. -/
theorem renders_compactOnto :
    (value : Json) →
      (after : List Char) →
        Renders value after (value.compactOnto after)
  | .null, after => by
      exact .null
  | .bool true, after => by
      exact .true
  | .bool false, after => by
      exact .false
  | .number (.integer value), after => by
      exact .integer
  | .number (.real decimal), after => by
      rw [compactOnto, ← Spelling.onto_ofDecimal]
      exact .real (.inr (by simp [Spelling.ofDecimal]))
  | .string value, after => by
      exact .string
  | .array [], after => by
      exact .array .nil
  | .array (first :: others), after => by
      rw [compactOnto]
      exact .array
        (.cons (renders_compactOnto first _)
          (rendersItems_compact others after))
  | .object [], after => by
      exact .object (.refl _) .nil
  | .object ((name, value) :: others), after => by
      rw [compactOnto]
      exact .object (.refl _)
        (.cons (renders_compactOnto value _)
          (rendersMembers_compact others after))

theorem rendersItems_compact :
    (items : List Json) →
      (after : List Char) →
        RendersItems false items after
          (compactItemsOnto items (']' :: after))
  | [], after => by
      exact .nil
  | item :: others, after => by
      rw [compactItemsOnto]
      exact .cons (renders_compactOnto item _)
        (rendersItems_compact others after)

theorem rendersMembers_compact :
    (members : List (String × Json)) →
      (after : List Char) →
        RendersMembers false members after
          (compactMembersOnto members ('\x7d' :: after))
  | [], after => by
      exact .nil
  | (name, value) :: others, after => by
      rw [compactMembersOnto]
      exact .cons (renders_compactOnto value _)
        (rendersMembers_compact others after)

end

/-! ## How renderings begin -/

/-- A value of this shape begins with the character. -/
def Opens : Json → Char → Prop
  | .null, character => character = 'n'
  | .bool _, character => character = 't' ∨ character = 'f'
  | .number _, character => startsNumber character = true
  | .string _, character => character = '"'
  | .array _, character => character = '['
  | .object _, character => character = '\x7b'

/-- A spelled number begins with a sign or a digit. -/
theorem Spelling.exists_onto_eq_cons
    (spelling : Spelling)
    (after : List Char) :
    ∃ character rest,
      spelling.onto after = character :: rest ∧
        startsNumber character = true := by
  obtain ⟨first, others, shape, digit⟩ :=
    exists_toDigits_eq_cons spelling.whole
  rw [onto, shape]
  cases spelling.negative with
  | true =>
      exact ⟨_, _, rfl, rfl⟩
  | false =>
      exact ⟨_, _, rfl, by simp [startsNumber, digit]⟩

/-- A rendering begins as its value does. -/
theorem Renders.exists_eq_cons
    {value : Json}
    {after text : List Char}
    (renders : Renders value after text) :
    ∃ character rest,
      text = character :: rest ∧ Opens value character := by
  cases renders with
  | true =>
      exact ⟨_, _, rfl, .inl rfl⟩
  | false =>
      exact ⟨_, _, rfl, .inr rfl⟩
  | integer =>
      rw [← Spelling.onto_ofInt]
      exact Spelling.exists_onto_eq_cons _ _
  | real =>
      exact Spelling.exists_onto_eq_cons _ _
  | _ =>
      exact ⟨_, _, rfl, rfl⟩

section

variable {value : Json} {character : Char}

/-- A value does not begin with a character that its shape does not begin with. -/
theorem Opens.ne
    {other : Char}
    (opens : Opens value character)
    (unlike : ¬Opens value other) :
    character ≠ other := by
  rintro rfl
  exact unlike opens

/-- No value begins with a closing bracket. -/
theorem Opens.ne_closing
    (opens : Opens value character) :
    character ≠ ']' := by
  apply opens.ne
  cases value <;> simp [Opens, startsNumber, isDigit]

/-- No value begins with a blank. -/
theorem Opens.isBlank_eq_false
    (opens : Opens value character) :
    isBlank character = false := by
  cases value with
  | number number =>
      rw [Opens, startsNumber, Bool.or_eq_true, beq_iff_eq] at opens
      rcases opens with rfl | digit
      · decide
      · exact isBlank_of_isDigit digit
  | bool value =>
      rcases opens with rfl | rfl <;> decide
  | _ =>
      rw [show character = _ from opens]
      decide

/-- What begins like a number is a number. -/
theorem Opens.exists_number
    (opens : Opens value character)
    (starts : startsNumber character = true) :
    ∃ number, value = .number number := by
  cases value with
  | number number =>
      exact ⟨number, rfl⟩
  | bool value =>
      rcases opens with rfl | rfl <;> contradiction
  | _ =>
      rw [show character = _ from opens] at starts
      contradiction

end

/-! ## What follows a value -/

/-- After an item of an array no number goes on. -/
theorem RendersItems.endsNumber
    {items : List Json}
    {after text : List Char}
    (renders : RendersItems false items after text) :
    EndsNumber text := by
  cases renders <;> exact endsNumber_cons (by decide) _

/-- After a member of an object no number goes on. -/
theorem RendersMembers.endsNumber
    {members : List (String × Json)}
    {after text : List Char}
    (renders : RendersMembers false members after text) :
    EndsNumber text := by
  cases renders <;> exact endsNumber_cons (by decide) _

/-! ## How long renderings are -/

theorem length_le_separated
    (first : Bool)
    (text : List Char) :
    text.length ≤ (separated first text).length := by
  cases first with
  | true =>
      exact Nat.le_refl _
  | false =>
      exact Nat.le_succ _

theorem Spelling.length_lt_onto
    (spelling : Spelling)
    (after : List Char) :
    after.length < (spelling.onto after).length := by
  have written :=
    List.length_pos_iff.mpr
      (Nat.toDigits_ne_nil (n := spelling.whole) (b := 10))
  have scaled : after.length ≤ (spelling.scaleOnto after).length := by
    unfold scaleOnto
    cases spelling.exponent <;> cases spelling.fraction <;>
      simp [fractionOnto, exponentOnto] <;> omega
  simp only [onto, List.length_append]
  omega

mutual

/-- A rendering adds to the text after it. -/
theorem Renders.length_lt
    {value : Json}
    {after text : List Char} :
    Renders value after text → after.length < text.length
  | .null => by
      simp only [List.length_cons]
      omega
  | .true => by
      simp only [List.length_cons]
      omega
  | .false => by
      simp only [List.length_cons]
      omega
  | .integer => by
      rw [← Spelling.onto_ofInt]
      exact Spelling.length_lt_onto _ _
  | .real _ =>
      Spelling.length_lt_onto _ _
  | .string =>
      length_lt_stringOnto _ _
  | .array items => by
      have ofItems := items.length_add_lt
      rw [List.length_cons]
      omega
  | .object _ members => by
      have ofMembers := members.length_add_lt
      rw [List.length_cons]
      omega

/-- Every item adds to the text after an array. -/
theorem RendersItems.length_add_lt
    {first : Bool}
    {items : List Json}
    {after text : List Char} :
    RendersItems first items after text →
      after.length + items.length < text.length
  | .nil => by
      simp
  | @RendersItems.cons _ _ _ _ _ written item items => by
      have ofItem := item.length_lt
      have ofItems := items.length_add_lt
      have added := length_le_separated first written
      rw [List.length_cons]
      omega

/-- Every member adds to the text after an object. -/
theorem RendersMembers.length_add_lt
    {first : Bool}
    {members : List (String × Json)}
    {after text : List Char} :
    RendersMembers first members after text →
      after.length + members.length < text.length
  | .nil => by
      simp
  | @RendersMembers.cons _ name _ _ _ _ written value members => by
      have ofValue := value.length_lt
      have ofMembers := members.length_add_lt
      have ofName := length_lt_stringOnto name (':' :: written)
      have added :=
        length_le_separated first (stringOnto name (':' :: written))
      rw [List.length_cons] at ofName ⊢
      omega

end

end ShaderTint.Wire
