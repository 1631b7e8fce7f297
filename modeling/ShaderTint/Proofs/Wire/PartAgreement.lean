import ShaderTint.Proofs.Wire.Grammar
import ShaderTint.Proofs.Wire.Skipping

namespace ShaderTint.Wire

open Json

/-!
# The parts of a node are read as they are decoded

`Agrees` says that a reader of text accepts just what a decoder of values accepts,
with the same result. Here it is shown for the parts of a node, in every rendering of
a value: byte offsets, spans and names.

Main statements: `readSpan_renders` and `readVariant_renders`.
-/

/-! ## Agreement -/

/--
Reading succeeds just when decoding does, with the same result, and leaves what
follows.
-/
def Agrees
    (read : Except TextFault (α × List Char))
    (decoded : Except DataFault α)
    (after : List Char) :
    Prop :=
  read.toOption = decoded.toOption.map (·, after)

@[simp]
theorem toOption_bind
    (first : Except ε α)
    (next : α → Except ε β) :
    (first >>= next).toOption =
      first.toOption.bind fun value => (next value).toOption := by
  cases first <;> rfl

theorem agrees_iff
    {read : Except TextFault (α × List Char)}
    {decoded : Except DataFault α}
    {after : List Char} :
    Agrees read decoded after ↔
      ∀ value rest,
        read = .ok (value, rest) ↔ decoded = .ok value ∧ rest = after := by
  constructor
  · intro agrees value rest
    rw [← toOption_eq_some_iff, agrees]
    cases decoded <;> simp [eq_comm]
  · intro same
    apply Option.ext
    rintro ⟨value, rest⟩
    rw [toOption_eq_some_iff, same]
    cases decoded <;> simp [eq_comm]

/-- Two failures agree. -/
theorem Agrees.of_none
    {read : Except TextFault (α × List Char)}
    {decoded : Except DataFault α}
    {after : List Char}
    (notRead : read.toOption = none)
    (notDecoded : decoded.toOption = none) :
    Agrees read decoded after := by
  rw [Agrees, notRead, notDecoded]
  rfl

/-- What was decoded agrees with itself. -/
theorem Agrees.of_decoded
    (decoded : Except DataFault α)
    (after : List Char) :
    Agrees (data decoded >>= fun value => pure (value, after)) decoded
      after := by
  cases decoded <;> rfl

/-- Steps that agree one after the other agree. -/
theorem Agrees.bind
    {read : Except TextFault (α × List Char)}
    {decoded : Except DataFault α}
    {middle after : List Char}
    {next : α × List Char → Except TextFault (β × List Char)}
    {nextDecoded : α → Except DataFault β}
    (agrees : Agrees read decoded middle)
    (later : ∀ value, Agrees (next (value, middle)) (nextDecoded value) after) :
    Agrees (read >>= next) (decoded >>= nextDecoded) after := by
  rw [Agrees, toOption_bind, agrees, toOption_bind]
  cases decoded with
  | error fault =>
      rfl
  | ok value =>
      exact later value

/-! ## Offsets -/

/-- After the whole part, a number that is not whole goes on with a mark. -/
theorem Spelling.IsReal.exists_scaleOnto_eq_cons
    {spelling : Spelling}
    (isReal : spelling.IsReal)
    (after : List Char) :
    ∃ mark rest,
      spelling.scaleOnto after = mark :: rest ∧
        (mark = '.' ∨ isExponentMark mark = true) := by
  obtain ⟨negative, whole, fraction, exponent, allDigits⟩ := spelling
  cases fraction with
  | cons digit digits =>
      exact ⟨_, _, rfl, .inl rfl⟩
  | nil =>
      cases exponent with
      | some exponent =>
          exact ⟨_, _, rfl, .inr rfl⟩
      | none =>
          rcases isReal with noFraction | noExponent
          · exact absurd rfl noFraction
          · exact absurd rfl noExponent

/-- A number with a fraction or an exponent is not read as an integer. -/
theorem readNumber_onto_ne_integer
    {spelling : Spelling}
    (isReal : spelling.IsReal)
    (after : List Char)
    (value : Int)
    (rest : List Char) :
    readNumber (spelling.onto after) ≠ .ok (.integer value, rest) := by
  obtain ⟨mark, scale, scaled, marks⟩ :=
    isReal.exists_scaleOnto_eq_cons after
  have notDigit : isDigit mark = false := by
    rcases marks with rfl | isMark
    · decide
    · rw [isExponentMark, Bool.or_eq_true, beq_iff_eq, beq_iff_eq] at isMark
      rcases isMark with rfl | rfl <;> decide
  have isWhole :=
    wholeDigits_toDigits (stopsDigits_cons notDigit scale) spelling.whole
  rw [Spelling.onto, scaled]
  cases spelling.negative with
  | true =>
      exact unsignedNumber_ne_integer isWhole marks value rest
  | false =>
      rw [if_neg (by decide), List.nil_append, readNumber_toDigits_append]
      exact unsignedNumber_ne_integer isWhole marks value rest

/-- An offset is read from an integer. -/
theorem exists_of_readOffset
    {text rest : List Char}
    {offset : { offset : Nat // offset < offsetLimit }}
    (isRead : readOffset text = .ok (offset, rest)) :
    ∃ character left value,
      skipBlanks text = character :: left ∧
        startsNumber character = true ∧
        readNumber (character :: left) = .ok (.integer value, rest) ∧
        offsetOf value = .ok offset := by
  rw [readOffset] at isRead
  split at isRead
  · contradiction
  · next character left shape =>
      split at isRead
      · next starts =>
          obtain ⟨⟨number, afterNumber⟩, isNumber, isRead⟩ :=
            bind_eq_ok_iff.mp isRead
          cases number with
          | integer value =>
              obtain ⟨found, isOffset, returned⟩ :=
                bind_eq_ok_iff.mp isRead
              cases returned
              exact ⟨character, left, value, shape, starts,
                word_eq_ok_iff.mp isNumber, data_eq_ok_iff.mp isOffset⟩
          | real decimal =>
              contradiction
      · contradiction

/-- An offset is read just when its value is decoded. -/
theorem readOffset_renders
    {value : Json}
    {after text : List Char}
    (renders : Renders value after text)
    (ends : EndsNumber after) :
    Agrees (readOffset text) (offsetOfJson value) after := by
  rw [agrees_iff]
  intro offset rest
  constructor
  · intro isRead
    obtain ⟨character, left, found, shape, starts, isNumber, isOffset⟩ :=
      exists_of_readOffset isRead
    obtain ⟨other, others, begins, opens⟩ := renders.exists_eq_cons
    rw [begins, skipBlanks_cons opens.isBlank_eq_false] at shape
    cases shape
    rw [← begins] at isNumber
    obtain ⟨number, rfl⟩ := opens.exists_number starts
    cases renders with
    | integer =>
        obtain ⟨rfl, rfl⟩ := eq_of_readNumber_intChars ends isNumber
        exact ⟨isOffset, rfl⟩
    | real isReal =>
        exact absurd isNumber (readNumber_onto_ne_integer isReal _ _ _)
  · rintro ⟨decoded, rfl⟩
    rw [offsetOfJson_eq_ok_iff.mp decoded] at renders
    cases renders
    exact readOffset_toDigits offset.property ends

/-! ## Items -/

section

variable
  {first : Bool}
  {item : Json}
  {items : List Json}
  {after text : List Char}

/-- No item is found where no more are written. -/
theorem RendersItems.nextElement_nil
    (renders : RendersItems first [] after text) :
    nextElement first text = .ok none := by
  cases renders
  cases first <;> rfl

/-- The bracket closes where no more items are written. -/
theorem RendersItems.closeArray_nil
    (renders : RendersItems first [] after text) :
    closeArray text = .ok after := by
  cases renders
  rfl

/-- The bracket does not close where more items are written. -/
theorem RendersItems.closeArray_cons
    (renders : RendersItems false (item :: items) after text) :
    closeArray text = .error malformed := by
  cases renders
  rfl

/-- An item that is written is found. -/
theorem RendersItems.exists_nextElement
    (renders : RendersItems first (item :: items) after text) :
    ∃ written others,
      nextElement first text = .ok (some written) ∧
        Renders item others written ∧
        RendersItems false items after others := by
  cases renders with
  | @cons _ _ _ _ others written ofItem ofItems =>
      obtain ⟨character, rest, rfl, opens⟩ := ofItem.exists_eq_cons
      have found :=
        nextElement_separated opens.isBlank_eq_false opens.ne_closing
          first rest
      exact ⟨_, others, found, ofItem, ofItems⟩

end

/-! ## Spans -/

/-- The two ends of a span are read just when they are decoded. -/
theorem readPair_renders
    {items : List Json}
    {after text : List Char}
    (renders : RendersItems true items after text) :
    Agrees (readPair text) (spanOfJson (.array items)) after := by
  match items with
  | [] =>
      rw [readPair, renders.nextElement_nil]
      exact .of_none rfl rfl
  | [start] =>
      obtain ⟨startText, others, startFound, ofStart, noMore⟩ :=
        renders.exists_nextElement
      rw [readPair, startFound, ok_bind, spanOfJson]
      apply (readOffset_renders ofStart noMore.endsNumber).bind
      intro startOffset
      dsimp only
      rw [noMore.nextElement_nil]
      exact .of_none rfl rfl
  | start :: stop :: rest =>
      obtain ⟨startText, others, startFound, ofStart, ofOthers⟩ :=
        renders.exists_nextElement
      obtain ⟨stopText, left, stopFound, ofStop, ofLeft⟩ :=
        ofOthers.exists_nextElement
      rw [readPair, startFound, ok_bind, spanOfJson]
      apply (readOffset_renders ofStart ofOthers.endsNumber).bind
      intro startOffset
      dsimp only
      rw [stopFound, ok_bind]
      apply (readOffset_renders ofStop ofLeft.endsNumber).bind
      intro stopOffset
      cases rest with
      | nil =>
          dsimp only
          rw [ofLeft.closeArray_nil, ok_bind]
          exact .of_decoded _ after
      | cons more items =>
          dsimp only
          rw [ofLeft.closeArray_cons]
          exact .of_none rfl rfl

/-- A span is not read from what does not open an array. -/
theorem toOption_readSpan_of_ne
    {character : Char}
    (notBlank : isBlank character = false)
    (notArray : character ≠ '[')
    (budget : Nat)
    (text : List Char) :
    (readSpan budget (character :: text)).toOption = none := by
  simp [readSpan, skipBlanks_cons notBlank, notArray]

/-- A span is read just when it is decoded. -/
theorem readSpan_renders
    {value : Json}
    {after text : List Char}
    {budget : Nat}
    (renders : Renders value after text)
    (shallow : value.nesting ≤ budget) :
    Agrees (readSpan budget text) (spanOfJson value) after := by
  cases value with
  | array items =>
      cases renders with
      | @array _ _ text renders =>
          have opened : budget ≠ 0 := by
            rw [nesting] at shallow
            omega
          have begun : readSpan budget ('[' :: text) = readPair text := by
            rw [readSpan, skipBlanks_cons (by decide)]
            exact if_neg opened
          rw [begun]
          exact readPair_renders renders
  | _ =>
      obtain ⟨character, rest, rfl, opens⟩ := renders.exists_eq_cons
      refine .of_none
        (toOption_readSpan_of_ne opens.isBlank_eq_false ?_ budget rest) rfl
      apply opens.ne
      simp [Opens, startsNumber, isDigit]

/-! ## Names -/

section

variable (vocabulary : Vocabulary α)

theorem readName_escaped
    (name : String)
    (after : List Char) :
    Agrees
      (readName vocabulary (name.toList.flatMap escapeChar ++ '"' :: after))
      (vocabulary.find name) after := by
  rw [readName, stringBody_escaped]
  exact .of_decoded _ after

/-- A variant is not read from what opens neither a string nor an object. -/
theorem toOption_readVariant_of_ne
    {character : Char}
    (notBlank : isBlank character = false)
    (notString : character ≠ '"')
    (notObject : character ≠ '\x7b')
    (budget : Nat)
    (text : List Char) :
    (readVariant vocabulary budget (character :: text)).toOption = none := by
  simp [readVariant, skipBlanks_cons notBlank, notString, notObject]

/-- No content is read just from null. -/
theorem toOption_readUnit
    {value : Json}
    {after text : List Char}
    (renders : Renders value after text) :
    (readUnit text).toOption =
      match value with
      | .null => some after
      | _ => none := by
  cases value with
  | null =>
      cases renders
      rfl
  | _ =>
      obtain ⟨character, rest, rfl, opens⟩ := renders.exists_eq_cons
      have notNull : character ≠ 'n' := by
        apply opens.ne
        simp [Opens, startsNumber, isDigit]
      simp [readUnit, skipBlanks_cons opens.isBlank_eq_false, notNull]

/-- A map of several keys is not decoded. -/
theorem toOption_variantOfJson_of_length
    {members : List (String × Json)}
    (several : members.length ≠ 1) :
    (variantOfJson vocabulary (.object members)).toOption = none := by
  match members with
  | [] =>
      rfl
  | [_] =>
      exact absurd rfl several
  | _ :: _ :: _ =>
      rfl

/-- A map of one key is read as its name, its content and a closing brace. -/
theorem toOption_readOneKeyMap
    (name : String)
    (written : List Char) :
    (readOneKeyMap vocabulary
        (stringOnto name (':' :: written))).toOption =
      (vocabulary.find name).toOption.bind fun found =>
        (readUnit written).toOption.bind fun left =>
          match skipBlanks left with
          | '\x7d' :: after => some (found, after)
          | _ => none := by
  rw [readOneKeyMap, stringOnto, skipBlanks_cons (by decide)]
  simp only [toOption_bind]
  rw [readName_escaped, Option.bind_map]
  congr 1
  funext found
  simp only [Function.comp_apply, readColon_colon, word_ok, toOption_ok,
    Option.bind_some]
  congr 1
  funext left
  cases skipBlanks left with
  | nil =>
      rfl
  | cons character after =>
      by_cases closes : character = '\x7d'
      · subst closes
        rfl
      · simp [closes]

/-- A map of one key is read just when it is decoded. -/
theorem readOneKeyMap_renders
    {members others : List (String × Json)}
    {after text : List Char}
    (reordered : members.Perm others)
    (renders : RendersMembers true others after text) :
    Agrees (readOneKeyMap vocabulary text)
      (variantOfJson vocabulary (.object members)) after := by
  cases renders with
  | nil =>
      obtain rfl := reordered.eq_nil
      exact .of_none rfl rfl
  | @cons _ name value rest _ left written ofValue ofRest =>
      have begun := toOption_readOneKeyMap vocabulary name written
      rw [toOption_readUnit ofValue] at begun
      cases ofRest with
      | nil =>
          obtain rfl := List.perm_singleton.mp reordered
          refine begun.trans ?_
          rw [variantOfJson, toOption_bind]
          cases vocabulary.find name with
          | error fault =>
              rfl
          | ok found =>
              cases value <;> rfl
      | cons =>
          refine .of_none (begun.trans ?_)
            (toOption_variantOfJson_of_length vocabulary ?_)
          · cases vocabulary.find name with
            | error fault =>
                rfl
            | ok found =>
                cases value <;> rfl
          · rw [reordered.length_eq]
            simp

/-- A variant is read just when it is decoded. -/
theorem readVariant_renders
    {value : Json}
    {after text : List Char}
    {budget : Nat}
    (renders : Renders value after text)
    (shallow : value.nesting ≤ budget) :
    Agrees (readVariant vocabulary budget text)
      (variantOfJson vocabulary value) after := by
  cases value with
  | string name =>
      cases renders
      exact readName_escaped vocabulary name after
  | object members =>
      cases renders with
      | @object _ others _ text reordered renders =>
          have opened : budget ≠ 0 := by
            rw [nesting] at shallow
            omega
          have begun :
              readVariant vocabulary budget ('\x7b' :: text) =
                readOneKeyMap vocabulary text := by
            rw [readVariant, skipBlanks_cons (by decide)]
            exact if_neg opened
          rw [begun]
          exact readOneKeyMap_renders vocabulary reordered renders
  | _ =>
      obtain ⟨character, rest, rfl, opens⟩ := renders.exists_eq_cons
      refine .of_none
        (toOption_readVariant_of_ne vocabulary opens.isBlank_eq_false
          ?_ ?_ budget rest) rfl <;>
        exact opens.ne (by simp [Opens, startsNumber, isDigit])

end

end ShaderTint.Wire
