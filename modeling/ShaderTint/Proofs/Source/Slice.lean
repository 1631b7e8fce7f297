import ShaderTint.Source.LineIndex

namespace ShaderTint

/-!
# Slices of a source

A span covers a text when both its ends stand between two characters. The bytes of
that text are the bytes of the span, and its newlines are the newline bytes there:
no other character has such a byte.

Main statements: `Span.isSome_slice?_iff`, `Span.bytes_of_slice?` and
`count_newline_bytes`.
-/

/-- The bytes of a text. -/
def bytesOf
    (text : String) :
    List UInt8 :=
  text.toUTF8.data.toList

/-- A text has as many bytes as its size says. -/
theorem length_bytesOf
    (text : String) :
    (bytesOf text).length = text.utf8ByteSize :=
  rfl

/-- An offset that stands before, between or after the characters of a text. -/
def OnBoundary
    (text : String)
    (offset : Nat) :
    Prop :=
  ∃ before after, text = before ++ after ∧ before.utf8ByteSize = offset

/-- A text has positions for the offsets between its characters. -/
theorem isSome_pos?_iff
    {text : String}
    {offset : Nat} :
    (text.pos? ⟨offset⟩).isSome = true ↔ OnBoundary text offset := by
  have valid :
      (text.pos? ⟨offset⟩).isSome = true ↔
        (⟨offset⟩ : String.Pos.Raw).IsValid text := by
    rw [String.pos?, Option.isSome_map, String.Slice.pos?,
      ← String.Pos.Raw.isValidForSlice_toSlice_iff,
      ← String.Pos.Raw.isValidForSlice_eq_true_iff]
    split <;> simp_all
  rw [valid, String.Pos.Raw.isValid_iff_exists_append]
  constructor
  · rintro ⟨before, after, split, ends⟩
    exact ⟨before, after, split, (congrArg String.Pos.Raw.byteIdx ends).symm⟩
  · rintro ⟨before, after, split, rfl⟩
    exact ⟨before, after, split, rfl⟩

/-- The position for an offset has that offset. -/
theorem offset_of_pos?
    {text : String}
    {offset : Nat}
    {position : text.Pos}
    (found : text.pos? ⟨offset⟩ = some position) :
    position.offset.byteIdx = offset := by
  obtain ⟨inSlice, foundInSlice, rfl⟩ := Option.map_eq_some_iff.mp found
  rw [String.Slice.pos?] at foundInSlice
  split at foundInSlice
  · cases foundInSlice
    rfl
  · contradiction

namespace Span

/-- A span covers a text just when both its ends stand between characters. -/
theorem isSome_slice?_iff
    {span : Span}
    {source : String} :
    (span.slice? source).isSome = true ↔
      OnBoundary source span.start ∧ OnBoundary source span.stop := by
  rw [← isSome_pos?_iff, ← isSome_pos?_iff, slice?]
  cases source.pos? ⟨span.start⟩ <;> cases source.pos? ⟨span.stop⟩ <;> simp

/-- The bytes of the text that a span covers are the bytes of the span. -/
theorem bytes_of_slice?
    {span : Span}
    {source text : String}
    (covers : span.slice? source = some text) :
    bytesOf text =
      ((bytesOf source).drop span.start).take (span.stop - span.start) := by
  rw [slice?] at covers
  split at covers
  · next first last foundFirst foundLast =>
      cases covers
      rw [bytesOf, bytesOf, String.toUTF8_eq_toByteArray,
        String.toByteArray_extract, offset_of_pos? foundFirst,
        offset_of_pos? foundLast, ByteArray.data_extract,
        Array.toList_extract]
      rfl
  · contradiction

end Span

/-- The bytes of a text are the bytes of its characters. -/
theorem bytesOf_eq_flatMap
    (text : String) :
    bytesOf text = text.toList.flatMap String.utf8EncodeChar := by
  rw [bytesOf, String.toUTF8_eq_toByteArray, ← String.utf8Encode_toList,
    List.utf8Encode, List.toList_data_toByteArray]

/-- The newline byte is the byte of one number only. -/
theorem newline_eq_ofNat_iff
    {value : Nat}
    (small : value < 256) :
    newline = UInt8.ofNat value ↔ value = 10 := by
  rw [← UInt8.toNat_inj, UInt8.toNat_ofNat', Nat.mod_eq_of_lt small]
  exact eq_comm

/-- No character but the newline has a newline byte. -/
theorem eq_newline_of_mem_encode
    {character : Char}
    (member : newline ∈ String.utf8EncodeChar character) :
    character = '\n' := by
  rw [← Char.toNat_inj]
  change character.val.toNat = 10
  revert member
  -- The bytes of longer encodings are all beyond 127.
  fun_cases String.utf8EncodeChar with
  | case1 value | case2 value | case3 value | case4 value =>
      simp (disch := omega) only [List.mem_cons, List.not_mem_nil,
        or_false, newline_eq_ofNat_iff]
      omega

/-- A newline is one byte, a newline byte, and no other character has one. -/
theorem count_newline_encode
    (character : Char) :
    (String.utf8EncodeChar character).count newline =
      if character = '\n' then 1 else 0 := by
  split
  · next isNewline =>
      subst isNewline
      rfl
  · next other =>
      rw [List.count_eq_zero]
      intro member
      exact other (eq_newline_of_mem_encode member)

/-- A text has as many newline bytes as newlines. -/
theorem count_newline_bytes
    (text : String) :
    (bytesOf text).count newline = text.toList.count '\n' := by
  rw [bytesOf_eq_flatMap]
  induction text.toList with
  | nil =>
      rfl
  | cons character rest inductionHypothesis =>
      rw [List.flatMap_cons, List.count_append, inductionHypothesis,
        count_newline_encode, List.count_cons]
      simp [Nat.add_comm]

end ShaderTint
