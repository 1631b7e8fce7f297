import ShaderTint.CommandLine.Program
import ShaderTint.Proofs.Json.Lexeme

namespace ShaderTint.CommandLine

/-!
# What the program loads

Loading names what went wrong, and each step of it names its own faults. Success can be
said without the steps: an input is read if it holds the bytes of a text, and a tree is
loaded if such a text spells it out and it is valid.

Main statements: `loadTree_eq_ok_iff` and `loadSource_eq_ok_iff`.
-/

/-- Where the tree is read from. -/
def Options.treeInput
    (options : Options)
    (inputs : Inputs) :
    Except ReadFault ByteArray :=
  if options.treeFromInput then
    inputs.standard
  else
    inputs.file options.tree

/-- Bytes are decoded to the text that they are the bytes of. -/
theorem decodeText_eq_ok_iff
    {bytes : ByteArray}
    {text : String} :
    decodeText bytes = .ok text ↔ bytes = text.toUTF8 := by
  rw [decodeText, String.fromUTF8?]
  by_cases valid : bytes.IsValidUTF8
  · rw [dif_pos valid]
    constructor
    · rintro ⟨⟩
      rfl
    · rintro rfl
      rfl
  · rw [dif_neg valid]
    constructor
    · rintro ⟨⟩
    · rintro rfl
      exact absurd text.isValidUTF8 valid

/-- An input is read as the text that it holds. -/
theorem bind_decodeText_eq_ok_iff
    {input : Except ReadFault ByteArray}
    {text : String} :
    (input >>= decodeText) = .ok text ↔ input = .ok text.toUTF8 := by
  rw [Json.bind_eq_ok_iff]
  constructor
  · rintro ⟨bytes, read, decoded⟩
    rw [read, decodeText_eq_ok_iff.mp decoded]
  · intro read
    exact ⟨_, read, decodeText_eq_ok_iff.mpr rfl⟩

theorem readTree_eq_ok_iff
    {options : Options}
    {inputs : Inputs}
    {text : String} :
    readTree options inputs = .ok text ↔
      options.treeInput inputs = .ok text.toUTF8 := by
  rw [readTree, Options.treeInput]
  split <;>
    rw [Json.mapError_eq_ok_iff, bind_decodeText_eq_ok_iff]

/-- A tree is loaded if its input holds a text of it and it is valid. -/
theorem loadTree_eq_ok_iff
    {options : Options}
    {inputs : Inputs}
    {root : Node} :
    loadTree options inputs = .ok root ↔
      (∃ text : String,
          options.treeInput inputs = .ok text.toUTF8 ∧
            Wire.nodeOfText text = .ok root) ∧
        root.validate = .ok () := by
  constructor
  · intro loaded
    obtain ⟨text, read, afterText⟩ := Json.bind_eq_ok_iff.mp loaded
    obtain ⟨tree, decoded, afterTree⟩ := Json.bind_eq_ok_iff.mp afterText
    obtain ⟨_, checked, returned⟩ := Json.bind_eq_ok_iff.mp afterTree
    cases returned
    exact ⟨⟨text, readTree_eq_ok_iff.mp read,
      Json.mapError_eq_ok_iff.mp decoded⟩, Json.mapError_eq_ok_iff.mp checked⟩
  · rintro ⟨⟨text, read, decoded⟩, valid⟩
    rw [loadTree, readTree_eq_ok_iff.mpr read, Json.ok_bind,
      Json.mapError_eq_ok_iff.mpr decoded, Json.ok_bind,
      Json.mapError_eq_ok_iff.mpr valid, Json.ok_bind]
    rfl

/-- A source is loaded if one is named and is a text, and none if none is named. -/
theorem loadSource_eq_ok_iff
    {options : Options}
    {inputs : Inputs}
    {source : Option String} :
    loadSource options inputs = .ok source ↔
      options.source.map inputs.file =
        source.map fun text => .ok text.toUTF8 := by
  rw [loadSource]
  cases options.source with
  | none =>
      cases source <;>
        simp
  | some path =>
      have mapped :
          ∀ step : Except Failure String,
            step.map some = .ok source ↔
              ∃ text, step = .ok text ∧ some text = source := by
        rintro (fault | text) <;>
          simp [Except.map]
      rw [mapped]
      simp only [Json.mapError_eq_ok_iff, bind_decodeText_eq_ok_iff]
      cases source <;>
        simp

theorem checkCover_eq_ok_iff
    {root : Node}
    {text : String} :
    checkCover root text = .ok () ↔
      root.span.stop ≤ text.utf8ByteSize := by
  rw [checkCover]
  split
  · next beyond =>
      simp [beyond]
  · next within =>
      simp [Nat.not_lt.mp within]

end ShaderTint.CommandLine
