import ShaderTint.Proofs.CommandLine.Loading
import ShaderTint.Proofs.CommandLine.Modes
import ShaderTint.Proofs.Pass.Containment
import ShaderTint.Proofs.Source.LineTable
import ShaderTint.Proofs.Source.Slice
import ShaderTint.Wire.Encoding

namespace ShaderTint

/-!
# Where the records of a report stand

The program compares one number with its source, the end of the tree. That is
enough: the tree was found well nested when it was loaded, every highlight has the
span of one of its nodes, and no mode makes up a highlight. So all spans end within
the source, and their positions are those of a table that was never asked for an
offset past its end.

Main statement: `CommandLine.records_placed_of_covered`.
-/

namespace Report

/-- An offset of a source stands at a position, told without a table of lines. -/
structure StandsAt
    (source : String)
    (position : Position)
    (offset : Nat) :
    Prop where
  /-- The newlines before the offset number its line. -/
  line_eq : position.line = ((bytesOf source).take offset).count newline
  /-- The column counts the bytes from the start of that line. -/
  column_eq :
    ∃ start,
      StartsLine (bytesOf source) position.line start ∧
        start + position.column = offset
  line_lt : position.line < offsetLimit
  column_lt : position.column < offsetLimit

/-- A record says of its highlight what the source says of it. -/
structure Record.Placed
    (source : String)
    (record : Record) :
    Prop where
  ordered : record.highlight.span.start ≤ record.highlight.span.stop
  inside : record.highlight.span.stop ≤ source.utf8ByteSize
  place_eq :
    ∃ first last,
      record.place = some (first, last) ∧
        StandsAt source first record.highlight.span.start ∧
        StandsAt source last record.highlight.span.stop
  /-- There is a text just when the highlight cuts no character. -/
  text_isSome_iff :
    record.text.isSome = true ↔
      OnBoundary source record.highlight.span.start ∧
        OnBoundary source record.highlight.span.stop
  /-- The text is what the highlight covers, and its newlines lead to the last line. -/
  text_eq :
    ∀ text,
      record.text = some text →
      bytesOf text =
          ((bytesOf source).drop record.highlight.span.start).take
            (record.highlight.span.stop - record.highlight.span.start) ∧
        ∀ first last,
          record.place = some (first, last) →
          last.line = first.line + text.toList.count '\n'

/-- The index of a source says exactly where the offsets within it stand. -/
theorem standsAt_position
    {source : String}
    (short : source.utf8ByteSize < offsetLimit)
    {offset : Nat}
    (inside : offset ≤ source.utf8ByteSize) :
    StandsAt source ((Source.ofText source).index.position offset) offset := by
  have inBytes : offset ≤ (bytesOf source).length := by
    rwa [length_bytesOf]
  obtain ⟨line, start, _, starts, column⟩ :=
    LineIndex.position_eq (bytesOf source) inBytes
  have fewNewlines :
      ((bytesOf source).take offset).count newline ≤
        source.utf8ByteSize := by
    rw [← length_bytesOf]
    exact List.count_le_length.trans (List.length_take_le' offset _)
  have columnBefore :
      ((Source.ofText source).index.position offset).column ≤ offset :=
    (Nat.le_add_left _ start).trans_eq column
  exact {
    line_eq := line
    column_eq := ⟨start, starts, column⟩
    line_lt := (line.trans_le fewNewlines).trans_lt short
    column_lt := (columnBefore.trans inside).trans_lt short
  }

/-- A text that a span covers leads from the line of its start to that of its end. -/
theorem count_newline_slice
    {span : Span}
    {source text : String}
    (covers : span.slice? source = some text) :
    ((bytesOf source).take span.stop).count newline =
      ((bytesOf source).take span.start).count newline +
        text.toList.count '\n' := by
  rw [← count_newline_bytes, Span.bytes_of_slice? covers,
    ← List.count_append, ← List.take_add,
    Nat.add_sub_cancel' span.start_le_stop]

/-- Highlights within a source are placed in it. -/
theorem placed_of_inside
    {source : String}
    (short : source.utf8ByteSize < offsetLimit)
    {highlight : Highlight}
    (inside : highlight.span.stop ≤ source.utf8ByteSize) :
    (Record.of (some (Source.ofText source)) highlight).Placed source := by
  have first :=
    standsAt_position short (highlight.span.start_le_stop.trans inside)
  have last := standsAt_position short inside
  refine {
    ordered := highlight.span.start_le_stop
    inside := inside
    place_eq := ⟨_, _, rfl, first, last⟩
    text_isSome_iff := Span.isSome_slice?_iff
    text_eq := ?_
  }
  intro text covers
  refine ⟨Span.bytes_of_slice? covers, ?_⟩
  rintro _ _ ⟨⟩
  rw [first.line_eq, last.line_eq]
  exact count_newline_slice covers

end Report

namespace CommandLine

/-- The program loads well-nested trees only. -/
theorem nested_of_loadTree
    {options : Options}
    {inputs : Inputs}
    {root : Node}
    (loaded : loadTree options inputs = .ok root) :
    root.Nested := by
  obtain ⟨_, validates⟩ := loadTree_eq_ok_iff.mp loaded
  exact Node.validate_eq_ok_iff.mp validates

/-- No mode shows what the pass has not emitted. -/
theorem mem_of_mem_view
    {mode : Mode}
    {highlights : List Highlight}
    {highlight : Highlight}
    (member : highlight ∈ mode.view highlights) :
    highlight ∈ highlights := by
  cases mode with
  | raw =>
      exact member
  | dedupe =>
      exact List.mem_eraseDups.mp member
  | resolve =>
      have kept := (view_resolve_perm highlights).mem_iff.mp member
      exact (eraseDupsBy_sublist highlights).mem kept

/--
Checking the end of the tree is enough.

For a tree that the program has loaded and a source that it covers, every mode
succeeds, and every record of its report is placed in the source: it ends within
the source, its positions are exact, and its text, if it has one, is what it
covers.
-/
theorem records_placed_of_covered
    (options : Options)
    (inputs : Inputs)
    (root : Node)
    (loaded : loadTree options inputs = .ok root)
    (source : String)
    (short : source.utf8ByteSize < offsetLimit)
    (covered : root.span.stop ≤ source.utf8ByteSize)
    (mode : Mode) :
    checkCover root source = .ok () ∧
      ∃ highlights stats log,
        highlight root mode options.context Flags.clear =
            .ok (highlights, stats, log) ∧
          ∀ record ∈
              Report.records highlights (some (Source.ofText source)),
            record.Placed source := by
  have nested := nested_of_loadTree loaded
  refine ⟨if_neg (Nat.not_lt.mpr covered), _, _, _,
    highlight_eq (Flags.isRaised_clear _) root mode, ?_⟩
  intro record listed
  obtain ⟨highlight, shown, rfl⟩ := List.mem_map.mp listed
  have inRoot :=
    Occurrence.contains_of_mem_highlights nested (mem_of_mem_view shown)
  exact Report.placed_of_inside short (inRoot.2.trans covered)

/-- A declaration whose type runs over a line end and whose name ends inside `é`. -/
def cutExample : Node where
  kind := .variableDeclaration
  span := .ofTested 0 6 (.refl true)
  children := [
    .leaf .builtInType (.ofTested 0 4 (.refl true)),
    .leaf .identifier (.ofTested 4 5 (.refl true))]

/-- Every highlight of `tree.json` once, with its place in `source.cg`. -/
def cutOptions : Options where
  tree := "tree.json"
  source := some "source.cg"
  dedupe := true
  resolve := false
  format := .text
  stats := false
  trace := false

/-- Two files: the written form of `cutExample` and the source it was read from. -/
def cutInputs : Inputs where
  file path :=
    if path = "tree.json" then
      .ok (Json.compact cutExample.toJson).toUTF8
    else
      .ok "in\nté".toUTF8
  standard := .error .notUtf8

/--
The source `"in\nté"` has a text for the keyword of `cutExample`, which ends one
line below its start, and none for the name.
-/
theorem records_placed_of_covered_cutExample :
    let source := "in\nté"
    let keyword : Report.Record := {
      highlight := ⟨⟨0, 4, by decide, by decide⟩, .keyword⟩
      place := some (⟨0, 0⟩, ⟨1, 1⟩)
      text := some "in\nt"
    }
    let name : Report.Record := {
      highlight := ⟨⟨4, 5, by decide, by decide⟩, .variableIdentifier⟩
      place := some (⟨1, 1⟩, ⟨1, 2⟩)
      text := none
    }
    loadTree cutOptions cutInputs = .ok cutExample ∧
      loadSource cutOptions cutInputs = .ok (some source) ∧
      source.utf8ByteSize < offsetLimit ∧
      cutExample.span.stop ≤ source.utf8ByteSize ∧
      keyword.Placed source ∧
      name.Placed source := by
  intro source keyword name
  have loaded : loadTree cutOptions cutInputs = .ok cutExample := by
    decide +kernel
  have read : loadSource cutOptions cutInputs = .ok (some source) := by
    decide +kernel
  have short : source.utf8ByteSize < offsetLimit := by
    decide +kernel
  have covered : cutExample.span.stop ≤ source.utf8ByteSize := by
    decide +kernel
  obtain ⟨_, highlights, _, _, runs, placed⟩ :=
    records_placed_of_covered cutOptions cutInputs cutExample loaded source
      short covered cutOptions.mode
  have shown :
      highlights =
        cutOptions.mode.view ((Table.inTree none cutExample).map highlightOf) :=
    congrArg Prod.fst (Except.ok.inj (runs.symm.trans
      (highlight_eq (Flags.isRaised_clear _) cutExample cutOptions.mode)))
  subst shown
  refine ⟨loaded, read, short, covered, placed keyword ?_, placed name ?_⟩
  · decide +kernel
  · decide +kernel

end CommandLine

end ShaderTint
