import ShaderTint.Proofs.CommandLine.Loading
import ShaderTint.Proofs.CommandLine.Modes
import ShaderTint.Proofs.Report.Words
import ShaderTint.Wire.Encoding

namespace ShaderTint.CommandLine

/-!
# When the program succeeds

The program checks its inputs one after the other and writes nothing before the last
check is passed. Which inputs pass is said here in one piece, without the order of the
checks: those that are sound. The program then shows the highlights of the chosen mode
in the chosen format, and the pass itself never stands in the way.

What is shown is also told by its pieces, which say where lines and columns are counted
up in words. So it can be compared with a program that ends when a word overflows.

Main statement: `run_succeeds_iff_sound`.
-/

/-- The inputs hold this tree and this source, and they fit together. -/
structure Sound
    (options : Options)
    (inputs : Inputs)
    (root : Node)
    (source : Option String) :
    Prop where
  /-- The tree is written down in a text. -/
  tree_reads :
    ∃ text : String,
      options.treeInput inputs = .ok text.toUTF8 ∧
        Wire.nodeOfText text = .ok root
  validates : root.validate = .ok ()
  /-- There is a source just when one is named, and it is a text. -/
  source_reads :
    options.source.map inputs.file = source.map fun text => .ok text.toUTF8
  covers : ∀ text ∈ source, root.span.stop ≤ text.utf8ByteSize
  /-- Lines need a source. -/
  lines_sourced : options.format = .lines → source ≠ none

/-- Highlights as each format writes them; there are no lines without a source. -/
inductive Rendered
    (highlights : List Highlight) :
    Format → Option String → String → Prop where
  | text (source : Option String) :
      Rendered highlights .text source
        (Report.text
          (Report.records highlights (source.map Source.ofText)))
  | lines (source : String) :
      Rendered highlights .lines (some source)
        (Report.lines highlights (Source.ofText source))
  | json (source : Option String) :
      Rendered highlights .json source
        (Report.json
          (Report.records highlights (source.map Source.ofText)) ++ "\n")

/-- What the chosen mode finds in a tree, in the chosen format. -/
def Options.report
    (options : Options)
    (root : Node)
    (source : Option String) :
    String :=
  render options.format
    (options.mode.view ((Table.inTree none root).map highlightOf))
    (source.map Source.ofText)

/-- The program succeeds on sound inputs. -/
theorem run_of_sound
    {options : Options}
    {inputs : Inputs}
    {root : Node}
    {source : Option String}
    (sound : Sound options inputs root source) :
    ∃ output,
      run options inputs = .ok output ∧
        output.text = options.report root source := by
  have treeLoaded : loadTree options inputs = .ok root :=
    loadTree_eq_ok_iff.mpr ⟨sound.tree_reads, sound.validates⟩
  have sourceLoaded : loadSource options inputs = .ok source :=
    loadSource_eq_ok_iff.mpr sound.source_reads
  have sourced : ¬ (options.format = .lines ∧ source.isNone = true) := by
    rintro ⟨isLines, missing⟩
    exact sound.lines_sourced isLines (Option.isNone_iff_eq_none.mp missing)
  rw [run, treeLoaded, Json.ok_bind, sourceLoaded, Json.ok_bind, if_neg sourced]
  have classified :=
    highlight_eq (Flags.isRaised_clear options.context.family) root options.mode
  cases source with
  | none =>
      simp only [classified, Json.ok_bind]
      exact ⟨_, rfl, rfl⟩
  | some text =>
      have covered : checkCover root text = .ok () :=
        checkCover_eq_ok_iff.mpr (sound.covers text rfl)
      simp only [covered, classified, Json.ok_bind]
      exact ⟨_, rfl, rfl⟩

/-- What the program shows on sound inputs. -/
theorem shown_of_sound
    {options : Options}
    {inputs : Inputs}
    {root : Node}
    {source : Option String}
    (sound : Sound options inputs root source) :
    (shown options inputs).status = 0 ∧
      (shown options inputs).output = options.report root source := by
  obtain ⟨output, ended, written⟩ := run_of_sound sound
  rw [shown, ended]
  exact ⟨rfl, written⟩

/-- The program succeeds on no other inputs. -/
theorem exists_sound_of_run
    {options : Options}
    {inputs : Inputs}
    {output : Output}
    (ended : run options inputs = .ok output) :
    ∃ root source, Sound options inputs root source := by
  obtain ⟨root, treeLoaded, afterTree⟩ := Json.bind_eq_ok_iff.mp ended
  obtain ⟨source, sourceLoaded, afterSource⟩ := Json.bind_eq_ok_iff.mp afterTree
  obtain ⟨treeReads, validates⟩ := loadTree_eq_ok_iff.mp treeLoaded
  by_cases unsourced : options.format = .lines ∧ source.isNone = true
  · rw [if_pos unsourced, Json.error_bind] at afterSource
    contradiction
  rw [if_neg unsourced] at afterSource
  refine ⟨root, source, {
    tree_reads := treeReads
    validates := validates
    source_reads := loadSource_eq_ok_iff.mp sourceLoaded
    covers := ?_
    lines_sourced := ?_
  }⟩
  · rintro text ⟨⟩
    obtain ⟨_, covered, _⟩ := Json.bind_eq_ok_iff.mp afterSource
    exact checkCover_eq_ok_iff.mp covered
  · rintro isLines rfl
    exact unsourced ⟨isLines, rfl⟩

/-- Where lines have their source, every format is rendered as what it is. -/
theorem rendered_report
    {options : Options}
    {source : Option String}
    (sourced : options.format = .lines → source ≠ none)
    (root : Node) :
    Rendered (options.mode.view ((Table.inTree none root).map highlightOf))
      options.format source (options.report root source) := by
  rw [Options.report]
  cases chosen : options.format with
  | text =>
      exact .text source
  | lines =>
      cases source with
      | none =>
          exact absurd rfl (sourced chosen)
      | some text =>
          exact .lines text
  | json =>
      exact .json source

/-- A source that is read is as short as its file. -/
theorem Sound.source_lt
    {options : Options}
    {inputs : Inputs}
    {root : Node}
    {source : Option String}
    (sound : Sound options inputs root source)
    (short :
      ∀ path ∈ options.source,
        ∀ bytes, inputs.file path = .ok bytes → bytes.size < offsetLimit) :
    ∀ text ∈ source, text.utf8ByteSize < offsetLimit := by
  rintro text ⟨⟩
  obtain ⟨path, named, read⟩ := Option.map_eq_some_iff.mp sound.source_reads
  exact short path named _ read

/-! ## Numbers in what is shown -/

/-- The pieces of highlights in a format. -/
def pieces
    (format : Format)
    (highlights : List Highlight)
    (source : Option Source) :
    List Report.Piece :=
  match format, source with
  | .lines, some source => Report.linesPieces highlights source
  | .json, source =>
      [.plain (Report.json (Report.records highlights source) ++ "\n")]
  | _, source => Report.textPieces (Report.records highlights source)

/-- Highlights in a format are written from their pieces. -/
theorem render_eq_written
    (format : Format)
    (highlights : List Highlight)
    (source : Option Source) :
    render format highlights source =
      Report.written Report.ordinal (pieces format highlights source) := by
  cases format with
  | text =>
      exact Report.text_eq_written _
  | lines =>
      cases source with
      | none =>
          exact Report.text_eq_written _
      | some source =>
          exact Report.lines_eq_written highlights source
  | json =>
      simp [render, pieces, Report.written, Report.Piece.shown]

/-- A report shows numbers from one only with a source, and none above its length. -/
theorem exists_source_of_mem_numbersOf
    {format : Format}
    {highlights : List Highlight}
    {source : Option String}
    {number : Nat}
    (member :
      number ∈
        Report.numbersOf
          (pieces format highlights (source.map Source.ofText))) :
    ∃ text ∈ source, number ≤ text.utf8ByteSize := by
  cases source with
  | none =>
      have noNumbers : Report.numbersOf (pieces format highlights none) = [] := by
        cases format with
        | text | lines =>
            exact Report.numbersOf_textPieces_none highlights
        | json =>
            rfl
      rw [Option.map_none, noNumbers] at member
      contradiction
  | some text =>
      refine ⟨text, rfl, ?_⟩
      cases format with
      | text =>
          exact Report.numbersOf_textPieces_le text highlights number member
      | lines =>
          exact Report.numbersOf_linesPieces_le text highlights number member
      | json =>
          contradiction

/-- The pieces of what the chosen mode finds in a tree, in the chosen format. -/
def Options.pieces
    (options : Options)
    (root : Node)
    (source : Option String) :
    List Report.Piece :=
  CommandLine.pieces options.format
    (options.mode.view ((Table.inTree none root).map highlightOf))
    (source.map Source.ofText)

/-- Where no word overflows, it does not matter what would become of one. -/
theorem Options.written?_pieces
    (options : Options)
    (root : Node)
    {source : Option String}
    {overflow : Report.Overflow}
    (noOverflow :
      overflow = .wraps ∨ ∀ text ∈ source, text.utf8ByteSize ≤ 2 ^ 32 - 2) :
    Report.written? overflow (options.pieces root source) =
      some (options.report root source) := by
  rw [Options.report, render_eq_written]
  rcases noOverflow with rfl | short
  · exact Report.written?_wraps _
  · have fit (number : Nat)
        (member : number ∈ Report.numbersOf (options.pieces root source)) :
        number + 1 < offsetLimit := by
      obtain ⟨text, isSource, atMost⟩ := exists_source_of_mem_numbersOf member
      have shorter : number ≤ 2 ^ 32 - 2 :=
        Nat.le_trans atMost (short text isSource)
      exact Nat.lt_of_le_of_lt (Nat.succ_le_succ shorter) (by decide)
    rw [Report.written?_of_fit overflow fit,
      ← Report.written_ordinal_of_fit fit]
    rfl

/--
The program succeeds if and only if its inputs are sound. It then shows what the
chosen mode finds in the tree, in the chosen format; a failure shows nothing on the
standard output. No tree makes the pass of any mode fail.

The lines and columns that are shown from one are words, and a program that ends when
a word overflows shows the same for sources of up to 2 ^ 32 - 2 bytes.
-/
theorem run_succeeds_iff_sound
    (options : Options)
    (inputs : Inputs)
    (short :
      ∀ path ∈ options.source,
        ∀ bytes, inputs.file path = .ok bytes → bytes.size < offsetLimit) :
    ((∃ output, run options inputs = .ok output) ↔
        ∃ root source, Sound options inputs root source) ∧
      (∀ root source,
        Sound options inputs root source →
          (shown options inputs).status = 0 ∧
            Rendered
              (options.mode.view ((Table.inTree none root).map highlightOf))
              options.format source (shown options inputs).output) ∧
      (∀ failure,
        run options inputs = .error failure →
          (shown options inputs).status = 1 ∧
            (shown options inputs).output = "") ∧
      (∀ root mode,
        ∃ highlights stats log,
          highlight root mode options.context Flags.clear =
            .ok (highlights, stats, log)) ∧
      (∀ root source,
        Sound options inputs root source →
          let pieces := options.pieces root source
          (∀ number ∈ Report.numbersOf pieces, number < offsetLimit) ∧
            ∀ overflow,
              overflow = .wraps ∨
                  (∀ text ∈ source, text.utf8ByteSize ≤ 2 ^ 32 - 2) →
                Report.written? overflow pieces =
                  some (shown options inputs).output) := by
  refine ⟨⟨?_, ?_⟩, ?_, ?_, ?_, ?_⟩
  · rintro ⟨output, ended⟩
    exact exists_sound_of_run ended
  · rintro ⟨root, source, sound⟩
    obtain ⟨output, ended, -⟩ := run_of_sound sound
    exact ⟨output, ended⟩
  · intro root source sound
    obtain ⟨succeeds, shows⟩ := shown_of_sound sound
    refine ⟨succeeds, ?_⟩
    rw [shows]
    exact rendered_report sound.lines_sourced root
  · intro failure ended
    have shows : shown options inputs = failure.shown := by
      rw [shown, ended]
    rw [shows]
    exact ⟨rfl, rfl⟩
  · intro root mode
    exact ⟨_, _, _, highlight_eq (Flags.isRaised_clear _) root mode⟩
  · intro root source sound pieces
    constructor
    · intro number member
      obtain ⟨text, isSource, atMost⟩ := exists_source_of_mem_numbersOf member
      exact Nat.lt_of_le_of_lt atMost (sound.source_lt short text isSource)
    · intro overflow noOverflow
      rw [(shown_of_sound sound).2]
      exact options.written?_pieces root noOverflow

/-- A declaration whose keyword runs over a line end, with its name on a line of its own. -/
def brokenKeyword : Node where
  kind := .variableDeclaration
  span := .ofTested 0 7 (.refl true)
  children := [
    .leaf .builtInType (.ofTested 0 4 (.refl true)),
    .leaf .identifier (.ofTested 5 7 (.refl true))]

/-- The highlights of a piped tree, each once, under the lines of `source.cg`. -/
def pipedOptions : Options where
  tree := "-"
  source := some "source.cg"
  dedupe := true
  resolve := false
  format := .lines
  stats := true
  trace := false

/-- A written form of `brokenKeyword` on the standard input, and a source for it. -/
def pipedInputs : Inputs where
  file path :=
    if path = "source.cg" then
      .ok "in\nt\né".toUTF8
    else
      .error .notFound
  standard := .ok (Json.compact brokenKeyword.toJson).toUTF8

/-- The keyword is shown under both of its lines, with each number one higher. -/
theorem run_succeeds_iff_sound_brokenKeyword :
    let source := "in\nt\né"
    let rows := "1: 1-3:keyword\n2: 1-2:keyword\n3: 1-3:variable\n"
    (∀ path ∈ pipedOptions.source,
        ∀ bytes, pipedInputs.file path = .ok bytes → bytes.size < offsetLimit) ∧
      Sound pipedOptions pipedInputs brokenKeyword (some source) ∧
      (∃ output, run pipedOptions pipedInputs = .ok output) ∧
      (shown pipedOptions pipedInputs).status = 0 ∧
      (shown pipedOptions pipedInputs).output = rows ∧
      Report.numbersOf (pipedOptions.pieces brokenKeyword (some source)) =
        [0, 0, 2, 1, 0, 1, 2, 0, 2] ∧
      ∀ overflow,
        Report.written? overflow
          (pipedOptions.pieces brokenKeyword (some source)) = some rows := by
  intro source rows
  have short :
      ∀ path ∈ pipedOptions.source,
        ∀ bytes, pipedInputs.file path = .ok bytes → bytes.size < offsetLimit := by
    rintro path ⟨⟩ bytes ⟨⟩
    decide +kernel
  have loaded : loadTree pipedOptions pipedInputs = .ok brokenKeyword := by
    decide +kernel
  have read : loadSource pipedOptions pipedInputs = .ok (some source) := by
    decide +kernel
  have covered : checkCover brokenKeyword source = .ok () := by
    decide +kernel
  obtain ⟨treeReads, validates⟩ := loadTree_eq_ok_iff.mp loaded
  have sound : Sound pipedOptions pipedInputs brokenKeyword (some source) := {
    tree_reads := treeReads
    validates := validates
    source_reads := loadSource_eq_ok_iff.mp read
    covers := by
      rintro text ⟨⟩
      exact checkCover_eq_ok_iff.mp covered
    lines_sourced := fun _ => Option.some_ne_none source
  }
  have numbers :
      Report.numbersOf (pipedOptions.pieces brokenKeyword (some source)) =
        [0, 0, 2, 1, 0, 1, 2, 0, 2] := by
    decide +kernel
  have counting :
      Report.written? .wraps
        (pipedOptions.pieces brokenKeyword (some source)) = some rows := by
    decide +kernel
  obtain ⟨succeeds_iff, shows, _, _, counted⟩ :=
    run_succeeds_iff_sound pipedOptions pipedInputs short
  have everyWay := (counted brokenKeyword (some source) sound).2
  have asRows : (shown pipedOptions pipedInputs).output = rows :=
    Option.some.inj ((everyWay .wraps (.inl rfl)).symm.trans counting)
  refine ⟨short, sound, succeeds_iff.mpr ⟨_, _, sound⟩,
    (shows _ _ sound).1, asRows, numbers, ?_⟩
  intro overflow
  rw [← asRows]
  apply everyWay
  right
  rintro text ⟨⟩
  decide +kernel

end ShaderTint.CommandLine
