import ShaderTint.Proofs.CommandLine.Placement
import ShaderTint.Proofs.Json.Pretty
import ShaderTint.Proofs.Source.Lines
import ShaderTint.Report.Record
import Mathlib.Data.List.Forall2

namespace ShaderTint.Report

/-!
# Reports as JSON lose nothing

A report in JSON is read back as an array with one object for each highlight, whatever
characters the source holds. `Tells` says what such an object says of its highlight: its
members and no others, where it starts in the source, and the very text it covers.

Main statement: `json_tells_highlights`.
-/

/-- What the members of an object say of a highlight. -/
structure Tells
    (source : Option String)
    (highlight : Highlight)
    (members : List (String × Json)) :
    Prop where
  /-- Each member is there once, and there are no others. -/
  names_eq :
    members.map Prod.fst =
      ["tag", "capture", "start", "end"] ++
        (if source.isSome then ["line", "column"] else []) ++
        (if (source.bind highlight.span.slice?).isSome then ["text"] else [])
  tag_eq :
    Json.member? "tag" members = some (.string highlight.tag.wire)
  capture_eq :
    Json.member? "capture" members = some (.string highlight.tag.capture)
  start_eq :
    Json.member? "start" members = some (.ofNat highlight.span.start)
  stop_eq :
    Json.member? "end" members = some (.ofNat highlight.span.stop)
  /-- The place is that of the start, or of the end of the source if that comes first. -/
  place_eq :
    ∀ text,
      source = some text →
      ∃ position,
        StandsAt text position (min highlight.span.start text.utf8ByteSize) ∧
          Json.member? "line" members = some (.ofNat position.line) ∧
          Json.member? "column" members = some (.ofNat position.column)
  /-- The text is cut out of the source byte for byte. -/
  text_eq :
    ∀ text covered,
      source = some text →
      highlight.span.slice? text = some covered →
      Json.member? "text" members = some (.string covered) ∧
        bytesOf covered =
          ((bytesOf text).drop highlight.span.start).take
            (highlight.span.stop - highlight.span.start)

/-- The index has a place for every offset; past the end it is that of the end. -/
theorem standsAt_position_min
    {source : String}
    (short : source.utf8ByteSize < offsetLimit)
    (offset : Nat) :
    StandsAt source ((Source.ofText source).index.position offset)
      (min offset source.utf8ByteSize) := by
  have clamped :
      (Source.ofText source).index.position offset =
        (Source.ofText source).index.position (min offset source.utf8ByteSize) :=
    LineIndex.position_min (bytesOf source) offset
  rw [clamped]
  exact standsAt_position short (Nat.min_le_right _ _)

/-- Byte offsets fit the numbers that are read back. -/
theorem legible_of_lt_offsetLimit
    {value : Nat}
    (fits : value < offsetLimit) :
    (Json.ofNat value).Legible :=
  Json.legible_ofNat (fits.trans (by decide))

section

variable
  {source : Option String}
  (short : ∀ text ∈ source, text.utf8ByteSize < offsetLimit)
  (highlight : Highlight)

include short

/-- The object of a record tells its highlight. -/
theorem exists_toJson_eq :
    ∃ members,
      (Record.of (source.map Source.ofText) highlight).toJson = .object members ∧
        Tells source highlight members := by
  cases source with
  | none =>
      exact ⟨_, rfl, {
        names_eq := rfl
        tag_eq := rfl
        capture_eq := rfl
        start_eq := rfl
        stop_eq := rfl
        place_eq := nofun
        text_eq := nofun
      }⟩
  | some text =>
      have placed := standsAt_position_min (short text rfl) highlight.span.start
      rw [Record.of, Option.map_some, Option.map_some, Option.bind_some, Source.ofText]
      cases found : highlight.span.slice? text with
      | none =>
          refine ⟨_, rfl, {
            names_eq := by rw [Option.bind_some, found]; rfl
            tag_eq := rfl
            capture_eq := rfl
            start_eq := rfl
            stop_eq := rfl
            place_eq := ?_
            text_eq := ?_
          }⟩
          · rintro _ ⟨⟩
            exact ⟨_, placed, rfl, rfl⟩
          · rintro _ covered ⟨⟩ covers
            rw [found] at covers
            contradiction
      | some covered =>
          refine ⟨_, rfl, {
            names_eq := by rw [Option.bind_some, found]; rfl
            tag_eq := rfl
            capture_eq := rfl
            start_eq := rfl
            stop_eq := rfl
            place_eq := ?_
            text_eq := ?_
          }⟩
          · rintro _ ⟨⟩
            exact ⟨_, placed, rfl, rfl⟩
          · rintro _ _ ⟨⟩ covers
            rw [found] at covers
            cases covers
            exact ⟨rfl, Span.bytes_of_slice? found⟩

/-- All numbers of a record are byte offsets, lines or columns. -/
theorem legible_toJson :
    (Record.of (source.map Source.ofText) highlight).toJson.Legible := by
  have ofStart := legible_of_lt_offsetLimit highlight.span.start_lt
  have ofStop := legible_of_lt_offsetLimit highlight.span.stop_lt
  cases source with
  | none =>
      exact ⟨trivial, trivial, ofStart, ofStop, trivial⟩
  | some text =>
      have placed := standsAt_position_min (short text rfl) highlight.span.start
      have ofLine := legible_of_lt_offsetLimit placed.line_lt
      have ofColumn := legible_of_lt_offsetLimit placed.column_lt
      rw [Record.of, Option.map_some, Option.map_some, Option.bind_some, Source.ofText]
      cases highlight.span.slice? text with
      | none =>
          exact ⟨trivial, trivial, ofStart, ofStop, ofLine, ofColumn, trivial⟩
      | some covered =>
          exact ⟨trivial, trivial, ofStart, ofStop, ofLine, ofColumn, trivial, trivial⟩

end

/--
A report in JSON is read back as one object for each highlight, in order, that tells it.
-/
theorem json_tells_highlights
    (highlights : List Highlight)
    (source : Option String)
    (short : ∀ text ∈ source, text.utf8ByteSize < offsetLimit) :
    ∃ items,
      Json.read (json (records highlights (source.map Source.ofText))) =
          .ok (.array items) ∧
        List.Forall₂
          (fun highlight item =>
            ∃ members, item = .object members ∧ Tells source highlight members)
          highlights items := by
  refine ⟨_, Json.read_pretty ?_, ?_⟩
  · rw [Json.Legible, Json.legibleItems_iff]
    intro item listed
    obtain ⟨record, shown, rfl⟩ := List.mem_map.mp listed
    obtain ⟨highlight, _, rfl⟩ := List.mem_map.mp shown
    exact legible_toJson short highlight
  · rw [records, List.map_map, List.forall₂_map_right_iff, List.forall₂_same]
    intro highlight _
    exact exists_toJson_eq short highlight

/--
Of a quote, a backslash, a control character, a newline and an `é`, a keyword over all
of them has its text back; a name that ends inside the `é` has none and stands on the
second line.
-/
theorem json_tells_escapes :
    let source := "\"\\\x01\né"
    let keyword : Highlight := ⟨⟨0, 6, by decide, by decide⟩, .keyword⟩
    let name : Highlight := ⟨⟨4, 5, by decide, by decide⟩, .variableIdentifier⟩
    source.utf8ByteSize < offsetLimit ∧
      ∃ ofKeyword ofName,
        Json.read (json (records [keyword, name] (some (Source.ofText source)))) =
            .ok (.array [.object ofKeyword, .object ofName]) ∧
          Json.member? "text" ofKeyword = some (.string source) ∧
          ofName.map Prod.fst = ["tag", "capture", "start", "end", "line", "column"] ∧
          Json.member? "line" ofName = some (.ofNat 1) := by
  intro source keyword name
  have short : source.utf8ByteSize < offsetLimit := by
    decide +kernel
  have covers : keyword.span.slice? source = some source := by
    decide +kernel
  have cut : name.span.slice? source = none := by
    decide +kernel
  obtain ⟨items, read, told⟩ :=
    json_tells_highlights [keyword, name] (some source) (by rintro _ ⟨⟩; exact short)
  obtain _ | ⟨⟨ofKeyword, rfl, tellsKeyword⟩, others⟩ := told
  obtain _ | ⟨⟨ofName, rfl, tellsName⟩, none⟩ := others
  obtain _ | _ := none
  obtain ⟨position, stands, line, _⟩ := tellsName.place_eq source rfl
  have second : position.line = 1 := stands.line_eq.trans (by decide +kernel)
  refine ⟨short, ofKeyword, ofName, read, ?_, ?_, ?_⟩
  · exact (tellsKeyword.text_eq source source rfl covers).1
  · rw [tellsName.names_eq, Option.bind_some, cut]
    rfl
  · rw [line, second]

end ShaderTint.Report
