import ShaderTint.Span
import ShaderTint.Tag

namespace ShaderTint

/-!
# Highlights

A highlight says that a span of the source carries a tag. Highlights are
ordered by where they start, then where they stop, then by tag.
-/

/-- A tagged span of the source. -/
structure Highlight where
  span : Span
  tag : Tag
  deriving DecidableEq

namespace Highlight

/-- Order by start, then stop, then tag. -/
def compare
    (left right : Highlight) :
    Ordering :=
  (Ord.compare left.span.start right.span.start).then
    ((Ord.compare left.span.stop right.span.stop).then
      (Ord.compare left.tag.rank right.tag.rank))

instance : Ord Highlight where
  compare := Highlight.compare

/-- A highlight may stand before another in a sorted list. -/
def precedes
    (left right : Highlight) :
    Bool :=
  (left.compare right).isLE

/-- Put highlights in order, keeping repetitions. -/
def sort
    (highlights : List Highlight) :
    List Highlight :=
  highlights.mergeSort precedes

/-- The first of the least highlights. -/
def least? : List Highlight → Option Highlight
  | [] => none
  | first :: rest =>
      some (rest.foldl
        (fun least candidate =>
          if least.precedes candidate then least else candidate)
        first)

/-- Comparison of each highlight with the one after it. -/
def neighbours : List Highlight → List Ordering
  | [] => []
  | [_] => []
  | first :: second :: rest =>
      first.compare second :: neighbours (second :: rest)

instance : Hashable Highlight where
  hash highlight := mixHash (hash highlight.span) (hash highlight.tag)

end Highlight

/--
The text that a span covers.

There is none when an end of the span lies past the end of the source or inside
a character.
-/
def Span.slice?
    (span : Span)
    (source : String) :
    Option String :=
  match source.pos? ⟨span.start⟩, source.pos? ⟨span.stop⟩ with
  | some first, some last => some (source.extract first last)
  | _, _ => none

end ShaderTint
