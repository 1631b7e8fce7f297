namespace ShaderTint.CommandLine

/-!
# Paths

A path is written as names between slashes. Repeated slashes, a slash at the
end and dots after the first name lead nowhere, so several texts name the same
path. A slash in front and a dot in front do count.
-/

/-- What stands between the slashes of a text. -/
def segments : List Char → List (List Char)
  | [] => [[]]
  | character :: rest =>
      if character = '/' then
        [] :: segments rest
      else
        match segments rest with
        | [] => [[character]]
        | first :: others => (character :: first) :: others

/-- Does a segment lead to another place than the one before it? -/
def isStep
    (segment : List Char) :
    Bool :=
  segment != [] && segment != ['.']

/--
The steps of a path.

The first segment is always one of them: it is empty for a path that starts at
the root. The empty text has no steps.
-/
def pathSteps
    (path : String) :
    List (List Char) :=
  match segments path.toList with
  | [] | [[]] => []
  | first :: others => first :: others.filter isStep

/-- Do two texts name the same path? -/
def samePath
    (left right : String) :
    Bool :=
  pathSteps left == pathSteps right

end ShaderTint.CommandLine
