import ShaderTint.CommandLine.Arguments
import ShaderTint.Pass.Run
import ShaderTint.Report.Record
import ShaderTint.Tree.Containment
import ShaderTint.Wire.OfText

namespace ShaderTint.CommandLine

/-!
# The program

The program reads a tree and perhaps its source, runs one pass and writes the
highlights. What it shows is a function of its options and of what its inputs
hold; reading the inputs and writing what is shown is left to `main`.
-/

/-- Why an input cannot be read. -/
inductive ReadFault where
  | notFound
  | isDirectory
  | notUtf8
  /-- Another reason, as the system words it. -/
  | other (reason : String)
  deriving DecidableEq

/-- The reason in words. -/
def ReadFault.message : ReadFault → String
  | .notFound => "No such file or directory (os error 2)"
  | .isDirectory => "Is a directory (os error 21)"
  | .notUtf8 => "stream did not contain valid UTF-8"
  | .other reason => reason

/-- What the program can read. -/
structure Inputs where
  /-- The bytes of the file at a path. -/
  file : String → Except ReadFault ByteArray
  /-- The bytes of the standard input. -/
  standard : Except ReadFault ByteArray

/-- Bytes as text. -/
def decodeText
    (bytes : ByteArray) :
    Except ReadFault String :=
  match String.fromUTF8? bytes with
  | some text => .ok text
  | none => .error .notUtf8

/-- Why the program gives up. -/
inductive Failure where
  | unreadableTree (path : String) (cause : ReadFault)
  | unreadableInput (cause : ReadFault)
  | undecodableTree (name : String) (cause : Wire.TextFault)
  | malformedTree (name : String) (cause : TreeFault)
  | unreadableSource (path : String) (cause : ReadFault)
  | linesWithoutSource
  | treeBeyondSource (tree source : Nat)
  | interrupted (visited : Nat)
  deriving DecidableEq

/-- The failure in words. -/
def Failure.message : Failure → String
  | .unreadableTree path _ => "failed to read tree " ++ path
  | .unreadableInput _ => "failed to read tree from stdin"
  | .undecodableTree name _ => "failed to parse syntax tree from " ++ name
  | .malformedTree name _ => "malformed syntax tree in " ++ name
  | .unreadableSource path _ => "failed to read source " ++ path
  | .linesWithoutSource =>
      "--format lines needs the source text (--source)"
  | .treeBeyondSource tree source =>
      "tree covers " ++ toString tree ++
        " bytes but the source is only " ++ toString source ++ " bytes long"
  | .interrupted visited => interruptedMessage visited

/-- What lies behind a failure, in words. -/
def Failure.cause? : Failure → Option String
  | .unreadableTree _ cause => some cause.message
  | .unreadableInput cause => some cause.message
  | .undecodableTree _ (.data fault) => some fault.message
  | .undecodableTree _ (.flawed .malformed) => some "malformed JSON"
  | .undecodableTree _ (.flawed .truncated) => some "truncated JSON"
  | .malformedTree _ cause => some cause.message
  | .unreadableSource _ cause => some cause.message
  | .linesWithoutSource => none
  | .treeBeyondSource _ _ => none
  | .interrupted _ => none

/-- What a successful run writes. -/
structure Output where
  text : String
  stats : PassStats
  log : Array Event

/-- The name of the tree in messages. -/
def treeName
    (options : Options) :
    String :=
  if options.treeFromInput then "<stdin>" else options.tree

/-- Read the text of the tree. -/
def readTree
    (options : Options)
    (inputs : Inputs) :
    Except Failure String :=
  if options.treeFromInput then
    (inputs.standard >>= decodeText).mapError .unreadableInput
  else
    (inputs.file options.tree >>= decodeText).mapError
      (.unreadableTree options.tree)

/-- Read, decode and check the tree. -/
def loadTree
    (options : Options)
    (inputs : Inputs) :
    Except Failure Node := do
  let text ← readTree options inputs
  let root ←
    (Wire.nodeOfText text).mapError (.undecodableTree (treeName options))
  root.validate.mapError (.malformedTree (treeName options))
  return root

/-- Read the source, if one is given. -/
def loadSource
    (options : Options)
    (inputs : Inputs) :
    Except Failure (Option String) :=
  match options.source with
  | none => .ok none
  | some path =>
      ((inputs.file path >>= decodeText).mapError
        (.unreadableSource path)).map some

/-- The tree must not reach past the end of its source. -/
def checkCover
    (root : Node)
    (source : String) :
    Except Failure Unit :=
  if source.utf8ByteSize < root.span.stop then
    .error (.treeBeyondSource root.span.stop source.utf8ByteSize)
  else
    .ok ()

/-- The outcome of a pass as highlights and counters. -/
def collected
    (result : Pass.Result σ)
    (highlights : List Highlight) :
    Except Failure (List Highlight × PassStats × Array Event) :=
  match result.outcome with
  | .finished stats => .ok (highlights, stats, result.log)
  | .interrupted visited => .error (.interrupted visited)

/-- Run the pass of a mode under a context. -/
def highlight
    (root : Node)
    (mode : Mode)
    (context : Context)
    (flags : Flags) :
    Except Failure (List Highlight × PassStats × Array Event) :=
  let settings := context.settings .log
  match mode with
  | .raw =>
      let result :=
        Pass.run settings root { Pass.rawHost with flags := flags }
      collected result result.host.sink.toList
  | .dedupe =>
      let result :=
        Pass.run settings root { Pass.distinctHost with flags := flags }
      collected result result.host.sink.toList
  | .resolve =>
      let result :=
        Pass.run settings root { Pass.distinctHost with flags := flags }
      collected result result.host.sink.resolved

/-- Highlights in a format; a text stands in for lines without a source. -/
def render
    (format : Format)
    (highlights : List Highlight)
    (source : Option Source) :
    String :=
  match format, source with
  | .lines, some source => Report.lines highlights source
  | .json, source => Report.json (Report.records highlights source) ++ "\n"
  | _, source => Report.text (Report.records highlights source)

/-- The context of the pass; nobody else has a handle on its flag. -/
def Options.context
    (options : Options) :
    Context where
  family := 0
  trace := options.trace

/-- Run the program. -/
def run
    (options : Options)
    (inputs : Inputs) :
    Except Failure Output := do
  let root ← loadTree options inputs
  let source ← loadSource options inputs
  if options.format = .lines ∧ source.isNone then
    .error .linesWithoutSource
  if let some text := source then
    checkCover root text
  let (highlights, stats, log) ←
    highlight root options.mode options.context Flags.clear
  return {
    text := render options.format highlights (source.map Source.ofText)
    stats := stats
    log := log
  }

/-- Counters of a pass as JSON. -/
def statsJson
    (stats : PassStats) :
    Json :=
  .object [("nodes_visited", Json.ofNat stats.nodesVisited),
    ("highlights_emitted", Json.ofNat stats.highlightsEmitted),
    ("mismatches", Json.ofNat stats.mismatches)]

/-- What a run of the program shows to the outside. -/
structure Shown where
  status : UInt32
  /-- The text on the standard output. -/
  output : String
  /-- The lines on the standard error. -/
  errors : List String

/-- Warnings of the pass, and its counters if they are asked for. -/
def Output.shown
    (options : Options)
    (output : Output) :
    Shown where
  status := 0
  output := output.text
  errors :=
    (output.log.toList.filter (·.level = .warn)).map
        (fun event => event.level.text ++ " " ++ event.message) ++
      if options.stats then [(statsJson output.stats).compact] else []

/-- The failure and what lies behind it. -/
def Failure.shown
    (failure : Failure) :
    Shown where
  status := 1
  output := ""
  errors :=
    ("Error: " ++ failure.message) ::
      match failure.cause? with
      | some cause => ["", "Caused by:", "    " ++ cause]
      | none => []

/-- Run the program and show how it went. -/
def shown
    (options : Options)
    (inputs : Inputs) :
    Shown :=
  match run options inputs with
  | .ok output => output.shown options
  | .error failure => failure.shown

/-- The name and version of the program. -/
def versionText : String :=
  "cg-highlight 0.0.1"

end ShaderTint.CommandLine
