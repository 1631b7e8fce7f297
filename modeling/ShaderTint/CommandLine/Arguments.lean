import ShaderTint.CommandLine.Path

namespace ShaderTint.CommandLine

/-!
# Arguments

Arguments are read from left to right. The value of an option or of the tree is
held back until the next option or value is recognised, or the arguments end,
and only then checked; a value attached to its option is checked at once. An
argument that is not recognised at all is reported before a value that is held
back.
-/

/-- How highlights are written. -/
inductive Format where
  | text
  | lines
  | json
  deriving DecidableEq

namespace Format

/-- Every format. -/
def all : List Format :=
  [.text, .lines, .json]

/-- The name of a format. -/
def name : Format → String
  | .text => "text"
  | .lines => "lines"
  | .json => "json"

/-- The format with a name. -/
def ofName?
    (name : String) :
    Option Format :=
  all.find? (·.name == name)

end Format

/-- Which highlights are written. -/
inductive Mode where
  /-- Every highlight of the pass. -/
  | raw
  /-- Each highlight once. -/
  | dedupe
  /-- One highlight for each span. -/
  | resolve
  deriving DecidableEq

/-- The name of a mode. -/
def Mode.name : Mode → String
  | .raw => "raw"
  | .dedupe => "dedupe"
  | .resolve => "resolve"

/-- What the program is to do. -/
structure Options where
  tree : String
  source : Option String
  dedupe : Bool
  resolve : Bool
  format : Format
  stats : Bool
  trace : Bool
  deriving DecidableEq

namespace Options

/-- Resolving includes deduplication. -/
def mode
    (options : Options) :
    Mode :=
  if options.resolve then
    .resolve
  else if options.dedupe then
    .dedupe
  else
    .raw

/-- The path that is a lone dash stands for the standard input. -/
def treeFromInput
    (options : Options) :
    Bool :=
  samePath options.tree "-"

end Options

/-- Arguments that cannot be used. -/
inductive UsageFault where
  | missingTree
  | unknownArgument
  | invalidValue
  | repeatedArgument
  | needlessValue
  deriving DecidableEq

/-- What the arguments ask for. -/
inductive Request where
  | run (options : Options)
  | help
  | version
  deriving DecidableEq

/-- An argument that takes a value. -/
inductive Slot where
  | tree
  | source
  | format
  deriving DecidableEq

/-- An option that takes no value. -/
inductive Switch where
  | dedupe
  | resolve
  | stats
  | trace
  | help
  | version
  deriving DecidableEq

/-- What an option name stands for. -/
inductive Meaning where
  | slot (slot : Slot)
  | switch (switch : Switch)
  deriving DecidableEq

/-- The option with a long name. -/
def longOption? : String → Option Meaning
  | "source" => some (.slot .source)
  | "format" => some (.slot .format)
  | "dedupe" => some (.switch .dedupe)
  | "resolve" => some (.switch .resolve)
  | "stats" => some (.switch .stats)
  | "trace" => some (.switch .trace)
  | "help" => some (.switch .help)
  | "version" => some (.switch .version)
  | _ => none

/-- The option with a one-letter name. -/
def shortOption? : Char → Option Meaning
  | 's' => some (.slot .source)
  | 'f' => some (.slot .format)
  | 'd' => some (.switch .dedupe)
  | 'r' => some (.switch .resolve)
  | 'h' => some (.switch .help)
  | 'V' => some (.switch .version)
  | _ => none

/-- The arguments read so far. -/
structure Draft where
  tree : Option String
  source : Option String
  format : Option Format
  switches : List Switch
  /-- A slot whose value, if there is one yet, is still to be checked. -/
  held : Option (Slot × Option String)
  /-- After a double dash every argument is a value. -/
  valuesOnly : Bool

/-- Nothing read yet. -/
def Draft.empty : Draft where
  tree := none
  source := none
  format := none
  switches := []
  held := none
  valuesOnly := false

/-- A stop on the way: a fault, or a request that needs nothing else. -/
inductive Stop where
  | fault (fault : UsageFault)
  | help
  | version
  deriving DecidableEq

namespace Draft

/-- Check a value and put it into its slot; no slot takes two values. -/
def fill
    (draft : Draft)
    (slot : Slot)
    (value : String) :
    Except Stop Draft :=
  let taken :=
    match slot with
    | .tree => draft.tree.isSome
    | .source => draft.source.isSome
    | .format => draft.format.isSome
  if taken then
    .error (.fault .repeatedArgument)
  else
    match slot with
    | .tree =>
        if value.isEmpty then
          .error (.fault .invalidValue)
        else
          .ok { draft with tree := some value }
    | .source =>
        if value.isEmpty then
          .error (.fault .invalidValue)
        else
          .ok { draft with source := some value }
    | .format =>
        match Format.ofName? value with
        | some format => .ok { draft with format := some format }
        | none => .error (.fault .invalidValue)

/-- Check the value that is held back. -/
def settle
    (draft : Draft) :
    Except Stop Draft :=
  match draft.held with
  | none => .ok draft
  | some (_, none) => .error (.fault .invalidValue)
  | some (slot, some value) => { draft with held := none }.fill slot value

/-- Was a tree given, checked or not? -/
def hasTree
    (draft : Draft) :
    Bool :=
  draft.tree.isSome || draft.held.any (·.1 == .tree)

/-- Turn a switch on. -/
def turnOn
    (draft : Draft)
    (switch : Switch) :
    Except Stop Draft := do
  let draft ← draft.settle
  match switch with
  | .help => .error .help
  | .version => .error .version
  | switch =>
      if draft.switches.contains switch then
        .error (.fault .repeatedArgument)
      else
        return { draft with switches := switch :: draft.switches }

/-- Take an option that wants a value, perhaps with the value attached. -/
def takeSlot
    (draft : Draft)
    (slot : Slot)
    (attached : Option String) :
    Except Stop Draft := do
  let draft ← draft.settle
  match attached with
  | some value => draft.fill slot value
  | none => return { draft with held := some (slot, none) }

/-- Take an option given by its long name. -/
def takeLong
    (draft : Draft)
    (name : String)
    (attached : Option String) :
    Except Stop Draft :=
  match longOption? name with
  | none => .error (.fault .unknownArgument)
  | some (.slot slot) => draft.takeSlot slot attached
  | some (.switch switch) =>
      match attached with
      | some _ => .error (.fault .needlessValue)
      | none => draft.turnOn switch

/-- Take options given by letters; the rest after an option that wants a value is its value. -/
def takeShort
    (draft : Draft) :
    List Char → Except Stop Draft
  | [] => .ok draft
  | letter :: rest =>
      match shortOption? letter with
      | none => .error (.fault .unknownArgument)
      | some (.switch switch) => do
          let draft ← draft.turnOn switch
          draft.takeShort rest
      | some (.slot slot) =>
          match rest with
          | [] => draft.takeSlot slot none
          | '=' :: value =>
              draft.takeSlot slot (some (String.ofList value))
          | value => draft.takeSlot slot (some (String.ofList value))

/-- Take an argument that names no option. -/
def takeValue
    (draft : Draft)
    (value : String) :
    Except Stop Draft :=
  match draft.valuesOnly, draft.held with
  | false, some (slot, none) =>
      .ok { draft with held := some (slot, some value) }
  | _, _ =>
      if draft.hasTree then
        .error (.fault .unknownArgument)
      else do
        let draft ← draft.settle
        return { draft with held := some (.tree, some value) }

/-- Split an option at its first equals sign. -/
def splitOption
    (option : List Char) :
    String × Option String :=
  let name := String.ofList (option.takeWhile (· != '='))
  match option.dropWhile (· != '=') with
  | _ :: value => (name, some (String.ofList value))
  | [] => (name, none)

/-- Take one argument. -/
def take
    (draft : Draft)
    (argument : String) :
    Except Stop Draft :=
  if draft.valuesOnly then
    draft.takeValue argument
  else
    match argument.toList with
    | ['-', '-'] => .ok { draft with valuesOnly := true }
    | '-' :: '-' :: option =>
        let (name, attached) := splitOption option
        draft.takeLong name attached
    | '-' :: letter :: letters => draft.takeShort (letter :: letters)
    | _ => draft.takeValue argument

/-- What all arguments ask for. -/
def finish
    (draft : Draft) :
    Except Stop Options := do
  let draft ← draft.settle
  match draft.tree with
  | none => .error (.fault .missingTree)
  | some tree =>
      return {
        tree := tree
        source := draft.source
        dedupe := draft.switches.contains .dedupe
        resolve := draft.switches.contains .resolve
        format := draft.format.getD .text
        stats := draft.switches.contains .stats
        trace := draft.switches.contains .trace
      }

end Draft

/-- Read the arguments after the program's name. -/
def parse
    (arguments : List String) :
    Except UsageFault Request :=
  match arguments.foldlM Draft.take Draft.empty >>= Draft.finish with
  | .ok options => .ok (.run options)
  | .error .help => .ok .help
  | .error .version => .ok .version
  | .error (.fault fault) => .error fault

end ShaderTint.CommandLine
