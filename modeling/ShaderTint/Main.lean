import ShaderTint.CommandLine.Program

namespace ShaderTint.CommandLine

/-!
# Entry point

Reads the inputs that the options name, runs the program and writes what it
leaves: highlights to the standard output, everything else to the standard
error.
-/

/-- What a system error says about an input. -/
def readFaultOf : IO.Error → ReadFault
  | .noFileOrDirectory .. => .notFound
  | .inappropriateType .. => .isDirectory
  | error => .other (toString error)

/-- Read a file. -/
def readFile
    (path : String) :
    IO (Except ReadFault ByteArray) := do
  try
    return .ok (← IO.FS.readBinFile path)
  catch error =>
    return .error (readFaultOf error)

/-- Read a stream to its end. -/
partial def readStream
    (stream : IO.FS.Stream)
    (before : ByteArray) :
    IO ByteArray := do
  let chunk ← stream.read 65536
  if chunk.isEmpty then
    return before
  else
    readStream stream (before ++ chunk)

/-- Read what the options name. -/
def readInputs
    (options : Options) :
    IO Inputs := do
  let standard ←
    if options.treeFromInput then
      readStream (← IO.getStdin) ByteArray.empty
    else
      pure ByteArray.empty
  let paths :=
    (if options.treeFromInput then [] else [options.tree]) ++
      options.source.toList
  let files ← paths.mapM fun path => do
    return (path, ← readFile path)
  return {
    file := fun path => (files.lookup path).getD (.error .notFound)
    standard := .ok standard
  }

/-- How the program is called. -/
def usageText : String :=
  "Usage: cg-highlight [-s FILE] [-d] [-r] [-f text|lines|json] " ++
    "[--stats] [--trace] TREE"

/-- Run the program for real. -/
def perform
    (options : Options) :
    IO UInt32 := do
  let shown := shown options (← readInputs options)
  IO.print shown.output
  shown.errors.forM fun line => IO.eprintln line
  return shown.status

end ShaderTint.CommandLine

/-- Read the arguments and do what they ask for. -/
def main
    (arguments : List String) :
    IO UInt32 := do
  match ShaderTint.CommandLine.parse arguments with
  | .ok (.run options) => ShaderTint.CommandLine.perform options
  | .ok .help =>
      IO.println ShaderTint.CommandLine.usageText
      return 0
  | .ok .version =>
      IO.println ShaderTint.CommandLine.versionText
      return 0
  | .error _ =>
      IO.eprintln ShaderTint.CommandLine.usageText
      return 2
