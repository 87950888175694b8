import TestLint.CommandLine.Workspace

/-!
# The command line

Standard input holds one line of JSON: the files below the working directory
and the syntax trees of their sources.  The outcome is printed, and files that
the command changes are written.
-/

open TestLint

/-- Runs the command line on the workspace that standard input gives. -/
def main (arguments : List String) : IO UInt32 := do
  let line ← (← IO.getStdin).getLine
  match Json.Codec.strict.read? line >>= CommandLine.Workspace.ofJson? with
  | none =>
    IO.eprintln "error: standard input holds no files and trees"
    return 2
  | some workspace =>
    let color := (← IO.getEnv "CLICOLOR_FORCE").isSome
    let outcome := workspace.run color arguments
    for (path, text) in outcome.files.changesSince workspace.files do
      IO.FS.writeFile path.text text
    IO.print outcome.stdout
    IO.eprint outcome.stderr
    return outcome.code.toUInt32
