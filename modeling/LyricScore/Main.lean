import LyricScore.Cli.Run
import LyricScore.Yaml.Format

/-
  This file defines the program: it reads the files that a
  command line names, and writes what they are compiled to.

  Key definitions include:
    * `Main.look`
    * `Main.perform`
    * `main`
-/

namespace LyricScore

namespace Main

------------------------------------------------------------
-- Files
------------------------------------------------------------

/- What a path leads to. -/
def look
    (p : Path) : IO Entry := do
  try
    let bytes ← IO.FS.readBinFile p.text
    return .file bytes.data.toList
  catch
    | .noFileOrDirectory _ _ _ => return .missing
    | .inappropriateType _ code _ =>
        return if code = 21 then .folder else .blocked
    | e => throw e

/- What the paths that a job reads lead to. -/
def lookAll
    (paths : List Path) : IO (Path → Entry) := do
  let entries ← paths.mapM fun p => return (p, ← look p)
  return fun p => (entries.lookup p).getD .missing

/-
  Write a file, with the folders that
  its path leads through.
-/
def write
    (p : Path)
    (bytes : List UInt8) : IO Unit := do
  IO.FS.createDirAll p.parent.text
  IO.FS.writeBinFile p.text ⟨bytes.toArray⟩

------------------------------------------------------------
-- Running
------------------------------------------------------------

/- The lines that are printed when help is asked for. -/
def usage : String :=
  "usage: lyricscore [-h] [--transport STDIO|HTTP] [--port PORT] [--debug]\n" ++
    "                  [--config CONFIG] [--compile SRC] [--output OUT]"

/- Do a job. -/
def perform
    (j : Job) : IO Outcome := do
  let look ← lookAll (j.source :: j.config.toList)
  let remarks := j.remarks Yaml.settings look
  match j.compile Yaml.settings look with
  | .error t => return .ofTrouble j remarks t
  | .ok c =>
    write j.output c.midi
    return .ofCompilation j remarks c

/- Do what options ask for. -/
def runOptions
    (o : Options) : IO Outcome := do
  match o.compile with
  | some source =>
    match Job.ofOptions source o with
    | .error t => return ⟨.trouble t, []⟩
    | .ok j => perform j
  | none =>
    let look ← lookAll o.config.toList
    match Job.settings Yaml.settings look o.config with
    | .error t => return ⟨.trouble t, []⟩
    | .ok s => return ⟨.server s o, []⟩

/- Print what was logged, and end. -/
def finish
    (outcome : Outcome) : IO UInt32 := do
  for line in outcome.log do
    IO.eprintln line
  match outcome.exit with
  | .code n => return UInt32.ofNat n
  | .trouble t =>
    IO.eprintln t.message
    return 1
  | .server _ _ =>
    IO.eprintln "there is no server here: give --compile SRC"
    return 1

end Main

end LyricScore

/- The program. -/
def main (args : List String) : IO UInt32 := do
  match LyricScore.Options.read args with
  | .error .help =>
    IO.println LyricScore.Main.usage
    return 0
  | .error .misuse =>
    IO.eprintln LyricScore.Main.usage
    return 2
  | .ok o =>
      LyricScore.Main.finish
        (← LyricScore.Main.runOptions o)
