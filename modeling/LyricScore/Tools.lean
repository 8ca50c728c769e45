import LyricScore.Compile
import LyricScore.Files.Path

/-
  This file defines the tools that a client may ask for: each
  takes a score text and answers with one aspect of it, or
  says why there is no answer.

  Key definitions include:
    * `Tool`
    * `Tool.name`
    * `BlockSummary`, `ScoreSummary`
    * `MidiReport`, `TimingReport`, `Fault`
    * `Tool.summarize`
    * `Tool.draw`
    * `Tool.outputPath`
    * `Tool.report`
    * `Tool.time`
    * `Tool.faults`
-/

namespace LyricScore

------------------------------------------------------------
-- Names
------------------------------------------------------------

/- The tools. -/
inductive Tool where
  | beatTiming
  | compileMidi
  | layout
  | parse
  | validate
deriving DecidableEq, Repr

namespace Tool

/- Every tool, in the order of their names. -/
def all : List Tool :=
  [beatTiming, compileMidi, layout, parse, validate]

/- The name that a client knows a tool by. -/
def name : Tool → String
  | beatTiming => "fqs_beat_timing"
  | compileMidi => "fqs_compile_midi"
  | layout => "fqs_layout"
  | parse => "fqs_parse"
  | validate => "fqs_validate"

/- The tool that a name is for. -/
def ofName?
    (word : String) : Option Tool :=
  all.find? fun t => t.name == word

end Tool

------------------------------------------------------------
-- Summaries
------------------------------------------------------------

/- How much of everything a block has. -/
structure BlockSummary where
  lyricLines : Nat
  pitchLines : Nat
  measures : Nat
  beats : Nat
  pitchMeasures : Nat
deriving DecidableEq, Repr

/- The title of a score, and how much its blocks have. -/
structure ScoreSummary where
  title : List String
  blocks : List BlockSummary
deriving DecidableEq, Repr

/- The summary of a block. -/
def Block.summary
    (b : Block) : BlockSummary :=
  let measures := b.lyricLines.flatMap LyricLine.measures
  { lyricLines := b.lyricLines.length
    pitchLines := b.pitchLines.length
    measures := measures.length
    beats := (measures.flatMap LyricMeasure.beats).length
    pitchMeasures :=
      (b.pitchLines.flatMap PitchLine.measures).length }

/- The summary of a score. -/
def Score.summary
    (s : Score) : ScoreSummary :=
  ⟨s.title, s.blocks.map Block.summary⟩

------------------------------------------------------------
-- Answers
------------------------------------------------------------

/- What is told of a file that was compiled. -/
structure MidiReport where
  path : Path
  blocks : Nat
  events : Nat
  totalTicks : Int
  programs : List Nat
  file : List UInt8
deriving DecidableEq, Repr

namespace MidiReport

/- What is said about a file. -/
def message
    (r : MidiReport) : String :=
  "Compiled " ++ toString r.events ++ " events, " ++
    toString r.totalTicks ++ " ticks"

end MidiReport

/- What is told of the times of a score. -/
structure TimingReport where
  beatMap : BeatMap
  ticksPerQuarter : Int
deriving DecidableEq, Repr

/-
  A place where a text is no score, and
  what is missing there.
-/
structure Fault where
  line : Int
  column : Int
  token : String
  message : String
deriving DecidableEq, Repr

namespace Tool

/- The summary of a text. -/
def summarize
    (text : String) : Except Failure ScoreSummary :=
  ((Score.parse text).map Score.summary).mapError .score

/- The drawing of a text. -/
def draw
    (settings : Settings)
    (text : String) : Except Failure (ScoreLayout Float) := do
  let score ← (Score.parse text).mapError .score
  score.layout settings.layout

/- The path of a file of a name in the output folder. -/
def outputPath
    (outputName : String) : Path :=
  Path.join ⟨"", ["output"]⟩ (.ofText (outputName ++ ".mid"))

/-
  The file of a text, under a name in the output folder.  The
  number of its ticks has to be one that can be written.
-/
def report
    (settings : Settings)
    (outputName : String)
    (text : String) : Except Failure MidiReport := do
  let c ← compile settings text
  if ¬Numeral.Writable c.beatMap.totalTicks then
    throw (.numeral .tooLongToWrite)
  else return {
    path := outputPath outputName
    blocks := c.score.blocks.length
    events := c.events.length
    totalTicks := c.beatMap.totalTicks
    programs := c.programs
    file := c.midi }

/- Every number of a beat map can be written. -/
def checkWritable
    (m : BeatMap) : Except Failure Unit :=
  if (∀ b ∈ m.beats, Numeral.Writable b.2) ∧
      Numeral.Writable m.totalTicks then
    .ok ()
  else .error (.numeral .tooLongToWrite)

/- The times of a text. -/
def time
    (settings : Settings)
    (text : String) : Except Failure TimingReport := do
  let score ← (Score.parse text).mapError .score
  let m ← score.timing settings.audio
  checkWritable m
  return ⟨m, settings.audio.ticksPerQuarter⟩

/-
  The faults of a text: none if it is a score, and one where
  something is missing.  Other errors are failures.
-/
def faults
    (text : String) : Except Failure (List Fault) :=
  match Score.parse text with
  | .ok _ => .ok []
  | .error (.missing what found) =>
    .ok [⟨found.line, found.column, found.text, what.message⟩]
  | .error e => .error (.score e)

end Tool

end LyricScore
