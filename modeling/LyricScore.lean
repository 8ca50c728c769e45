import LyricScore.Drawing.OfData
import LyricScore.Main
import LyricScore.Proofs.BeatKeys
import LyricScore.Proofs.Compile
import LyricScore.Proofs.Modifiers
import LyricScore.Proofs.Paragraphs
import LyricScore.Proofs.Performance.Drift
import LyricScore.Proofs.Performance.Validity
import LyricScore.Proofs.Tidy
import LyricScore.Tools
import LyricScore.Proofs.Effects
import LyricScore.Proofs.Errors
import LyricScore.Proofs.Grammar
import LyricScore.Proofs.Located
import LyricScore.Proofs.Partition
import LyricScore.Proofs.Performance.TempoTrack
import LyricScore.Proofs.Transposition
import LyricScore.Proofs.WellFormed
import LyricScore.Proofs.Drawing.Bounds
import LyricScore.Proofs.Performance.Restarts
import LyricScore.Proofs.Pitch.KeyMemory
import LyricScore.Proofs.Pitch.Melody
import LyricScore.Proofs.Performance.TempoRange
import LyricScore.Proofs.Performance.BeatDuration
import LyricScore.Proofs.BeatLabels
import LyricScore.Proofs.Title
import LyricScore.Proofs.Drawing.Height
import LyricScore.Proofs.Stream.Spelling
import LyricScore.Proofs.Drawing.Measured
import LyricScore.Proofs.Drawing.Commands
import LyricScore.Proofs.Files.Folder
import LyricScore.Proofs.Cli
import LyricScore.Proofs.Midi.Canonical
import LyricScore.Proofs.Stream.Cursor
import LyricScore.Proofs.Settings.Check
import LyricScore.Proofs.Source
