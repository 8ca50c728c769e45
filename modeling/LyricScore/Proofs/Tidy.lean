import LyricScore.Proofs.Score.Alike
import LyricScore.Proofs.Token.Alike

/-
  This file shows that the spacing of a text does not matter:
  a text and its tidy text are the same score, up to columns,
  and sound and look the same; or both are no score, for the
  same reason and at the same token.

  Key definitions include:
    * `Score.SameMusic`

  Key theorems include:
    * `Score.sameMusic_of_mapLocations`
    * `Score.parse_tidy`
-/

namespace LyricScore

namespace Score

/-
  Two scores that are drawn, played and timed alike, with
  any settings.
-/
structure SameMusic
    (r s : Score) : Prop where
  layout :
    ∀ {K : Type} [Coordinate K]
      (settings : LayoutSettings K),
      r.layout settings = s.layout settings
  events :
    ∀ settings : AudioSettings,
      r.events settings = s.events settings
  midi :
    ∀ settings : AudioSettings,
      r.midi settings = s.midi settings
  timing :
    ∀ settings : AudioSettings,
      r.timing settings = s.timing settings

/-
  Scores that differ only in their
  locations have the same music.
-/
theorem sameMusic_of_mapLocations
    {f g : Location → Location}
    {r s : Score}
    (hScores : r.mapLocations f = s.mapLocations g) :
    r.SameMusic s := by
  constructor
  · intro K _ settings
    rw [← layout_mapLocations settings f, hScores,
      layout_mapLocations]
  · intro settings
    rw [← events_mapLocations f, hScores, events_mapLocations]
  · intro settings
    rw [← midi_mapLocations f, hScores, midi_mapLocations]
  · intro settings
    rw [← timing_mapLocations f, hScores, timing_mapLocations]

/-
  A text and its tidy text are both scores or both none.  The
  scores differ only in columns and have the same music; the
  errors have the same details, tokens and lines.
-/
theorem parse_tidy
    (text : String) :
    Outcome.Like
      (ScoreError.Like Location.eraseColumn
        Location.eraseColumn)
      (fun r s =>
        r.mapLocations Location.eraseColumn =
            s.mapLocations Location.eraseColumn ∧
          r.SameMusic s)
      (parse text) (parse (Spacing.tidy text)) := by
  rcases tokenize_tidy text with
    ⟨ts, us, fin, fin', hTokens, hTidy, hEnd, hFin, hOpen,
      hAlike⟩
  have hOutcomes :=
    ofTokens_alike Location.concur_eraseColumn hFin hEnd
      hOpen hAlike
  rw [parse, parse, hTokens, hTidy]
  apply hOutcomes.imp
  intro r s hScores
  exact ⟨hScores, sameMusic_of_mapLocations hScores⟩

end Score

end LyricScore
