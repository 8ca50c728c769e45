import Mathlib.Data.List.Basic
import LyricScore.Proofs.Settings.Field

/-
  This file tells which data are accepted as settings, field
  by field.  A section is a list of fields; checking it finds
  the value of each field and complains about each field that
  is not acceptable, in the order of the fields, and looks at
  nothing else.

  Key definitions include:
    * `SettingGroup`
    * `SettingGroup.Accepts`
    * `SettingGroup.Gives`
    * `SettingGroup.refused`
    * `LayoutSettings.group`, `AudioSettings.group`
    * `Settings.Accepts`
    * `Settings.Gives`
    * `Settings.refused`
    * `Settings.known`

  Key theorems include:
    * `SettingGroup.map_fst_complaints`
    * `SettingGroup.gives_iff`
    * `SettingGroup.inRange_of_gives`
    * `Settings.check_known`
    * `Settings.ofData_field_by_field`
-/

namespace LyricScore

/-
  The complaints about fields go by those
  that are not acceptable.
-/
theorem SettingField.map_fst_filterMap
    {S : Type}
    (fields : List (SettingField S))
    (entries : List (String × Data))
    (group : String) :
    (fields.filterMap fun f =>
        f.complaint? entries group).map Prod.fst =
      (fields.filter fun f => ¬ f.IsAcceptable entries).map
        fun f => group ++ "." ++ f.name := by
  induction fields with
  | nil =>
      rfl
  | cons f fields ih =>
      have hName :
          (f.complaint? entries group).map Prod.fst =
            if f.IsAcceptable entries then none
            else some (group ++ "." ++ f.name) :=
        SettingField.map_fst_complaint? group
      by_cases hAcceptable : f.IsAcceptable entries
      · rw [if_pos hAcceptable, Option.map_eq_none_iff] at hName
        rw [List.filterMap_cons, hName,
          List.filter_cons_of_neg (by simpa)]
        exact ih
      · rw [if_neg hAcceptable, Option.map_eq_some_iff] at hName
        rcases hName with ⟨c, hComplaint, hPath⟩
        rw [List.filterMap_cons, hComplaint,
          List.filter_cons_of_pos (by simpa), List.map_cons,
          List.map_cons, ih, hPath]

------------------------------------------------------------
-- Sections
------------------------------------------------------------

/-
  A section of the settings: its name, its fields in order, and
  the settings that hold where none are given.  Each default is
  in range.  Checking a section is checking its fields in turn,
  and their values make up the settings.
-/
structure SettingGroup (S : Type) where
  name : String
  fields : List (SettingField S)
  default : S
  check : List (String × Data) → Checked S
  default_inRange :
    ∀ f ∈ fields, f.kind.InRange (f.value default)
  eq_of_values :
    ∀ s t, (∀ f ∈ fields, f.value s = f.value t) → s = t
  complaints_check :
    ∀ entries,
      (check entries).complaints =
        fields.flatMap fun f =>
          (f.check entries name default).complaints
  value_check :
    ∀ entries,
      ∀ f ∈ fields,
        f.value (check entries).value =
          (f.check entries name default).value

namespace SettingGroup

variable {S : Type}
variable (g : SettingGroup S)
variable (entries : List (String × Data))

/-
  A section is left out, or it is a mapping
  with acceptable fields.
-/
def Accepts : Prop :=
  match Data.lookup g.name entries with
  | none => True
  | some (.mapping inner) =>
      ∀ f ∈ g.fields, f.IsAcceptable inner
  | some _ => False

/-
  A section gives settings: the defaults if it is left
  out, and else those in which each field has its
  default or the value of its data.
-/
def Gives
    (s : S) : Prop :=
  match Data.lookup g.name entries with
  | none => s = g.default
  | some (.mapping inner) =>
      ∀ f ∈ g.fields, f.IsGiven inner g.default s
  | some _ => False

/- Every setting is in its range. -/
def InRange
    (s : S) : Prop :=
  ∀ f ∈ g.fields, f.kind.InRange (f.value s)

/-
  What is not acceptable: the section, or some
  of its fields in order.
-/
def refused : List String :=
  match Data.lookup g.name entries with
  | none => []
  | some (.mapping inner) =>
    (g.fields.filter fun f => ¬ f.IsAcceptable inner).map
      fun f => g.name ++ "." ++ f.name
  | some _ => [g.name]

/-
  What is complained about: the section, or some of its
  fields in order.
-/
def complaints : List (String × Complaint) :=
  match Data.lookup g.name entries with
  | none => []
  | some (.mapping inner) =>
      g.fields.filterMap fun f => f.complaint? inner g.name
  | some _ => [(g.name, .notAMapping)]

/- A section as it is checked. -/
def checked : Checked S :=
  Checked.group entries g.name g.check g.default

variable {g entries}

/-
  A checked group complains about its
  entries as its fields do.
-/
theorem complaints_checked :
    (g.checked entries).complaints = g.complaints entries := by
  unfold checked Checked.group complaints
  cases Data.lookup g.name entries with
  | none =>
      rfl
  | some d =>
      cases d with
      | mapping inner =>
          simp only [g.complaints_check,
            List.filterMap_eq_flatMap_toList,
            SettingField.complaints_check]
      | _ =>
          rfl

/-
  One complaint is made about each field
  that is not acceptable.
-/
theorem map_fst_complaints :
    (g.complaints entries).map Prod.fst =
      g.refused entries := by
  unfold complaints refused
  cases Data.lookup g.name entries with
  | none =>
      rfl
  | some d =>
      cases d with
      | mapping inner =>
          simp only [SettingField.map_fst_filterMap]
      | _ =>
          rfl

/-
  Nothing is complained about just if
  every entry is accepted.
-/
theorem complaints_eq_nil_iff :
    g.complaints entries = [] ↔ g.Accepts entries := by
  unfold complaints Accepts
  cases Data.lookup g.name entries with
  | none =>
      simp
  | some d =>
      cases d with
      | mapping inner =>
          simp only [List.filterMap_eq_nil_iff,
            SettingField.complaint?_eq_none_iff]
      | _ =>
          simp

/-
  The settings that a section gives are
  those that checking finds.
-/
theorem gives_iff
    {s : S} :
    g.Gives entries s ↔
      g.Accepts entries ∧
        s = (g.checked entries).value := by
  unfold Gives Accepts checked Checked.group
  cases Data.lookup g.name entries with
  | none =>
      simp
  | some d =>
      cases d with
      | mapping inner =>
          simp only [SettingField.isGiven_iff g.name]
          constructor
          · intro hGiven
            refine ⟨fun f hMem => (hGiven f hMem).1,
              g.eq_of_values _ _ ?_⟩
            intro f hMem
            rw [(hGiven f hMem).2, g.value_check inner f hMem]
          · rintro ⟨hAcceptable, rfl⟩ f hMem
            exact ⟨hAcceptable f hMem,
              g.value_check inner f hMem⟩
      | _ =>
          simp

/- Settings that a section gives are in range. -/
theorem inRange_of_gives
    {s : S}
    (hGives : g.Gives entries s) :
    g.InRange s := by
  intro f hMem
  unfold Gives at hGives
  cases hSection : Data.lookup g.name entries with
  | none =>
      simp only [hSection] at hGives
      rw [hGives]
      exact g.default_inRange f hMem
  | some d =>
      cases d with
      | mapping inner =>
          simp only [hSection] at hGives
          have hGiven := hGives f hMem
          unfold SettingField.IsGiven at hGiven
          cases hField : Data.lookup f.name inner with
          | none =>
              simp only [hField] at hGiven
              rw [hGiven]
              exact g.default_inRange f hMem
          | some d =>
              simp only [hField] at hGiven
              exact hGiven.2
      | _ =>
          simp only [hSection] at hGives

end SettingGroup

------------------------------------------------------------
-- The two sections
------------------------------------------------------------

/- The section of drawings. -/
def LayoutSettings.group
    (k : Coercion) : SettingGroup (LayoutSettings Float) where
  name := "layout"
  fields := [
    ⟨"font_width", .positive k, fontWidth⟩,
    ⟨"font_height", .positive k, fontHeight⟩,
    ⟨"staff_line_spacing", .positive k, staffLineSpacing⟩,
    ⟨"base_margin", .notNegative k, baseMargin⟩,
    ⟨"top_margin", .notNegative k, topMargin⟩,
    ⟨"lyric_offset", .measure k, lyricOffset⟩,
    ⟨"counter_offset", .measure k, counterOffset⟩,
    ⟨"bottom_margin", .notNegative k, bottomMargin⟩,
    ⟨"beat_gap", .notNegative k, beatGap⟩,
    ⟨"barline_padding", .notNegative k, barlinePadding⟩,
    ⟨"chord_stagger", .notNegative k, chordStagger⟩,
    ⟨"counter_radius", .positive k, counterRadius⟩,
    ⟨"title_x", .notNegative k, titleX⟩,
    ⟨"title_top", .notNegative k, titleTop⟩,
    ⟨"title_line_height", .positive k, titleLineHeight⟩,
    ⟨"guide_color", .text k, guideColor⟩,
    ⟨"barline_color", .text k, barlineColor⟩,
    ⟨"counter_color", .text k, counterColor⟩,
    ⟨"annotation_color", .text k, annotationColor⟩,
    ⟨"natural_color", .text k, naturalColor⟩,
    ⟨"sharp_color", .text k, sharpColor⟩,
    ⟨"flat_color", .text k, flatColor⟩,
    ⟨"title_font", .text k, titleFont⟩,
    ⟨"lyric_font", .text k, lyricFont⟩,
    ⟨"pitch_font", .text k, pitchFont⟩,
    ⟨"counter_font", .text k, counterFont⟩,
    ⟨"tempo_font", .text k, tempoFont⟩,
    ⟨"octave_font", .text k, octaveFont⟩]
  default := .default
  check := check k
  default_inRange := by
    simp only [List.forall_mem_cons, List.not_mem_nil,
      false_implies, implies_true, SettingKind.positive,
      SettingKind.notNegative, SettingKind.measure,
      SettingKind.text]
    decide +kernel
  eq_of_values := by
    rintro ⟨⟩ ⟨⟩ hSame
    simpa [List.forall_mem_cons] using hSame
  complaints_check entries := rfl
  value_check entries := by
    simp only [List.forall_mem_cons, List.not_mem_nil,
      false_implies, implies_true, and_true]
    and_intros <;> rfl

/- The section of playing. -/
def AudioSettings.group
    (k : Coercion) : SettingGroup AudioSettings where
  name := "audio"
  fields := [
    ⟨"ticks_per_quarter", .countUpTo k 0x7FFF, ticksPerQuarter⟩,
    ⟨"default_tempo", .count k, defaultTempo⟩,
    ⟨"default_beat_duration", .beatUnit k, defaultBeatUnit⟩,
    ⟨"default_velocity", .level k 100, defaultVelocity⟩,
    ⟨"default_instrument", .level k 127, defaultInstrument⟩,
    ⟨"channel", .level k 15, channel⟩]
  default := {}
  check := check k
  default_inRange := by
    simp only [List.forall_mem_cons, List.not_mem_nil,
      false_implies, implies_true, SettingKind.countUpTo,
      SettingKind.count, SettingKind.beatUnit,
      SettingKind.level]
    decide
  eq_of_values := by
    rintro ⟨⟩ ⟨⟩ hSame
    simpa [List.forall_mem_cons] using hSame
  complaints_check entries := rfl
  value_check entries := by
    simp only [List.forall_mem_cons, List.not_mem_nil,
      false_implies, implies_true, and_true]
    and_intros <;> rfl

/-
  Layout settings in the range of their group are in range.
-/
theorem LayoutSettings.inRange_of_group
    {k : Coercion}
    {s : LayoutSettings Float}
    (hRange : (group k).InRange s) :
    s.InRange := by
  simp only [SettingGroup.InRange, group, List.forall_mem_cons,
    SettingKind.positive, SettingKind.notNegative] at hRange
  rcases hRange with
    ⟨hWidth, hHeight, hSpacing, hBase, hTop, -, -, hBottom,
      hGap, hPadding, hStagger, hRadius, hTitleX, hTitleTop,
      hTitleLine, -⟩
  exact ⟨hWidth, hHeight, hSpacing, hBase, hTop, hBottom,
    hGap, hPadding, hStagger, hRadius, hTitleX, hTitleTop,
    hTitleLine⟩

/- Audio settings in the range of their group are in range. -/
theorem AudioSettings.inRange_of_group
    {k : Coercion}
    {s : AudioSettings}
    (hRange : (group k).InRange s) :
    s.InRange := by
  simp only [SettingGroup.InRange, group,
    List.forall_mem_cons, SettingKind.countUpTo,
    SettingKind.count, SettingKind.beatUnit,
    SettingKind.level] at hRange
  rcases hRange with
    ⟨hTicks, hTempo, hUnit, hVelocity, hInstrument,
      hChannel, -⟩
  exact ⟨hTicks, hTempo, hUnit, hVelocity, hInstrument,
    hChannel⟩

------------------------------------------------------------
-- Keys that are passed over
------------------------------------------------------------

/- A lookup finds the first entry of its key. -/
theorem Data.lookup_cons
    (key : String)
    (e : String × Data)
    (entries : List (String × Data)) :
    Data.lookup key (e :: entries) =
      if e.1 = key then some e.2
      else Data.lookup key entries := by
  unfold Data.lookup
  by_cases hKey : e.1 = key <;> simp [hKey]

/- An entry that is kept is found. -/
theorem Data.lookup_filter
    {key : String}
    (keep : String → Bool)
    (hKeep : keep key = true)
    (entries : List (String × Data)) :
    Data.lookup key (entries.filter fun e => keep e.1) =
      Data.lookup key entries := by
  induction entries with
  | nil =>
      rfl
  | cons e entries ih =>
      by_cases hHere : keep e.1 = true
      · rw [List.filter_cons, if_pos hHere,
          Data.lookup_cons, Data.lookup_cons, ih]
      · have hOther : e.1 ≠ key := by
          rintro rfl
          exact hHere hKeep
        rw [List.filter_cons, if_neg hHere, ih,
          Data.lookup_cons, if_neg hOther]

/- An entry that is changed is found as it is then. -/
theorem Data.lookup_map
    (key : String)
    (change : String → Data → Data)
    (entries : List (String × Data)) :
    Data.lookup key
        (entries.map fun e => (e.1, change e.1 e.2)) =
      (Data.lookup key entries).map (change key) := by
  induction entries with
  | nil =>
      rfl
  | cons e entries ih =>
      rw [List.map_cons, Data.lookup_cons, Data.lookup_cons, ih]
      by_cases hKey : e.1 = key <;> simp [hKey]

namespace SettingGroup

variable {S : Type}
variable (g : SettingGroup S)

/- The name of a field is known. -/
def knows
    (key : String) : Bool :=
  g.fields.any fun f => f.name == key

/- A section without the fields that are not known. -/
def known : Data → Data
  | .mapping inner =>
      .mapping (inner.filter fun e => g.knows e.1)
  | d => d

/- Checking looks at nothing but the fields that are known. -/
theorem check_filter
    (inner : List (String × Data)) :
    g.check (inner.filter fun e => g.knows e.1) =
      g.check inner := by
  have hField (f : SettingField S) (hMem : f ∈ g.fields) :
      f.check (inner.filter fun e => g.knows e.1) g.name
          g.default =
        f.check inner g.name g.default := by
    have hKnown : g.knows f.name = true :=
      List.any_eq_true.mpr ⟨f, hMem, beq_self_eq_true _⟩
    rw [SettingField.check, SettingField.check,
      Checked.field, Checked.field,
      Data.lookup_filter g.knows hKnown]
  have hComplaints :
      (g.check
          (inner.filter fun e => g.knows e.1)).complaints =
        (g.check inner).complaints := by
    rw [g.complaints_check, g.complaints_check]
    exact List.flatMap_congr fun f hMem =>
      congrArg Checked.complaints (hField f hMem)
  have hValue :
      (g.check (inner.filter fun e => g.knows e.1)).value =
        (g.check inner).value := by
    apply g.eq_of_values
    intro f hMem
    rw [g.value_check _ f hMem, g.value_check _ f hMem,
      hField f hMem]
  calc g.check (inner.filter fun e => g.knows e.1)
    _ = ⟨(g.check (inner.filter fun e => g.knows e.1)).value,
          (g.check
            (inner.filter fun e =>
              g.knows e.1)).complaints⟩ := rfl
    _ = g.check inner := by rw [hValue, hComplaints]

/- A section is checked as the fields of it that are known. -/
theorem checked_of_known
    {entries kept : List (String × Data)}
    (hKept :
      Data.lookup g.name kept =
        (Data.lookup g.name entries).map g.known) :
    g.checked kept = g.checked entries := by
  unfold checked Checked.group
  rw [hKept]
  cases Data.lookup g.name entries with
  | none =>
      rfl
  | some d =>
      cases d with
      | mapping inner =>
          exact g.check_filter inner
      | _ =>
          rfl

end SettingGroup

------------------------------------------------------------
-- Both sections
------------------------------------------------------------

namespace Settings

variable (k : Coercion)
variable (entries : List (String × Data))

/- Both sections are accepted. -/
def Accepts : Prop :=
  (LayoutSettings.group k).Accepts entries ∧
    (AudioSettings.group k).Accepts entries

/- Each section gives its part of the settings. -/
def Gives
    (s : Settings) : Prop :=
  (LayoutSettings.group k).Gives entries s.layout ∧
    (AudioSettings.group k).Gives entries s.audio

/-
  What is not acceptable, first of drawing
  and then of playing.
-/
def refused : List String :=
  (LayoutSettings.group k).refused entries ++
    (AudioSettings.group k).refused entries

/-
  What is complained about, first in
  drawing and then in playing.
-/
def complaints : List (String × Complaint) :=
  (LayoutSettings.group k).complaints entries ++
    (AudioSettings.group k).complaints entries

/- The key of a section. -/
def isSection
    (key : String) : Bool :=
  key == "layout" || key == "audio"

/- The fields of a section that are known. -/
def knownSection
    (key : String) : Data → Data :=
  if key = "layout" then (LayoutSettings.group k).known
  else (AudioSettings.group k).known

/-
  The sections with the fields in them that are known, and
  nothing else.
-/
def known : List (String × Data) :=
  (entries.filter fun e => isSection e.1).map fun e =>
    (e.1, knownSection k e.1 e.2)

/-
  One complaint is made about everything
  that is not acceptable.
-/
theorem map_fst_complaints :
    (complaints k entries).map Prod.fst =
      refused k entries := by
  rw [complaints, List.map_append,
    SettingGroup.map_fst_complaints,
    SettingGroup.map_fst_complaints, refused]

/-
  Nothing is complained about just if both
  sections are accepted.
-/
theorem complaints_eq_nil_iff :
    complaints k entries = [] ↔ Accepts k entries := by
  rw [complaints, List.append_eq_nil_iff,
    SettingGroup.complaints_eq_nil_iff,
    SettingGroup.complaints_eq_nil_iff, Accepts]

/- The settings are checked one section behind the other. -/
theorem check_eq :
    check k entries =
      ⟨⟨((LayoutSettings.group k).checked entries).value,
          ((AudioSettings.group k).checked entries).value⟩,
        complaints k entries⟩ := by
  rw [complaints, ← SettingGroup.complaints_checked,
    ← SettingGroup.complaints_checked]
  exact
    congrArg (Checked.mk _)
      (congrArg (_ ++ ·) (List.append_nil _))

/-
  The settings that both sections give are those that
  checking finds.
-/
theorem gives_iff
    {s : Settings} :
    Gives k entries s ↔
      Accepts k entries ∧ (check k entries).value = s := by
  rw [Gives, SettingGroup.gives_iff, SettingGroup.gives_iff,
    check_eq, Accepts]
  constructor
  · rintro ⟨⟨hLayout, hDrawing⟩, hAudio, hPlaying⟩
    exact
      ⟨⟨hLayout, hAudio⟩, by rw [← hDrawing, ← hPlaying]⟩
  · rintro ⟨⟨hLayout, hAudio⟩, rfl⟩
    exact ⟨⟨hLayout, rfl⟩, hAudio, rfl⟩

/- Settings that both sections give are in range. -/
theorem inRange_of_gives
    {s : Settings}
    (hGives : Gives k entries s) :
    s.layout.InRange ∧ s.audio.InRange :=
  ⟨LayoutSettings.inRange_of_group
      (SettingGroup.inRange_of_gives hGives.1),
    AudioSettings.inRange_of_group
      (SettingGroup.inRange_of_gives hGives.2)⟩

/- Checking looks at nothing that is not known. -/
theorem check_known :
    check k (known k entries) = check k entries := by
  have hLookup (key : String)
      (hSection : isSection key = true) :
      Data.lookup key (known k entries) =
        (Data.lookup key entries).map
          (knownSection k key) := by
    rw [known, Data.lookup_map,
      Data.lookup_filter isSection hSection]
  have hLayout :
      (LayoutSettings.group k).checked (known k entries) =
        (LayoutSettings.group k).checked entries :=
    (LayoutSettings.group k).checked_of_known
      (hLookup "layout" rfl)
  have hAudio :
      (AudioSettings.group k).checked (known k entries) =
        (AudioSettings.group k).checked entries :=
    (AudioSettings.group k).checked_of_known
      (hLookup "audio" rfl)
  have hComplaints :
      complaints k (known k entries) =
        complaints k entries := by
    rw [complaints, ← SettingGroup.complaints_checked,
      ← SettingGroup.complaints_checked, hLayout, hAudio,
      SettingGroup.complaints_checked,
      SettingGroup.complaints_checked, complaints]
  rw [check_eq, check_eq, hLayout, hAudio, hComplaints]

------------------------------------------------------------
-- Acceptance
------------------------------------------------------------

/-
  A mapping gives settings if nothing in
  it is complained about.
-/
theorem ofData_mapping :
    ofData k (.mapping entries) =
      if complaints k entries = [] then
        .ok (check k entries).value
      else .error (.invalid (complaints k entries)) := by
  rw [ofData, check_eq]

/-
  Settings are accepted field by field, whatever the coercion
  is.  Data give settings just if both sections are
  acceptable, and so is every field in them.  Every field that
  is given then has the value its data become, and every other
  its default, and all of them are in range.  Else there is
  one complaint about everything that is not acceptable, first
  of drawing and then of playing, in the order of the fields.
  Whatever is not known is passed over.
-/
theorem ofData_field_by_field :
    ((∃ s, ofData k (.mapping entries) = .ok s) ↔
        Accepts k entries) ∧
      (∀ s,
        ofData k (.mapping entries) = .ok s ↔
          Gives k entries s) ∧
      (∀ s,
        ofData k (.mapping entries) = .ok s →
          s.layout.InRange ∧ s.audio.InRange) ∧
      (∀ e,
        ofData k (.mapping entries) = .error e →
          e = .invalid (complaints k entries) ∧
            (complaints k entries).map Prod.fst =
              refused k entries) ∧
      ofData k (.mapping (known k entries)) =
        ofData k (.mapping entries) := by
  have hGives (s : Settings) :
      ofData k (.mapping entries) = .ok s ↔
        Gives k entries s := by
    rw [gives_iff, ofData_mapping, ← complaints_eq_nil_iff]
    by_cases hNone : complaints k entries = []
    · rw [if_pos hNone, Except.ok.injEq, and_iff_right hNone]
    · rw [if_neg hNone]
      exact iff_of_false nofun fun hBoth => hNone hBoth.1
  refine ⟨?_, hGives, ?_, ?_, ?_⟩
  · simp only [hGives, gives_iff, exists_and_left,
      exists_eq', and_true]
  · intro s hSettings
    exact inRange_of_gives k entries ((hGives s).mp hSettings)
  · intro e hError
    refine ⟨?_, map_fst_complaints k entries⟩
    rw [ofData_mapping] at hError
    by_cases hNone : complaints k entries = []
    · rw [if_pos hNone] at hError
      cases hError
    · rw [if_neg hNone] at hError
      exact (Except.error.inj hError).symm
  · rw [ofData, ofData, check_known]

/- Numbers written as texts, and keys that are not known. -/
def scribbled : List (String × Data) :=
  [("paper", .list []),
    ("layout",
      .mapping
        [("ink", .null), ("lyric_offset", .text "nan"),
          ("top_margin", .bool true)]),
    ("audio", .mapping [("channel", .text " 9 ")])]

/-
  A section that is nothing, before a section with fields out
  of range and out of order, and one that is no number.
-/
def spoiled : List (String × Data) :=
  [("audio", .null),
    ("layout",
      .mapping
        [("title_x", .integer (-1)), ("ink", .null),
          ("font_height", .text "0.0"),
          ("font_width", .text "nan")])]

/-
  The first are taken as they say, and
  the others are refused.
-/
theorem scribbled_taken_spoiled_refused :
    (∃ s,
      ofData .lax (.mapping scribbled) = .ok s ∧
        Gives .lax scribbled s ∧
        s.layout.InRange ∧
        s.audio = { channel := 9 }) ∧
      ∃ found,
        ofData .lax (.mapping spoiled) =
            .error (.invalid found) ∧
          found.map Prod.fst =
            ["layout.font_width", "layout.font_height",
              "layout.title_x", "audio"] := by
  rcases ofData_field_by_field .lax scribbled with
    ⟨hTaken, hGives, hRange, -, -⟩
  rcases ofData_field_by_field .lax spoiled with
    ⟨hRefused, -, -, hError, -⟩
  have hAccepts : Accepts .lax scribbled := by
    rw [← complaints_eq_nil_iff]
    decide +kernel
  have hNotAccepts : ¬ Accepts .lax spoiled := by
    rw [← complaints_eq_nil_iff]
    decide +kernel
  have hPaths :
      refused .lax spoiled =
        ["layout.font_width", "layout.font_height",
          "layout.title_x", "audio"] := by
    decide +kernel
  rcases hTaken.mpr hAccepts with ⟨s, hSettings⟩
  have hChannel : s.audio = { channel := 9 } := by
    rw [← ((gives_iff .lax scribbled).mp
      ((hGives s).mp hSettings)).2]
    decide +kernel
  refine
    ⟨⟨s, hSettings, (hGives s).mp hSettings,
        (hRange s hSettings).1, hChannel⟩, ?_⟩
  cases hSpoiled : ofData .lax (.mapping spoiled) with
  | ok s =>
      exact absurd (hRefused.mp ⟨s, hSpoiled⟩) hNotAccepts
  | error e =>
      rcases hError e hSpoiled with ⟨rfl, hNamed⟩
      exact ⟨_, rfl, hNamed.trans hPaths⟩

end Settings

end LyricScore
