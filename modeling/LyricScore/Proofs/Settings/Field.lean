import LyricScore.Proofs.Outcome
import LyricScore.Settings.Check

/-
  This file tells which data a setting takes.  A setting is of
  a kind: the kind says what data become, and which of that is
  in range.  What data become is for a coercion to say, of
  which nothing is assumed.

  Key definitions include:
    * `SettingKind`
    * `SettingKind.positive`, `SettingKind.notNegative`
    * `SettingKind.countUpTo`, `SettingKind.level`
    * `SettingField`
    * `SettingField.IsAcceptable`
    * `SettingField.IsGiven`
    * `SettingField.complaint?`

  Key theorems include:
    * `SettingField.complaint?_eq_none_iff`
    * `SettingField.map_fst_complaint?`
    * `SettingField.isGiven_iff`
-/

namespace LyricScore

------------------------------------------------------------
-- Kinds
------------------------------------------------------------

/-
  A kind of setting: what data become, be it in range or not;
  what is in range; and how data are read.  They are read as
  what they become, if that is in range.
-/
structure SettingKind (α : Type) where
  coerce : Data → Except Complaint α
  InRange : α → Prop
  read : Data → Except Complaint α
  read_eq_ok_iff :
    ∀ d v, read d = .ok v ↔ coerce d = .ok v ∧ InRange v

namespace SettingKind

variable (k : Coercion)

/- A measure above zero. -/
def positive : SettingKind Float where
  coerce := k.toReal
  InRange := LayoutSettings.Positive
  read := k.positive
  read_eq_ok_iff d x := by
    simp only [Coercion.positive, Outcome.bind_eq_ok]
    constructor
    · rintro ⟨y, hValue, hRange⟩
      by_cases hPositive : Coordinate.lt (Coordinate.nat 0) y
      · rw [if_pos hPositive] at hRange
        cases hRange
        exact ⟨hValue, hPositive⟩
      · rw [if_neg hPositive] at hRange
        cases hRange
    · rintro ⟨hValue, hPositive⟩
      exact ⟨x, hValue, if_pos hPositive⟩

/- A measure not below zero. -/
def notNegative : SettingKind Float where
  coerce := k.toReal
  InRange := LayoutSettings.NotNegative
  read := k.notNegative
  read_eq_ok_iff d x := by
    simp only [Coercion.notNegative, Outcome.bind_eq_ok]
    constructor
    · rintro ⟨y, hValue, hRange⟩
      by_cases hNotNegative : Coordinate.le (Coordinate.nat 0) y
      · rw [if_pos hNotNegative] at hRange
        cases hRange
        exact ⟨hValue, hNotNegative⟩
      · rw [if_neg hNotNegative] at hRange
        cases hRange
    · rintro ⟨hValue, hNotNegative⟩
      exact ⟨x, hValue, if_pos hNotNegative⟩

/- Any measure. -/
def measure : SettingKind Float where
  coerce := k.toReal
  InRange _ := True
  read := k.toReal
  read_eq_ok_iff d x := by rw [and_true]

/- A count from one up. -/
def count : SettingKind Int where
  coerce := k.toInteger
  InRange n := 0 < n
  read := k.positiveInteger
  read_eq_ok_iff d n := by
    simp only [Coercion.positiveInteger, Outcome.bind_eq_ok]
    constructor
    · rintro ⟨m, hValue, hRange⟩
      by_cases hLow : m ≤ 0
      · rw [if_pos hLow] at hRange
        cases hRange
      · rw [if_neg hLow] at hRange
        cases hRange
        exact ⟨hValue, by omega⟩
    · rintro ⟨hValue, hPositive⟩
      exact ⟨n, hValue, if_neg (by omega)⟩

/- A count from one up to a greatest one. -/
def countUpTo
    (greatest : Int) : SettingKind Int where
  coerce := k.toInteger
  InRange n := 0 < n ∧ n ≤ greatest
  read := k.positiveUpTo greatest
  read_eq_ok_iff d n := by
    have hCount (m : Int) :
        k.positiveInteger d = .ok m ↔
          k.toInteger d = .ok m ∧ 0 < m :=
      (count k).read_eq_ok_iff d m
    simp only [Coercion.positiveUpTo, Outcome.bind_eq_ok,
      hCount]
    constructor
    · rintro ⟨m, ⟨hValue, hPositive⟩, hRange⟩
      by_cases hHigh : greatest < m
      · rw [if_pos hHigh] at hRange
        cases hRange
      · rw [if_neg hHigh] at hRange
        cases hRange
        exact ⟨hValue, hPositive, by omega⟩
    · rintro ⟨hValue, hPositive, hMost⟩
      exact ⟨n, ⟨hValue, hPositive⟩, if_neg (by omega)⟩

/- A level from zero up to a greatest one. -/
def level
    (greatest : Int) : SettingKind Int where
  coerce := k.toInteger
  InRange n := 0 ≤ n ∧ n ≤ greatest
  read := k.between greatest
  read_eq_ok_iff d n := by
    simp only [Coercion.between, Outcome.bind_eq_ok]
    constructor
    · rintro ⟨m, hValue, hRange⟩
      by_cases hLow : m < 0
      · rw [if_pos hLow] at hRange
        cases hRange
      · rw [if_neg hLow] at hRange
        by_cases hHigh : greatest < m
        · rw [if_pos hHigh] at hRange
          cases hRange
        · rw [if_neg hHigh] at hRange
          cases hRange
          exact ⟨hValue, by omega, by omega⟩
    · rintro ⟨hValue, hLeast, hMost⟩
      refine ⟨n, hValue, ?_⟩
      rw [if_neg (by omega), if_neg (by omega),
        Outcome.pure_eq]

/- A text. -/
def text : SettingKind String where
  coerce := k.toText
  InRange _ := True
  read := k.toText
  read_eq_ok_iff d s := by rw [and_true]

/- The code of a note value. -/
def beatUnit : SettingKind String where
  coerce := k.toText
  InRange code := code ∈ BeatUnit.lengths.map Prod.fst
  read := k.beatUnit
  read_eq_ok_iff d code := by
    simp only [Coercion.beatUnit, Outcome.bind_eq_ok]
    constructor
    · rintro ⟨word, hValue, hKnown⟩
      by_cases hMem : word ∈ BeatUnit.lengths.map Prod.fst
      · rw [if_pos hMem] at hKnown
        cases hKnown
        exact ⟨hValue, hMem⟩
      · rw [if_neg hMem] at hKnown
        cases hKnown
    · rintro ⟨hValue, hMem⟩
      exact ⟨code, hValue, if_pos hMem⟩

end SettingKind

------------------------------------------------------------
-- Fields
------------------------------------------------------------

/-
  A setting among others: its name, its kind,
  and its value in them.
-/
structure SettingField (S : Type) where
  name : String
  {Value : Type}
  kind : SettingKind Value
  value : S → Value

namespace SettingField

variable {S : Type}
variable (f : SettingField S)
variable (entries : List (String × Data))

/-
  Data are accepted as a value: they become
  it, and it is in range.
-/
def Accepts
    (d : Data)
    (v : f.Value) : Prop :=
  f.kind.coerce d = .ok v ∧ f.kind.InRange v

/- A field is left out, or its data are accepted. -/
def IsAcceptable : Prop :=
  ∀ d, Data.lookup f.name entries = some d → ∃ v, f.Accepts d v

/-
  A setting has its default if it is left out, and else the
  value of its data.
-/
def IsGiven
    (default s : S) : Prop :=
  match Data.lookup f.name entries with
  | none => f.value s = f.value default
  | some d => f.Accepts d (f.value s)

/-
  What is complained about in a field of
  the section `group`.
-/
def complaint?
    (group : String) : Option (String × Complaint) :=
  match Data.lookup f.name entries with
  | none => none
  | some d =>
    match f.kind.read d with
    | .ok _ => none
    | .error e => some (group ++ "." ++ f.name, e)

/- A field of the section `group` as it is checked. -/
def check
    (group : String)
    (default : S) : Checked f.Value :=
  Checked.field group entries f.kind.read f.name
    (f.value default)

variable {f entries}
variable (group : String)
variable {default s : S}

/- A checked field complains as it does alone. -/
theorem complaints_check :
    (f.check entries group default).complaints =
      (f.complaint? entries group).toList := by
  unfold check Checked.field complaint?
  cases Data.lookup f.name entries with
  | none =>
      rfl
  | some d =>
      simp only
      cases f.kind.read d <;> rfl

/-
  A field complains about nothing just if
  its entry is acceptable.
-/
theorem complaint?_eq_none_iff :
    f.complaint? entries group = none ↔
      f.IsAcceptable entries := by
  unfold complaint? IsAcceptable Accepts
  cases Data.lookup f.name entries with
  | none =>
      simp
  | some d =>
      simp only [Option.some.injEq, forall_eq',
        ← f.kind.read_eq_ok_iff]
      cases f.kind.read d <;> simp

instance :
    Decidable (f.IsAcceptable entries) :=
  decidable_of_iff (f.complaint? entries "" = none)
    (complaint?_eq_none_iff "")

/-
  The complaint about a field goes by the name of the field.
-/
theorem map_fst_complaint? :
    (f.complaint? entries group).map Prod.fst =
      if f.IsAcceptable entries then none
      else some (group ++ "." ++ f.name) := by
  have hSome {c : String × Complaint}
      (hComplaint : f.complaint? entries group = some c) :
      c.1 = group ++ "." ++ f.name := by
    unfold complaint? at hComplaint
    split at hComplaint
    · cases hComplaint
    · split at hComplaint
      · cases hComplaint
      · cases hComplaint
        rfl
  cases hComplaint : f.complaint? entries group with
  | none =>
      rw [if_pos
          ((complaint?_eq_none_iff group).mp hComplaint),
        Option.map_none]
  | some c =>
      have hRefused : ¬ f.IsAcceptable entries := by
        rw [← complaint?_eq_none_iff group, hComplaint]
        exact Option.some_ne_none c
      rw [if_neg hRefused, Option.map_some, hSome hComplaint]

/-
  The value that a setting is given is the
  one that checking finds.
-/
theorem isGiven_iff :
    f.IsGiven entries default s ↔
      f.IsAcceptable entries ∧
        f.value s =
          (f.check entries group default).value := by
  unfold IsGiven IsAcceptable check Checked.field Accepts
  cases Data.lookup f.name entries with
  | none =>
      simp
  | some d =>
      simp only [Option.some.injEq, forall_eq',
        ← f.kind.read_eq_ok_iff]
      cases f.kind.read d with
      | ok v =>
          simp [Checked.ofExcept, eq_comm]
      | error e =>
          simp

end SettingField

end LyricScore
