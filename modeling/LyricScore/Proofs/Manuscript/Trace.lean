import LyricScore.Proofs.Manuscript.Modifiers
import LyricScore.Proofs.Manuscript.Section
import LyricScore.Score.PitchDraft
import LyricScore.Score.LyricDraft

/-
  This file follows the readers through the tokens of a text,
  and tells off which tokens each node of a score is read.
  Every reader goes through its tokens from left to right: a
  few tokens give a few nodes, and other tokens give none.

  Key definitions include:
    * `Node`
    * `LyricUnit.nodes`, `PitchUnit.nodes`
    * `NoteGroup`
    * `Fresh`, `Ready`
    * `Reads`
    * `Traced`

  Key theorems include:
    * `Traced.trans`, `Traced.exists_reads`
    * `readRun_traced`
    * `readLyricLines_traced`, `readPitchLines_traced`
    * `Manuscript.ofBody_traced`
-/

namespace LyricScore

------------------------------------------------------------
-- Nodes
------------------------------------------------------------

/- What is located in a line of a score, but for the beats. -/
inductive Node where
  | subdivision (s : Subdivision)
  | directive (d : Directive)
  | chord (location : Location)
  | pitch (p : Pitch)
  | barline (location : Location)
deriving DecidableEq, Repr

namespace Node

/- Where a node is said to stand. -/
def location : Node → Location
  | subdivision s => s.location
  | directive d => d.location
  | chord location => location
  | pitch p => p.location
  | barline location => location

end Node

/- An element of a beat as a node. -/
def BeatElement.node : BeatElement → Node
  | subdivision s => .subdivision s
  | directive d => .directive d

/- The nodes that are read off a bracket group. -/
def BracketGroup.nodes
    (g : BracketGroup) : List Node :=
  g.directives.map .directive

/- The nodes that are read off a unit of a lyric line. -/
def LyricUnit.nodes : LyricUnit → List Node
  | mark t =>
    if t.kind = .barline then [.barline t.location]
    else t.beatElements.map BeatElement.node
  | group g => g.nodes

/- The nodes that are read off a unit of a pitch line. -/
def PitchUnit.nodes : PitchUnit → List Node
  | barline t => [.barline t.location]
  | group g => g.nodes
  | chord opening entries =>
    .chord opening.location ::
      (entries.flatMap ChordEntry.pitches).map .pitch
  | run pitches => pitches.map .pitch
  | stray _ => []

------------------------------------------------------------
-- Groups of a letter
------------------------------------------------------------

/-
  A token that may stand before the letters of a run and
  belong to them.
-/
def Token.isModifier
    (t : Token) : Bool :=
  t.isShift || t.kind = .accidental

/-
  The tokens of a run: shifts, perhaps an
  accidental, and letters.
-/
structure NoteGroup where
  shifts : List Token
  sign : Option Token
  name : Token
  letter : Letter
  more : List Letter
  shifts_shift : ∀ t ∈ shifts, t.isShift = true
  sign_accidental : ∀ t ∈ sign, t.kind = .accidental
  name_letters : name.letters? = some (letter :: more)

namespace NoteGroup

/- The modifiers and the letters, in order. -/
def tokens
    (g : NoteGroup) : List Token :=
  g.shifts ++ (g.sign.toList ++ [g.name])

/- The token that a group starts with. -/
def first
    (g : NoteGroup) : Token :=
  (g.shifts ++ g.sign.toList).headD g.name

/-
  The pitch of the first letter, to which
  the modifiers belong.
-/
def lead
    (g : NoteGroup) : Pitch :=
  ⟨g.letter, g.sign.map fun t => .ofSign t.text,
    totalShift g.shifts, g.first.location⟩

/- The pitches of all letters. -/
def pitches
    (g : NoteGroup) : List Pitch :=
  g.lead :: followers g.name.line (g.name.column + 1) g.more

theorem head?_tokens
    (g : NoteGroup) :
    g.tokens.head? = some g.first := by
  rw [tokens, ← List.append_assoc, List.head?_append, first,
    List.headD_eq_head?_getD]
  cases (g.shifts ++ g.sign.toList).head? <;> rfl

theorem getLast?_tokens
    (g : NoteGroup) :
    g.tokens.getLast? = some g.name := by
  rw [tokens, ← List.append_assoc, List.getLast?_concat]

theorem name_kind
    (g : NoteGroup) :
    g.name.kind = .identifier := by
  have hLetters := g.name_letters
  unfold Token.letters? at hLetters
  split at hLetters
  · assumption
  · cases hLetters

theorem name_mem
    (g : NoteGroup) :
    g.name ∈ g.tokens :=
  List.mem_append_right _
    (List.mem_append_right _ (List.mem_singleton_self _))

/- No group goes on over a line end. -/
theorem kind_of_mem_tokens
    {t : Token}
    (g : NoteGroup)
    (hMember : t ∈ g.tokens) :
    t.kind ≠ .newline := by
  rcases List.mem_append.mp hMember with hShift | hMember
  · have hShift := g.shifts_shift t hShift
    intro hKind
    simp [Token.isShift, hKind] at hShift
  · rcases List.mem_append.mp hMember with hSign | hName
    · simp [g.sign_accidental t (Option.mem_toList.mp hSign)]
    · rw [List.mem_singleton.mp hName]
      simp [g.name_kind]

theorem first_kind
    (g : NoteGroup) :
    g.first.kind ≠ .newline :=
  g.kind_of_mem_tokens (List.mem_of_mem_head? g.head?_tokens)

end NoteGroup

------------------------------------------------------------
-- Pieces
------------------------------------------------------------

/-
  No modifier stands at the end of some tokens, so none is
  before what follows.
-/
def Fresh
    (before : List Token) : Prop :=
  ∀ t ∈ before.getLast?, t.isModifier = false

/-
  No modifier stands before some tokens, unless they are at
  a line end or are none.
-/
def Ready
    (before ts : List Token) : Prop :=
  ∀ t ∈ ts.head?, t.kind = .newline ∨ Fresh before

/-
  What is read off a few tokens that stand between others.  A
  token may give no node; the letters of a run belong together
  with all modifiers before them.
-/
inductive Reads
    (fin : Token)
    (before : List Token) :
      List Token → List Token → List Node → Prop where
  | pass
      (t : Token)
      (behind : List Token) :
      Reads fin before [t] behind []
  | mark {t : Token}
      (behind : List Token)
      (hNewline : t.kind ≠ .newline)
      (hBarline : t.kind ≠ .barline)
      (hBracket : t.kind ≠ .openBracket) :
      Reads fin before [t] behind
        (t.beatElements.map BeatElement.node)
  | barline {t : Token}
      (behind : List Token)
      (hKind : t.kind = .barline) :
      Reads fin before [t] behind [.barline t.location]
  | chord {t : Token}
      (behind : List Token)
      (hKind : t.kind = .openParenthesis) :
      Reads fin before [t] behind [.chord t.location]
  | directive {t : Token} {name : DirectiveName}
      {order : Order} {behind rest : List Token}
      (hKind : t.kind = .identifier)
      (hName : DirectiveName.ofText? t.text = some name)
      (hOrder : readOrder fin name behind = .ok (order, rest)) :
      Reads fin before [t] behind
        [.directive ⟨order, t.location⟩]
  | run
      (g : NoteGroup)
      (behind : List Token)
      (hFresh : Fresh before) :
      Reads fin before g.tokens behind (g.pitches.map .pitch)

/-
  From one place of the tokens to a later one, these nodes are
  read off.  A place is told by the tokens before and behind.
-/
inductive Traced
    (fin : Token) :
    List Token →
      List Token →
      List Token →
      List Token →
      List Node →
      Prop where
  | refl
      (before ts : List Token) :
      Traced fin before ts before ts []
  | step {before taken behind after rest : List Token}
      {first more : List Node}
      (hReads : Reads fin before taken behind first)
      (hRest :
        Traced fin (before ++ taken) behind after rest
          more) :
      Traced fin before (taken ++ behind) after rest
        (first ++ more)

section Fresh

variable {before ts : List Token}
variable {t : Token}

/- Behind a token that is no modifier a run starts afresh. -/
theorem Fresh.concat
    (before : List Token)
    (hPlain : t.isModifier = false) :
    Fresh (before ++ [t]) := by
  intro u hLast
  rw [List.getLast?_concat] at hLast
  cases hLast
  exact hPlain

theorem Fresh.ready
    (hFresh : Fresh before)
    (ts : List Token) :
    Ready before ts :=
  fun _ _ => .inr hFresh

/-
  Nothing starts at a line end or at the end of the tokens.
-/
theorem ready_of_end
    (before : List Token)
    (hEnd : ts = [] ∨ atNewline ts = true) :
    Ready before ts := by
  cases ts with
  | nil =>
      exact fun u hNone => absurd hNone (Option.not_mem_none u)
  | cons t ts =>
      intro u hHead
      cases hHead
      left
      simpa [atNewline] using hEnd

theorem not_isModifier_of_kind
    {kind : TokenKind}
    (hKind : t.kind = kind)
    (hPlain :
      kind ≠ .caret ∧ kind ≠ .slash ∧ kind ≠ .accidental) :
    t.isModifier = false := by
  simp [Token.isModifier, Token.isShift, hKind, hPlain]

end Fresh

namespace Traced

variable {fin t : Token}
variable
  {before ts middle us after rest taken behind : List Token}
variable {nodes more : List Node}

theorem trans
    (hFirst : Traced fin before ts middle us nodes)
    (hThen : Traced fin middle us after rest more) :
    Traced fin before ts after rest (nodes ++ more) := by
  induction hFirst with
  | refl before ts =>
      exact hThen
  | step hReads _ ih =>
      rw [List.append_assoc]
      exact .step hReads (ih hThen)

theorem single
    (hReads : Reads fin before taken behind nodes) :
    Traced fin before (taken ++ behind) (before ++ taken)
      behind nodes := by
  have hStep := Traced.step hReads (.refl _ _)
  rwa [List.append_nil] at hStep

theorem token
    (hReads : Reads fin before [t] rest nodes) :
    Traced fin before (t :: rest) (before ++ [t]) rest nodes :=
  single hReads

/- Tokens are passed over. -/
theorem skip
    (fin : Token)
    (before taken rest : List Token) :
    Traced fin before (taken ++ rest) (before ++ taken) rest
      [] := by
  induction taken generalizing before with
  | nil =>
      rw [List.append_nil]
      exact .refl _ _
  | cons t taken ih =>
      have hRest := ih (before ++ [t])
      rw [List.append_assoc] at hRest
      exact (token (.pass t _)).trans hRest

/- Tokens that are passed over leave no nodes. -/
theorem exists_of_suffix
    (fin : Token)
    (before : List Token)
    (hSuffix : rest <:+ ts) :
    ∃ after, Traced fin before ts after rest [] := by
  rcases hSuffix with ⟨taken, rfl⟩
  exact ⟨_, skip fin before taken rest⟩

/- Every node is read off a few of the tokens. -/
theorem exists_reads
    {node : Node}
    (hTraced : Traced fin before ts after rest nodes)
    (hNode : node ∈ nodes) :
    ∃ earlier taken behind first,
      ts = earlier ++ (taken ++ behind) ∧
        Reads fin (before ++ earlier) taken behind first ∧
        node ∈ first := by
  induction hTraced with
  | refl before ts =>
      cases hNode
  | @step before taken behind _ _ first more hReads _ ih =>
      rcases List.mem_append.mp hNode with hFirst | hMore
      · refine ⟨[], taken, behind, first, rfl, ?_, hFirst⟩
        rw [List.append_nil]
        exact hReads
      · rcases ih hMore with
          ⟨earlier, taken', behind', first', rfl, hReads',
            hFirst⟩
        refine ⟨taken ++ earlier, taken', behind', first',
          ?_, ?_, hFirst⟩
        · rw [List.append_assoc]
        · rw [← List.append_assoc]
          exact hReads'

end Traced

------------------------------------------------------------
-- Bracket groups
------------------------------------------------------------

section Readers

variable {fin t : Token}
variable {ts rest : List Token}

/-
  An entry of brackets is traced to its
  directive, if it has one.
-/
theorem readEntry_traced
    {entry : BracketEntry}
    (before : List Token)
    (hEntry : readEntry fin t ts = .ok (entry, rest)) :
    ∃ after,
      Traced fin before (t :: ts) after rest
        (entry.directive?.toList.map .directive) := by
  unfold readEntry at hEntry
  by_cases hKind : t.kind = .identifier
  · rw [if_pos hKind] at hEntry
    cases hName : DirectiveName.ofText? t.text with
    | none =>
        rw [hName] at hEntry
        cases hEntry
        exact ⟨_, .token (.pass t _)⟩
    | some name =>
        simp only [hName] at hEntry
        rcases Outcome.map_eq_ok.mp hEntry with
          ⟨⟨order, left⟩, hOrder, hRest⟩
        cases hRest
        rcases readOrder_inside hOrder with ⟨taken, rfl, -⟩
        exact ⟨_,
          (Traced.token
            (.directive hKind hName hOrder)).trans
            (.skip fin _ taken left)⟩
  · rw [if_neg hKind] at hEntry
    cases hEntry
    exact ⟨_, .token (.pass t _)⟩

theorem readEntries_traced
    {entries : List BracketEntry}
    {closing : Token}
    (before : List Token)
    (hEntries :
      readEntries fin ts = .ok (entries, closing, rest)) :
    ∃ after,
      Traced fin before ts after rest
        ((entries.filterMap BracketEntry.directive?).map
          .directive) ∧
        Fresh after := by
  rw [readEntries_iff] at hEntries
  induction hEntries generalizing before with
  | close hClosing =>
      exact ⟨_, .token (.pass _ _),
        .concat before
          (not_isModifier_of_kind hClosing (by decide))⟩
  | @entry t closing ts left rest entry more hOpen hEntry _
      ih =>
      rcases readEntry_traced before hEntry with
        ⟨middle, hFirst⟩
      rcases ih middle with ⟨after, hThen, hFresh⟩
      refine ⟨after, ?_, hFresh⟩
      have hBoth := hFirst.trans hThen
      rw [← List.map_append] at hBoth
      rw [List.filterMap_cons]
      cases hDirective : entry.directive? <;>
        simpa [hDirective] using hBoth

/- A group of brackets is traced to its directives. -/
theorem readGroup_traced
    {g : BracketGroup}
    (before : List Token)
    (hGroup : readGroup fin t ts = .ok (g, rest)) :
    ∃ after,
      Traced fin before (t :: ts) after rest g.nodes ∧
        Fresh after := by
  rcases readGroup_iff.mp hGroup with ⟨-, hEntries⟩
  rcases readEntries_traced (before ++ [t]) hEntries with
    ⟨after, hInside, hFresh⟩
  exact ⟨after, (Traced.token (.pass t ts)).trans hInside,
    hFresh⟩

------------------------------------------------------------
-- Lyric lines
------------------------------------------------------------

/- A unit of a lyric line is traced to its nodes. -/
theorem readLyricUnit_traced
    {unit : LyricUnit}
    (before : List Token)
    (hNewline : t.kind ≠ .newline)
    (hUnit : readLyricUnit fin t ts = .ok (unit, rest)) :
    ∃ after,
      Traced fin before (t :: ts) after rest
        unit.nodes := by
  cases readLyricUnit_iff.mp hUnit with
  | group hBracket hGroup =>
      rcases readGroup_traced before hGroup with
        ⟨after, hTraced, -⟩
      exact ⟨after, hTraced⟩
  | mark hBracket =>
      refine ⟨_, .token ?_⟩
      rw [LyricUnit.nodes]
      by_cases hBarline : t.kind = .barline
      · rw [if_pos hBarline]
        exact .barline _ hBarline
      · rw [if_neg hBarline]
        exact .mark _ hNewline hBarline hBracket

theorem readLyricLine_traced
    {units : List LyricUnit}
    (before : List Token)
    (hLine : readLyricLine fin ts = .ok (units, rest)) :
    ∃ after,
      Traced fin before ts after rest
        (units.flatMap LyricUnit.nodes) := by
  rw [readLyricLine_iff] at hLine
  induction hLine generalizing before with
  | done hEnd =>
      exact ⟨before, .refl _ _⟩
  | unit hNewline hUnit _ ih =>
      rcases readLyricUnit_traced before hNewline hUnit with
        ⟨middle, hFirst⟩
      rcases ih middle with ⟨after, hThen⟩
      exact ⟨after, hFirst.trans hThen⟩

/- Lyric lines end at a line end, or with the text. -/
theorem readLyricLines_traced
    {lines : List (List LyricUnit)}
    (before : List Token)
    (hLines : readLyricLines fin ts = .ok (lines, rest)) :
    (∃ after,
        Traced fin before ts after rest
          (lines.flatten.flatMap LyricUnit.nodes)) ∧
      (rest = [] ∨ atNewline rest = true) := by
  rw [readLyricLines_iff] at hLines
  induction hLines generalizing before with
  | done =>
      exact ⟨⟨before, .refl _ _⟩, .inl rfl⟩
  | gap hNewline hGap =>
      exact ⟨⟨before, .refl _ _⟩,
        .inr (decide_eq_true hNewline)⟩
  | @newline t ts rest lines hNewline hGap _ ih =>
      rcases ih (before ++ [t]) with ⟨⟨after, hTraced⟩, hRest⟩
      exact ⟨⟨after,
          (Traced.token (.pass t ts)).trans hTraced⟩, hRest⟩
  | last hStart hLine hBarline =>
      rcases readLyricLine_traced before hLine with
        ⟨after, hTraced⟩
      refine ⟨⟨after, ?_⟩, (readLyricLine_skips false hLine).1⟩
      simpa using hTraced
  | line hStart hLine hBarline _ ih =>
      rcases readLyricLine_traced before hLine with
        ⟨middle, hFirst⟩
      rcases ih middle with ⟨⟨after, hThen⟩, hRest⟩
      rw [List.flatten_cons, List.flatMap_append]
      exact ⟨⟨after, hFirst.trans hThen⟩, hRest⟩

------------------------------------------------------------
-- Runs
------------------------------------------------------------

/-
  Modifiers and letters that are read as a run are a group,
  with all shifts there are.
-/
theorem exists_noteGroup
    {name : Token}
    {l : Letter}
    {ls : List Letter}
    (fin : Token)
    (hBehind : behindModifiers ts = name :: rest)
    (hLetters : name.letters? = some (l :: ls)) :
    ∃ g : NoteGroup,
      ts = g.tokens ++ rest ∧
        g.pitches =
          ⟨l,
              (takeAccidental
                (ts.dropWhile Token.isShift)).1,
              totalShift (ts.takeWhile Token.isShift),
              (ts.headD fin).location⟩ ::
            followers name.line (name.column + 1) ls := by
  have hShifts :
      ∀ t ∈ ts.takeWhile Token.isShift, t.isShift = true :=
    fun t ht => List.mem_takeWhile_imp ht
  have hAll :
      ts.takeWhile Token.isShift ++
          ts.dropWhile Token.isShift =
        ts :=
    List.takeWhile_append_dropWhile
  have hHead :
      ∀ g : NoteGroup,
        ts = g.tokens ++ rest →
          g.first.location = (ts.headD fin).location := by
    intro g hTokens
    rw [hTokens, List.headD_eq_head?_getD,
      List.head?_append, g.head?_tokens]
    rfl
  unfold behindModifiers at hBehind
  cases hDrop : ts.dropWhile Token.isShift with
  | nil =>
      rw [hDrop] at hBehind
      cases hBehind
  | cons t left =>
      rw [hDrop] at hBehind hAll
      by_cases hKind : t.kind = .accidental
      · rw [takeAccidental, if_pos hKind] at hBehind ⊢
        cases hBehind
        refine ⟨⟨_, some t, name, l, ls, hShifts, ?_,
            hLetters⟩, ?_⟩
        · rintro u ⟨⟩
          exact hKind
        · have hTokens := hAll.symm
          refine ⟨by simpa [NoteGroup.tokens] using hTokens, ?_⟩
          rw [NoteGroup.pitches, NoteGroup.lead, hHead]
          · rfl
          · simpa [NoteGroup.tokens] using hTokens
      · rw [takeAccidental, if_neg hKind] at hBehind ⊢
        cases hBehind
        have hUnsigned :
            ∀ u ∈ (none : Option Token),
              u.kind = .accidental :=
          fun u hNone =>
            absurd hNone (Option.not_mem_none u)
        refine ⟨⟨_, none, name, l, ls, hShifts, hUnsigned,
            hLetters⟩, ?_⟩
        have hTokens := hAll.symm
        refine ⟨by simpa [NoteGroup.tokens] using hTokens, ?_⟩
        rw [NoteGroup.pitches, NoteGroup.lead, hHead]
        · rfl
        · simpa [NoteGroup.tokens] using hTokens

/-
  Where a run may start, its pitches are read off its group.
  If there is none, the token behind the shifts is passed over.
-/
theorem readRun_traced
    {before : List Token}
    {ps : List Pitch}
    (hReady : Ready before ts)
    (hRun : readRun fin ts = .ok (ps, rest)) :
    ∃ after,
      Traced fin before ts after
          (if ps = [] then rest.tail else rest)
          (ps.map .pitch) ∧
        Ready after
          (if ps = [] then rest.tail else rest) := by
  rcases readRun_eq_ok hRun with
    ⟨name, l, ls, hBehind, hLetters, rfl⟩ |
      ⟨rfl, rfl, -, hNothing⟩
  · rcases exists_noteGroup fin hBehind hLetters with
      ⟨g, hTokens, hPitches⟩
    rw [if_neg (List.cons_ne_nil _ _), ← hPitches, hTokens]
    have hFresh : Fresh before := by
      refine (hReady g.first ?_).resolve_left g.first_kind
      rw [hTokens, List.head?_append, g.head?_tokens]
      rfl
    refine ⟨_, .single (.run g rest hFresh), Fresh.ready ?_ _⟩
    intro t hLast
    rw [List.getLast?_append, g.getLast?_tokens] at hLast
    cases hLast
    exact not_isModifier_of_kind g.name_kind (by decide)
  · rw [if_pos rfl]
    have hAll := modifiers_append ts
    rcases behindModifiers_of_nothing hNothing with ⟨-, hPlain⟩
    cases hBehind : behindModifiers ts with
    | nil =>
        exact (Traced.exists_of_suffix fin before
          List.nil_suffix).imp fun after hTraced =>
          ⟨hTraced, ready_of_end after (.inl rfl)⟩
    | cons t left =>
        rw [hBehind, List.append_cons] at hAll
        rw [hBehind] at hPlain
        rcases hPlain t rfl with ⟨hShift, hKind⟩
        refine ⟨before ++ (modifiers ts ++ [t]), ?_,
          Fresh.ready ?_ _⟩
        · have hSkip :=
            Traced.skip fin before
              (modifiers ts ++ [t]) left
          rwa [hAll] at hSkip
        · rw [← List.append_assoc]
          exact .concat _
            (by simp [Token.isModifier, hShift, hKind])

------------------------------------------------------------
-- Pitch lines
------------------------------------------------------------

/- An entry of a chord is traced to its pitches. -/
theorem readChordEntry_traced
    {before : List Token}
    {entry : ChordEntry}
    (hReady : Ready before ts)
    (hEntry : readChordEntry fin ts = .ok (entry, rest)) :
    ∃ after,
      Traced fin before ts after rest
          (entry.pitches.map .pitch) ∧
        Ready after rest := by
  rcases Outcome.map_eq_ok.mp hEntry with
    ⟨⟨ps, left⟩, hRun, hRest⟩
  have hTraced := readRun_traced hReady hRun
  simp only at hRest
  by_cases hEmpty : ps = []
  · rw [if_pos hEmpty] at hRest
    cases hRest
    rw [hEmpty, if_pos rfl] at hTraced
    exact hTraced
  · rw [if_neg hEmpty] at hRest
    cases hRest
    rw [if_neg hEmpty] at hTraced
    exact hTraced

theorem readChordEntries_traced
    {before : List Token}
    {entries : List ChordEntry}
    {closing : Token}
    (hReady : Ready before ts)
    (hEntries :
      readChordEntries fin ts =
        .ok (entries, closing, rest)) :
    ∃ after,
      Traced fin before ts after rest
        ((entries.flatMap ChordEntry.pitches).map .pitch) ∧
        Fresh after := by
  rw [readChordEntries_iff] at hEntries
  induction hEntries generalizing before with
  | close hClosing =>
      exact ⟨_, .token (.pass _ _),
        .concat before
          (not_isModifier_of_kind hClosing (by decide))⟩
  | entry hOpen hEntry _ ih =>
      rcases readChordEntry_traced hReady hEntry with
        ⟨middle, hFirst, hReady⟩
      rcases ih hReady with ⟨after, hThen, hFresh⟩
      rw [List.flatMap_cons, List.map_append]
      exact ⟨after, hFirst.trans hThen, hFresh⟩

/- A unit of a pitch line is traced to its nodes. -/
theorem readPitchUnit_traced
    {before : List Token}
    {unit : PitchUnit}
    (hReady : Ready before (t :: ts))
    (hUnit : readPitchUnit fin t ts = .ok (unit, rest)) :
    ∃ after,
      Traced fin before (t :: ts) after rest unit.nodes ∧
        Ready after rest := by
  cases readPitchUnit_iff.mp hUnit with
  | barline hBarline =>
      have hFresh :=
        Fresh.concat before
          (not_isModifier_of_kind hBarline (by decide))
      exact ⟨_, .token (.barline _ hBarline), hFresh.ready _⟩
  | group hBracket hGroup =>
      rcases readGroup_traced before hGroup with
        ⟨after, hTraced, hFresh⟩
      exact ⟨after, hTraced, hFresh.ready _⟩
  | chord hParenthesis hEntries =>
      have hFresh :=
        Fresh.concat before
          (not_isModifier_of_kind hParenthesis (by decide))
      rcases readChordEntries_traced (hFresh.ready ts)
          hEntries with
        ⟨after, hInside, hFresh⟩
      exact ⟨after,
        (Traced.token (.chord ts hParenthesis)).trans
          hInside, hFresh.ready _⟩
  | stray _ _ _ hRun =>
      have hTraced := readRun_traced hReady hRun
      rw [if_pos rfl] at hTraced
      exact hTraced
  | run _ _ _ hRun hPitches =>
      have hTraced := readRun_traced hReady hRun
      rw [if_neg hPitches] at hTraced
      exact hTraced

theorem readPitchLine_traced
    {before : List Token}
    {units : List PitchUnit}
    (hReady : Ready before ts)
    (hLine : readPitchLine fin ts = .ok (units, rest)) :
    ∃ after,
      Traced fin before ts after rest
          (units.flatMap PitchUnit.nodes) ∧
        Ready after rest := by
  rw [readPitchLine_iff] at hLine
  induction hLine generalizing before with
  | done hEnd =>
      exact ⟨before, .refl _ _, hReady⟩
  | unit hNewline hUnit _ ih =>
      rcases readPitchUnit_traced hReady hUnit with
        ⟨middle, hFirst, hReady⟩
      rcases ih hReady with ⟨after, hThen, hReady⟩
      exact ⟨after, hFirst.trans hThen, hReady⟩

theorem readPitchLines_traced
    {before : List Token}
    {lines : List (List PitchUnit)}
    (hReady : Ready before ts)
    (hLines : readPitchLines fin ts = .ok (lines, rest)) :
    ∃ after,
      Traced fin before ts after rest
        (lines.flatten.flatMap PitchUnit.nodes) := by
  rw [readPitchLines_iff] at hLines
  induction hLines generalizing before with
  | done =>
      exact ⟨before, .refl _ _⟩
  | gap hNewline hGap =>
      exact ⟨before, .refl _ _⟩
  | @newline t ts rest lines hNewline hGap _ ih =>
      have hFresh :=
        Fresh.concat before
          (not_isModifier_of_kind hNewline (by decide))
      rcases ih (hFresh.ready ts) with ⟨after, hTraced⟩
      exact ⟨after, (Traced.token (.pass t ts)).trans hTraced⟩
  | last _ _ hLast =>
      exact hLast.elim
  | line hStart hLine _ _ ih =>
      rcases readPitchLine_traced hReady hLine with
        ⟨middle, hFirst, hReady⟩
      rcases ih hReady with ⟨after, hThen⟩
      rw [List.flatten_cons, List.flatMap_append]
      exact ⟨after, hFirst.trans hThen⟩

------------------------------------------------------------
-- Stanzas
------------------------------------------------------------

/-
  The nodes that are read off the written
  lyric lines of a stanza.
-/
def Stanza.lyricNodes
    (s : Stanza) : List Node :=
  s.lyrics.flatten.flatMap LyricUnit.nodes

/-
  The nodes that are read off the written
  pitch lines of a stanza.
-/
def Stanza.pitchNodes
    (s : Stanza) : List Node :=
  s.pitches.flatten.flatMap PitchUnit.nodes

/-
  The lyrics and the pitches of a stanza are each read off a
  stretch of some tokens.
-/
def Stanza.TracedIn
    (fin : Token)
    (before ts : List Token)
    (s : Stanza) : Prop :=
  (∃ after rest, Traced fin before ts after rest s.lyricNodes) ∧
    ∃ after rest, Traced fin before ts after rest s.pitchNodes

/-
  A stanza behind tokens that are passed over
  is read off all of them.
-/
theorem Stanza.TracedIn.behind
    {before middle us : List Token}
    {stanza : Stanza}
    (hPassed : Traced fin before ts middle us [])
    (hTraced : stanza.TracedIn fin middle us) :
    stanza.TracedIn fin before ts := by
  rcases hTraced with
    ⟨⟨after, rest, hLyrics⟩, ⟨after', rest', hPitches⟩⟩
  exact ⟨⟨after, rest, hPassed.trans hLyrics⟩,
    ⟨after', rest', hPassed.trans hPitches⟩⟩

/-
  Both lines of a stanza are traced in the tokens that it
  was read from.
-/
theorem readStanza_traced
    {stanza : Stanza}
    (before : List Token)
    (hStanza : readStanza fin ts = .ok (stanza, rest)) :
    stanza.TracedIn fin before ts := by
  rcases readStanza_eq_ok.mp hStanza with
    ⟨between, hLyrics, hPitches⟩
  rcases readLyricLines_traced before hLyrics with
    ⟨hLyricTrace, hEnd⟩
  refine ⟨hLyricTrace.imp fun after hTraced =>
      ⟨between, hTraced⟩, ?_⟩
  rcases Traced.exists_of_suffix fin before
      (readLyricLines_suffix hLyrics) with
    ⟨middle, hPassed⟩
  rcases readPitchLines_traced (ready_of_end middle hEnd)
      hPitches with
    ⟨after, hTraced⟩
  exact ⟨after, rest, hPassed.trans hTraced⟩

/-
  Each stanza is traced in the tokens
  that all were read from.
-/
theorem readStanzas_traced
    {stanzas : List Stanza}
    (before : List Token)
    (hStanzas : readStanzas fin ts = .ok stanzas) :
    ∀ stanza ∈ stanzas, stanza.TracedIn fin before ts := by
  rw [readStanzas_iff] at hStanzas
  induction hStanzas generalizing before with
  | done =>
      exact fun stanza hMember =>
        absurd hMember List.not_mem_nil
  | @newline t ts stanzas hNewline _ ih =>
      exact fun stanza hMember =>
        (ih (before ++ [t]) stanza hMember).behind
          (.token (.pass t ts))
  | stanza hStart hStanza _ ih =>
      rcases Traced.exists_of_suffix fin before
        (readStanza_suffix hStanza) with
        ⟨middle, hPassed⟩
      rw [List.forall_mem_cons]
      exact ⟨readStanza_traced before hStanza,
        fun other hMember =>
          (ih middle other hMember).behind hPassed⟩

/-
  Every stanza of a manuscript is read off
  the tokens of the text.
-/
theorem Manuscript.ofBody_traced
    {m : Manuscript}
    (hRead : ofBody fin ts = .ok m) :
    ∀ stanza ∈ m.stanzas, stanza.TracedIn fin [] ts := by
  rcases ofBody_iff.mp hRead with ⟨-, hStanzas⟩
  rcases Traced.exists_of_suffix fin []
    ((readTitle_suffix _).trans
      (List.dropWhile_suffix Token.isNewline)) with
    ⟨middle, hPassed⟩
  exact fun stanza hMember =>
    (readStanzas_traced middle hStanzas stanza
      hMember).behind hPassed

end Readers

end LyricScore
