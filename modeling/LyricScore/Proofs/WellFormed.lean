import LyricScore.Proofs.Numeral
import LyricScore.Proofs.Score.Nodes
import LyricScore.Proofs.Token.Word

/-
  This file states what may be relied on in every score that
  was read from a text: which lines, measures and beats hold
  something, and what the texts, the signs and the numbers in
  them can be.  A score that was built in another way may
  break any of these rules.

  Key definitions include:
    * `Subdivision.IsWellFormed`, `Pitch.IsWellFormed`
    * `Directive.IsWellFormed`
    * `LyricLine.IsWellFormed`, `PitchLine.IsWellFormed`
    * `Score.IsWellFormed`

  Key theorems include:
    * `Lexeme.IsWord.avoids_stops`
    * `Token.Stands.beatElements_wellFormed`
    * `readOrder_wellFormed`
    * `Reads.wellFormed`
    * `Score.parse_wellFormed`
-/

namespace LyricScore

------------------------------------------------------------
-- Rules for nodes
------------------------------------------------------------

/- The symbol of a subdivision that is no syllable. -/
def SubdivisionKind.symbol? : SubdivisionKind → Option String
  | syllable => none
  | melisma => some "*"
  | hyphen => some "-"
  | rest => some ";"
  | blank => some "_"

/- The characters that end a syllable. -/
def syllableStops : List Char :=
  [' ', '\t', '\r', '\n', '|', '[', '.', '-', '_', ';', '*',
    '=']

/-
  A syllable has a text without stops, and other
  subdivisions have their symbol.
-/
def Subdivision.IsWellFormed
    (s : Subdivision) : Prop :=
  match s.kind.symbol? with
  | some symbol => s.text = symbol
  | none => s.text ≠ "" ∧ ∀ c ∈ syllableStops, c ∉ s.text.toList

/- An accidental with a sign that has a meaning. -/
def Accidental.IsWritten
    (x : Accidental) : Prop :=
  x.sign ∈ ["#", "##", "&", "&&", "%"]

/-
  A pitch has one of the seven letters, and perhaps an
  accidental with a meaning.
-/
structure Pitch.IsWellFormed
    (p : Pitch) : Prop where
  letter : p.letter.name ∈ ["a", "b", "c", "d", "e", "f", "g"]
  accidental : ∀ x ∈ p.accidental, x.IsWritten

/-
  No number is negative; the code of a beat is a number,
  perhaps with a dot behind.
-/
def Order.IsWellFormed : Order → Prop
  | pickup count => 0 ≤ count
  | beatUnit code =>
    ∃ digits, Numeral.IsCanonical digits ∧
      (code.toList = digits ∨ code.toList = digits ++ ['.'])
  | tempo bpm => 0 ≤ bpm
  | key accidental count =>
      (∀ x ∈ accidental, x.IsWritten) ∧ 0 ≤ count
  | referenceOctave octave => 0 ≤ octave
  | instrument program => 0 ≤ program
  | volume level => 0 ≤ level

def Directive.IsWellFormed
    (d : Directive) : Prop :=
  d.order.IsWellFormed

------------------------------------------------------------
-- Rules for scores
------------------------------------------------------------

def BeatElement.IsWellFormed : BeatElement → Prop
  | subdivision s => s.IsWellFormed
  | directive d => d.IsWellFormed

def PitchElement.IsWellFormed : PitchElement → Prop
  | pitch p => p.IsWellFormed
  | chord c => ∀ p ∈ c.pitches, p.IsWellFormed
  | directive d => d.IsWellFormed

/-
  No beat of a lyric line is empty, and no measure that
  lacks its barline.
-/
structure LyricLine.IsWellFormed
    (l : LyricLine) : Prop where
  directives : ∀ d ∈ l.directives, d.IsWellFormed
  measures : ∀ m ∈ l.measures, m.barline = false → m.beats ≠ []
  beats : ∀ m ∈ l.measures, ∀ b ∈ m.beats, b.elements ≠ []
  elements :
    ∀ m ∈ l.measures,
      ∀ b ∈ m.beats, ∀ e ∈ b.elements, e.IsWellFormed

/-
  No measure of a pitch line that lacks
  its barline is empty.
-/
structure PitchLine.IsWellFormed
    (l : PitchLine) : Prop where
  directives : ∀ d ∈ l.directives, d.IsWellFormed
  measures :
    ∀ m ∈ l.measures, m.barline = false → m.elements ≠ []
  elements : ∀ m ∈ l.measures, ∀ e ∈ m.elements, e.IsWellFormed

/- A block has one line of each sort. -/
structure Block.IsWellFormed
    (b : Block) : Prop where
  lyrics : ∃ line, b.lyricLines = [line] ∧ line.IsWellFormed
  pitches : ∃ line, b.pitchLines = [line] ∧ line.IsWellFormed

def Score.IsWellFormed
    (s : Score) : Prop :=
  ∀ b ∈ s.blocks, b.IsWellFormed

------------------------------------------------------------
-- Words
------------------------------------------------------------

namespace Lexeme.IsWord

variable {kind : TokenKind}
variable {word : List Char}
variable {next : Option Char}

/-
  The kinds of symbols that mean something
  in a beat, or end it.
-/
def rhythmic : List TokenKind :=
  [.barline, .openBracket, .dot, .hyphen, .underscore,
    .semicolon, .asterisk, .equals]

/- No stop is in a run of characters. -/
theorem stops_outside
    {φ : Char → Bool}
    (hClass : runClass? kind = some φ) :
    ∀ c ∈ syllableStops, φ c = false := by
  have hAll : (syllableStops.all fun c => !φ c) = true := by
    rcases runClass?_eq_some hClass with rfl | rfl
    · decide
    · decide
  simpa using List.all_eq_true.mp hAll

/- Signs that are doubled are no stops. -/
theorem not_stop_of_isDoubling
    {c : Char}
    (hSign : isDoubling c = true) :
    c ∉ syllableStops := by
  simp only [isDoubling, Bool.or_eq_true,
    decide_eq_true_eq] at hSign
  rcases hSign with rfl | rfl <;> simp [syllableStops]

/- No stop is in a word that means nothing in a beat. -/
theorem avoids_stops
    (hWord : IsWord kind word next)
    (hKind : kind ∉ rhythmic) :
    ∀ c ∈ syllableStops, c ∉ word := by
  intro c hStop hMember
  cases hWord with
  | identifier _ hRun _ =>
      have hClass :
          runClass? .identifier = some isNameChar :=
        rfl
      cases (stops_outside hClass c hStop).symm.trans
        (hRun c hMember)
  | number _ hRun _ =>
      have hClass :
          runClass? .number = some DecimalDigit.isAscii :=
        rfl
      cases (stops_outside hClass c hStop).symm.trans
        (hRun c hMember)
  | doubled hSign =>
      rw [List.mem_cons, List.mem_singleton, or_self] at hMember
      subst hMember
      exact not_stop_of_isDoubling hSign hStop
  | single hSign _ =>
      rw [List.mem_singleton] at hMember
      subst hMember
      exact not_stop_of_isDoubling hSign hStop
  | symbol hSymbol =>
      rw [List.mem_singleton] at hMember
      subst hMember
      unfold symbolKind? at hSymbol
      split at hSymbol <;>
        cases hSymbol <;>
        simp [rhythmic, syllableStops] at hKind hStop

end Lexeme.IsWord

------------------------------------------------------------
-- Tokens
------------------------------------------------------------

namespace Token.Stands

variable {lines : List (List Char)}
variable {t : Token}

/- A token that is an accidental writes one with a meaning. -/
theorem accidental_isWritten
    (hStands : t.Stands lines)
    (hKind : t.kind = .accidental) :
    (Accidental.ofSign t.text).IsWritten := by
  rcases hStands.exists_isWord (by simp [hKind])
      (by simp [hKind]) with
    ⟨next, hWord⟩
  rw [hKind] at hWord
  have hSigns :=
    List.mem_map_of_mem (f := String.ofList)
      hWord.eq_of_accidental
  rw [String.ofList_toList] at hSigns
  rw [Accidental.IsWritten, Accidental.sign_ofSign]
  exact hSigns

/- What a token adds to its beat keeps the rules. -/
theorem beatElements_wellFormed
    (hStands : t.Stands lines)
    (hEnd : t.kind ≠ .endOfText)
    (hNewline : t.kind ≠ .newline)
    (hBarline : t.kind ≠ .barline)
    (hBracket : t.kind ≠ .openBracket) :
    ∀ e ∈ t.beatElements, e.IsWellFormed := by
  unfold beatElements
  cases hKind : t.kind with
  | dot =>
      exact fun e hMember => absurd hMember List.not_mem_nil
  | equals =>
      rw [List.forall_mem_cons, List.forall_mem_singleton]
      exact ⟨rfl, rfl⟩
  | hyphen | underscore | asterisk | semicolon =>
      rw [List.forall_mem_singleton]
      exact hStands.text_of_symbol hKind rfl (by decide)
  | _ =>
      rw [List.forall_mem_singleton]
      rcases hStands.exists_isWord hNewline hEnd with
        ⟨next, hWord⟩
      refine ⟨fun hText => hWord.ne_nil ?_,
        hWord.avoids_stops ?_⟩
      · have hText : t.text = "" := hText
        rw [hText]
        rfl
      · simp [Lexeme.IsWord.rhythmic,
          hKind] at hBarline hBracket ⊢

end Token.Stands

------------------------------------------------------------
-- Orders
------------------------------------------------------------

section Orders

variable {lines : List (List Char)}
variable {fin : Token}
variable {name : DirectiveName}
variable {ts rest : List Token}

/- No number that is read is negative. -/
theorem takeNumber_nonneg
    {n : Int}
    (hStands : ∀ t ∈ ts, t.Stands lines)
    (hNumber : takeNumber fin name ts = .ok (n, rest)) :
    0 ≤ n := by
  cases ts with
  | nil =>
      cases hNumber
  | cons t ts =>
      rw [takeNumber] at hNumber
      by_cases hKind : t.kind = .number
      · rw [if_pos hKind] at hNumber
        have hDigits :=
          (hStands t List.mem_cons_self).number_digits hKind
        cases hRead : Numeral.read t.text with
        | error e =>
            rw [hRead] at hNumber
            cases hNumber
        | ok m =>
            rw [hRead] at hNumber
            cases hNumber
            exact Numeral.nonneg_of_read hDigits.1
              hDigits.2 hRead
      · rw [if_neg hKind] at hNumber
        cases hNumber

/- An accidental that is read has a meaning. -/
theorem takeAccidental_isWritten
    (hStands : ∀ t ∈ ts, t.Stands lines) :
    ∀ x ∈ (takeAccidental ts).1, x.IsWritten := by
  cases ts with
  | nil =>
      exact fun x hNone => absurd hNone (Option.not_mem_none x)
  | cons t ts =>
      rw [takeAccidental]
      by_cases hKind : t.kind = .accidental
      · rw [if_pos hKind]
        rintro x ⟨⟩
        exact (hStands t
          List.mem_cons_self).accidental_isWritten hKind
      · rw [if_neg hKind]
        exact fun x hNone =>
          absurd hNone (Option.not_mem_none x)

/-
  The code of a beat is its number, and a
  dot if one stands behind.
-/
theorem beatCode_wellFormed
    {n : Int}
    (hNonneg : 0 ≤ n)
    (dotted : Bool) :
    (Order.beatUnit
      (toString n ++
        if dotted then "." else "")).IsWellFormed := by
  refine ⟨_, Numeral.isCanonical_toString hNonneg, ?_⟩
  rw [String.toList_append]
  cases dotted with
  | true => exact .inr rfl
  | false => exact .inl (List.append_nil _)

/- The order that is read off some tokens keeps the rules. -/
theorem readOrder_wellFormed
    {order : Order}
    (hStands : ∀ t ∈ ts, t.Stands lines)
    (hOrder : readOrder fin name ts = .ok (order, rest)) :
    order.IsWellFormed := by
  cases name with
  | beatUnit =>
      rcases Outcome.map_eq_ok.mp hOrder with
        ⟨⟨n, after⟩, hNumber, hSame⟩
      cases hSame
      exact beatCode_wellFormed
        (takeNumber_nonneg hStands hNumber) _
  | key =>
      rcases Outcome.map_eq_ok.mp hOrder with
        ⟨⟨n, after⟩, hNumber, hSame⟩
      cases hSame
      have hBehind :
          ∀ t ∈ (takeAccidental ts).2, t.Stands lines :=
        fun t hMember =>
          hStands t
            ((takeAccidental_suffix ts).subset hMember)
      exact ⟨takeAccidental_isWritten hStands,
        takeNumber_nonneg hBehind hNumber⟩
  | _ =>
      rcases Outcome.map_eq_ok.mp hOrder with
        ⟨⟨n, after⟩, hNumber, hSame⟩
      cases hSame
      exact takeNumber_nonneg hStands hNumber

end Orders

------------------------------------------------------------
-- Nodes
------------------------------------------------------------

/- The rules for a node. -/
def Node.IsWellFormed : Node → Prop
  | subdivision s => s.IsWellFormed
  | directive d => d.IsWellFormed
  | pitch p => p.IsWellFormed
  | chord _ => True
  | barline _ => True

theorem Letter.name_mem
    (l : Letter) :
    l.name ∈ ["a", "b", "c", "d", "e", "f", "g"] := by
  cases l <;> decide

/- The letters behind the first have no accidental. -/
theorem followers_wellFormed
    (line column : Int)
    (ls : List Letter) :
    ∀ p ∈ followers line column ls, p.IsWellFormed := by
  induction ls generalizing column with
  | nil =>
      exact fun p hMember => absurd hMember List.not_mem_nil
  | cons l ls ih =>
      rw [followers, List.forall_mem_cons]
      exact ⟨⟨l.name_mem,
          fun x hNone =>
            absurd hNone (Option.not_mem_none x)⟩, ih _⟩

/- The pitches of a group are well formed. -/
theorem NoteGroup.pitches_wellFormed
    {lines : List (List Char)}
    (g : NoteGroup)
    (hStands : ∀ t ∈ g.tokens, t.Stands lines) :
    ∀ p ∈ g.pitches, p.IsWellFormed := by
  rw [pitches, List.forall_mem_cons]
  refine ⟨⟨g.letter.name_mem, fun x hSign => ?_⟩,
    followers_wellFormed _ _ _⟩
  rcases Option.map_eq_some_iff.mp hSign with ⟨t, hMember, rfl⟩
  exact (hStands t
    (by simp [tokens, hMember])).accidental_isWritten
    (g.sign_accidental t hMember)

/- What is read off tokens of a text keeps the rules. -/
theorem Reads.wellFormed
    {lines : List (List Char)}
    {fin : Token}
    {before taken behind : List Token}
    {nodes : List Node}
    (hReads : Reads fin before taken behind nodes)
    (hStands : ∀ t ∈ taken ++ behind, t.Stands lines)
    (hOpen : ∀ t ∈ taken, t.kind ≠ .endOfText) :
    ∀ node ∈ nodes, node.IsWellFormed := by
  rw [List.forall_mem_append] at hStands
  cases hReads with
  | pass =>
      exact fun node hMember => absurd hMember List.not_mem_nil
  | @mark t _ hNewline hBarline hBracket =>
      have hHere := hStands.1 t (List.mem_singleton_self t)
      have hEnd := hOpen t (List.mem_singleton_self t)
      rw [List.forall_mem_map]
      intro e hMember
      have hElement :=
        hHere.beatElements_wellFormed hEnd hNewline hBarline
          hBracket e hMember
      cases e with
      | subdivision s => exact hElement
      | directive d => exact hElement
  | barline =>
      rw [List.forall_mem_singleton]
      trivial
  | chord =>
      rw [List.forall_mem_singleton]
      trivial
  | directive _ _ hOrder =>
      rw [List.forall_mem_singleton]
      exact readOrder_wellFormed hStands.2 hOrder
  | run g =>
      rw [List.forall_mem_map]
      exact g.pitches_wellFormed hStands.1

/- What was read from standing tokens is well formed. -/
theorem ReadFrom.wellFormed
    {lines : List (List Char)}
    {fin : Token}
    {ts : List Token}
    {nodes : List Node}
    (hRead : ReadFrom fin ts nodes)
    (hStands : ∀ t ∈ ts, t.Stands lines)
    (hOpen : ∀ t ∈ ts, t.kind ≠ .endOfText) :
    ∀ node ∈ nodes, node.IsWellFormed := by
  intro node hNode
  rcases hRead.exists_reads hNode with
    ⟨before, taken, behind, first, rfl, hReads, hFirst⟩
  rw [List.forall_mem_append] at hStands hOpen
  rw [List.forall_mem_append] at hOpen
  exact hReads.wellFormed hStands.2 hOpen.2.1 node hFirst

------------------------------------------------------------
-- Lines
------------------------------------------------------------

/-
  A lyric line keeps the rules if its nodes do, and nothing
  in it is empty.
-/
theorem LyricLine.isWellFormed_of_nodes
    {l : LyricLine}
    (hFilled : ∀ m ∈ l.measures, m.IsFilled)
    (hNodes : ∀ node ∈ l.nodes, node.IsWellFormed) :
    l.IsWellFormed := by
  rcases forall_mem_nodes.mp hNodes with
    ⟨hDirectives, hMeasures⟩
  refine ⟨hDirectives,
    fun m hMeasure => (hFilled m hMeasure).nonempty, ?_, ?_⟩
  · intro m hMeasure b hBeat hNone
    rcases (hFilled m hMeasure).beats b hBeat with ⟨e, hHead, -⟩
    rw [hNone] at hHead
    cases hHead
  · intro m hMeasure b hBeat e hElement
    have hNode := (hMeasures m hMeasure).1 b hBeat e hElement
    cases e with
    | subdivision s => exact hNode
    | directive d => exact hNode

/-
  A pitch line keeps the rules if its nodes do, and no
  measure of it is empty.
-/
theorem PitchLine.isWellFormed_of_nodes
    {l : PitchLine}
    (hFilled : ∀ m ∈ l.measures, m.IsFilled)
    (hNodes : ∀ node ∈ l.nodes, node.IsWellFormed) :
    l.IsWellFormed := by
  rcases forall_mem_nodes.mp hNodes with
    ⟨hDirectives, hMeasures⟩
  refine ⟨hDirectives, hFilled, ?_⟩
  intro m hMeasure e hElement
  have hNode := (hMeasures m hMeasure).1 e hElement
  cases e with
  | pitch p =>
      exact hNode _ (List.mem_singleton_self _)
  | chord c =>
      exact fun p hMember =>
        hNode (.pitch p)
          (List.mem_cons_of_mem _
            (List.mem_map_of_mem hMember))
  | directive d =>
      exact hNode _ (List.mem_singleton_self _)

/-
  Every text that is read is read as a score
  that keeps the rules.
-/
theorem Score.parse_wellFormed
    {text : String}
    {score : Score}
    (hParse : parse text = .ok score) :
    score.IsWellFormed := by
  rcases blocks_are_read hParse with
    ⟨body, fin, hTokens, hOpen, hBlocks⟩
  have hStands :=
    (tokenize_written text).stands fun row _ =>
      isCut_zero row
  rw [hTokens, List.forall_mem_append] at hStands
  intro b hMember
  rcases hBlocks b hMember with
    ⟨⟨lyrics, hLyrics, hLyricRead, hLyricFilled⟩,
      ⟨pitches, hPitches, hPitchRead, hPitchFilled⟩⟩
  have hLyricNodes := hLyricRead.wellFormed hStands.1 hOpen
  have hPitchNodes := hPitchRead.wellFormed hStands.1 hOpen
  exact ⟨⟨lyrics, hLyrics,
      LyricLine.isWellFormed_of_nodes hLyricFilled
        hLyricNodes⟩,
    ⟨pitches, hPitches,
      PitchLine.isWellFormed_of_nodes hPitchFilled
        hPitchNodes⟩⟩

/-
  A text with all that the rules are about: a number with a
  zero before it, accidentals of a key and of pitches, every
  symbol of rhythm, and a syllable that is no word.
-/
def ornate : String :=
  "T\n\n[K##2 T90] la.3-*;_= [B04.]do |\n[O4] ^&cde (#f%g) [x] |a\n"

/- Its score is well formed. -/
theorem ornate_wellFormed :
    ∃ score,
      Score.parse ornate = .ok score ∧
        score.blocks.length = 1 ∧
        score.IsWellFormed := by
  have hRead : (Score.parse ornate).isOk = true := by
    decide +kernel
  rcases Outcome.exists_eq_ok hRead with ⟨score, hParse⟩
  have hBlocks :
      (Score.parse ornate).map (fun score =>
          score.blocks.length) =
        .ok 1 := by
    decide +kernel
  rw [hParse, Outcome.map_ok, Except.ok.injEq] at hBlocks
  exact ⟨score, hParse, hBlocks, Score.parse_wellFormed hParse⟩

end LyricScore
