import LyricScore.Proofs.Token.Step
import LyricScore.Text.Parts
import Mathlib.Data.List.TakeWhile

/-
  This file says how the lines of a text are written with
  tokens: blanks, the characters of a token, and so on up to
  the end of the line, which is a token too.  The tokens of a
  text write its lines in this way, and no other way of
  cutting them is needed: every character belongs to a class.

  Key definitions include:
    * `rowsOf`
    * `Lexeme.IsWord`
    * `Token.at`
    * `Written`
    * `LexError`
    * `Unread.guarded?`, `Unread.guardedTokens`

  Key theorems include:
    * `intercalate_partsBetween`, `partsBetween_intercalate`
    * `Lexeme.isWord_take`
    * `Unread.tokens_written`
    * `tokenize_written`
    * `Unread.guardedTokens_eq`
-/

namespace LyricScore

------------------------------------------------------------
-- Lines
------------------------------------------------------------

theorem partsBetween_ne_nil
    (separator : Char)
    (cs : List Char) :
    partsBetween separator cs ≠ [] := by
  induction cs with
  | nil =>
      exact List.cons_ne_nil _ _
  | cons c cs ih =>
      rw [partsBetween]
      split
      · exact List.cons_ne_nil _ _
      · split
        · exact List.cons_ne_nil _ _
        · exact List.cons_ne_nil _ _

/-
  Characters that separate nothing belong to the first part.
-/
theorem partsBetween_append
    {separator : Char}
    {cs rest part : List Char}
    {parts : List (List Char)}
    (hPlain : separator ∉ cs)
    (hRest : partsBetween separator rest = part :: parts) :
    partsBetween separator (cs ++ rest) =
      (cs ++ part) :: parts := by
  induction cs with
  | nil =>
      exact hRest
  | cons c cs ih =>
      rw [List.mem_cons, not_or] at hPlain
      rw [List.cons_append, partsBetween,
        if_neg (Ne.symm hPlain.1), ih hPlain.2]
      rfl

/-
  The first part starts as the text
  does, if it is not empty.
-/
theorem head?_of_partsBetween
    {separator c : Char}
    {cs part : List Char}
    {parts : List (List Char)}
    (hParts : partsBetween separator cs = part :: parts)
    (hHead : c ∈ part.head?) :
    c ∈ cs.head? := by
  cases cs with
  | nil =>
      cases hParts
      cases hHead
  | cons d cs =>
      rw [partsBetween] at hParts
      split at hParts
      · cases hParts
        cases hHead
      · split at hParts
        · cases hParts
          exact hHead
        · cases hParts
          exact hHead

/- No part holds a separator. -/
theorem not_mem_of_mem_partsBetween
    {separator : Char}
    {cs part : List Char}
    (hPart : part ∈ partsBetween separator cs) :
    separator ∉ part := by
  induction cs generalizing part with
  | nil =>
      rw [List.mem_singleton.mp hPart]
      exact List.not_mem_nil
  | cons c cs ih =>
      rw [partsBetween] at hPart
      by_cases hPlain : c = separator
      · rw [if_pos hPlain] at hPart
        rcases List.mem_cons.mp hPart with rfl | hPart
        · exact List.not_mem_nil
        · exact ih hPart
      · rw [if_neg hPlain] at hPart
        cases hParts : partsBetween separator cs with
        | nil =>
            rw [hParts] at hPart
            rw [List.mem_singleton.mp hPart]
            exact List.not_mem_cons_of_ne_of_not_mem
              (Ne.symm hPlain) List.not_mem_nil
        | cons first parts =>
            rw [hParts] at hPart
            rw [hParts, List.forall_mem_cons] at ih
            rcases List.mem_cons.mp hPart with rfl | hPart
            · exact List.not_mem_cons_of_ne_of_not_mem
                (Ne.symm hPlain) ih.1
            · exact ih.2 _ hPart

/- Parts and separators in turn are the text. -/
theorem intercalate_partsBetween
    (separator : Char)
    (cs : List Char) :
    List.intercalate [separator]
        (partsBetween separator cs) =
      cs := by
  induction cs with
  | nil =>
      rfl
  | cons c cs ih =>
      cases hParts : partsBetween separator cs with
      | nil =>
          exact absurd hParts (partsBetween_ne_nil separator cs)
      | cons part parts =>
          rw [hParts] at ih
          rw [partsBetween]
          by_cases hSeparator : c = separator
          · rw [if_pos hSeparator, hParts,
              List.intercalate_cons_cons, ih, hSeparator]
            rfl
          · rw [if_neg hSeparator, hParts]
            cases parts with
            | nil =>
                simpa [List.intercalate] using ih
            | cons next parts =>
                rw [List.intercalate_cons_cons] at ih ⊢
                rw [List.cons_append, List.cons_append, ih]

/- Joined parts that hold no separator are the parts again. -/
theorem partsBetween_intercalate
    {separator : Char}
    {parts : List (List Char)}
    (hParts : parts ≠ [])
    (hPlain : ∀ part ∈ parts, separator ∉ part) :
    partsBetween separator
        (List.intercalate [separator] parts) =
      parts := by
  induction parts with
  | nil =>
      exact absurd rfl hParts
  | cons part parts ih =>
      rw [List.forall_mem_cons] at hPlain
      cases parts with
      | nil =>
          have hNone : partsBetween separator [] = [[]] := rfl
          have hAlone := partsBetween_append hPlain.1 hNone
          rw [List.append_nil] at hAlone
          rw [List.intercalate_singleton, hAlone]
      | cons next parts =>
          have hRest :
              partsBetween separator
                  (separator ::
                    List.intercalate [separator]
                      (next :: parts)) =
                [] :: next :: parts := by
            rw [partsBetween, if_pos rfl,
              ih (List.cons_ne_nil _ _) hPlain.2]
          rw [List.intercalate_cons_cons, List.append_assoc,
            List.singleton_append,
            partsBetween_append hPlain.1 hRest,
            List.append_nil]

/-
  The rows of a text, which line feeds separate once the
  line ends are made alike.
-/
def rowsOf
    (text : String) : List (List Char) :=
  partsBetween '\n' (LineBreak.joinPairs text.toList)

------------------------------------------------------------
-- Words
------------------------------------------------------------

/- What stops a run is of another sort. -/
theorem not_of_mem_head?_dropWhile
    {α : Type}
    {φ : α → Bool}
    {as : List α}
    {a : α}
    (hHead : a ∈ (as.dropWhile φ).head?) :
    φ a = false := by
  have hStop := List.head?_dropWhile_not φ as
  rw [Option.mem_def.mp hHead] at hStop
  simpa using hStop

namespace Lexeme

/-
  The characters of the kinds of tokens that go
  on as long as they can.
-/
def runClass? : TokenKind → Option (Char → Bool)
  | .identifier => some isNameChar
  | .number => some DecimalDigit.isAscii
  | _ => none

/- Only identifiers and numbers go on as long as they can. -/
theorem runClass?_eq_some
    {kind : TokenKind}
    {φ : Char → Bool}
    (hClass : runClass? kind = some φ) :
    φ = isNameChar ∨ φ = DecimalDigit.isAscii := by
  unfold runClass? at hClass
  split at hClass <;> simp_all

/- Symbols stand alone. -/
theorem runClass?_of_symbol
    {c : Char}
    {kind : TokenKind}
    (hSymbol : symbolKind? c = some kind) :
    runClass? kind = none := by
  unfold symbolKind? at hSymbol
  split at hSymbol <;> cases hSymbol <;> rfl

theorem isAscii_of_isNameChar
    {c : Char}
    (hName : isNameChar c = true) :
    DecimalDigit.isAscii c = false := by
  simp only [isNameChar, Bool.not_eq_true',
    Bool.or_eq_false_iff] at hName
  exact hName.1.1.1.1

/- Signs and symbols are of no class that goes on. -/
theorem not_of_runClass
    {kind : TokenKind}
    {φ : Char → Bool}
    {c : Char}
    (hClass : runClass? kind = some φ)
    (hAlone :
      isDoubling c = true ∨ (symbolKind? c).isSome = true) :
    φ c = false := by
  rcases runClass?_eq_some hClass with rfl | rfl
  · rcases hAlone with hAlone | hAlone <;>
      simp [isNameChar, hAlone]
  · rcases hAlone with hSign | hSymbol
    · simp only [isDoubling, Bool.or_eq_true,
        decide_eq_true_eq] at hSign
      rcases hSign with rfl | rfl <;> decide
    · unfold symbolKind? at hSymbol
      split at hSymbol <;> first | decide | cases hSymbol

theorem isNameChar_of_isDoubling
    {c : Char}
    (hSign : isDoubling c = true) :
    isNameChar c = false := by
  have hClass : runClass? .identifier = some isNameChar := rfl
  exact not_of_runClass hClass (.inl hSign)

theorem isAscii_of_isDoubling
    {c : Char}
    (hSign : isDoubling c = true) :
    DecimalDigit.isAscii c = false := by
  have hClass :
      runClass? .number = some DecimalDigit.isAscii :=
    rfl
  exact not_of_runClass hClass (.inl hSign)

/- Blanks are of no class that goes on. -/
theorem not_of_runClass_of_isBlank
    {kind : TokenKind}
    {φ : Char → Bool}
    {c : Char}
    (hClass : runClass? kind = some φ)
    (hBlank : isBlank c = true) :
    φ c = false := by
  rcases runClass?_eq_some hClass with rfl | rfl
  · simp [isNameChar, hBlank]
  · simp only [isBlank, Bool.or_eq_true,
      decide_eq_true_eq] at hBlank
    rcases hBlank with (rfl | rfl) | rfl <;> decide

/- Signs are not blank. -/
theorem not_isBlank_of_isDoubling
    {c : Char}
    (hSign : isDoubling c = true) :
    isBlank c = false := by
  simp only [isDoubling, Bool.or_eq_true,
    decide_eq_true_eq] at hSign
  rcases hSign with rfl | rfl <;> decide

/-
  The characters of a token of a line, where `next` is the
  character behind it on the line.  Identifiers and numbers go
  on as long as they can, and signs are doubled if they can be.
-/
inductive IsWord :
  TokenKind → List Char → Option Char → Prop where
  | identifier {word : List Char} {next : Option Char}
      (hNonempty : word ≠ [])
      (hWord : ∀ c ∈ word, isNameChar c = true)
      (hNext : ∀ c ∈ next, isNameChar c = false) :
      IsWord .identifier word next
  | number {word : List Char} {next : Option Char}
      (hNonempty : word ≠ [])
      (hWord : ∀ c ∈ word, DecimalDigit.isAscii c = true)
      (hNext : ∀ c ∈ next, DecimalDigit.isAscii c = false) :
      IsWord .number word next
  | doubled {c : Char} {next : Option Char}
      (hSign : isDoubling c = true) :
      IsWord .accidental [c, c] next
  | single {c : Char} {next : Option Char}
      (hSign : isDoubling c = true)
      (hNext : c ∉ next) :
      IsWord .accidental [c] next
  | symbol {c : Char} {kind : TokenKind} {next : Option Char}
      (hSymbol : symbolKind? c = some kind) :
      IsWord kind [c] next

namespace IsWord

variable {kind : TokenKind}
variable {word : List Char}
variable {next next' : Option Char}

/- Less may follow a word. -/
theorem mono
    (hWord : IsWord kind word next)
    (hNext : ∀ c ∈ next', c ∈ next) :
    IsWord kind word next' := by
  cases hWord with
  | identifier hNonempty hWord hStop =>
      exact .identifier hNonempty hWord fun c hc =>
        hStop c (hNext c hc)
  | number hNonempty hWord hStop =>
      exact .number hNonempty hWord fun c hc =>
        hStop c (hNext c hc)
  | doubled hSign =>
      exact .doubled hSign
  | single hSign hStop =>
      exact .single hSign fun hc => hStop (hNext _ hc)
  | symbol hSymbol =>
      exact .symbol hSymbol

theorem ne_nil
    (hWord : IsWord kind word next) :
    word ≠ [] := by
  cases hWord with
  | identifier hNonempty _ _ =>
      exact hNonempty
  | number hNonempty _ _ =>
      exact hNonempty
  | _ =>
      exact List.cons_ne_nil _ _

/- Words neither end a line nor close a text. -/
theorem kind_ne
    (hWord : IsWord kind word next) :
    kind ≠ .newline ∧ kind ≠ .endOfText := by
  cases hWord with
  | symbol hSymbol =>
      exact symbolKind?_eq_some hSymbol
  | _ =>
      exact ⟨nofun, nofun⟩

/-
  A word of a kind that goes on holds its class, and what
  follows is not of it.
-/
theorem of_runClass
    {φ : Char → Bool}
    (hWord : IsWord kind word next)
    (hClass : runClass? kind = some φ) :
    (∀ c ∈ word, φ c = true) ∧ ∀ c ∈ next, φ c = false := by
  cases hWord with
  | identifier _ hName hNext =>
      cases hClass
      exact ⟨hName, hNext⟩
  | number _ hDigit hNext =>
      cases hClass
      exact ⟨hDigit, hNext⟩
  | symbol hSymbol =>
      cases (runClass?_of_symbol hSymbol).symm.trans hClass
  | _ =>
      cases hClass

/- No word ends inside a run of a class. -/
theorem not_inside_run
    {kind' : TokenKind}
    {φ : Char → Bool}
    {c d : Char}
    (hWord : IsWord kind word next)
    (hClass : runClass? kind' = some φ)
    (hLast : c ∈ word.getLast?)
    (hRun : φ c = true)
    (hNext : d ∈ next) :
    φ d = false := by
  have hMember : c ∈ word := List.mem_of_getLast? hLast
  cases hWord with
  | identifier _ hName hStop =>
      rcases runClass?_eq_some hClass with rfl | rfl
      · exact hStop d hNext
      · cases
          (isAscii_of_isNameChar
            (hName c hMember)).symm.trans hRun
  | number _ hDigit hStop =>
      rcases runClass?_eq_some hClass with rfl | rfl
      · cases (isAscii_of_isNameChar hRun).symm.trans
          (hDigit c hMember)
      · exact hStop d hNext
  | doubled hSign =>
      rw [List.mem_cons, List.mem_singleton, or_self] at hMember
      subst hMember
      cases (not_of_runClass hClass (.inl hSign)).symm.trans
        hRun
  | single hSign hStop =>
      rw [List.mem_singleton] at hMember
      subst hMember
      cases (not_of_runClass hClass (.inl hSign)).symm.trans
        hRun
  | symbol hSymbol =>
      rw [List.mem_singleton] at hMember
      subst hMember
      have hAlone := Option.isSome_of_mem hSymbol
      cases
        (not_of_runClass hClass (.inr hAlone)).symm.trans
        hRun

/-
  A word that starts with a sign is two of them, if it can
  be, or else one.
-/
theorem of_sign
    {c : Char}
    (hWord : IsWord kind (c :: word) next)
    (hSign : isDoubling c = true) :
    kind = .accidental ∧
      (word = [c] ∨ word = [] ∧ c ∉ next) := by
  cases hWord with
  | identifier _ hName _ =>
      cases (isNameChar_of_isDoubling hSign).symm.trans
        (hName c List.mem_cons_self)
  | number _ hDigit _ =>
      cases (isAscii_of_isDoubling hSign).symm.trans
        (hDigit c List.mem_cons_self)
  | doubled _ =>
      exact ⟨rfl, .inl rfl⟩
  | single _ hStop =>
      exact ⟨rfl, .inr ⟨rfl, hStop⟩⟩
  | symbol hSymbol =>
      simp only [isDoubling, Bool.or_eq_true,
        decide_eq_true_eq] at hSign
      rcases hSign with rfl | rfl <;> cases hSymbol

/-
  A sign that does not start a word stands behind its like.
-/
theorem sign_inside
    {c : Char}
    {i : Nat}
    (hWord : IsWord kind word next)
    (hSign : isDoubling c = true)
    (hInside : word[i + 1]? = some c) :
    word[i]? = some c := by
  have hMember : c ∈ word := List.mem_of_getElem? hInside
  cases hWord with
  | identifier _ hName _ =>
      cases (isNameChar_of_isDoubling hSign).symm.trans
        (hName c hMember)
  | number _ hDigit _ =>
      cases (isAscii_of_isDoubling hSign).symm.trans
        (hDigit c hMember)
  | doubled _ =>
      cases i with
      | zero =>
          exact hInside
      | succ i =>
          cases hInside
  | _ =>
      cases hInside

end IsWord

/- A character without a class of its own belongs to names. -/
theorem isNameChar_of_no_class
    {c : Char}
    (hBlank : isBlank c = false)
    (hNewline : c ≠ '\n')
    (hDoubling : ¬ isDoubling c = true)
    (hSymbol : symbolKind? c = none)
    (hDigit : ¬ DecimalDigit.isAscii c = true) :
    isNameChar c = true := by
  simp [isNameChar, hBlank, hNewline, hDoubling, hSymbol,
    hDigit]

/-
  The token at the head of a text is a word,
  if it is no line end.
-/
theorem isWord_take
    {c : Char}
    (rest : List Char)
    (hBlank : isBlank c = false)
    (hNewline : c ≠ '\n') :
    IsWord (take c rest).1 (c :: (take c rest).2.1)
      (take c rest).2.2.head? := by
  unfold take
  rw [if_neg hNewline]
  by_cases hDoubling : isDoubling c = true
  · rw [if_pos hDoubling]
    cases rest with
    | nil =>
        exact .single hDoubling (Option.not_mem_none c)
    | cons d after =>
        by_cases hSame : d = c
        · subst hSame
          simpa using IsWord.doubled hDoubling
        · simp only [if_neg hSame]
          exact .single hDoubling fun hc =>
            hSame (Option.some.inj hc)
  · rw [if_neg hDoubling]
    cases hSymbol : symbolKind? c with
    | some kind =>
        exact .symbol hSymbol
    | none =>
        by_cases hDigit : DecimalDigit.isAscii c = true
        · simp only [if_pos hDigit]
          refine .number (List.cons_ne_nil _ _) ?_
            fun d hd => not_of_mem_head?_dropWhile hd
          rw [List.forall_mem_cons]
          exact ⟨hDigit, fun d hd => List.mem_takeWhile_imp hd⟩
        · simp only [if_neg hDigit]
          refine .identifier (List.cons_ne_nil _ _) ?_
            fun d hd => not_of_mem_head?_dropWhile hd
          rw [List.forall_mem_cons]
          exact ⟨isNameChar_of_no_class hBlank hNewline
              hDoubling hSymbol hDigit,
            fun d hd => List.mem_takeWhile_imp hd⟩

/- A word holds no line end. -/
theorem IsWord.newline_not_mem
    {kind : TokenKind}
    {word : List Char}
    {next : Option Char}
    (hWord : IsWord kind word next) :
    '\n' ∉ word := by
  cases hWord with
  | identifier _ hWord _ =>
      intro hMember
      cases hWord '\n' hMember
  | number _ hWord _ =>
      intro hMember
      cases hWord '\n' hMember
  | doubled hSign =>
      simp only [List.mem_cons, List.not_mem_nil, or_false,
        or_self]
      rintro rfl
      cases hSign
  | single hSign _ =>
      rw [List.mem_singleton]
      rintro rfl
      cases hSign
  | symbol hSymbol =>
      rw [List.mem_singleton]
      rintro rfl
      cases hSymbol

end Lexeme

------------------------------------------------------------
-- Lines written with tokens
------------------------------------------------------------

/-
  The token of some characters, by the indices of its line
  and of its first column.
-/
def Token.at
    (kind : TokenKind)
    (line column : Nat)
    (word : List Char) : Token :=
  ⟨kind, String.ofList word, line + 1, column + 1,
    column + word.length + 1⟩

namespace Token

variable {kind : TokenKind}
variable {n a : Nat}
variable {word : List Char}

@[simp]
theorem at_kind :
    (Token.at kind n a word).kind = kind :=
  rfl

@[simp]
theorem at_text :
    (Token.at kind n a word).text = String.ofList word :=
  rfl

@[simp]
theorem at_line :
    (Token.at kind n a word).line = n + 1 :=
  rfl

@[simp]
theorem at_column :
    (Token.at kind n a word).column = a + 1 :=
  rfl

@[simp]
theorem at_endColumn :
    (Token.at kind n a word).endColumn = a + word.length + 1 :=
  rfl

end Token

/-
  The lines of a text are written with tokens, from the line
  and the column of these indices on.  Blanks stand before
  tokens; what ends a line, and what closes the text, stands
  behind the last character of the line.
-/
inductive Written
    (lines : List (List Char)) :
      Nat → Nat → List Token → Prop where
  | word {n a : Nat} {line blanks word more : List Char}
      {kind : TokenKind} {ts : List Token}
      (hLine : lines[n]? = some line)
      (hText : line.drop a = blanks ++ (word ++ more))
      (hBlanks : ∀ c ∈ blanks, Lexeme.isBlank c = true)
      (hWord : Lexeme.IsWord kind word more.head?)
      (hRest :
        Written lines n
          (a + blanks.length + word.length) ts) :
      Written lines n a
        (.at kind n (a + blanks.length) word :: ts)
  | newline {n a : Nat} {line : List Char} {ts : List Token}
      (hLine : lines[n]? = some line)
      (hPlace : a ≤ line.length)
      (hBlanks : ∀ c ∈ line.drop a, Lexeme.isBlank c = true)
      (hMore : n + 1 < lines.length)
      (hRest : Written lines (n + 1) 0 ts) :
      Written lines n a
        (.at .newline n line.length ['\n'] :: ts)
  | fin {n a : Nat} {line : List Char}
      (hLine : lines[n]? = some line)
      (hPlace : a ≤ line.length)
      (hBlanks : ∀ c ∈ line.drop a, Lexeme.isBlank c = true)
      (hLast : n + 1 = lines.length) :
      Written lines n a [.at .endOfText n line.length []]

/-
  The unread part of a text starts at a place of its lines.
-/
structure Unread.StartsAt
    (u : Unread)
    (lines : List (List Char))
    (n a : Nat) : Prop where
  line : u.line = n + 1
  column : u.column = a + 1
  text : ∃ line, lines[n]? = some line ∧ a ≤ line.length ∧
    partsBetween '\n' u.text = line.drop a :: lines.drop (n + 1)

namespace Unread

variable {u : Unread}
variable {lines : List (List Char)}
variable {n a : Nat}

theorem newline_not_mem_of_blank
    {cs : List Char}
    (hBlanks : ∀ c ∈ cs, Lexeme.isBlank c = true) :
    '\n' ∉ cs := by
  intro hMember
  cases hBlanks '\n' hMember

/-
  Characters on the line that are passed over lead to a
  later place of it.
-/
theorem StartsAt.skip
    {line cs rest : List Char}
    (hPlain : '\n' ∉ cs)
    (hParts :
      partsBetween '\n' (cs ++ rest) =
        line.drop a :: lines.drop (n + 1))
    (hPlace : a ≤ line.length) :
    ∃ more,
      line.drop a = cs ++ more ∧
        more = line.drop (a + cs.length) ∧
        a + cs.length ≤ line.length ∧
        partsBetween '\n' rest =
          more :: lines.drop (n + 1) := by
  cases hRest : partsBetween '\n' rest with
  | nil =>
      exact absurd hRest (partsBetween_ne_nil _ _)
  | cons more parts =>
      rw [partsBetween_append hPlain hRest,
        List.cons.injEq] at hParts
      have hLength := congrArg List.length hParts.1
      rw [List.length_append, List.length_drop] at hLength
      refine ⟨more, hParts.1.symm, ?_, by omega,
        by rw [hParts.2]⟩
      rw [← List.drop_drop, ← hParts.1, List.drop_left]

/-
  The unread part behind the blanks, and the blanks that
  stand before it.
-/
theorem StartsAt.skipBlanks
    (hStart : u.StartsAt lines n a) :
    ∃ blanks line more,
      lines[n]? = some line ∧
        line.drop a = blanks ++ more ∧
        (∀ c ∈ blanks, Lexeme.isBlank c = true) ∧
        u.skipBlanks.column = a + blanks.length + 1 ∧
        more = line.drop (a + blanks.length) ∧
        a + blanks.length ≤ line.length ∧
        partsBetween '\n' u.skipBlanks.text =
          more :: lines.drop (n + 1) := by
  rcases hStart with ⟨-, hColumn, line, hLine, hPlace, hParts⟩
  have hBlanks :
      ∀ c ∈ u.text.takeWhile Lexeme.isBlank,
        Lexeme.isBlank c = true :=
    fun c hc => List.mem_takeWhile_imp hc
  have hSplit :
      u.text.takeWhile Lexeme.isBlank ++ u.skipBlanks.text =
        u.text :=
    List.takeWhile_append_dropWhile
  rw [← hSplit] at hParts
  rcases StartsAt.skip (newline_not_mem_of_blank hBlanks)
    hParts hPlace with
    ⟨more, hText, hMore, hEnd, hRest⟩
  refine ⟨_, line, more, hLine, hText, hBlanks, ?_, hMore,
    hEnd, hRest⟩
  simp only [Unread.skipBlanks, hColumn]
  omega

/-
  A line end behind the blanks ends the line, and the next
  line follows.
-/
theorem StartsAt.written_newline
    {rest : List Char}
    (hStart : u.StartsAt lines n a)
    (hSkipped : u.skipBlanks.text = '\n' :: rest) :
    (behind u.line u.skipBlanks.column '\n' rest).StartsAt
        lines (n + 1) 0 ∧
      ∀ ts,
        Written lines (n + 1) 0 ts →
          Written lines n a
            (tokenAt u.line u.skipBlanks.column '\n' rest ::
              ts) := by
  rcases hStart.skipBlanks with
    ⟨blanks, line, more, hLine, hText, hBlanks, hColumn,
      hMore, hPlace, hParts⟩
  rw [hSkipped, partsBetween, if_pos rfl,
    List.cons.injEq] at hParts
  have hEnd : line.length ≤ a + blanks.length := by
    rw [← List.drop_eq_nil_iff, ← hMore, ← hParts.1]
  have hLines : n + 1 < lines.length := by
    rcases Nat.lt_or_ge (n + 1) lines.length with
      hInside | hNone
    · exact hInside
    · exact absurd
        (hParts.2.trans (List.drop_eq_nil_iff.mpr hNone))
        (partsBetween_ne_nil _ _)
  constructor
  · refine ⟨?_, rfl, lines[n + 1],
      List.getElem?_eq_getElem hLines, Nat.zero_le _, ?_⟩
    · simp [behind, hStart.line]
    · rw [List.drop_zero, ← List.drop_eq_getElem_cons hLines]
      simpa [behind, Lexeme.take] using hParts.2
  · intro ts hRest
    have hToken :
        tokenAt u.line u.skipBlanks.column '\n' rest =
          .at .newline n line.length ['\n'] := by
      simp only [tokenAt, Token.at, Lexeme.take,
        hStart.line, hColumn, Token.mk.injEq]
      simp
      omega
    rw [hToken]
    refine .newline hLine (by omega) ?_ hLines hRest
    rw [hText, ← hParts.1, List.append_nil]
    exact hBlanks

/-
  Another character behind the blanks starts a word, and the
  line goes on behind it.
-/
theorem StartsAt.written_word
    {c : Char}
    {rest : List Char}
    (hStart : u.StartsAt lines n a)
    (hSkipped : u.skipBlanks.text = c :: rest)
    (hNewline : c ≠ '\n') :
    ∃ b,
      (behind u.line u.skipBlanks.column c rest).StartsAt
          lines n b ∧
        ∀ ts,
          Written lines n b ts →
            Written lines n a
              (tokenAt u.line u.skipBlanks.column c rest ::
                ts) := by
  rcases hStart.skipBlanks with
    ⟨blanks, line, more, hLine, hText, hBlanks, hColumn,
      hMore, hPlace, hParts⟩
  have hWord :=
    Lexeme.isWord_take rest (blank_of_skipBlanks hSkipped)
      hNewline
  have hSplit :
      (c :: (Lexeme.take c rest).2.1) ++
          (Lexeme.take c rest).2.2 =
        c :: rest := by
    rw [List.cons_append, Lexeme.take_append]
  rw [hSkipped, ← hSplit, hMore] at hParts
  rcases StartsAt.skip hWord.newline_not_mem hParts
      hPlace with
    ⟨after, hAfter, hDrop, hEnd, hRest⟩
  refine ⟨a + blanks.length +
      (c :: (Lexeme.take c rest).2.1).length, ?_, ?_⟩
  · rw [behind, if_neg hNewline]
    refine ⟨hStart.line, ?_, line, hLine, hEnd, ?_⟩
    · simp only [hColumn, List.length_cons]
      omega
    · rw [← hDrop]
      exact hRest
  · intro ts hWritten
    have hToken :
        tokenAt u.line u.skipBlanks.column c rest =
          .at (Lexeme.take c rest).1 n (a + blanks.length)
            (c :: (Lexeme.take c rest).2.1) := by
      simp only [tokenAt, Token.at, hStart.line, hColumn,
        Token.mk.injEq]
      simp
      omega
    rw [hToken]
    refine .word hLine ?_ hBlanks
      (hWord.mono fun d hd =>
        head?_of_partsBetween hRest hd) hWritten
    rw [hText, hMore, hAfter]

/- If nothing stands behind the blanks, the last line ends. -/
theorem StartsAt.written_end
    (hStart : u.StartsAt lines n a)
    (hSkipped : u.skipBlanks.text = []) :
    Written lines n a [u.endToken] := by
  rcases hStart.skipBlanks with
    ⟨blanks, line, more, hLine, hText, hBlanks, hColumn,
      hMore, hPlace, hParts⟩
  rw [hSkipped, partsBetween, List.cons.injEq] at hParts
  have hEnd : line.length ≤ a + blanks.length := by
    rw [← List.drop_eq_nil_iff, ← hMore, ← hParts.1]
  have hLast : lines.length ≤ n + 1 :=
    List.drop_eq_nil_iff.mp hParts.2.symm
  have hInside : n < lines.length :=
    (List.getElem?_eq_some_iff.mp hLine).1
  have hToken :
      u.endToken = .at .endOfText n line.length [] := by
    have hSameLine : u.skipBlanks.line = u.line := rfl
    simp only [endToken, Token.at, hSameLine, hStart.line,
      hColumn, Token.mk.injEq]
    simp
    omega
  rw [hToken]
  refine .fin hLine (by omega) ?_ (by omega)
  rw [hText, ← hParts.1, List.append_nil]
  exact hBlanks

/-
  The tokens of an unread part write the
  lines from its place on.
-/
theorem tokens_written
    (hStart : u.StartsAt lines n a) :
    Written lines n a u.tokens := by
  induction u using Unread.tokens.induct generalizing n a with
  | case1 u t behind hStep ih =>
      rw [tokens_of_step? hStep]
      cases hSkipped : u.skipBlanks.text with
      | nil =>
          cases hStep.symm.trans (step?_eq_none hSkipped)
      | cons c rest =>
          rw [step?_eq hSkipped, Option.some.injEq,
            Prod.mk.injEq] at hStep
          rcases hStep with ⟨rfl, rfl⟩
          by_cases hNewline : c = '\n'
          · subst hNewline
            rcases hStart.written_newline hSkipped with
              ⟨hNext, hWritten⟩
            exact hWritten _ (ih hNext)
          · rcases hStart.written_word hSkipped
                hNewline with
              ⟨b, hNext, hWritten⟩
            exact hWritten _ (ih hNext)
  | case2 u hStep =>
      rw [tokens_of_step?_eq_none hStep]
      cases hSkipped : u.skipBlanks.text with
      | cons c rest =>
          cases hStep.symm.trans (step?_eq hSkipped)
      | nil =>
          exact hStart.written_end hSkipped

end Unread

/- The tokens of a text write its lines. -/
theorem tokenize_written
    (text : String) :
    Written
      (partsBetween '\n' (LineBreak.joinPairs text.toList))
      0 0 (tokenize text) := by
  cases hParts : partsBetween '\n'
    (LineBreak.joinPairs text.toList) with
  | nil =>
      exact absurd hParts (partsBetween_ne_nil _ _)
  | cons line lines =>
      apply Unread.tokens_written
      exact ⟨rfl, rfl, line, rfl, Nat.zero_le _, hParts⟩

------------------------------------------------------------
-- Characters of no class
------------------------------------------------------------

/-
  Why a text could not be cut: a character of
  no class, and its place.
-/
structure LexError where
  character : Char
  line : Nat
  column : Nat
deriving DecidableEq, Repr

namespace Unread

/-
  The next token, with a guard: what is none of the other
  tokens is read as an identifier, and an identifier without
  characters is an error.
-/
def guarded?
    (u : Unread) : Except LexError (Option (Token × Unread)) :=
  match u.skipBlanks.text with
  | [] => .ok none
  | c :: rest =>
    if (Lexeme.take c rest).1 = .identifier ∧
        (c :: rest).takeWhile Lexeme.isNameChar = [] then
      .error ⟨c, u.skipBlanks.line, u.skipBlanks.column⟩
    else .ok u.step?

/-
  Every character has a class, so the guard changes nothing.
-/
theorem guarded?_eq
    (u : Unread) :
    u.guarded? = .ok u.step? := by
  unfold guarded?
  cases hText : u.skipBlanks.text with
  | nil =>
      rw [step?_eq_none hText]
  | cons c rest =>
      simp only
      rw [if_neg]
      rintro ⟨hKind, hEmpty⟩
      have hNewline : c ≠ '\n' := by
        rintro rfl
        cases hKind
      have hWord :=
        Lexeme.isWord_take rest (blank_of_skipBlanks hText)
          hNewline
      have hHead : Lexeme.isNameChar c = true :=
        (hWord.of_runClass
          (congrArg Lexeme.runClass? hKind)).1 c
          List.mem_cons_self
      rw [List.takeWhile_cons_of_pos hHead] at hEmpty
      cases hEmpty

theorem guarded?_eq_some
    {u v : Unread}
    {t : Token}
    (hStep : u.guarded? = .ok (some (t, v))) :
    u.step? = some (t, v) := by
  rw [guarded?_eq] at hStep
  exact Except.ok.inj hStep

/- All tokens of a text, with the guard at every token. -/
def guardedTokens
    (u : Unread) : Except LexError (List Token) :=
  match _h : u.guarded? with
  | .error e => .error e
  | .ok (some (t, v)) => (guardedTokens v).map (t :: ·)
  | .ok none => .ok [u.endToken]
termination_by u.text.length
decreasing_by exact length_lt_of_step? (guarded?_eq_some _h)

/- No text is beyond the reader of tokens. -/
theorem guardedTokens_eq
    (u : Unread) :
    u.guardedTokens = .ok u.tokens := by
  induction u using Unread.tokens.induct with
  | case1 u t v hStep ih =>
      have hGuarded :=
        (guarded?_eq u).trans (congrArg Except.ok hStep)
      rw [guardedTokens, tokens_of_step? hStep, hGuarded]
      simp only [ih]
      rfl
  | case2 u hStep =>
      have hGuarded :=
        (guarded?_eq u).trans (congrArg Except.ok hStep)
      rw [guardedTokens, tokens_of_step?_eq_none hStep,
        hGuarded]

end Unread

end LyricScore
