import Mathlib.Data.List.TakeWhile
import LyricScore.Proofs.Manuscript.Alike.Basic
import LyricScore.Proofs.Token.Step

/-
  This file shows that a line end separates: the tokens of two
  texts with a line end between them are the tokens of the one
  and the tokens of the other, which stand on later lines.

  Key definitions include:
    * `Location.lower`, `Token.lower`

  Key theorems include:
    * `LineBreak.joinPairs_append`
    * `Lexeme.take_append_newline`
    * `Unread.tokens_append_newline`
    * `Unread.tokens_lower`
    * `tokenize_append`
    * `spacedAlike_lower`
-/

namespace LyricScore

------------------------------------------------------------
-- Lists up to a stop
------------------------------------------------------------

section Stops

variable {α : Type}
variable {φ : α → Bool}
variable {a : α}

/-
  What is taken from the head of a list ends
  before what stops it.
-/
theorem takeWhile_append_stop
    (xs ys : List α)
    (hStop : φ a = false) :
    (xs ++ a :: ys).takeWhile φ = xs.takeWhile φ := by
  induction xs with
  | nil =>
      simp [hStop]
  | cons x xs ih =>
      rw [List.cons_append, List.takeWhile_cons,
        List.takeWhile_cons, ih]

/- What stops the run stops it whatever follows. -/
theorem dropWhile_append_stop
    (xs ys : List α)
    (hStop : φ a = false) :
    (xs ++ a :: ys).dropWhile φ =
      xs.dropWhile φ ++ a :: ys := by
  induction xs with
  | nil =>
      simp [hStop]
  | cons x xs ih =>
      rw [List.cons_append, List.dropWhile_cons,
        List.dropWhile_cons, ih]
      split <;> rfl

end Stops

------------------------------------------------------------
-- Line ends
------------------------------------------------------------

namespace LineBreak

/-
  Line ends are made alike in two texts apart, if the first
  ends with no carriage return.
-/
theorem joinPairs_append
    (xs ys : List Char)
    (hEnd : ∀ c ∈ xs.getLast?, c ≠ '\r') :
    joinPairs (xs ++ ys) = joinPairs xs ++ joinPairs ys := by
  fun_induction joinPairs xs with
  | case1 =>
      rfl
  | case2 c =>
      have hLast : c ≠ '\r' := hEnd c rfl
      cases ys with
      | nil =>
          rfl
      | cons d ys =>
          simp [joinPairs, hLast]
  | case3 c d rest hPair ih =>
      have hRest : ∀ c ∈ rest.getLast?, c ≠ '\r' := by
        intro e he
        refine hEnd e ?_
        cases rest with
        | nil =>
            cases he
        | cons f rest =>
            simpa using he
      rw [List.cons_append, List.cons_append, joinPairs,
        if_pos hPair, ih hRest, List.cons_append]
  | case4 c d rest hPair ih =>
      have hRest : ∀ e ∈ (d :: rest).getLast?, e ≠ '\r' := by
        intro e he
        refine hEnd e ?_
        simpa using he
      rw [List.cons_append, List.cons_append, joinPairs,
        if_neg hPair, ← List.cons_append, ih hRest,
        List.cons_append]

/- As many line feeds are there as before. -/
theorem count_joinPairs
    (xs : List Char) :
    (joinPairs xs).count '\n' = xs.count '\n' := by
  fun_induction joinPairs xs with
  | case1 =>
      rfl
  | case2 c =>
      rfl
  | case3 c d rest hPair ih =>
      rw [hPair.1, hPair.2]
      simp [ih]
  | case4 c d rest hPair ih =>
      rw [List.count_cons, List.count_cons, ih]

/- A text still ends with the line feed that it ended with. -/
theorem getLast?_joinPairs
    (xs : List Char)
    (hEnd : xs.getLast? = some '\n') :
    (joinPairs xs).getLast? = some '\n' := by
  fun_induction joinPairs xs with
  | case1 =>
      cases hEnd
  | case2 c =>
      exact hEnd
  | case3 c d rest hPair ih =>
      rw [List.getLast?_cons]
      cases hRest : rest.getLast? with
      | none =>
          rw [List.getLast?_eq_none_iff] at hRest
          rw [hRest]
          rfl
      | some e =>
          rw [List.getLast?_cons, List.getLast?_cons,
            hRest] at hEnd
          rw [ih (hRest.trans hEnd)]
          rfl
  | case4 c d rest hPair ih =>
      rw [List.getLast?_cons_cons] at hEnd
      rw [List.getLast?_cons, ih hEnd]
      rfl

end LineBreak

------------------------------------------------------------
-- Tokens
------------------------------------------------------------

namespace Lexeme

/- A line end stops every token before it. -/
theorem take_append_newline
    (c : Char)
    (rest ys : List Char) :
    take c (rest ++ '\n' :: ys) =
      ((take c rest).1, (take c rest).2.1,
        (take c rest).2.2 ++ '\n' :: ys) := by
  unfold take
  by_cases hNewline : c = '\n'
  · rw [if_pos hNewline, if_pos hNewline]
  · rw [if_neg hNewline, if_neg hNewline]
    by_cases hDoubling : isDoubling c = true
    · rw [if_pos hDoubling, if_pos hDoubling]
      cases rest with
      | nil =>
          simp [Ne.symm hNewline]
      | cons d rest =>
          simp only [List.cons_append]
          split <;> rfl
    · rw [if_neg hDoubling, if_neg hDoubling]
      cases symbolKind? c with
      | some kind =>
          rfl
      | none =>
          have hDigit :
              DecimalDigit.isAscii '\n' = false := by
            decide
          have hName : isNameChar '\n' = false := by decide
          simp only [takeWhile_append_stop _ _ hDigit,
            dropWhile_append_stop _ _ hDigit,
            takeWhile_append_stop _ _ hName,
            dropWhile_append_stop _ _ hName]
          split <;> rfl

/- Only the head of a token may be a line feed. -/
theorem newline_not_mem_take
    (c : Char)
    (rest : List Char) :
    '\n' ∉ (take c rest).2.1 := by
  unfold take
  by_cases hNewline : c = '\n'
  · simp [hNewline]
  · rw [if_neg hNewline]
    by_cases hDoubling : isDoubling c = true
    · rw [if_pos hDoubling]
      cases rest with
      | nil =>
          simp
      | cons d rest =>
          by_cases hDouble : d = c
          · simp [hDouble, Ne.symm hNewline]
          · simp [hDouble]
    · rw [if_neg hDoubling]
      cases symbolKind? c with
      | some kind =>
          simp
      | none =>
          simp only
          split
          · intro hMember
            exact absurd (List.mem_takeWhile_imp hMember)
              (by decide)
          · intro hMember
            exact absurd (List.mem_takeWhile_imp hMember)
              (by decide)

end Lexeme

namespace Unread

/-
  What a line end stops is the same token, whatever follows
  the line end.
-/
theorem tokenAt_append_newline
    (line column : Nat)
    (c : Char)
    (rest ys : List Char) :
    tokenAt line column c (rest ++ '\n' :: ys) =
      tokenAt line column c rest := by
  rw [tokenAt, Lexeme.take_append_newline]
  rfl

/-
  A token does not reach beyond its line, whatever follows.
-/
theorem behind_append_newline
    (line column : Nat)
    (c : Char)
    (rest ys : List Char) :
    behind line column c (rest ++ '\n' :: ys) =
      ⟨(behind line column c rest).line,
        (behind line column c rest).column,
        (behind line column c rest).text ++
          '\n' :: ys⟩ := by
  rw [behind, behind, Lexeme.take_append_newline]
  split <;> rfl

/-
  Behind a token, the line has grown by the
  line feeds that were read.
-/
theorem line_behind
    (line column : Nat)
    (c : Char)
    (rest : List Char) :
    (behind line column c rest).line +
        (behind line column c rest).text.count '\n' =
      line + (c :: rest).count '\n' := by
  have hMore :=
    List.count_eq_zero.mpr
      (Lexeme.newline_not_mem_take c rest)
  have hRest :=
    congrArg (List.count '\n') (Lexeme.take_append c rest)
  rw [List.count_append, hMore, Nat.zero_add] at hRest
  rw [behind, List.count_cons, ← hRest]
  by_cases hNewline : c = '\n'
  · simp [hNewline]
    omega
  · simp [hNewline]

/- Blanks do not reach beyond a line end. -/
theorem skipBlanks_append_newline
    (line column : Nat)
    (xs ys : List Char) :
    skipBlanks ⟨line, column, xs ++ '\n' :: ys⟩ =
      ⟨line, column + (xs.takeWhile Lexeme.isBlank).length,
        xs.dropWhile Lexeme.isBlank ++ '\n' :: ys⟩ := by
  have hBlank : Lexeme.isBlank '\n' = false := by
    decide
  rw [skipBlanks, takeWhile_append_stop _ _ hBlank,
    dropWhile_append_stop _ _ hBlank]

/- No line feed is a blank. -/
theorem count_dropWhile_isBlank
    (xs : List Char) :
    (xs.dropWhile Lexeme.isBlank).count '\n' =
      xs.count '\n' := by
  have hBlanks :
      (xs.takeWhile Lexeme.isBlank).count '\n' = 0 := by
    rw [List.count_eq_zero]
    intro hMember
    exact absurd (List.mem_takeWhile_imp hMember) (by decide)
  have hParts :=
    congrArg (List.count '\n')
      (@List.takeWhile_append_dropWhile _ Lexeme.isBlank xs)
  rw [List.count_append, hBlanks, Nat.zero_add] at hParts
  exact hParts

/- Behind a token, less is left of what it starts. -/
theorem length_behind_lt
    (line column : Nat)
    (c : Char)
    (rest : List Char) :
    (behind line column c rest).text.length <
      (c :: rest).length := by
  have hTake := Lexeme.length_take_le c rest
  rw [List.length_cons]
  unfold behind
  split <;> simp only <;> omega

/-
  The tokens of a text up to a line end do not depend on what
  follows it.  The last of them is the line end.
-/
theorem tokens_append_newline
    (line column : Nat)
    (xs : List Char) :
    ∃ ts,
      (∃ t ∈ ts.getLast?, t.kind = .newline) ∧
        ∀ ys,
          tokens ⟨line, column, xs ++ '\n' :: ys⟩ =
            ts ++ tokens ⟨line + xs.count '\n' + 1, 1, ys⟩ := by
  have hSkip := skipBlanks_append_newline line column xs
  have hLength :
      (xs.dropWhile Lexeme.isBlank).length ≤ xs.length :=
    (List.dropWhile_sublist _).length_le
  rw [← count_dropWhile_isBlank xs]
  generalize column + (xs.takeWhile Lexeme.isBlank).length =
    start at hSkip
  cases hText : xs.dropWhile Lexeme.isBlank with
  | nil =>
      refine ⟨[tokenAt line start '\n' []], ⟨_, rfl, rfl⟩, ?_⟩
      intro ys
      have hSkip := hSkip ys
      rw [hText, List.nil_append] at hSkip
      rw [tokens_of_step? (step?_eq (congrArg text hSkip)),
        hSkip]
      rfl
  | cons c rest =>
      rw [hText] at hLength
      have hShorter :=
        Nat.lt_of_lt_of_le
          (length_behind_lt line start c rest) hLength
      rcases tokens_append_newline
        (behind line start c rest).line
        (behind line start c rest).column
        (behind line start c rest).text with
        ⟨ts, ⟨last, hLast, hNewline⟩, hTokens⟩
      refine ⟨tokenAt line start c rest :: ts,
        ⟨last, ?_, hNewline⟩, ?_⟩
      · rw [List.getLast?_cons, hLast]
        rfl
      · intro ys
        have hSkip := hSkip ys
        rw [hText, List.cons_append] at hSkip
        rw [tokens_of_step?
            (step?_eq (congrArg text hSkip)), hSkip,
          tokenAt_append_newline, behind_append_newline,
          hTokens, line_behind]
        rfl
termination_by xs.length

end Unread

------------------------------------------------------------
-- Later lines
------------------------------------------------------------

/- A place so many lines further down. -/
def Location.down
    (n : Nat)
    (l : Location) : Location :=
  ⟨l.line + n, l.column⟩

/- Lines that move down keep in step. -/
theorem Location.inStep_down
    (n : Nat) :
    InStep (down n) id := by
  constructor
  rintro a b ⟨⟩
  rfl

/-
  A location as it is in a text that starts so many lines
  further down: a place is there, and the unknown location is
  still unknown.
-/
def Location.lower
    (n : Nat)
    (l : Location) : Location :=
  if l.line = 0 then l else l.down n

/-
  Lowering lines moves even the starts of lines alike, and
  the unknown location not at all.
-/
theorem Location.concur_lower
    (n : Nat) :
    Concur (lower n) id := by
  have hLine :
      ∀ (a : Location) (column : Int),
        lower n ⟨a.line, column⟩ =
          ⟨(lower n a).line, column⟩ := by
    intro a column
    by_cases hUnknown : a.line = 0 <;>
      simp [lower, down, hUnknown]
  refine ⟨⟨?_⟩, rfl, ?_⟩
  · intro a b hSame
    have hColumn : (lower n a).column = a.column := by
      unfold lower
      split <;> rfl
    rw [id_eq] at hSame
    rw [hLine, ← hSame, hColumn]
    rfl
  · intro a b hSame
    rw [id_eq] at hSame
    rw [hLine, ← hSame]
    rfl

/- A token as it stands so many lines further down. -/
def Token.lower
    (n : Nat)
    (t : Token) : Token :=
  { t with line := t.line + n }

/-
  A text that starts on a later line has the
  same tokens on later lines.
-/
theorem Unread.tokens_lower
    (n : Nat)
    (u : Unread) :
    tokens ⟨u.line + n, u.column, u.text⟩ =
      u.tokens.map (Token.lower n) := by
  induction u using Unread.tokens.induct with
  | case1 u t v hStep ih =>
      cases hText : u.skipBlanks.text with
      | nil =>
          cases hStep.symm.trans (step?_eq_none hText)
      | cons c rest =>
          cases hStep.symm.trans (step?_eq hText)
          have hLowered :
              step? ⟨u.line + n, u.column, u.text⟩ =
                some
                  (tokenAt (u.line + n) u.skipBlanks.column
                      c rest,
                    behind (u.line + n) u.skipBlanks.column
                      c rest) :=
            step?_eq hText
          have hHead :
              tokenAt (u.line + n) u.skipBlanks.column
                  c rest =
                (tokenAt u.line u.skipBlanks.column c
                  rest).lower n := by
            simp [tokenAt, Token.lower]
          have hRest :
              behind (u.line + n) u.skipBlanks.column
                  c rest =
                ⟨(behind u.line u.skipBlanks.column c
                      rest).line + n,
                  (behind u.line u.skipBlanks.column c
                    rest).column,
                  (behind u.line u.skipBlanks.column c
                    rest).text⟩ := by
            unfold behind
            split
            · simp only [Nat.add_right_comm]
            · rfl
          rw [tokens_of_step? hLowered,
            tokens_of_step? hStep, List.map_cons, hHead,
            hRest, ih]
  | case2 u hStep =>
      cases hText : u.skipBlanks.text with
      | cons c rest =>
          cases hStep.symm.trans (step?_eq hText)
      | nil =>
          have hLowered :
              step? ⟨u.line + n, u.column, u.text⟩ = none :=
            step?_eq_none hText
          rw [tokens_of_step?_eq_none hLowered,
            tokens_of_step?_eq_none hStep]
          simp [endToken, skipBlanks, Token.lower]

/-
  A text that ends with a line end, and another behind it: the
  tokens of the other are as many lines further down as the
  first text has line feeds.  With nothing behind it, the
  first text shows which tokens come before these.
-/
theorem tokenize_append
    {first : String}
    {n : Nat}
    {ts : List Token}
    {fin : Token}
    (hEnd : first.toList.getLast? = some '\n')
    (hCount : first.toList.count '\n' = n)
    (hFirst : tokenize first = ts ++ [fin]) :
    (∃ t ∈ ts.getLast?, t.kind = .newline) ∧
      ∀ rest,
        tokenize (first ++ rest) =
          ts ++ (tokenize rest).map (Token.lower n) := by
  rcases List.getLast?_eq_some_iff.mp
    (LineBreak.getLast?_joinPairs first.toList hEnd) with
    ⟨xs, hText⟩
  rcases Unread.tokens_append_newline 1 1 xs with
    ⟨us, hLast, hTokens⟩
  have hLines : 1 + xs.count '\n' + 1 = 1 + n := by
    rw [← hCount, ← LineBreak.count_joinPairs first.toList,
      hText, List.count_append]
    exact Nat.add_assoc 1 _ 1
  have hBoth :
      ∀ rest,
        tokenize (first ++ rest) =
          us ++ (tokenize rest).map (Token.lower n) := by
    intro rest
    have hText :
        LineBreak.joinPairs (first ++ rest).toList =
          xs ++ '\n' :: LineBreak.joinPairs rest.toList := by
      rw [String.toList_append, LineBreak.joinPairs_append,
        hText, List.append_assoc]
      · rfl
      · rw [hEnd]
        rintro c ⟨⟩
        decide
    rw [tokenize, Unread.ofText, hText, hTokens, hLines]
    exact congrArg (us ++ ·)
      (Unread.tokens_lower _ (Unread.ofText rest))
  have hSame : us = ts := by
    have hAlone := hBoth ""
    rw [String.append_empty, hFirst, tokenize,
      Unread.tokens_of_step?_eq_none rfl] at hAlone
    exact (List.append_inj_left' hAlone rfl).symm
  rw [← hSame]
  exact ⟨hLast, hBoth⟩

/- Tokens stand on the line where a text starts, or later. -/
theorem Unread.line_le_of_mem_tokens
    {u : Unread}
    {t : Token}
    (hMember : t ∈ u.tokens) :
    (u.line : Int) ≤ t.line := by
  induction u using Unread.tokens.induct with
  | case1 u head v hStep ih =>
      rw [tokens_of_step? hStep, List.mem_cons] at hMember
      cases hText : u.skipBlanks.text with
      | nil =>
          cases hStep.symm.trans (step?_eq_none hText)
      | cons c rest =>
          cases hStep.symm.trans (step?_eq hText)
          rcases hMember with rfl | hMember
          · exact Int.le_refl _
          · refine Int.le_trans ?_ (ih hMember)
            unfold behind
            split <;> simp only <;> omega
  | case2 u hStep =>
      rw [tokens_of_step?_eq_none hStep,
        List.mem_singleton] at hMember
      rw [hMember]
      exact Int.le_refl _

/-
  Tokens on later lines are alike to the tokens, for
  functions that make up for the lines.
-/
theorem spacedAlike_lower
    {f g : Location → Location}
    {ts : List Token}
    (n : Nat)
    (p : Option Token)
    (hLocations :
      ∀ t ∈ ts, f t.location = g (t.lower n).location) :
    SpacedAlike f g p (p.map (Token.lower n)) ts
      (ts.map (Token.lower n)) := by
  induction ts generalizing p with
  | nil =>
      exact .nil
  | cons t ts ih =>
      rw [List.forall_mem_cons] at hLocations
      have hSpace :
          t.SpacedFrom p ↔
            (t.lower n).SpacedFrom
              (p.map (Token.lower n)) := by
        cases p with
        | none =>
            simp [Token.SpacedFrom]
        | some previous =>
            simp [Token.SpacedFrom, Token.lower,
              Token.AdjacentTo]
      exact .cons ⟨rfl, rfl, hLocations.1⟩ hSpace
        (ih (some t) hLocations.2)

end LyricScore
