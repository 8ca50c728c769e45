import LyricScore.Proofs.Manuscript.Trace
import LyricScore.Proofs.Token.Word

/-
  This file tells where the nodes of a score are located that
  are read off tokens of a text: at those tokens, and in their
  order.

  Key definitions include:
    * `StandsAt`
    * `Location.NotAfter`
    * `Subdivision.IsLocated`, `Directive.IsLocated`
    * `Pitch.IsLocated`
    * `Node.IsLocated`
    * `LiesWithin`

  Key theorems include:
    * `Token.Stands.standsAt`
    * `Reads.isLocated`, `Reads.liesWithin`
    * `Traced.ordered`
-/

namespace LyricScore

------------------------------------------------------------
-- Places in a text
------------------------------------------------------------

/- Some characters stand in rows from a location on. -/
def StandsAt
    (rows : List (List Char))
    (location : Location)
    (word : List Char) : Prop :=
  ∃ (n a : Nat) (row : List Char),
    location = ⟨n + 1, a + 1⟩ ∧
      rows[n]? = some row ∧
      word <+: row.drop a

namespace Location

/-
  A location is on an earlier row than another one, or on
  its row and not behind it.
-/
def NotAfter
    (l m : Location) : Prop :=
  l.line < m.line ∨ l.line = m.line ∧ l.column ≤ m.column

theorem NotAfter.refl
    (l : Location) :
    l.NotAfter l :=
  .inr ⟨rfl, Int.le_refl _⟩

theorem NotAfter.trans
    {l m n : Location}
    (hFirst : l.NotAfter m)
    (hThen : m.NotAfter n) :
    l.NotAfter n := by
  unfold NotAfter at *
  omega

end Location

------------------------------------------------------------
-- True locations
------------------------------------------------------------

section Located

variable (rows : List (List Char))
variable (fin : Token)
variable (body : List Token)

/-
  The text of a subdivision stands at it; a hyphen may be
  half of an equals sign.
-/
def Subdivision.IsLocated
    (s : Subdivision) : Prop :=
  StandsAt rows s.location s.text.toList ∨
    s.kind = .hyphen ∧
      s.text = "-" ∧
      StandsAt rows s.location ['=']

/-
  The letter of a directive stands at it, and its order is
  read off what follows.
-/
def Directive.IsLocated
    (d : Directive) : Prop :=
  StandsAt rows d.location d.order.name.letter.toList ∧
    ∃ before t behind rest,
      body = before ++ t :: behind ∧
        t.location = d.location ∧
        t.text = d.order.name.letter ∧
        readOrder fin d.order.name behind =
          .ok (d.order, rest)

/-
  A pitch is located where its modifiers and its letter start,
  with no modifier before them, and these stand in the text;
  or it is a later letter of a run, and stands there itself.
-/
inductive Pitch.IsLocated : Pitch → Prop where
  | leads {g : NoteGroup} {before behind : List Token}
      (hBody : body = before ++ (g.tokens ++ behind))
      (hFresh : Fresh before)
      (hTokens :
        ∀ t ∈ g.tokens,
          StandsAt rows t.location t.text.toList)
      (hLetter :
        StandsAt rows g.name.location [g.letter.char]) :
      IsLocated g.lead
  | follows {g : NoteGroup} {before behind : List Token}
      {l : Letter} {k : Nat}
      (hBody : body = before ++ (g.tokens ++ behind))
      (hLater : g.more[k]? = some l)
      (hLetter :
        StandsAt rows ⟨g.name.line, g.name.column + 1 + k⟩
          [l.char]) :
      IsLocated
        ⟨l, none, 0, ⟨g.name.line, g.name.column + 1 + k⟩⟩

def BeatElement.IsLocated : BeatElement → Prop
  | subdivision s => s.IsLocated rows
  | directive d => d.IsLocated rows fin body

/- What a node is located at. -/
def Node.IsLocated : Node → Prop
  | subdivision s => s.IsLocated rows
  | directive d => d.IsLocated rows fin body
  | chord location => StandsAt rows location ['(']
  | pitch p => p.IsLocated rows body
  | barline location => StandsAt rows location ['|']

end Located

------------------------------------------------------------
-- Tokens
------------------------------------------------------------

/-
  A character inside some characters stands as far behind
  them as it is inside.
-/
theorem StandsAt.getElem?
    {rows : List (List Char)}
    {line column : Int}
    {word : List Char}
    {c : Char}
    {k : Nat}
    (hStands : StandsAt rows ⟨line, column⟩ word)
    (hInside : word[k]? = some c) :
    StandsAt rows ⟨line, column + k⟩ [c] := by
  rcases hStands with ⟨n, a, row, hLocation, hRow, more, hText⟩
  cases hLocation
  have hDrop : word.drop k = c :: word.drop (k + 1) := by
    rcases List.getElem?_eq_some_iff.mp hInside with
      ⟨hLength, rfl⟩
    exact List.drop_eq_getElem_cons hLength
  have hShort : k ≤ word.length := by
    have := (List.getElem?_eq_some_iff.mp hInside).1
    omega
  refine
    ⟨n, a + k, row, ?_, hRow, word.drop (k + 1) ++ more, ?_⟩
  · simp
    omega
  · have hBehind : row.drop (a + k) = (row.drop a).drop k :=
      List.drop_drop.symm
    rw [hBehind, ← hText,
      List.drop_append_of_le_length hShort, hDrop]
    rfl

/- The letters of an identifier are its characters. -/
theorem Token.text_of_letters?
    {t : Token}
    {ls : List Letter}
    (hLetters : t.letters? = some ls) :
    t.text.toList = ls.map Letter.char := by
  unfold letters? at hLetters
  split at hLetters
  · generalize t.text.toList = cs at hLetters ⊢
    induction cs generalizing ls with
    | nil =>
        cases hLetters
        rfl
    | cons c cs ih =>
        rw [List.mapM_cons] at hLetters
        simp only [Option.bind_eq_bind,
          Option.bind_eq_some_iff] at hLetters
        rcases hLetters with ⟨l, hLetter, more, hMore, hAll⟩
        cases hAll
        rw [ih hMore, List.map_cons,
          Letter.char_of_ofChar? hLetter]
  · cases hLetters

namespace Token

variable {rows : List (List Char)}
variable {t u : Token}

/- A token stands where it says. -/
theorem Stands.standsAt
    (hStands : t.Stands rows)
    (hNewline : t.kind ≠ .newline) :
    StandsAt rows t.location t.text.toList := by
  cases hStands with
  | @word n a row word more kind hLine hText _ _ =>
      refine ⟨n, a, row, rfl, hLine, more, ?_⟩
      rw [at_text, String.toList_ofList, hText]
  | newline => exact absurd rfl hNewline
  | @fin n row hLine =>
      exact
        ⟨n, row.length, row, rfl, hLine, List.nil_prefix⟩

/- A token of a symbol stands where its character does. -/
theorem Stands.standsAt_of_symbol
    {c : Char}
    {kind : TokenKind}
    (hStands : t.Stands rows)
    (hKind : t.kind = kind)
    (hSymbol : Lexeme.symbolKind? c = some kind)
    (hAlone : kind ≠ .accidental) :
    StandsAt rows t.location [c] := by
  have hPlain := Lexeme.symbolKind?_eq_some hSymbol
  have hText := hStands.standsAt (hKind ▸ hPlain.1)
  rwa [hStands.text_of_symbol hKind hSymbol hAlone,
    String.toList_ofList] at hText

/- All that a token adds to its beat is located at it. -/
theorem beatElements_location
    (t : Token) :
    ∀ e ∈ t.beatElements, e.location = t.location := by
  unfold beatElements
  split <;> simp [BeatElement.location]

/-
  The elements that a token makes of itself
  stand where the token does.
-/
theorem Stands.beatElements_located
    (hStands : t.Stands rows)
    (hNewline : t.kind ≠ .newline)
    (fin : Token)
    (body : List Token) :
    ∀ e ∈ t.beatElements, e.IsLocated rows fin body := by
  have hText := hStands.standsAt hNewline
  unfold beatElements
  cases hKind : t.kind with
  | dot =>
    exact fun e hMember => absurd hMember List.not_mem_nil
  | equals =>
    have hEquals :=
      hStands.standsAt_of_symbol (c := '=') hKind rfl
        (by decide)
    rw [List.forall_mem_cons, List.forall_mem_singleton]
    exact ⟨.inr ⟨rfl, rfl, hEquals⟩, .inr ⟨rfl, rfl, hEquals⟩⟩
  | _ =>
    rw [List.forall_mem_singleton]
    exact .inl hText

theorem Before.notAfter
    (hBefore : t.Before u) :
    t.location.NotAfter u.location := by
  unfold Before at hBefore
  simp only [Location.NotAfter, location]
  omega

end Token

------------------------------------------------------------
-- Nodes are where they are said to be
------------------------------------------------------------

/-
  The pitches behind the first stand each one column behind
  the one before.
-/
theorem exists_of_mem_followers
    {line column : Int}
    {ls : List Letter}
    {p : Pitch}
    (hMember : p ∈ followers line column ls) :
    ∃ (k : Nat) (l : Letter),
      ls[k]? = some l ∧
        p = ⟨l, none, 0, ⟨line, column + k⟩⟩ := by
  induction ls generalizing column with
  | nil =>
      exact absurd hMember List.not_mem_nil
  | cons l ls ih =>
      rw [followers, List.mem_cons] at hMember
      rcases hMember with rfl | hMember
      · exact ⟨0, l, rfl, by simp⟩
      · rcases ih hMember with ⟨k, l', hLetter, rfl⟩
        refine ⟨k + 1, l', hLetter, ?_⟩
        have hColumn :
            column + 1 + (k : Int) =
              column + ((k + 1 : Nat) : Int) := by
          omega
        rw [hColumn]

section Reads

variable {rows : List (List Char)}
variable {fin : Token}
variable {before taken behind : List Token}
variable {nodes : List Node}

/- No order is read for another letter than its own. -/
theorem readOrder_name
    {name : DirectiveName}
    {order : Order}
    {ts rest : List Token}
    (hOrder : readOrder fin name ts = .ok (order, rest)) :
    order.name = name := by
  cases name <;>
    · rcases Outcome.map_eq_ok.mp hOrder with ⟨found, -, hSame⟩
      cases hSame
      rfl

/-
  A directive that was read stands at its letter, and its
  number follows.
-/
theorem Directive.isLocated_of_read
    {t : Token}
    {name : DirectiveName}
    {order : Order}
    {rest : List Token}
    (hStands : t.Stands rows)
    (hKind : t.kind = .identifier)
    (hName : DirectiveName.ofText? t.text = some name)
    (hOrder : readOrder fin name behind = .ok (order, rest)) :
    Directive.IsLocated rows fin (before ++ t :: behind)
      ⟨order, t.location⟩ := by
  have hLetter : name.letter = t.text := by
    simpa using List.find?_some hName
  have hText := hStands.standsAt (by simp [hKind])
  have hOwn := readOrder_name hOrder
  refine ⟨?_, before, t, behind, rest, rfl, rfl, ?_, ?_⟩
  · rw [hOwn, hLetter]
    exact hText
  · rw [hOwn, hLetter]
  · rw [hOwn]
    exact hOrder

namespace NoteGroup

/- The letters of a group stand one behind the other. -/
theorem letter_standsAt
    {l : Letter}
    {k : Nat}
    (g : NoteGroup)
    (hStands : g.name.Stands rows)
    (hLetter : (g.letter :: g.more)[k]? = some l) :
    StandsAt rows ⟨g.name.line, g.name.column + k⟩
      [l.char] := by
  have hText := hStands.standsAt (by simp [g.name_kind])
  rw [Token.text_of_letters? g.name_letters] at hText
  exact hText.getElem? (by rw [List.getElem?_map, hLetter]; rfl)

/-
  The pitches of a group stand where its modifiers start,
  and then at their letters.
-/
theorem pitches_located
    (g : NoteGroup)
    (hStands : ∀ t ∈ g.tokens, t.Stands rows)
    (hFresh : Fresh before) :
    ∀ p ∈ g.pitches,
      p.IsLocated rows
        (before ++ (g.tokens ++ behind)) := by
  have hName := hStands g.name g.name_mem
  rw [pitches, List.forall_mem_cons]
  constructor
  · have hFirst := g.letter_standsAt hName (k := 0) rfl
    refine .leads rfl hFresh ?_
      (by simpa [Token.location] using hFirst)
    exact fun t hMember =>
      (hStands t hMember).standsAt
        (g.kind_of_mem_tokens hMember)
  · intro p hMember
    rcases exists_of_mem_followers hMember with
      ⟨k, l, hLetter, rfl⟩
    have hLater := g.letter_standsAt hName (k := k + 1) hLetter
    have hColumn :
        g.name.column + ((k + 1 : Nat) : Int) =
          g.name.column + 1 + k := by
      omega
    rw [hColumn] at hLater
    exact .follows rfl hLetter hLater

end NoteGroup

/- What is read off some tokens is located at them. -/
theorem Reads.isLocated
    (hReads : Reads fin before taken behind nodes)
    (hStands : ∀ t ∈ taken, t.Stands rows) :
    ∀ node ∈ nodes,
      node.IsLocated rows fin
        (before ++ (taken ++ behind)) := by
  cases hReads with
  | pass =>
      exact fun node hMember => absurd hMember List.not_mem_nil
  | @mark t _ hNewline _ _ =>
      have hHere := hStands t (List.mem_singleton_self t)
      rw [List.forall_mem_map]
      intro e hMember
      have hElement :=
        hHere.beatElements_located hNewline fin
          (before ++ ([t] ++ behind)) e hMember
      cases e with
      | subdivision s => exact hElement
      | directive d => exact hElement
  | @barline t _ hKind =>
      rw [List.forall_mem_singleton]
      exact (hStands t
        (List.mem_singleton_self t)).standsAt_of_symbol
        hKind rfl (by decide)
  | @chord t _ hKind =>
      rw [List.forall_mem_singleton]
      exact (hStands t
        (List.mem_singleton_self t)).standsAt_of_symbol
        hKind rfl (by decide)
  | @directive t _ _ _ _ hKind hName hOrder =>
      rw [List.forall_mem_singleton]
      exact Directive.isLocated_of_read
        (hStands t (List.mem_singleton_self t)) hKind
        hName hOrder
  | run g _ hFresh =>
      rw [List.forall_mem_map]
      exact g.pitches_located hStands hFresh

------------------------------------------------------------
-- Nodes are in order
------------------------------------------------------------

/-
  Nodes that are located within some tokens, in order, and
  not behind what follows.
-/
structure LiesWithin
    (taken behind : List Token)
    (nodes : List Node) : Prop where
  inside :
    nodes.Pairwise fun x y => x.location.NotAfter y.location
  from_token :
    ∀ node ∈ nodes,
      ∃ t ∈ taken, t.location.NotAfter node.location
  up_to :
    ∀ node ∈ nodes,
      ∀ u ∈ behind, node.location.NotAfter u.location

/- Nodes that are all located at one token are in order. -/
theorem liesWithin_of_single
    {t : Token}
    (hNodes : ∀ node ∈ nodes, node.location = t.location)
    (hBehind : ∀ u ∈ behind, t.Before u) :
    LiesWithin [t] behind nodes where
  inside := by
    refine List.pairwise_of_forall_mem_list fun x hx y hy => ?_
    rw [hNodes x hx, hNodes y hy]
    exact .refl _
  from_token := by
    intro node hMember
    refine ⟨t, List.mem_singleton_self t, ?_⟩
    rw [hNodes node hMember]
    exact .refl _
  up_to := by
    intro node hMember u hu
    rw [hNodes node hMember]
    exact (hBehind u hu).notAfter

namespace NoteGroup

/- The letters behind the first are inside the name. -/
theorem followers_inside
    (g : NoteGroup)
    (hStands : g.name.Stands rows) :
    ∀ p ∈ followers g.name.line (g.name.column + 1) g.more,
      p.location.line = g.name.line ∧
        g.name.column ≤ p.location.column ∧
        p.location.column < g.name.endColumn := by
  intro p hMember
  rcases exists_of_mem_followers hMember with
    ⟨k, l, hLetter, rfl⟩
  have hLength := (List.getElem?_eq_some_iff.mp hLetter).1
  have hWidth := hStands.endColumn_eq
  rw [Token.text_of_letters? g.name_letters,
    List.length_map, List.length_cons] at hWidth
  refine ⟨rfl, ?_, ?_⟩
  · simp only
    omega
  · simp only
    omega

/- The first token of a group is not after its letters. -/
theorem first_notAfter_name
    (g : NoteGroup)
    (hOrdered : g.tokens.Pairwise Token.Before) :
    g.first.location.NotAfter g.name.location := by
  have hHead := g.head?_tokens
  have hName := g.name_mem
  cases hTokens : g.tokens with
  | nil =>
      rw [hTokens] at hHead
      cases hHead
  | cons t ts =>
      rw [hTokens] at hHead hName hOrdered
      cases hHead
      rcases List.mem_cons.mp hName with hSame | hLater
      · rw [← hSame]
        exact .refl _
      · exact ((List.pairwise_cons.mp hOrdered).1 g.name
          hLater).notAfter

end NoteGroup

/- Letters in one token stand in order. -/
theorem followers_ordered
    (line column : Int)
    (ls : List Letter) :
    (followers line column ls).Pairwise fun p q =>
      p.location.NotAfter q.location := by
  induction ls generalizing column with
  | nil =>
      exact .nil
  | cons l ls ih =>
      refine .cons (fun p hMember => ?_) (ih _)
      rcases exists_of_mem_followers hMember with
        ⟨k, l', -, rfl⟩
      refine .inr ⟨rfl, ?_⟩
      simp only
      omega

/- The pitches of a group lie within its tokens, in order. -/
theorem NoteGroup.liesWithin
    (g : NoteGroup)
    (hStands : g.name.Stands rows)
    (hOrdered : (g.tokens ++ behind).Pairwise Token.Before) :
    LiesWithin g.tokens behind (g.pitches.map .pitch) := by
  rcases List.pairwise_append.mp hOrdered with
    ⟨hTokens, -, hBehind⟩
  have hFirst := g.first_notAfter_name hTokens
  have hInside := g.followers_inside hStands
  have hAfterName :
      ∀ p ∈ followers g.name.line (g.name.column + 1) g.more,
        g.name.location.NotAfter p.location := by
    intro p hMember
    rcases hInside p hMember with ⟨hLine, hColumn, -⟩
    exact .inr ⟨hLine.symm, hColumn⟩
  constructor
  · rw [List.pairwise_map, pitches, List.pairwise_cons]
    exact
      ⟨fun p hMember => hFirst.trans (hAfterName p hMember),
        followers_ordered _ _ _⟩
  · rw [List.forall_mem_map, pitches, List.forall_mem_cons]
    refine ⟨⟨g.first, ?_, .refl _⟩,
      fun p hMember =>
        ⟨g.name, g.name_mem, hAfterName p hMember⟩⟩
    exact List.mem_of_mem_head? g.head?_tokens
  · rw [List.forall_mem_map, pitches, List.forall_mem_cons]
    constructor
    · exact fun u hu =>
        hFirst.trans
          (hBehind g.name g.name_mem u hu).notAfter
    · intro p hMember u hu
      rcases hInside p hMember with ⟨hLine, -, hColumn⟩
      have hBefore := hBehind g.name g.name_mem u hu
      simp only [Token.Before] at hBefore
      simp only [Location.NotAfter, Node.location,
        Token.location]
      omega

/-
  What is read off some tokens is located
  within them, in order.
-/
theorem Reads.liesWithin
    (hReads : Reads fin before taken behind nodes)
    (hStands : ∀ t ∈ taken, t.Stands rows)
    (hOrdered : (taken ++ behind).Pairwise Token.Before) :
    LiesWithin taken behind nodes := by
  have hBehind := (List.pairwise_append.mp hOrdered).2.2
  cases hReads with
  | pass =>
      exact ⟨.nil, by simp, by simp⟩
  | @mark t _ _ _ _ =>
      refine liesWithin_of_single ?_
        (hBehind t (List.mem_singleton_self t))
      rw [List.forall_mem_map]
      intro e hMember
      have hLocation := t.beatElements_location e hMember
      cases e with
      | subdivision s => exact hLocation
      | directive d => exact hLocation
  | @barline t _ _ =>
      exact liesWithin_of_single (by simp [Node.location])
        (hBehind t (List.mem_singleton_self t))
  | @chord t _ _ =>
      exact liesWithin_of_single (by simp [Node.location])
        (hBehind t (List.mem_singleton_self t))
  | @directive t _ _ _ _ _ _ _ =>
      exact liesWithin_of_single (by simp [Node.location])
        (hBehind t (List.mem_singleton_self t))
  | run g =>
      exact g.liesWithin (hStands g.name g.name_mem) hOrdered

/-
  What is read off a stretch of tokens is in order: a later
  node is not before the token that it is read off, and that
  token is behind.
-/
theorem Traced.ordered
    {ts after rest : List Token}
    (hTraced : Traced fin before ts after rest nodes)
    (hStands : ∀ t ∈ ts, t.Stands rows)
    (hOrdered : ts.Pairwise Token.Before) :
    nodes.Pairwise fun x y =>
      x.location.NotAfter y.location := by
  induction hTraced with
  | refl before ts =>
      exact .nil
  | @step before taken behind _ _ first more hReads hRest ih =>
      rw [List.forall_mem_append] at hStands
      have hFirst := hReads.liesWithin hStands.1 hOrdered
      have hLater := (List.pairwise_append.mp hOrdered).2.1
      refine List.pairwise_append.mpr
        ⟨hFirst.inside, ih hStands.2 hLater,
          fun x hx y hy => ?_⟩
      rcases hRest.exists_reads hy with
        ⟨earlier, taken', behind', first', rfl, hReads',
          hy'⟩
      rw [List.forall_mem_append,
        List.forall_mem_append] at hStands
      have hThere :=
        hReads'.liesWithin hStands.2.2.1
          (List.pairwise_append.mp hLater).2.1
      rcases hThere.from_token y hy' with ⟨u, hu, hUpTo⟩
      exact (hFirst.up_to x hx u (by simp [hu])).trans hUpTo

end Reads

end LyricScore
