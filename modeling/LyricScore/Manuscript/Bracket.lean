import LyricScore.Score.Error

/-
  This file defines bracket groups: what stands between an
  opening and a closing bracket.  Directives are read, and
  everything else is passed over.

  Key definitions include:
    * `BracketEntry`
    * `BracketEntry.remarks`
    * `BracketGroup`
    * `BracketGroup.directives`
    * `takeNumber`
    * `readOrder`
    * `readEntry`
    * `readEntries`
    * `readGroup`
-/

namespace LyricScore

------------------------------------------------------------
-- Groups
------------------------------------------------------------

/-
  What a bracket group holds: a directive, an identifier that
  names no directive, or a token of another kind.
-/
inductive BracketEntry where
  | directive (d : Directive)
  | unknown (t : Token)
  | stray (t : Token)
deriving DecidableEq, Repr

namespace BracketEntry

/- The directive of an entry. -/
def directive? : BracketEntry → Option Directive
  | directive d => some d
  | unknown _ => none
  | stray _ => none

/- What is remarked about an entry. -/
def remarks : BracketEntry → List Remark
  | directive _ => []
  | unknown t => [.unknownDirective t.text]
  | stray t => [.inBrackets t]

end BracketEntry

/- A bracket group with its two brackets. -/
structure BracketGroup where
  opening : Token
  entries : List BracketEntry
  closing : Token
deriving DecidableEq, Repr

namespace BracketGroup

/- The directives of a group, in order. -/
def directives
    (g : BracketGroup) : List Directive :=
  g.entries.filterMap BracketEntry.directive?

/- What is remarked about a group. -/
def remarks
    (g : BracketGroup) : List Remark :=
  g.entries.flatMap BracketEntry.remarks

end BracketGroup

------------------------------------------------------------
-- Reading
------------------------------------------------------------

/-
  The number of a directive.  The token `fin` is the one that
  closes the text; it is found where no other token is left.
-/
def takeNumber
    (fin : Token)
    (name : DirectiveName) :
    List Token → Except ScoreError (Int × List Token)
  | [] => .error (.missing (.number name) fin)
  | t :: rest =>
    if t.kind = .number then
      match Numeral.read t.text with
      | .ok n => .ok (n, rest)
      | .error e => .error (.number e)
    else .error (.missing (.number name) t)

/- An accidental at the head of some tokens. -/
def takeAccidental : List Token → Option Accidental × List Token
  | [] => (none, [])
  | t :: rest =>
    if t.kind = .accidental then
      (some (.ofSign t.text), rest)
    else (none, t :: rest)

/- A dot at the head of some tokens. -/
def takeDot : List Token → Bool × List Token
  | [] => (false, [])
  | t :: rest =>
      if t.kind = .dot then (true, rest)
      else (false, t :: rest)

/-
  The order that follows the letter of a directive: a number,
  which a key may have an accidental before and the code of a
  beat a dot behind.
-/
def readOrder
    (fin : Token)
    (name : DirectiveName)
    (ts : List Token) :
      Except ScoreError (Order × List Token) :=
  match name with
  | .beatUnit =>
    (takeNumber fin name ts).map fun (n, rest) =>
      let (dotted, rest) := takeDot rest
      (.beatUnit (toString n ++ if dotted then "." else ""),
        rest)
  | .key =>
    let (accidental, rest) := takeAccidental ts
    (takeNumber fin name rest).map fun (n, rest) =>
      (.key accidental n, rest)
  | .pickup =>
      (takeNumber fin name ts).map fun (n, rest) =>
        (.pickup n, rest)
  | .tempo =>
      (takeNumber fin name ts).map fun (n, rest) =>
        (.tempo n, rest)
  | .referenceOctave =>
    (takeNumber fin name ts).map fun (n, rest) =>
      (.referenceOctave n, rest)
  | .instrument =>
      (takeNumber fin name ts).map fun (n, rest) =>
        (.instrument n, rest)
  | .volume =>
      (takeNumber fin name ts).map fun (n, rest) =>
        (.volume n, rest)

/- The entry that starts with the token `t`. -/
def readEntry
    (fin : Token)
    (t : Token)
    (rest : List Token) :
      Except ScoreError (BracketEntry × List Token) :=
  if t.kind = .identifier then
    match DirectiveName.ofText? t.text with
    | some name =>
      (readOrder fin name rest).map fun (order, rest) =>
        (.directive ⟨order, t.location⟩, rest)
    | none => .ok (.unknown t, rest)
  else .ok (.stray t, rest)

------------------------------------------------------------
-- Nothing is read twice
------------------------------------------------------------

/- A number takes the token that writes it. -/
theorem length_takeNumber_lt
    {fin : Token}
    {name : DirectiveName}
    {ts rest : List Token}
    {n : Int}
    (h : takeNumber fin name ts = .ok (n, rest)) :
    rest.length < ts.length := by
  unfold takeNumber at h
  split at h
  · cases h
  · split at h
    · split at h
      · cases h
        simp
      · cases h
    · cases h

/- An accidental that is not there takes no token. -/
theorem length_takeAccidental_le
    (ts : List Token) :
    (takeAccidental ts).2.length ≤ ts.length := by
  unfold takeAccidental
  split
  · simp
  · split <;> simp

theorem length_takeDot_le
    (ts : List Token) :
    (takeDot ts).2.length ≤ ts.length := by
  unfold takeDot
  split
  · simp
  · split <;> simp

/-
  An order that a number makes takes the
  token of the number.
-/
theorem length_map_takeNumber_lt
    {fin : Token}
    {name : DirectiveName}
    {ts rest : List Token}
    {order : Order}
    {orderOf : Int → Order}
    (h :
      (takeNumber fin name ts).map
          (fun (n, rest) => (orderOf n, rest)) =
        .ok (order, rest)) :
    rest.length < ts.length := by
  cases hNumber : takeNumber fin name ts with
  | error e =>
      rw [hNumber] at h
      cases h
  | ok step =>
      rw [hNumber] at h
      cases h
      exact length_takeNumber_lt hNumber

/- Every order takes at least the token of its number. -/
theorem length_readOrder_lt
    {fin : Token}
    {name : DirectiveName}
    {ts rest : List Token}
    {order : Order}
    (h : readOrder fin name ts = .ok (order, rest)) :
    rest.length < ts.length := by
  cases name with
  | beatUnit =>
      cases hNumber : takeNumber fin .beatUnit ts with
      | error e =>
          simp [readOrder, hNumber, Except.map] at h
      | ok step =>
          simp only [readOrder, hNumber, Except.map,
            Except.ok.injEq, Prod.mk.injEq] at h
          rw [← h.2]
          exact Nat.lt_of_le_of_lt (length_takeDot_le _)
            (length_takeNumber_lt hNumber)
  | key =>
      cases hNumber : takeNumber fin .key
        (takeAccidental ts).2 with
      | error e =>
          simp [readOrder, hNumber, Except.map] at h
      | ok step =>
          simp only [readOrder, hNumber, Except.map,
            Except.ok.injEq, Prod.mk.injEq] at h
          rw [← h.2]
          exact Nat.lt_of_lt_of_le
            (length_takeNumber_lt hNumber)
            (length_takeAccidental_le ts)
  | _ =>
      simp only [readOrder] at h
      exact length_map_takeNumber_lt h

/- An entry of brackets never puts tokens back. -/
theorem length_readEntry_le
    {fin t : Token}
    {ts rest : List Token}
    {entry : BracketEntry}
    (h : readEntry fin t ts = .ok (entry, rest)) :
    rest.length ≤ ts.length := by
  unfold readEntry at h
  by_cases hIdentifier : t.kind = .identifier
  · rw [if_pos hIdentifier] at h
    cases hName : DirectiveName.ofText? t.text with
    | none =>
        rw [hName] at h
        cases h
        exact Nat.le_refl _
    | some name =>
        simp only [hName] at h
        cases hOrder : readOrder fin name ts with
        | error e =>
            rw [hOrder] at h
            cases h
        | ok step =>
            rw [hOrder] at h
            cases h
            exact Nat.le_of_lt (length_readOrder_lt hOrder)
  · rw [if_neg hIdentifier] at h
    cases h
    exact Nat.le_refl _

------------------------------------------------------------
-- Groups of tokens
------------------------------------------------------------

/-
  The entries up to the closing bracket, that bracket, and
  what follows it.
-/
def readEntries
    (fin : Token)
    (ts : List Token) :
    Except Stop (List BracketEntry × Token × List Token) :=
  match ts with
  | [] => .error ⟨.missing .closingBracket fin, []⟩
  | t :: rest =>
    if t.kind = .closeBracket then .ok ([], t, rest)
    else
      match _h : readEntry fin t rest with
      | .error e => .error ⟨e, []⟩
      | .ok (entry, after) =>
          Stop.prepend entry entry.remarks
            (readEntries fin after)
termination_by ts.length
decreasing_by
  have := length_readEntry_le _h
  simp only [List.length_cons]
  omega

/- The group that the token `opening` opens. -/
def readGroup
    (fin : Token)
    (opening : Token)
    (rest : List Token) :
      Except Stop (BracketGroup × List Token) :=
  match readEntries fin rest with
  | .error s => .error s
  | .ok (entries, closing, after) =>
      .ok (⟨opening, entries, closing⟩, after)

/- The entries of brackets take the token that closes them. -/
theorem length_readEntries_lt
    {fin t : Token}
    {ts rest : List Token}
    {entries : List BracketEntry}
    (h : readEntries fin ts = .ok (entries, t, rest)) :
    rest.length < ts.length := by
  induction ts using readEntries.induct fin generalizing
    entries with
  | case1 => simp [readEntries] at h
  | case2 u us hu =>
    rw [readEntries, if_pos hu] at h
    cases h
    simp
  | case3 u us hu e he =>
    rw [readEntries, if_neg hu, he] at h
    cases h
  | case4 u us hu entry after he ih =>
    rw [readEntries, if_neg hu, he] at h
    rcases Stop.prepend_eq_ok h with ⟨others, hOthers, rfl⟩
    have h1 := ih hOthers
    have h2 := length_readEntry_le he
    simp only [List.length_cons]
    omega

/- A group of brackets takes the token that closes it. -/
theorem length_readGroup_lt
    {fin opening : Token}
    {ts rest : List Token}
    {g : BracketGroup}
    (h : readGroup fin opening ts = .ok (g, rest)) :
    rest.length < ts.length := by
  unfold readGroup at h
  cases hEntries : readEntries fin ts with
  | error s =>
      rw [hEntries] at h
      cases h
  | ok step =>
      rw [hEntries] at h
      cases h
      exact length_readEntries_lt hEntries

end LyricScore
