/-
  This file defines data: values without a fixed form, such
  as settings and scores that were written by hand.

  Key definitions include:
    * `Data`
    * `Data.lookup`
    * `Data.insert`
-/

namespace LyricScore

/-
  A value of any form.  No key of a mapping stands
  twice in it.  A value that is none of these,
  such as a date, is `other`.
-/
inductive Data where
  | null
  | bool (value : Bool)
  | integer (value : Int)
  | real (value : Float)
  | text (value : String)
  | list (items : List Data)
  | mapping (entries : List (String × Data))
  | other
deriving Repr, Inhabited

namespace Data

/- The entry of a key. -/
def lookup
    (key : String)
    (entries : List (String × Data)) : Option Data :=
  (entries.find? fun e => e.1 == key).map Prod.snd

/-
  The entries with one more, which takes the place of an
  earlier one of the same key.
-/
def insert
    (key : String)
    (value : Data)
    (entries : List (String × Data)) : List (String × Data) :=
  if entries.any fun e => e.1 == key then
    entries.map fun e =>
      if e.1 == key then (key, value) else e
  else entries ++ [(key, value)]

end Data

end LyricScore
