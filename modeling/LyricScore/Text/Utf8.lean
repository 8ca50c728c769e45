import LyricScore.Text.LineBreak

/-
  This file defines how the bytes of a text file are read.
  They are UTF-8, and every line end becomes a line feed.

  Key definitions include:
    * `Utf8.encode`
    * `Utf8.decode?`
    * `Utf8.readFile?`
-/

namespace LyricScore

namespace Utf8

------------------------------------------------------------
-- Bytes and text
------------------------------------------------------------

/- The bytes of a text. -/
def encode
    (text : String) : List UInt8 :=
  text.toUTF8.data.toList

/- The text that bytes are of, if they are of any. -/
def decode?
    (bytes : List UInt8) : Option String :=
  String.fromUTF8? ⟨bytes.toArray⟩

/-
  The text of a text file, with line
  feeds for its line ends.
-/
def readFile?
    (bytes : List UInt8) : Option String :=
  (decode? bytes).map fun text =>
    String.ofList (LineBreak.universal text.toList)

end Utf8

end LyricScore
