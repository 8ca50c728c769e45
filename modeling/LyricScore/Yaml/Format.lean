import LyricScore.Settings.Load
import LyricScore.Text.Utf8
import LyricScore.Yaml.Block

/-
  This file defines the format of settings files that the
  program is run with: the plain part of YAML, with lax
  coercions.

  Key definitions include:
    * `Yaml.readBytes`
    * `Yaml.settings`
-/

namespace LyricScore

namespace Yaml

/- The data that the bytes of a file hold. -/
def readBytes
    (bytes : List UInt8) : Except ReadFault Data :=
  match Utf8.readFile? bytes with
  | none => .error .notText
  | some text =>
    match read text with
    | none => .error .malformed
    | some content => .ok content

/- Settings that are written in the plain part of YAML. -/
def settings : SettingsFormat where
  toCoercion := .lax
  read := readBytes

end Yaml

end LyricScore
