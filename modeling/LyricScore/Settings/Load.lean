import LyricScore.Settings.Check

/-
  This file defines how a settings file becomes settings.  It
  does not say how such a file is written: that is for its
  format, which reads data from the bytes of a file and takes
  them for values.

  Key definitions include:
    * `ReadFault`
    * `SettingsFormat`
    * `LoadError`
    * `Settings.ofContent`
    * `Settings.load`
    * `ConfigError.message`
-/

namespace LyricScore

------------------------------------------------------------
-- Formats
------------------------------------------------------------

/-
  Why no data are read from a file: it is malformed, its bytes
  are no text, or its reader broke off.
-/
inductive ReadFault where
  | malformed
  | notText
  | broken
deriving DecidableEq, Repr

/-
  How settings are written in files: the data that the bytes
  of a file hold, if any, and what numbers and texts data are
  taken for.  Nothing is assumed of either.
-/
structure SettingsFormat extends Coercion where
  read : List UInt8 → Except ReadFault Data

------------------------------------------------------------
-- Loading
------------------------------------------------------------

/-
  Why a file gives no settings: they are not accepted, its
  bytes are no text, or its reader broke off.
-/
inductive LoadError where
  | rejected (error : ConfigError)
  | notText
  | broken
deriving DecidableEq, Repr

/- What is wrong with a file from which no data are read. -/
def ReadFault.toLoadError : ReadFault → LoadError
  | malformed => .rejected .unreadable
  | notText => .notText
  | broken => .broken

namespace Settings

/-
  The settings that the data of a file give.  The defaults
  hold where there is nothing in it.
-/
def ofContent
    (k : Coercion) : Data → Except ConfigError Settings
  | .null => .ok {}
  | .mapping entries => ofData k (.mapping entries)
  | _ => .error .notAMapping

/-
  The settings of a file with the bytes in it.  The defaults
  hold where there is no file.
-/
def load
    (format : SettingsFormat) :
    Option (List UInt8) → Except LoadError Settings
  | none => .ok {}
  | some bytes => do
    let content ←
      (format.read bytes).mapError ReadFault.toLoadError
    (ofContent format.toCoercion content).mapError .rejected

end Settings

namespace ConfigError

/- What is said of a settings file. -/
def message
    (path : String) : ConfigError → String
  | invalid complaints =>
    "Invalid settings:" ++
      String.join
        (complaints.map fun c =>
          " " ++ c.1 ++ " (" ++ c.2.code ++ ")")
  | notAMapping =>
    "Settings file " ++ path ++ " must contain a mapping"
  | unreadable => "Could not parse " ++ path

end ConfigError

end LyricScore
