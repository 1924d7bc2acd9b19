import MarkupIds.Config.Document
import MarkupIds.Config.Settings

/-!
# Settings files

A settings file holds one document, a mapping. A missing file and an empty document give the
defaults. The reader of documents may be any; one is bundled.
-/

namespace MarkupIds.Config

/-- Line ends of every form as line feeds. -/
def unifyLineEnds : Text → Text
  | [] => []
  | '\r' :: '\n' :: t => '\n' :: unifyLineEnds t
  | '\r' :: t => '\n' :: unifyLineEnds t
  | c :: t => c :: unifyLineEnds t

/-- The kinds of keys that have an order among themselves. -/
inductive KeyOrder where
  | text
  | number
  | date
  | none
deriving DecidableEq

def Value.keyOrder : Value → KeyOrder
  | .text _ => .text
  | .bool _ | .int _ | .float _ => .number
  | .date _ _ _ => .date
  | _ => .none

/-- Keys can be put in order if they are all of one ordered kind; a single key always can. -/
def areOrdered : List Value → Bool
  | [] | [_] => true
  | k :: keys => k.keyOrder != .none && keys.all (·.keyOrder == k.keyOrder)

def SettingsError.ofDocument : DocumentError → SettingsError
  | .malformed => .malformedFile
  | .noNumber t | .noDay t => .noNumeral t
  | .noTruthValue t => .missingKey (String.ofList t)

/-- Settings from the file at a path, of which the text is given if there is one. The reader makes
a value of the document. -/
def Settings.ofFile (path : Text) (file : Option Text)
    (load : Text → Except DocumentError Value := Value.ofDocument) :
    Except SettingsError (Settings × List Notice) :=
  match file with
  | none => .ok ({}, [.missingFile path])
  | some t =>
    match load (unifyLineEnds t) with
    | .error e => .error (.ofDocument e)
    | .ok v =>
      if !v.isFilled then .ok ({}, [])
      else match v with
        | .mapping entries =>
          if areOrdered (entries.map (·.1)) then ofValue v else .error .unorderedKeys
        | _ => .error (.fileWithoutMapping path)

end MarkupIds.Config
