import ModuleAtlas.Document.Reader.Value
import ModuleAtlas.Settings.Basic

/-!
# Written settings

Settings are written as a JSON record, or as a list of the values in their order. What is
not given keeps its default; keys that are not known are passed over.
-/

namespace ModuleAtlas.Settings

set_option autoImplicit false

open Document

inductive Key where
  | root | included | excluded | complexityThreshold | mixedThreshold | relatedMinimum
  | parseTimeout | maxFileSize | aliases
  deriving DecidableEq, Repr, Inhabited

namespace Key

def all : List Key :=
  [root, included, excluded, complexityThreshold, mixedThreshold, relatedMinimum, parseTimeout,
    maxFileSize, aliases]

def label : Key → String
  | root => "root"
  | included => "include"
  | excluded => "exclude"
  | complexityThreshold => "complexityThreshold"
  | mixedThreshold => "mixedLogicThreshold"
  | relatedMinimum => "relatedMinShared"
  | parseTimeout => "parseTimeoutMs"
  | maxFileSize => "maxFileBytes"
  | aliases => "aliases"

def ofLabel? (text : String) : Option Key := all.find? (·.label == text)

def read (s : Settings) : Key → Reader Settings
  | root => return { s with root := .ofString (← Reader.text) }
  | included => return { s with included := ← Reader.listOf Reader.text }
  | excluded => return { s with excluded := ← Reader.listOf Reader.text }
  | complexityThreshold => return { s with complexityThreshold := ← Reader.natural }
  | mixedThreshold => return { s with mixedThreshold := ← Reader.natural }
  | relatedMinimum => return { s with relatedMinimum := ← Reader.natural }
  | parseTimeout => return { s with parseTimeout := ← Reader.natural }
  | maxFileSize => return { s with maxFileSize := ← Reader.natural }
  | aliases => do
    let fields ← Reader.recordOf Reader.text
    return { s with aliases := fields.foldl (fun as f => insertAlias ⟨f.1, f.2⟩ as) [] }

end Key

/-- The fields of a record after its brace; `seen` are the keys so far. A key that comes twice is
refused. -/
def readFields : Nat → Bool → List Key → Settings → Reader Settings
  | 0, _, _, _ => throw .ended
  | fuel + 1, first, seen, s => do
    if ← Reader.hasField first then
      match Key.ofLabel? (← Reader.text) with
      | none =>
        Reader.expect ':'
        Reader.skip
        readFields fuel false seen s
      | some key =>
        if seen.contains key then throw .mistyped
        Reader.expect ':'
        let t ← key.read s
        readFields fuel false (key :: seen) t
    else
      Reader.drop
      return s

def readItems : List Key → Bool → Settings → Reader Settings
  | [], _, s => do
    Reader.expect ']'
    return s
  | key :: rest, first, s => do
    if ← Reader.hasItem first then
      let t ← key.read s
      readItems rest false t
    else
      Reader.drop
      return s

def reader : Reader Settings := do
  match ← Reader.peekSolid? with
  | some '\x7b' =>
    Reader.drop
    readFields ((← get).length + 1) true [] {}
  | some '[' =>
    Reader.drop
    readItems Key.all true {}
  | _ => Reader.refuse

def ofText (text : String) : Except Misread Settings := reader.run text

end ModuleAtlas.Settings
