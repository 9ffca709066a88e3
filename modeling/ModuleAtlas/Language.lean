import ModuleAtlas.Path.Basic

/-!
# Languages

The language of a file is told by its extension, in any letter case. There are three grammars to
read sources with.
-/

namespace ModuleAtlas

set_option autoImplicit false

/-- Plain script with markup, typed script without markup, typed script with markup. -/
inductive Dialect where
  | script | typed | typedMarkup
  deriving DecidableEq, Repr, Inhabited

def Dialect.hasTypes : Dialect → Bool
  | .script => false
  | _ => true

inductive Language where
  | javaScript | typeScript | tsx | jsx
  deriving DecidableEq, Repr, Inhabited

namespace Language

/-- The extensions files may have, in the order in which they are tried. -/
def extensions : List String := ["ts", "tsx", "js", "jsx", "mjs", "cjs", "mts", "cts"]

def ofExtension? (ext : String) : Option Language :=
  match Text.lowerAscii ext with
  | "js" | "mjs" | "cjs" => some javaScript
  | "jsx" => some jsx
  | "ts" | "mts" | "cts" => some typeScript
  | "tsx" => some tsx
  | _ => none

def ofPath? (p : Path) : Option Language := p.extensionText?.bind ofExtension?

def dialect : Language → Dialect
  | javaScript | jsx => .script
  | typeScript => .typed
  | tsx => .typedMarkup

def label : Language → String
  | javaScript => "javaScript"
  | typeScript => "typeScript"
  | tsx => "tsx"
  | jsx => "jsx"

end Language

end ModuleAtlas
