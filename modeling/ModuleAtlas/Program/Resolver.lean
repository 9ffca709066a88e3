import ModuleAtlas.Language
import ModuleAtlas.Path.Basic

/-!
# Resolving module names

A module name points into the program when it is relative, starts at the root, or starts
with an alias. It stands for the first of its candidates that is a file: the path itself,
the path with an extension, its typed counterpart, or an index file in it.
-/

namespace ModuleAtlas

set_option autoImplicit false

structure Alias where
  start : String
  target : String
  deriving DecidableEq, Repr, Inhabited

structure Resolver where
  root : Path
  /-- The files of the program, in path order. -/
  files : List Path
  aliases : List Alias

namespace Resolver

def isRelative (name : String) : Bool :=
  Text.startsWith "./" name || Text.startsWith "../" name || name == "." || name == ".."

def unslashed (text : String) : String := Text.trimStart (· == '/') text

/-- The longer of two aliases, the second when they are equally long. -/
def longer (best : Option Alias) (a : Alias) : Option Alias :=
  match best with
  | none => some a
  | some b => if b.start.utf8ByteSize ≤ a.start.utf8ByteSize then some a else some b

def alias? (aliases : List Alias) (name : String) : Option Alias :=
  (aliases.filter fun a => Text.startsWith a.start name).foldl longer none

def base? (r : Resolver) (importer : Path) (name : String) : Option Path :=
  if isRelative name then
    importer.parent?.map fun dir => (dir.join (.ofString name)).normalize
  else
    match Text.after? "/" name with
    | some rest => some (r.root.join (.ofString rest)).normalize
    | none =>
      (alias? r.aliases name).map fun a =>
        let rest := unslashed ((Text.after? a.start name).getD "")
        ((r.root.join (.ofString (unslashed a.target))).join (.ofString rest)).normalize

def typedExtensions : String → List String
  | "js" => ["ts", "tsx"]
  | "jsx" => ["tsx"]
  | "mjs" => ["mts"]
  | "cjs" => ["cts"]
  | _ => []

/-- The paths tried for a base path, in order. An extension is added to the path as it is shown. -/
def candidates (base : Path) : List Path :=
  base :: Language.extensions.map (fun ext => .ofString (base.text ++ "." ++ ext))
    ++ (typedExtensions (base.extensionText?.getD "")).map base.withExtension
    ++ Language.extensions.map (fun ext => base.join (.ofString ("index." ++ ext)))

def member? (files : List Path) (p : Path) : Option Path := files.find? (·.same p)

def resolve (r : Resolver) (importer : Path) (name : String) : Option Path :=
  (r.base? importer name).bind fun base => (candidates base).findSome? (member? r.files)

end Resolver

end ModuleAtlas
