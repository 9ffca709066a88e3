import ModuleAtlas.File.Finding
import ModuleAtlas.Program.Resolver

/-!
# Programs

A program is the set of the files that could be read, in path order, with a diagnostic for
each that could not. Of several sources with one path the last readable one counts.
-/

namespace ModuleAtlas

set_option autoImplicit false

structure Program where
  root : Path
  /-- In path order, one for each path. -/
  files : List SourceFile
  aliases : List Alias
  diagnostics : List Diagnostic
  deriving Inhabited

namespace Program

def sizeLimit : Nat := 2097152

/-- Put a file in its place; a file of the same path gives way. -/
def insertFile (f : SourceFile) : List SourceFile → List SourceFile
  | [] => [f]
  | g :: rest =>
    match Path.cmp f.path g.path with
    | .lt => f :: g :: rest
    | .eq => f :: rest
    | .gt => g :: insertFile f rest

def assemble (root : Path) (aliases : List Alias)
    (outcomes : List (Path × Except Fault SourceFile)) : Program :=
  { root, aliases
    files := outcomes.foldl (fun files o =>
      match o.2 with
      | .ok f => insertFile f files
      | .error _ => files) []
    diagnostics := outcomes.filterMap fun o =>
      match o.2 with
      | .ok _ => none
      | .error fault => some (.parseFailure o.1 fault) }

def readSource (limit : Nat) (path : Path) (source : Source) (clock : Clock := {}) :
    Except Fault SourceFile :=
  if limit < source.size then .error (.tooLarge path.text source.size limit)
  else SourceFile.parse path source clock

def ofSources (root : Path) (sources : List (Path × Source)) (aliases : List Alias) (clock : Clock := {}) :
    Program :=
  assemble root.normalize aliases (sources.map fun s =>
    let path := s.1.normalize
    (path, readSource sizeLimit path s.2 clock))

def paths (p : Program) : List Path := p.files.map SourceFile.path

def size (p : Program) : Nat := p.files.length

def file? (p : Program) (path : Path) : Option SourceFile :=
  p.files.find? (·.path.same path)

def resolver (p : Program) : Resolver := ⟨p.root, p.paths, p.aliases⟩

def resolve (p : Program) (importer : Path) (name : String) : Option Path :=
  p.resolver.resolve importer name

def display (p : Program) (path : Path) : String := Path.display p.root path

end Program

end ModuleAtlas
