import ModuleAtlas.Program.Basic

/-!
# Families of entities

Entities whose names start with the same capitalized word form a family. A family is split
when its members, those that are the bare word left out, live in several files.
-/

namespace ModuleAtlas

set_option autoImplicit false

structure SplitFamily where
  word : String
  /-- In the order in which they are first seen. -/
  entities : List String
  files : List Path
  deriving DecidableEq, Repr, Inhabited

/-- The capitalized word a name starts with: a capital, then small letters and digits. -/
def capitalizedWord? (name : String) : Option String :=
  match name.toList with
  | [] => none
  | c :: rest =>
    if Letter.isUpper c then
      some (String.ofList (c :: rest.takeWhile fun d => Letter.isLower d || d.isDigit))
    else none

namespace Program

def declarations (p : Program) : List (String × Path) :=
  p.files.flatMap fun f => f.entities.map fun e => (e.name, f.path)

def familyOf (names : List String) (word : String) : List String :=
  names.filter fun name => name != word && capitalizedWord? name == some word

def filesDeclaring (p : Program) (names : List String) : List Path :=
  (p.files.filter fun f => f.entities.any fun e => names.contains e.name).map SourceFile.path

/-- The families spread over several files, in order of their words' first occurrence. -/
def splitFamilies (p : Program) : List SplitFamily :=
  let names := Text.firstSeen (p.declarations.map Prod.fst)
  (Text.firstSeen (names.filterMap capitalizedWord?)).filterMap fun word =>
    let members := familyOf names word
    let files := p.filesDeclaring members
    if members.length < 2 || files.length < 2 then none else some ⟨word, members, files⟩

end Program

end ModuleAtlas
