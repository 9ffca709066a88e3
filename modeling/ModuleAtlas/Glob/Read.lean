import ModuleAtlas.Glob.Basic

/-!
# Reading globs
-/

namespace ModuleAtlas.Glob

set_option autoImplicit false

/-- A group that is being read: its finished branches and the pieces of the current one, both
last first. -/
structure Draft where
  branches : List (List Piece)
  current : List Piece

namespace Draft

def empty : Draft := ⟨[], []⟩

def push (d : Draft) (p : Piece) : Draft := { d with current := p :: d.current }

def nextBranch (d : Draft) : Draft := ⟨d.current.reverse :: d.branches, []⟩

def close (d : Draft) : List (List Piece) := d.nextBranch.branches.reverse

/-- Put a piece in the place of the last one, unless that already stands for any directories. -/
def absorb (d : Draft) (p : Piece) : Draft :=
  match d.current with
  | .leading :: _ => d
  | .trailing :: _ => d
  | _ :: rest => { d with current := p :: rest }
  | [] => { d with current := [p] }

end Draft

def widen (last : Char) : List (Char × Char) → Except Defect (List (Char × Char))
  | [] => .ok [(last, last)]
  | (first, _) :: rest =>
    if last < first then .error (.badRange first last) else .ok ((first, last) :: rest)

/-- The rest of a character class. The ranges are kept last first; `awaiting` says that a hyphen after
the newest range is waiting for its last character. -/
def readClass (first awaiting : Bool) (ranges : List (Char × Char)) :
    List Char → Except Defect (List (Char × Char) × List Char)
  | [] => .error .unclosedClass
  | c :: rest =>
    if c == ']' && !first then
      .ok ((if awaiting then ('-', '-') :: ranges else ranges).reverse, rest)
    else if c == '-' && !first && !awaiting then readClass false true ranges rest
    else if awaiting then do
      readClass false false (← widen c ranges) rest
    else readClass false false ((c, c) :: ranges) rest

def readStars (d : Draft) (grouped : Bool) (before : Option Char) (rest : List Char) :
    Draft × List Char :=
  let plain := (d.push .star).push .star
  match d.current, rest with
  | [], [] => (d.push .leading, [])
  | [], '/' :: rest => (d.push .leading, rest)
  | [], rest => (plain, rest)
  | _ :: _, rest =>
    let opens := before == some '/'
      || (grouped && (before == some ',' || before == some '\x7b'))
    if !opens then (plain, rest)
    else match rest with
      | [] => (d.absorb .trailing, [])
      | '/' :: rest => (d.absorb .between, rest)
      | c :: _ =>
        if grouped && (c == ',' || c == '\x7d') then (d.absorb .trailing, rest)
        else (plain, rest)

def readFrom : Nat → List Draft → Draft → Option Char → List Char → Except Defect (List Piece)
  | 0, _, _, _, _ => .ok []
  | _ + 1, [], d, _, [] => .ok d.current.reverse
  | _ + 1, _ :: _, _, _, [] => .error .unclosedGroup
  | fuel + 1, outer, d, before, c :: rest =>
    if c == '?' then readFrom fuel outer (d.push .any) (some c) rest
    else if c == '*' then
      match rest with
      | '*' :: rest =>
        let (e, after) := readStars d (!outer.isEmpty) before rest
        let last := if after.length < rest.length then '/' else '*'
        readFrom fuel outer e (some last) after
      | _ => readFrom fuel outer (d.push .star) (some c) rest
    else if c == '[' then
      let (negated, body) := match rest with
        | '!' :: body => (true, body)
        | '^' :: body => (true, body)
        | body => (false, body)
      match readClass true false [] body with
      | .ok (ranges, rest) => readFrom fuel outer (d.push (.oneOf negated ranges)) (some ']') rest
      | .error e => .error e
    else if c == '\x7b' then readFrom fuel (d :: outer) .empty (some c) rest
    else if c == '\x7d' then
      match outer with
      | [] => .error .unopenedGroup
      | e :: outer => readFrom fuel outer (e.push (.choice d.close)) (some c) rest
    else if c == ',' && !outer.isEmpty then readFrom fuel outer d.nextBranch (some c) rest
    else if c == '\\' then
      match rest with
      | [] => .error .danglingEscape
      | e :: rest => readFrom fuel outer (d.push (.literal e)) (some e) rest
    else readFrom fuel outer (d.push (.literal c)) (some c) rest

def read (text : String) : Except Defect Glob :=
  let chars := text.toList
  (readFrom (chars.length + 1) [] .empty none chars).map Glob.mk

end ModuleAtlas.Glob
