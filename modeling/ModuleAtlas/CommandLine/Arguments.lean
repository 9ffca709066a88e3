import ModuleAtlas.CommandLine.Flag

/-!
# Arguments

A command comes first, with its options and paths in any order after it. Options with a
value take it from the same argument or from the next one, which must not look like an
option. After two hyphens everything is a path.
-/

namespace ModuleAtlas.CommandLine

set_option autoImplicit false

inductive Stop where
  | misuse
  | showVersion
  | showHelp
  deriving DecidableEq, Repr, Inhabited

structure Given where
  values : List (Flag × String) := []
  paths : List String := []

namespace Given

def add (g : Given) (flag : Flag) (value : String) : Except Stop Given :=
  if !flag.repeats && g.values.any (·.1 == flag) then .error .misuse
  else .ok { g with values := g.values ++ [(flag, value)] }

def addPath (g : Given) (most : Nat) (text : String) : Except Stop Given :=
  if text == "" || most ≤ g.paths.length then .error .misuse
  else .ok { g with paths := g.paths ++ [text] }

def value? (g : Given) (flag : Flag) : Option String :=
  (g.values.find? (·.1 == flag)).map Prod.snd

def valuesOf (g : Given) (flag : Flag) : List String :=
  (g.values.filter (·.1 == flag)).map Prod.snd

end Given

def looksLikeOption (text : String) : Bool :=
  match text.toList with
  | '-' :: _ :: _ => true
  | _ => false

/-- An option as written: one that is complete, one with its value, or one whose value has to follow. -/
inductive Written where
  | plain
  | valued (flag : Flag) (value : String)
  | awaiting (flag : Flag)

def plainFlag : Flag → Except Stop Written
  | .version => .error .showVersion
  | .help => .error .showHelp
  | _ => .ok .plain

def readLong (flags : List Flag) (text : List Char) : Except Stop Written :=
  let name := String.ofList (text.takeWhile (· != '='))
  let attached := text.dropWhile (· != '=')
  match flags.find? (·.long == name) with
  | none => .error .misuse
  | some flag =>
    match flag.takesValue, attached with
    | true, [] => .ok (.awaiting flag)
    | true, _ :: value => .ok (.valued flag (String.ofList value))
    | false, [] => plainFlag flag
    | false, _ => .error .misuse

/-- Read an argument after its one hyphen: options without value, up to one with a value. -/
def readShort (flags : List Flag) : List Char → Except Stop Written
  | [] => .ok .plain
  | c :: rest =>
    match flags.find? (·.short? == some c) with
    | none => .error .misuse
    | some flag =>
      if flag.takesValue then
        match rest with
        | [] => .ok (.awaiting flag)
        | '=' :: value => .ok (.valued flag (String.ofList value))
        | value => .ok (.valued flag (String.ofList value))
      else do
        let _ ← plainFlag flag
        readShort flags rest

def gather (verb : Verb) (escaped : Bool) (g : Given) (args : List String) : Except Stop Given :=
  match args with
  | [] => .ok g
  | arg :: rest =>
    if escaped then do gather verb true (← g.addPath verb.places arg) rest
    else if arg == "--" then gather verb true g rest
    else if !looksLikeOption arg then do gather verb false (← g.addPath verb.places arg) rest
    else do
      let written ← match arg.toList with
        | _ :: '-' :: name => readLong verb.flags name
        | _ :: letters => readShort verb.flags letters
        | [] => .ok .plain
      match written with
      | .plain => gather verb false g rest
      | .valued flag value => gather verb false (← g.add flag value) rest
      | .awaiting flag =>
        match rest with
        | [] => .error .misuse
        | value :: rest =>
          if looksLikeOption value then .error .misuse
          else gather verb false (← g.add flag value) rest
termination_by args.length

def splitVerb : List String → Except Stop (Option (Verb × List String))
  | [] => .ok none
  | arg :: rest =>
    if arg == "--" then if rest.isEmpty then .ok none else .error .misuse
    else if looksLikeOption arg then do
      let flags := [Flag.verbose, .version, .help]
      let _ ← match arg.toList with
        | _ :: '-' :: name => readLong flags name
        | _ :: letters => readShort flags letters
        | [] => .ok .plain
      splitVerb rest
    else if arg == "help" then .error .showHelp
    else
      match Verb.ofLabel? arg with
      | some verb => .ok (some (verb, rest))
      | none => .error .misuse

end ModuleAtlas.CommandLine
