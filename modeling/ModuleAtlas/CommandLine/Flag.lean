/-!
# Commands and their options
-/

namespace ModuleAtlas.CommandLine

set_option autoImplicit false

inductive Verb where
  | analyze | graph | cycles | path | related | version
  deriving DecidableEq, Repr, Inhabited

inductive Flag where
  | config | included | excluded | format | output
  | complexityThreshold | mixedThreshold | minShared
  | verbose | version | help
  deriving DecidableEq, Repr, Inhabited

namespace Flag

def long : Flag → String
  | config => "config"
  | included => "include"
  | excluded => "exclude"
  | format => "format"
  | output => "output"
  | complexityThreshold => "complexity-threshold"
  | mixedThreshold => "mixed-logic-threshold"
  | minShared => "min-shared"
  | verbose => "verbose"
  | version => "version"
  | help => "help"

def short? : Flag → Option Char
  | config => some 'c'
  | format => some 'f'
  | output => some 'o'
  | verbose => some 'v'
  | version => some 'V'
  | help => some 'h'
  | _ => none

def takesValue : Flag → Bool
  | verbose | version | help => false
  | _ => true

def repeats : Flag → Bool
  | included | excluded => true
  | _ => false

end Flag

namespace Verb

def all : List Verb := [analyze, graph, cycles, path, related, version]

def label : Verb → String
  | analyze => "analyze"
  | graph => "graph"
  | cycles => "cycles"
  | path => "path"
  | related => "related"
  | version => "version"

def ofLabel? (text : String) : Option Verb := all.find? (·.label == text)

def flags : Verb → List Flag
  | analyze =>
    [.config, .included, .excluded, .format, .output, .complexityThreshold, .mixedThreshold,
      .verbose, .help]
  | graph => [.config, .included, .excluded, .format, .output, .verbose, .help]
  | cycles | path => [.config, .included, .excluded, .verbose, .help]
  | related => [.config, .included, .excluded, .minShared, .verbose, .help]
  | version => [.verbose, .help]

def places : Verb → Nat
  | analyze | graph | cycles => 1
  | path => 3
  | related => 2
  | version => 0

end Verb

end ModuleAtlas.CommandLine
