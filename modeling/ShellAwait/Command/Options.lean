/-! # Options of the command line

`FILE` names the script, and `-` stands for the standard input. Every option but the verbosity may be given
once. After `--` every argument is a file.
-/

namespace ShellAwait.Command

structure Options where
  file : String
  registry : Option String := none
  json : Bool := false
  noColor : Bool := false
  dumpSymbols : Bool := false
  verbosity : Nat := 0
deriving DecidableEq, Repr

inductive Invocation where
  | run (options : Options)
  | version
  | help
  | misused
deriving DecidableEq, Repr

/-- Options without the file, which may come last. -/
structure Draft where
  file : Option String := none
  registry : Option String := none
  json : Bool := false
  noColor : Bool := false
  dumpSymbols : Bool := false
  verbosity : Nat := 0

namespace Draft

def finish (draft : Draft) : Invocation :=
  match draft.file with
  | none => .misused
  | some file =>
      .run ⟨file, draft.registry, draft.json, draft.noColor, draft.dumpSymbols, draft.verbosity⟩

def withFile? (draft : Draft) (file : String) : Option Draft :=
  if draft.file.isSome || file.isEmpty then none else some { draft with file := some file }

def withRegistry? (draft : Draft) (path : String) : Option Draft :=
  if draft.registry.isSome || path.isEmpty then none else some { draft with registry := some path }

def withFlag? (draft : Draft) (name : String) : Option Draft :=
  match name with
  | "--json" => if draft.json then none else some { draft with json := true }
  | "--no-color" => if draft.noColor then none else some { draft with noColor := true }
  | "--dump-symbols" => if draft.dumpSymbols then none else some { draft with dumpSymbols := true }
  | "--verbose" => some { draft with verbosity := draft.verbosity + 1 }
  | _ => none

end Draft

inductive Shorts where
  | counted (verbosity : Nat)
  | ends (invocation : Invocation)

def readShorts (verbosity : Nat) : List Char → Shorts
  | [] => .counted verbosity
  | 'v' :: rest => readShorts (verbosity + 1) rest
  | 'V' :: _ => .ends .version
  | 'h' :: _ => .ends .help
  | _ => .ends .misused

def readFiles (draft : Draft) : List String → Invocation
  | [] => draft.finish
  | file :: rest =>
      match draft.withFile? file with
      | some draft => readFiles draft rest
      | none => .misused

def looksLikeOption (argument : String) : Bool :=
  match argument.toList with
  | '-' :: _ :: _ => true
  | _ => false

def valueOf? (name argument : String) : Option String :=
  let start := name.toList ++ ['=']
  if start.isPrefixOf argument.toList then some (String.ofList (argument.toList.drop start.length))
  else none

def readArguments (draft : Draft) : List String → Invocation
  | [] => draft.finish
  | "--" :: rest => readFiles draft rest
  | "--version" :: _ => .version
  | "--help" :: _ => .help
  | "--registry" :: rest =>
      match rest with
      | [] => .misused
      | path :: rest =>
          match if looksLikeOption path then none else draft.withRegistry? path with
          | some draft => readArguments draft rest
          | none => .misused
  | argument :: rest =>
      match argument.toList with
      | '-' :: '-' :: _ =>
          let next := match valueOf? "--registry" argument with
            | some path => draft.withRegistry? path
            | none => draft.withFlag? argument
          match next with
          | some draft => readArguments draft rest
          | none => .misused
      | '-' :: c :: cs =>
          match readShorts draft.verbosity (c :: cs) with
          | .counted verbosity => readArguments { draft with verbosity } rest
          | .ends invocation => invocation
      | _ =>
          match draft.withFile? argument with
          | some draft => readArguments draft rest
          | none => .misused

def Invocation.ofArguments (arguments : List String) : Invocation := readArguments {} arguments

end ShellAwait.Command
