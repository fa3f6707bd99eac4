import TargetLint.Path.Basic
import TargetLint.Text.Affix

/-!
# Command-line arguments

Global options may stand before and after the command's name; within each of the
two places an option is given at most once, and the later place wins.  Words are
taken from left to right, and the first that is out of place, or that asks for help
or the version, decides.  After `--` every word is a file.
-/

namespace TargetLint
namespace CommandLine

/-- What is to be done for a file; the command that runs it is printed or executed. -/
inductive Action where
  | lint
  | run (execute : Bool)
  | targets
  | root
  | status
deriving DecidableEq, Repr

/-- The options of every command. -/
structure Options where
  verbose : Bool
  config : Option Path
  program : Option String
deriving DecidableEq, Repr

/-- No option is given. -/
def Options.none : Options :=
  ⟨false, Option.none, Option.none⟩

/-- Options with others in their place where those are given. -/
def Options.override (outer inner : Options) : Options :=
  { verbose := outer.verbose || inner.verbose
    config := inner.config.or outer.config
    program := inner.program.or outer.program }

/-- What the arguments ask for. -/
inductive Request where
  | perform (options : Options) (action : Action) (file : Path)
  | help
  | version
  | usage
deriving DecidableEq, Repr

/-- A word of the command line by its form; an escape is two dashes alone. -/
inductive Word where
  | escape
  | long (name : String) (value : Option String)
  | short (letters : List Char)
  | plain (text : String)
deriving DecidableEq, Repr

/-- The form of a word; a dash alone is plain. -/
def Word.ofText (text : String) : Word :=
  match text.toList with
  | ['-', '-'] => .escape
  | '-' :: '-' :: rest =>
      let name := String.ofList (rest.takeWhile (· ≠ '='))
      match rest.dropWhile (· ≠ '=') with
      | _ :: value => .long name (some (String.ofList value))
      | [] => .long name none
  | ['-'] => .plain text
  | '-' :: letters => .short letters
  | _ => .plain text

/-- What a word does to options that are being collected; a value for one may have to follow. -/
inductive Effect where
  | options (options : Options)
  | needsValue (name : String)
  | decided (request : Request)
  | unknown

/-- Give an option with a value; an empty file name and a second value are not usable. -/
def setValue (options : Options) (name value : String) : Effect :=
  match name with
  | "config" =>
      if options.config.isSome || value = "" then .decided .usage
      else .options { options with config := some ⟨value⟩ }
  | "cargo" =>
      if options.program.isSome then .decided .usage
      else .options { options with program := some value }
  | _ => .unknown

/-- Switch on verbose logging, which can be done once. -/
def setVerbose (options : Options) : Effect :=
  if options.verbose then .decided .usage else .options { options with verbose := true }

/-- The effect of a long option. -/
def longEffect (options : Options) (name : String) (value : Option String) : Effect :=
  match name, value with
  | "help", none => .decided .help
  | "verbose", none => setVerbose options
  | "help", some _ => .decided .usage
  | "verbose", some _ => .decided .usage
  | _, some text => setValue options name text
  | "config", none => .needsValue name
  | "cargo", none => .needsValue name
  | _, none => .unknown

/-- The effect of letters after one dash; the version is known only where `knowsVersion`. -/
def shortEffect (knowsVersion : Bool) : Options → List Char → Effect
  | options, [] => .options options
  | options, letter :: rest =>
      if letter = 'h' then
        .decided .help
      else if letter = 'V' ∧ knowsVersion then
        .decided .version
      else if letter = 'v' then
        match setVerbose options with
        | .options next => shortEffect knowsVersion next rest
        | other => other
      else
        .decided .usage

/-- The names of the commands with what they do. -/
def actions : List (String × Action) :=
  [("lint", .lint), ("run", .run false), ("targets", .targets), ("root", .root),
   ("status", .status)]

/-- What is known while the words after a command's name are read. -/
structure Progress where
  options : Options
  action : Action
  file : Option Path
deriving DecidableEq, Repr

/-- The progress with a file, which is given once and not empty. -/
def Progress.withFile? (progress : Progress) (text : String) : Option Progress :=
  if progress.file.isSome || text = "" then none else some { progress with file := some ⟨text⟩ }

/-- The request when the words end. -/
def Progress.finish (outer : Options) (progress : Progress) : Request :=
  match progress.file with
  | some file => .perform (outer.override progress.options) progress.action file
  | none => .usage

/-- The request of the words after `--`, which are files. -/
def requestOfFiles (outer : Options) : Progress → List String → Request
  | progress, [] => progress.finish outer
  | progress, text :: rest =>
      match progress.withFile? text with
      | some next => requestOfFiles outer next rest
      | none => .usage

/-- The request of the words after a command's name. -/
def requestOfAction (outer : Options) : Progress → List String → Request
  | progress, [] => progress.finish outer
  | progress, text :: rest =>
      match Word.ofText text with
      | .escape => requestOfFiles outer progress rest
      | .plain _ =>
          match progress.withFile? text with
          | some next => requestOfAction outer next rest
          | none => .usage
      | .short letters =>
          match shortEffect false progress.options letters with
          | .options options => requestOfAction outer { progress with options := options } rest
          | .decided request => request
          | _ => .usage
      | .long name value =>
          if name = "exec" ∧ value = none ∧ progress.action = .run false then
            requestOfAction outer { progress with action := .run true } rest
          else
            match longEffect progress.options name value with
            | .options options => requestOfAction outer { progress with options := options } rest
            | .decided request => request
            | .unknown => .usage
            | .needsValue option =>
                match rest with
                | [] => .usage
                | next :: others =>
                    match Word.ofText next with
                    | .plain given =>
                        match setValue progress.options option given with
                        | .options options =>
                            requestOfAction outer { progress with options := options } others
                        | _ => .usage
                    | _ => .usage

/-- The request of the words after `help`: at most one, the name of a command. -/
def requestOfHelp : List String → Request
  | [] => .help
  | [name] => if name = "help" ∨ (actions.lookup name).isSome then .help else .usage
  | _ => .usage

/-- The request of a list of words. -/
def requestOf : Options → List String → Request
  | _, [] => .usage
  | options, text :: rest =>
      match Word.ofText text with
      | .escape => .usage
      | .plain name =>
          match actions.lookup name with
          | some action => requestOfAction options ⟨.none, action, none⟩ rest
          | none => if name = "help" then requestOfHelp rest else .usage
      | .short letters =>
          match shortEffect true options letters with
          | .options next => requestOf next rest
          | .decided request => request
          | _ => .usage
      | .long "version" none => .version
      | .long name value =>
          match longEffect options name value with
          | .options next => requestOf next rest
          | .decided request => request
          | .unknown => .usage
          | .needsValue option =>
              match rest with
              | [] => .usage
              | next :: others =>
                  match Word.ofText next with
                  | .plain given =>
                      match setValue options option given with
                      | .options merged => requestOf merged others
                      | _ => .usage
                  | _ => .usage

/-- What a command line asks for. -/
def Request.ofArguments (arguments : List String) : Request :=
  requestOf .none arguments

end CommandLine
end TargetLint
