import TargetLint.Command
import TargetLint.TimeOfDay

/-!
# Consulting the host

What depends on the outside world is a computation that asks its host questions:
about files, about the environment, about the clock and about the build tool.  The
computation itself is plain data, so it can be run against a host that is a
function, which also tells what was asked, and performed in any monad.
-/

namespace TargetLint

/-- How a process that was given the terminal came to its end. -/
inductive LaunchResult where
  | notStarted
  | exited (code : Int)
  | killed (signal : String)
deriving DecidableEq, Repr, Inhabited

/-- What a host can be asked; it runs a command and captures the output, or on the terminal. -/
inductive Question where
  | fileExists (path : Path)
  | isDirectory (path : Path)
  | readText (path : Path)
  | variable (name : String)
  | currentDirectory
  | homeDirectory
  | timeOfDay
  | capture (command : Command)
  | launch (command : Command)
deriving DecidableEq, Repr

namespace Question

/-- What an answer is: text, variables and a home directory are absent where there is none. -/
abbrev Answer : Question → Type
  | fileExists _ => Bool
  | isDirectory _ => Bool
  | readText _ => Option String
  | .variable _ => Option String
  | currentDirectory => Path
  | homeDirectory => Option Path
  | timeOfDay => TimeOfDay
  | capture _ => RunReply
  | launch _ => LaunchResult

/-- The command that a question asks to run and capture. -/
def command? : Question → Option Command
  | capture command => some command
  | _ => none

/-- The question is about the existence or the kind of a file. -/
def isProbe : Question → Bool
  | fileExists _ => true
  | isDirectory _ => true
  | _ => false

end Question

/-- A host that answers every question. -/
abbrev Host :=
  (question : Question) → question.Answer

/-- A computation that may ask questions on its way to a value. -/
inductive Consult (α : Type) where
  | done (value : α)
  | ask (question : Question) (next : question.Answer → Consult α)

namespace Consult

variable {α β : Type}

/-- Go on with the value of a computation. -/
def bind : Consult α → (α → Consult β) → Consult β
  | done value, next => next value
  | ask question rest, next => ask question fun answer => bind (rest answer) next

instance : Monad Consult where
  pure := done
  bind := bind

/-- Ask one question. -/
def question (q : Question) : Consult q.Answer :=
  ask q done

/-- The value that a computation reaches with a host. -/
def value (host : Host) : Consult α → α
  | done result => result
  | ask question next => value host (next (host question))

/-- The questions that a computation asks a host, in their order. -/
def asked (host : Host) : Consult α → List Question
  | done _ => []
  | ask question next => question :: asked host (next (host question))

/-- Perform a computation, given a way to answer questions. -/
def perform
    {m : Type → Type}
    [Monad m]
    (answer : (question : Question) → m question.Answer) :
    Consult α → m α
  | done result => pure result
  | ask question next => do perform answer (next (← answer question))

/-- The members of a list that pass a test which may ask questions. -/
def filter (test : α → Consult Bool) : List α → Consult (List α)
  | [] => pure []
  | item :: rest => do
      let passes ← test item
      let others ← filter test rest
      return if passes then item :: others else others

/-- The first member of a list that passes a test; the rest is not tested. -/
def first? (test : α → Consult Bool) : List α → Consult (Option α)
  | [] => pure none
  | item :: rest => do
      if ← test item then
        return some item
      else
        first? test rest

@[simp] theorem value_pure
    (host : Host)
    (result : α) :
    (pure result : Consult α).value host = result :=
  rfl

@[simp] theorem value_bind
    (host : Host)
    (computation : Consult α)
    (next : α → Consult β) :
    (computation >>= next).value host = (next (computation.value host)).value host := by
  induction computation with
  | done result => rfl
  | ask question rest ih => exact ih (host question)

@[simp] theorem value_question
    (host : Host)
    (q : Question) :
    (question q).value host = host q :=
  rfl

@[simp] theorem asked_pure
    (host : Host)
    (result : α) :
    (pure result : Consult α).asked host = [] :=
  rfl

@[simp] theorem asked_bind
    (host : Host)
    (computation : Consult α)
    (next : α → Consult β) :
    (computation >>= next).asked host =
      computation.asked host ++ (next (computation.value host)).asked host := by
  induction computation with
  | done result => rfl
  | ask question rest ih => exact congrArg (question :: ·) (ih (host question))

@[simp] theorem asked_question
    (host : Host)
    (q : Question) :
    (question q).asked host = [q] :=
  rfl

/-- Testing with a host's answers keeps what the host says yes to. -/
theorem value_filter
    (host : Host)
    (test : α → Consult Bool)
    (items : List α) :
    (filter test items).value host = items.filter fun item => (test item).value host := by
  induction items with
  | nil => rfl
  | cons item rest ih =>
      simp only [filter, value_bind, value_pure, ih, List.filter_cons]

/-- The first member that the host says yes to. -/
theorem value_first?
    (host : Host)
    (test : α → Consult Bool)
    (items : List α) :
    (first? test items).value host = items.find? fun item => (test item).value host := by
  induction items with
  | nil => rfl
  | cons item rest ih =>
      simp only [first?, value_bind, List.find?_cons]
      cases (test item).value host with
      | false => simpa using ih
      | true => rfl

end Consult
end TargetLint
