/-!
# Arguments

The command line names an action, a selector, given as an expression or by the file that holds it,
and the options of the action. An option is written `--key=value` or `--key value`; `-e` is short
for `--expr`. No option may be given twice, and each action has its own.
-/

namespace Highlight.Command

/-- Where the selector comes from. -/
inductive Source
  | expression (text : String)
  | file (path : String)
deriving DecidableEq

inductive Action
  /-- Shows the outline of the selector. -/
  | outline
  /-- Writes the selector out, or shows, as a diff, how this differs from its text. -/
  | dump (diff : Bool)
  /-- Checks that what is written out is read as the same selector again. -/
  | check
  /-- Tries the selector on a context. -/
  | select (scope : String) (left : Option String)
deriving DecidableEq

structure Request where
  source : Source
  action : Action
deriving DecidableEq

/-- An option that has a value. -/
inductive Key
  | expr
  | scope
  | left
deriving DecidableEq

/-- The arguments behind the name of an action, each of them given at most once. -/
structure Arguments where
  expr : Option String
  scope : Option String
  left : Option String
  file : Option String
  diff : Bool

namespace Arguments

def empty : Arguments := ⟨none, none, none, none, false⟩

/-- A value for an argument that has not been given yet. -/
def once (old : Option String) (value : String) : Option (Option String) :=
  if old.isSome then none else some (some value)

def set (a : Arguments) (key : Key) (value : String) : Option Arguments :=
  match key with
  | .expr => (once a.expr value).map fun expr => { a with expr }
  | .scope => (once a.scope value).map fun scope => { a with scope }
  | .left => (once a.left value).map fun left => { a with left }

/-- What a single argument is. -/
inductive Word
  | diff
  | option (key : Key) (value : Option String)
  | plain (text : String)
  | unknown

def Word.ofString (arg : String) : Word :=
  let cs := arg.toList
  let key := String.ofList (cs.takeWhile (· != '='))
  let value :=
    match cs.dropWhile (· != '=') with
    | [] => none
    | _ :: value => some (String.ofList value)
  if arg = "--diff" then .diff
  else if key = "--expr" ∨ key = "-e" then .option .expr value
  else if key = "--scope" then .option .scope value
  else if key = "--left" then .option .left value
  else if cs.head? = some '-' then .unknown
  else .plain arg

/-- Reads arguments, where `pending` is an option that waits for its value. -/
def read (a : Arguments) (pending : Option Key) : List String → Option Arguments
  | [] => if pending.isSome then none else some a
  | arg :: args =>
      match pending, Word.ofString arg with
      | some key, .plain value => (a.set key value).bind fun a => read a none args
      | some _, _ => none
      | none, .diff => if a.diff then none else read { a with diff := true } none args
      | none, .option key (some value) => (a.set key value).bind fun a => read a none args
      | none, .option key none => read a (some key) args
      | none, .plain path =>
          (once a.file path).bind fun file => read { a with file } none args
      | none, .unknown => none

/-- The one place that the selector comes from. -/
def source (a : Arguments) : Option Source :=
  match a.expr, a.file with
  | some text, none => some (.expression text)
  | none, some path => some (.file path)
  | _, _ => none

/-- The action of a name, if it has the options that are given. -/
def action (a : Arguments) (name : String) : Option Action :=
  let onContext := a.scope.isSome || a.left.isSome
  if name = "ast" ∧ !a.diff ∧ !onContext then some .outline
  else if name = "ouroboros" ∧ !onContext then some (.dump a.diff)
  else if name = "check-idempotence" ∧ !a.diff ∧ !onContext then some .check
  else if name = "match" ∧ !a.diff then a.scope.map fun scope => .select scope a.left
  else none

end Arguments

/-- The request that a command line makes, if it makes any. -/
def Request.ofArguments : List String → Option Request
  | [] => none
  | name :: args => do
      let a ← Arguments.empty.read none args
      return ⟨← a.source, ← a.action name⟩

end Highlight.Command
