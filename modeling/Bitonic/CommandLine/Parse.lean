import Bitonic.CommandLine.Options
/-!
# Reading argument lists

An option's values are collected until another option is met and only then looked at.  An argument
that no option can take is reported at once, whatever is wrong with the values collected before it.
-/

namespace Bitonic.CommandLine

inductive Invocation where
  | run (request : Request)
  | help
  | version
  deriving DecidableEq

/-- Why reading stops before the end of the list. -/
inductive Stop where
  | error (cause : UsageError)
  | help
  | version

structure ParseState where
  request : Request := {}
  /-- The options given so far, in the order of their first use. -/
  used : List Opt := []
  /-- The option that values are being collected for. -/
  pending : Option (Opt × List String) := none
  /-- Whether the next argument may be a value of that option. -/
  wantsValue : Bool := false
  /-- Whether a double dash was met, after which nothing is an option. -/
  escaped : Bool := false

namespace ParseState

def commit (state : ParseState) (option : Opt) (values : List String) : Except Stop ParseState := do
  if option.arity != .none && values.isEmpty then throw (.error (.missingValue option))
  if option == .help then throw .help
  if option == .version then throw .version
  if !option.repeats && state.used.contains option then throw (.error (.givenTwice option))
  let values := if option.arity == .none then [""] else values
  let request ← (values.foldlM (fun (r : Request) value => r.addValue option value)
    state.request).mapError Stop.error
  let used := if state.used.contains option then state.used else state.used ++ [option]
  return { state with request, used }

def settle (state : ParseState) : Except Stop ParseState :=
  match state.pending with
  | none => .ok { state with wantsValue := false }
  | some (option, values) =>
    { state with pending := none, wantsValue := false }.commit option values

/-- An option that comes with its value, or with no value to come. -/
def complete (state : ParseState) (option : Opt) (values : List String) :
    Except Stop ParseState := do
  (← state.settle).commit option values

/-- An option whose values are the arguments to come. -/
def await (state : ParseState) (option : Opt) : Except Stop ParseState := do
  return { (← state.settle) with pending := some (option, []), wantsValue := true }

/-- An argument of the form `--name` or `--name=value`. -/
def longOption (state : ParseState) (text : List Char) : Except Stop ParseState :=
  let name := String.ofList (text.takeWhile (· != '='))
  let value? := match text.dropWhile (· != '=') with
    | [] => none
    | _ :: value => some (String.ofList value)
  match Opt.ofLong? name, value? with
  | none, _ => .error (.error (.unexpectedArgument ("--" ++ name)))
  | some option, some value =>
    if option.arity == .none then .error (.error (.unexpectedValue value option))
    else state.complete option [value]
  | some option, none =>
    if option.arity == .none then state.complete option [] else state.await option

/-- The characters after a single dash: options without values, and possibly one with a value that
is attached or still to come. -/
def shortOptions (state : ParseState) : List Char → Except Stop ParseState
  | [] => .ok state
  | c :: rest =>
    match Opt.ofShort? c with
    | none => .error (.error (.unexpectedArgument (String.ofList ['-', c])))
    | some option =>
      if option.arity == .none then
        match state.complete option [] with
        | .ok state => shortOptions state rest
        | .error stop => .error stop
      else match rest with
        | [] => state.await option
        | '=' :: value => state.complete option [String.ofList value]
        | value => state.complete option [String.ofList value]

/-- An argument that is no option: a value, if one may follow. -/
def plain (state : ParseState) (argument : String) : Except Stop ParseState :=
  match state.pending with
  | some (option, values) =>
    if state.wantsValue && !state.escaped then
      .ok { state with
        pending := some (option, values ++ [argument])
        wantsValue := option.arity == .many }
    else .error (.error (.unexpectedArgument argument))
  | none => .error (.error (.unexpectedArgument argument))

def step (state : ParseState) (argument : String) : Except Stop ParseState :=
  if state.escaped then state.plain argument
  else match argument.toList with
    | ['-', '-'] => .ok { state with escaped := true }
    | '-' :: '-' :: text => state.longOption text
    | ['-'] => state.plain argument
    | '-' :: flags => state.shortOptions flags
    | _ => state.plain argument

/-- The request, unless two of the options exclude each other. -/
def finish (state : ParseState) : Except Stop Request := do
  let state ← state.settle
  match state.used.filter fun option => option == .all || option == .vectorIsa with
  | [option, other] => throw (.error (.conflict option other))
  | _ => return state.request

end ParseState

def parse (arguments : List String) : Except UsageError Invocation :=
  match arguments.foldlM ParseState.step {} >>= ParseState.finish with
  | .ok request => .ok (.run request)
  | .error .help => .ok .help
  | .error .version => .ok .version
  | .error (.error cause) => .error cause

end Bitonic.CommandLine
