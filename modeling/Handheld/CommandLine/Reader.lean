import Handheld.CommandLine.Options

/-!
# Reading the command line

Options have long names, and some a short one; a value follows as the next argument, after an equals
sign, or directly after the short name. A value that follows as an argument of its own is read only
when the next option or the end of the command line is reached, so an argument that does not exist
is reported before a value that is refused.
-/

namespace Handheld.CommandLine

/-- An option whose value is not read yet. -/
structure Pending where
  /-- The option. -/
  flag : Flag
  /-- Its value, if it has come. -/
  value : Option (List Char)
deriving DecidableEq, Repr

/-- What has been read of the command line. -/
structure Reader where
  /-- The values read so far. -/
  options : Options
  /-- The options given so far. -/
  given : List Flag
  /-- The option whose value is not read yet. -/
  pending : Option Pending
  /-- Only positions can follow. -/
  positionsOnly : Bool

namespace Reader

/-- Nothing has been read. -/
def initial : Reader := ⟨.initial, [], none, false⟩

/-- Carry out an option with its value. -/
def accept (r : Reader) (flag : Flag) (value : Option (List Char)) : Except UsageError Reader :=
  if flag = .help then .error .helpAsked
  else if flag = .version then .error .versionAsked
  else if flag.takesValue ∧ value.isNone then .error .invalidValue
  else if !flag.mayRepeat ∧ r.given.contains flag then .error .repeatedOption
  else if flag = .immediate then
    .ok { r with options := { r.options with immediate := true }, given := flag :: r.given }
  else do
    let options ← r.options.withValue flag (value.getD [])
    return { r with options, given := flag :: r.given }

/-- Carry out the option that waits for its value to be read. -/
def settle (r : Reader) : Except UsageError Reader :=
  match r.pending with
  | none => .ok r
  | some p => accept { r with pending := none } p.flag p.value

/-- An option with a value attached to it, or with none. -/
def option (r : Reader) (flag : Flag) (attached : Option (List Char)) :
    Except UsageError Reader := do
  let r ← r.settle
  -- The value, if any, is the next argument.
  if flag.takesValue ∧ attached.isNone then return { r with pending := some ⟨flag, none⟩ }
  r.accept flag attached

/-- An argument that starts with two dashes, without them. -/
def long (r : Reader) (text : List Char) : Except UsageError Reader :=
  let name := text.takeWhile (· ≠ '=')
  let attached := match text.dropWhile (· ≠ '=') with
    | [] => none
    | _ :: value => some value
  match Flag.ofLong? name with
  | none => .error .unknownArgument
  | some flag =>
    if !flag.takesValue ∧ attached.isSome then .error .valueOnSwitch else r.option flag attached

/-- An argument that starts with one dash, without it. -/
def short (r : Reader) (c : Char) (rest : List Char) : Except UsageError Reader :=
  match Flag.ofShort? c with
  | none => .error .unknownArgument
  | some flag =>
    r.option flag <|
      if !flag.takesValue ∨ rest.isEmpty then none
      else if rest.head? = some '=' then some rest.tail
      else some rest

/-- An argument that is no option: the value that an option waits for, or a position. -/
def plain (r : Reader) (text : List Char) : Except UsageError Reader :=
  match r.pending with
  | some ⟨flag, none⟩ => .ok { r with pending := some ⟨flag, some text⟩ }
  | _ => .error .unknownArgument

/-- Read one argument. -/
def argument (r : Reader) (text : List Char) : Except UsageError Reader :=
  if r.positionsOnly then .error .unknownArgument
  else
    match text with
    -- All that can follow two dashes is positions, of which there are none.
    | ['-', '-'] => .ok { r with positionsOnly := true }
    | '-' :: '-' :: rest => r.long rest
    | '-' :: c :: rest => r.short c rest
    | _ => r.plain text

end Reader

/-- The options that a command line asks for. -/
def read (args : List String) : Except UsageError Options := do
  let r ← args.foldlM (fun r a => r.argument a.toList) Reader.initial
  return (← r.settle).options

end Handheld.CommandLine
