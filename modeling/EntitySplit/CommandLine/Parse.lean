import EntitySplit.CommandLine.Arguments

namespace EntitySplit

namespace CommandLine

/-- Why a command line is not carried out. -/
inductive Stop where
  | unknownArgument
  | invalidValue
  | tooManyValues
  | argumentConflict
  | missingRequiredArgument
  | displayHelp
  | displayVersion
  deriving DecidableEq, Repr

/-- Help and the version are asked for; all else is a mistake. -/
def Stop.exitCode : Stop → Nat
  | displayHelp => 0
  | displayVersion => 0
  | _ => 2

/-- A command line read so far. A value that stands in an argument of its own
    is taken up only when the next choice or the end follows, so that an
    argument that is no choice at all is noticed before it. -/
structure Reading where
  choices : Choices := {}
  /-- A choice of which the value has not been taken up, and the value if it
      has been seen. -/
  pending : Option (Setting × Option Text) := none
  deriving DecidableEq, Repr

namespace Reading

/-- Takes up a value. No setting is made twice, and a path is not empty. -/
def setValue (choices : Choices) (setting : Setting) (value : Text) : Except Stop Choices :=
  if (choices.values.lookup setting).isSome then .error .argumentConflict
  else if setting.isPath && value.isEmpty then .error .invalidValue
  else .ok { choices with values := choices.values ++ [(setting, value)] }

/-- Takes up the pending value, which has to have been seen. -/
def settle (reading : Reading) : Except Stop Choices :=
  match reading.pending with
  | none => .ok reading.choices
  | some (_, none) => .error .invalidValue
  | some (setting, some value) => setValue reading.choices setting value

/-- A setting whose value is the next argument. -/
def await (reading : Reading) (setting : Setting) : Except Stop Reading :=
  reading.settle.map fun choices => { choices, pending := some (setting, none) }

/-- A setting with its value in the same argument. -/
def attach (reading : Reading) (setting : Setting) (value : Text) : Except Stop Reading := do
  let choices ← setValue (← reading.settle) setting value
  return { choices }

/-- A choice that stands alone. No switch is thrown twice. -/
def throwSwitch (reading : Reading) (switch : Switch) : Except Stop Reading := do
  let choices ← reading.settle
  if choices.switches.contains switch then throw .argumentConflict
  return { choices := { choices with switches := choices.switches ++ [switch] } }

/-- Ends the reading, unless the pending value is at fault. -/
def halt (reading : Reading) (stop : Stop) : Except Stop Reading :=
  reading.settle.bind fun _ => .error stop

/-- A long name, with the value that an equals sign attaches to it. -/
def long (reading : Reading) (name : Text) (value : Option Text) : Except Stop Reading :=
  match (Choice.longNames.lookup name), value with
  | none, _ => .error .unknownArgument
  | some (.setting setting), some value => reading.attach setting value
  | some (.setting setting), none => reading.await setting
  | some _, some _ => .error .tooManyValues
  | some (.switch switch), none => reading.throwSwitch switch
  | some .help, none => reading.halt .displayHelp
  | some .version, none => reading.halt .displayVersion

/-- Letters after one hyphen. What follows the letter of a setting is its
    value, without one equals sign. -/
def bundle (reading : Reading) : Text → Except Stop Reading
  | [] => .ok reading
  | letter :: rest =>
    match Choice.letters.lookup letter with
    | none => .error .unknownArgument
    | some (.setting setting) =>
      match rest with
      | [] => reading.await setting
      | '=' :: value => reading.attach setting value
      | value => reading.attach setting value
    | some (.switch switch) => (reading.throwSwitch switch).bind fun reading => bundle reading rest
    | some .help => reading.halt .displayHelp
    | some .version => reading.halt .displayVersion

/-- An argument that names no choice is the value that is awaited, or else
    unknown. -/
def plain (reading : Reading) (argument : Text) : Except Stop Reading :=
  match reading.pending with
  | some (setting, none) => .ok { reading with pending := some (setting, some argument) }
  | _ => .error .unknownArgument

/-- One argument. Arguments are read from left to right, and the first one that
    cannot stand ends the reading. -/
def step (reading : Reading) : Text → Except Stop Reading
  | '-' :: '-' :: rest =>
    let name := rest.takeWhile (· != '=')
    match rest.dropWhile (· != '=') with
    | [] => reading.long name none
    | _ :: value => reading.long name (some value)
  | '-' :: letter :: rest => reading.bundle (letter :: rest)
  | argument => reading.plain argument

/-- All arguments. Two hyphens alone end the choices, after which nothing may
    follow. -/
def steps (reading : Reading) : List Text → Except Stop Reading
  | [] => .ok reading
  | ['-', '-'] :: [] => .ok reading
  | ['-', '-'] :: _ :: _ => .error .unknownArgument
  | argument :: rest => (reading.step argument).bind fun reading => steps reading rest

end Reading

/-- The arguments that choices amount to. The document has to be among them. -/
def Choices.arguments? (choices : Choices) : Except Stop Arguments :=
  let value (setting : Setting) := choices.values.lookup setting
  if choices.switches.contains .noReference && choices.switches.contains .aggregate then
    .error .argumentConflict
  else
    match value .document with
    | none => .error .missingRequiredArgument
    | some document =>
      .ok { document := ⟨document⟩, config := (value .config).map (⟨·⟩),
            outputDir := (value .outputDir).map (⟨·⟩), namespaceName := value .namespaceName,
            suffix := value .suffix, switches := choices.switches }

/-- Reads a command line, without the name of the program. The value still
    pending at the end is taken up before the choices are looked at together. -/
def parse (arguments : List Text) : Except Stop Arguments := do
  let reading ← Reading.steps {} arguments
  (← reading.settle).arguments?

end CommandLine

end EntitySplit
