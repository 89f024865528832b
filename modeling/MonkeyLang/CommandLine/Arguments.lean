import MonkeyLang.Text.Decimal

/-!
# Arguments of the command line

The interpreter takes at most one script and a few options.

* `-c V` and `--command V` give a program as text.  The value may also be part of the argument, as in
  `-cV`, `-c=V` and `--command=V`; as an argument of its own it must not look like an option.
* `--debug` asks for the tokens and the tree of what is run, and takes no value.
* `-h` and `--help` ask for help.  More options of one letter may follow a `-h` in the same argument,
  and help is given only if they are in order: a `-hc` needs its value.
* After a `--` no argument is an option.  As a value that is part of an argument, a `--` is dropped:
  `-c--` gives a program, and yet no text for it.

An argument looks like an option when it starts with a hyphen, unless it is nothing but a hyphen, is
a negative number, or has a space in it and is no known option.  The names of options are not
shortened.  If an option is given twice, the later one counts.

* `Argument.classify` says what a single argument is.
* `Arguments.read` reads all of them, and refuses them if something is wrong.
-/

set_option autoImplicit false

namespace MonkeyLang

/-! ## One argument -/

/-- What the option that gives a program gives. -/
inductive Given where
  | text (source : String)
  /-- The value is dropped, so there is a program without a text. -/
  | nothing
  deriving DecidableEq, Repr, Inhabited

/-- What a value gives that is part of an argument.  A `--` is dropped. -/
def Given.ofAttached (value : List Char) : Given :=
  if value = ['-', '-'] then nothing else text (String.ofList value)

/-- What a single argument is. -/
inductive Argument where
  /-- A script, or the value of the option before it. -/
  | plain
  /-- The option that gives a program, with the value if it is part of the argument. -/
  | command (given? : Option Given)
  | debug
  | help
  /-- The option that asks for help, and behind it the one that gives a program, without its value. -/
  | helpAndCommand
  /-- A known option with a value that it does not take. -/
  | misused
  /-- Something that looks like an option and is none. -/
  | unknown
  deriving DecidableEq, Repr, Inhabited

namespace Argument

/-- Whether all of some characters are digits, and there are some. -/
def areDigits (text : List Char) : Bool :=
  (Text.numeralValue? text).isSome

/-- Whether a text is a negative number, with or without a decimal point.  A line feed at the end
does not matter. -/
def isNegativeNumber (text : List Char) : Bool :=
  let digits := match text with
    | '-' :: rest => if rest.getLast? = some '\n' then rest.dropLast else rest
    | _ => []
  let whole := digits.takeWhile (· ≠ '.')
  match digits.dropWhile (· ≠ '.') with
  | [] => areDigits whole
  | _ :: fraction => (whole.isEmpty || areDigits whole) && areDigits fraction

/-- What a `-h` is with more letters behind it, each of them an option of its own. -/
def bundled : List Char → Argument
  | [] => help
  | 'h' :: rest => bundled rest
  | ['c'] => helpAndCommand
  | 'c' :: _ => help
  | _ => misused

/-- An option whose name and value are parted by an equals sign, if there is an option of that
name. -/
def assigned? (name value : List Char) : Option Argument :=
  let text := String.ofList name
  if text = "-c" || text = "--command" then some (command (some (.ofAttached value)))
  else if text = "--debug" || text = "--help" then some misused
  else if text = "-h" then some (if value.isEmpty then misused else bundled value)
  else none

/-- An option of one letter, with whatever is written right behind it. -/
def lettered? : List Char → Option Argument
  | '-' :: 'c' :: [] => some (command none)
  | '-' :: 'c' :: value => some (command (some (.ofAttached value)))
  | '-' :: 'h' :: rest => some (bundled rest)
  | _ => none

/-- An option that is written out. -/
def named? (text : String) : Option Argument :=
  if text = "--command" then some (command none)
  else if text = "--debug" then some debug
  else if text = "--help" then some help
  else none

/-- An option with an equals sign in it. -/
def withValue? (text : List Char) : Option Argument :=
  match text.dropWhile (· ≠ '=') with
  | [] => none
  | _ :: value => assigned? (text.takeWhile (· ≠ '=')) value

/-- What an argument is that does not stand behind a `--`. -/
def classify (argument : String) : Argument :=
  match argument.toList with
  | '-' :: next :: rest =>
    let text := '-' :: next :: rest
    match (named? argument).or ((withValue? text).or (lettered? text)) with
    | some option => option
    | none => if isNegativeNumber text || text.contains ' ' then plain else unknown
  | _ => plain

/-- Whether an argument can be the value of the option before it. -/
def isValue (argument : String) : Bool :=
  argument ≠ "--" && classify argument = plain

end Argument

/-! ## All arguments -/

/-- What the arguments ask for. -/
structure Arguments where
  script? : Option String := none
  command? : Option Given := none
  debug : Bool := false
  deriving DecidableEq, Repr, Inhabited

/-- Why there is nothing to run. -/
inductive NoRun where
  /-- The user asks for help. -/
  | help
  /-- The arguments make no sense. -/
  | misuse
  deriving DecidableEq, Repr, Inhabited

namespace Arguments

/-- How far the arguments are read. -/
structure Progress where
  found : Arguments := {}
  /-- Whether there can still be a script. -/
  vacant : Bool := true
  /-- Whether something is wrong that is to be reported when all arguments are read. -/
  wrong : Bool := false

/-- The arguments that are found, unless something is wrong. -/
def Progress.close (progress : Progress) : Except NoRun Arguments :=
  if progress.wrong then .error .misuse else .ok progress.found

/-- Reads the arguments behind a `--`: none, or the one script if there can still be one. -/
def Progress.readPlain (progress : Progress) : List String → Except NoRun Arguments
  | [] => progress.close
  | [script] =>
    if progress.vacant then
      { progress with found := { progress.found with script? := some script } }.close
    else .error .misuse
  | _ => .error .misuse

/-- Reads the remaining arguments.  A `--` is in its place only where there can still be a script or
right behind the script. -/
def Progress.read (progress : Progress) : List String → Except NoRun Arguments
  | [] => progress.close
  | "--" :: rest => if progress.vacant then progress.readPlain rest else .error .misuse
  | argument :: rest =>
    match Argument.classify argument with
    | .plain =>
      if progress.vacant then
        let withScript : Progress :=
          { progress with
            found := { progress.found with script? := some argument }
            vacant := false }
        match rest with
        | "--" :: behind => withScript.readPlain behind
        | _ => withScript.read rest
      else { progress with wrong := true }.read rest
    | .debug => { progress with found := { progress.found with debug := true } }.read rest
    | .command (some given) =>
      { progress with found := { progress.found with command? := some given } }.read rest
    | .command none =>
      match rest with
      | value :: behind =>
        if Argument.isValue value then
          { progress with found := { progress.found with command? := some (.text value) } }.read
            behind
        else .error .misuse
      | [] => .error .misuse
    | .help => .error .help
    | .helpAndCommand => .error (if rest.head?.any Argument.isValue then .help else .misuse)
    | .misused => .error .misuse
    | .unknown => { progress with wrong := true }.read rest

/-- Reads all arguments. -/
def read (arguments : List String) : Except NoRun Arguments :=
  Progress.read {} arguments

end Arguments

end MonkeyLang
