import Redstone.Text.Integer
import Redstone.Text.Quoted
import Redstone.Text.Truth

/-!
# Command-line flags

Flags come before the operands.  A flag starts with one or two dashes and takes
its value from behind an equals sign; a flag that is not a switch may also take
the next argument.  Two dashes alone, or the first argument that is no flag, end
the flags.
-/

namespace Redstone.Command

/-- What kind of value a flag takes. -/
inductive FlagKind where
  | switch
  | number
  | text
deriving DecidableEq, Repr

/-- The value of a flag. -/
inductive FlagValue where
  | switch (on : Bool)
  | number (n : Int)
  | text (s : String)
deriving DecidableEq, Repr

/-- A flag that a command knows. -/
structure Flag where
  name : String
  kind : FlagKind
deriving DecidableEq, Repr

/-- Why arguments are not accepted. -/
inductive FlagError where
  | badSyntax (argument : String)
  | unknown (name : String)
  | missingValue (name : String)
  | badSwitch (name value : String)
  | badNumber (name value : String) (cause : Integer.LiteralError)
deriving DecidableEq, Repr

/-- The wording of a flag error. -/
def FlagError.message : FlagError → String
  | badSyntax argument => "bad flag syntax: " ++ argument
  | unknown name => "flag provided but not defined: -" ++ name
  | missingValue name => "flag needs an argument: -" ++ name
  | badSwitch name value =>
      "invalid boolean value " ++ Text.quote value ++ " for -" ++ name ++ ": " ++
        Integer.LiteralError.malformed.message
  | badNumber name value cause =>
      "invalid value " ++ Text.quote value ++ " for flag -" ++ name ++ ": " ++ cause.message

/-- Why a command does not start: its help is asked for, or its arguments are not
accepted. -/
inductive Refusal where
  | help
  | error (e : FlagError)
deriving DecidableEq, Repr

/-- What an argument is. -/
inductive Argument where
  | operand
  | terminator
  | malformed
  | flag (name : String) (value : Option String)
deriving DecidableEq, Repr

/-- Divides the characters of a flag at the first equals sign behind the first
character. -/
def divide : List Char → String × Option String
  | [] => ("", none)
  | first :: rest =>
      let name := String.ofList (first :: rest.takeWhile (· != '='))
      match rest.dropWhile (· != '=') with
      | [] => (name, none)
      | _ :: value => (name, some (String.ofList value))

/-- A flag without its dashes. -/
def classifyFlag : List Char → Argument
  | [] => .malformed
  | c :: rest =>
      if c == '-' || c == '=' then .malformed
      else .flag (divide (c :: rest)).1 (divide (c :: rest)).2

/-- What an argument is. -/
def classify (argument : String) : Argument :=
  match argument.toList with
  | ['-', '-'] => .terminator
  | '-' :: '-' :: rest => classifyFlag rest
  | '-' :: c :: rest => classifyFlag (c :: rest)
  | _ => .operand

/-- Reads the value of a flag. -/
def readValue (flag : Flag) (value : String) : Except FlagError FlagValue :=
  match flag.kind with
  | .switch =>
      match Truth.ofBytes? (Bytes.ofString value) with
      | some on => .ok (.switch on)
      | none => .error (.badSwitch flag.name value)
  | .number =>
      match Integer.ofLiteral (Bytes.ofString value) with
      | .ok n => .ok (.number n)
      | .error cause => .error (.badNumber flag.name value cause)
  | .text => .ok (.text value)

/-- Accepted arguments: the values of flags in their order, and the operands. -/
structure Arguments where
  values : List (String × FlagValue) := []
  operands : List String := []
deriving DecidableEq, Repr

/-- Puts the value of a flag before further arguments. -/
def assign (flag : Flag) (value : String) (rest : Except Refusal Arguments) :
    Except Refusal Arguments :=
  match readValue flag value with
  | .error e => .error (.error e)
  | .ok v => rest.map fun a => { a with values := (flag.name, v) :: a.values }

/-- Reads the arguments of a command with the given flags. -/
def parse (flags : List Flag) : List String → Except Refusal Arguments
  | [] => .ok {}
  | argument :: rest =>
      match classify argument with
      | .operand => .ok { operands := argument :: rest }
      | .terminator => .ok { operands := rest }
      | .malformed => .error (.error (.badSyntax argument))
      | .flag name value =>
          match flags.find? (·.name == name) with
          | none =>
              if name == "help" || name == "h" then .error .help
              else .error (.error (.unknown name))
          | some flag =>
              match value with
              | some v => assign flag v (parse flags rest)
              | none =>
                  if flag.kind = .switch then assign flag "true" (parse flags rest)
                  else match rest with
                    | [] => .error (.error (.missingValue name))
                    | v :: rest => assign flag v (parse flags rest)

end Redstone.Command
