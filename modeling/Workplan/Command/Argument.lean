/-!
# Arguments of a command line

A grammar says which options a command has and what may stand without a dash. Reading goes from
left to right. The first argument that does not fit ends it, and so does the first request for
help.
-/

namespace Workplan
namespace Command

inductive OptionKind where
  | help
  | version
  /-- Says yes, and only once. -/
  | flag
  /-- Takes a value, and only once. -/
  | single
  /-- Takes a value, as often as it is given. -/
  | repeated
deriving DecidableEq

structure CommandOption where
  long : String
  short : Option Char
  kind : OptionKind
  /-- The values that it takes. -/
  accepts : String → Bool := fun _ => true

namespace CommandOption

def takesValue (o : CommandOption) : Bool :=
  o.kind == .single || o.kind == .repeated

end CommandOption

structure Grammar where
  options : List CommandOption
  /-- The argument without a dash that the command takes, by the values that it may have. -/
  operand : Option (String → Bool)
  /-- The commands that may follow. -/
  commands : List String

structure Given where
  flags : List String
  /-- The values of options, in order. -/
  values : List (String × String)
  operand : Option String
  command : Option String

inductive Stop where
  | refused
  | help
  | version
deriving DecidableEq

inductive Next where
  | any
  | valueOf (option : CommandOption)
  | operand
  /-- The command that was named takes all that is left. -/
  | none

namespace Given

def nothing : Given := ⟨[], [], .none, .none⟩

def flag (g : Given) (long : String) : Bool :=
  g.flags.contains long

def all (g : Given) (long : String) : List String :=
  (g.values.filter (·.1 == long)).map (·.2)

def one? (g : Given) (long : String) : Option String :=
  (g.all long).head?

def addFlag (g : Given) (o : CommandOption) : Except Stop Given :=
  match o.kind with
  | .help => .error .help
  | .version => .error .version
  | _ => if g.flag o.long then .error .refused else .ok { g with flags := o.long :: g.flags }

def addValue (g : Given) (o : CommandOption) (value : String) : Except Stop Given :=
  if !o.accepts value || (o.kind == .single && (g.one? o.long).isSome) then .error .refused
  else .ok { g with values := g.values ++ [(o.long, value)] }

def addOperand (grammar : Grammar) (g : Given) (value : String) : Except Stop Given :=
  match grammar.operand, g.operand with
  | some accepts, .none =>
    if accepts value then .ok { g with operand := some value } else .error .refused
  | _, _ => .error .refused

end Given

namespace Grammar

/-- Reads a cluster of short options. The last one may take a value: the rest of the cluster,
behind an equals sign or not, or the next argument. -/
def readShort (grammar : Grammar) : List Char → Given → Except Stop (Given × Next)
  | [], g => .ok (g, .any)
  | c :: rest, g =>
    match grammar.options.find? (·.short == some c) with
    | none => .error .refused
    | some o =>
      if o.takesValue then
        match rest with
        | [] => .ok (g, .valueOf o)
        | '=' :: value => (g.addValue o (String.ofList value)).map (·, .any)
        | value => (g.addValue o (String.ofList value)).map (·, .any)
      else
        match g.addFlag o with
        | .ok g => readShort grammar rest g
        | .error stop => .error stop

/-- Reads a long option, which has its value behind an equals sign or as the next argument. -/
def readLong (grammar : Grammar) (body : List Char) (g : Given) : Except Stop (Given × Next) :=
  match grammar.options.find? (·.long.toList == body.takeWhile (· != '=')) with
  | none => .error .refused
  | some o =>
    match body.dropWhile (· != '='), o.takesValue with
    | [], true => .ok (g, .valueOf o)
    | [], false => (g.addFlag o).map (·, .any)
    | _ :: value, true => (g.addValue o (String.ofList value)).map (·, .any)
    | _ :: _, false => .error .refused

def readPlain (grammar : Grammar) (argument : String) (g : Given) : Except Stop (Given × Next) :=
  if grammar.commands.isEmpty then (g.addOperand grammar argument).map (·, .any)
  else if grammar.commands.contains argument then
    .ok ({ g with command := some argument }, .none)
  else .error .refused

/-- Whether an argument begins as options do. A single dash does not. -/
def isDashed (argument : String) : Bool :=
  match argument.toList with
  | '-' :: _ :: _ => true
  | _ => false

def readArgument (grammar : Grammar) (next : Next) (argument : String) (g : Given) :
    Except Stop (Given × Next) :=
  match next with
  | .operand => (g.addOperand grammar argument).map (·, .operand)
  | .valueOf o =>
    if isDashed argument then .error .refused else (g.addValue o argument).map (·, .any)
  | _ =>
    match argument.toList with
    | ['-', '-'] => .ok (g, .operand)
    | '-' :: '-' :: body => grammar.readLong body g
    | '-' :: c :: rest => grammar.readShort (c :: rest) g
    | _ => grammar.readPlain argument g

/-- Reads arguments up to their end or up to a command. Gives also what follows the command. -/
def read (grammar : Grammar) : Next → List String → Given → Except Stop (Given × List String)
  | .none, rest, g => .ok (g, rest)
  | .valueOf _, [], _ => .error .refused
  | _, [], g => .ok (g, [])
  | next, argument :: rest, g =>
    match grammar.readArgument next argument g with
    | .ok (g, next) => read grammar next rest g
    | .error stop => .error stop

end Grammar
end Command
end Workplan
