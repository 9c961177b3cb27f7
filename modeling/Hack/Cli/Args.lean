/-! Command-line arguments: options and positionals, what a tool declares to its argument parser,
and the parser the tools run with. -/

set_option autoImplicit false

namespace Hack.Cli

/-- An option a tool accepts. -/
structure OptionSpec where
  long : String
  short : Option Char := none
  takesValue : Bool := false

/-- Arguments sorted into options and positionals, each in the order given. -/
structure Parsed where
  positionals : List String := []
  /-- Options by long name, with their values; a flag has the empty value. -/
  options : List (String × String) := []

namespace Parsed

/-- Whether a flag was given. -/
def flag (p : Parsed) (long : String) : Bool :=
  p.options.any (·.1 == long)

/-- The values given to an option, in order. -/
def values (p : Parsed) (long : String) : List String :=
  (p.options.filter (·.1 == long)).map (·.2)

/-- The last value given to an option. -/
def value? (p : Parsed) (long : String) : Option String :=
  (p.values long).getLast?

/-- The positionals, or a default input when there are none. -/
def inputsOr (p : Parsed) (default : String) : List String :=
  if p.positionals.isEmpty then [default] else p.positionals

end Parsed

/-- How an argument parser stops a tool before it runs: with a text the arguments asked for (help
or version), printed to standard output, or with a usage error, printed to standard error. -/
inductive Stop where
  | info (text : String)
  | usage (text : String)
  deriving DecidableEq, Repr

/-- The exit status a stop ends the tool with. -/
def Stop.status : Stop → Nat
  | .info _ => 0
  | .usage _ => 2

/-- What a tool declares to its argument parser. -/
structure Interface where
  name : String
  version : String
  about : String
  options : List OptionSpec

/-- An argument parser: the arguments sorted by the tool's interface, or a stop. Every tool is
written for any parser, the way clap's derived parser either returns the arguments or exits. -/
abbrev ArgParser := Interface → List String → Except Stop Parsed

namespace Interface

variable (tool : Interface)

def versionText : String :=
  tool.name ++ " " ++ tool.version ++ "\n"

def helpText : String :=
  tool.versionText ++ "  " ++ tool.about ++ "\n\nUsage: " ++ tool.name ++ " [OPTIONS] [INPUT]...\n"

/-- The text a flag every tool has asks for: `--help` and `--version`. -/
def builtin? : String → Option String
  | "help" => some tool.helpText
  | "version" => some tool.versionText
  | _ => none

end Interface

/-- The long names of the short flags every tool has. -/
def builtinShort : Char → Option String
  | 'h' => some "help"
  | 'V' => some "version"
  | _ => none

/-- A usage error as it is printed. -/
def usageError (message : String) : Stop :=
  .usage ("error: " ++ message ++ "\n")

/-- Reads a group of short options: the options it sets, and the long name of a last option
that still needs the next argument as its value. -/
def shortGroup (tool : Interface) :
    List Char → Except Stop (List (String × String) × Option String)
  | [] => .ok ([], none)
  | c :: more =>
    match tool.options.find? (·.short == some c) with
    | none =>
      match (builtinShort c).bind tool.builtin? with
      | some text => .error (.info text)
      | none => .error (usageError ("unexpected argument '-" ++ String.ofList (c :: more) ++ "' found"))
    | some spec =>
      if spec.takesValue then
        match more with
        | [] => .ok ([], some spec.long)
        | '=' :: value => .ok ([(spec.long, String.ofList value)], none)
        | value => .ok ([(spec.long, String.ofList value)], none)
      else (shortGroup tool more).map fun (opts, pending) => ((spec.long, "") :: opts, pending)

/-- Adds options in front of the rest of the parse. -/
def Parsed.addOptions (opts : List (String × String)) (p : Parsed) : Parsed :=
  { p with options := opts ++ p.options }

/-- The parser the tools run with. It sorts the arguments left to right by the tool's options; it
stops at the first help or version flag with its text, and at the first unknown option or missing
value with a usage error. -/
def parseArgs (tool : Interface) (args : List String) : Except Stop Parsed :=
  match args with
  | [] => .ok {}
  | "--" :: rest => .ok { positionals := rest }
  | arg :: rest =>
    match arg.toList with
    | '-' :: '-' :: name =>
      let (key, inline) := match name.span (· != '=') with
        | (key, '=' :: value) => (String.ofList key, some (String.ofList value))
        | (key, _) => (String.ofList key, none)
      match tool.options.find? (·.long == key) with
      | none =>
        match tool.builtin? key with
        | some text => .error (.info text)
        | none => .error (usageError ("unexpected argument '" ++ arg ++ "' found"))
      | some spec =>
        if spec.takesValue then
          match inline with
          | some v => (parseArgs tool rest).map (Parsed.addOptions [(key, v)])
          | none =>
            match rest with
            | v :: rest' => (parseArgs tool rest').map (Parsed.addOptions [(key, v)])
            | [] => .error (usageError ("a value is required for '--" ++ key ++ "' but none was supplied"))
        else match inline with
          | some _ => .error (usageError ("unexpected value for '--" ++ key ++ "'"))
          | none => (parseArgs tool rest).map (Parsed.addOptions [(key, "")])
    | '-' :: c :: more =>
      match shortGroup tool (c :: more) with
      | .error e => .error e
      | .ok (opts, none) => (parseArgs tool rest).map (Parsed.addOptions opts)
      | .ok (opts, some long) =>
        match rest with
        | v :: rest' => (parseArgs tool rest').map (Parsed.addOptions (opts ++ [(long, v)]))
        | [] => .error (usageError ("a value is required for '--" ++ long ++ "' but none was supplied"))
    | _ => (parseArgs tool rest).map fun p => { p with positionals := arg :: p.positionals }
termination_by args.length

end Hack.Cli
