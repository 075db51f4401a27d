import Cpu6502.Cli.Tool

namespace Cpu6502.Cli.Declare

inductive Opt where
  | table
  | onDuplicate
  | output
  | verbose
  | version
  | help
  deriving DecidableEq, Repr

def grammar : Grammar Opt where
  long? name :=
    match name with
    | "--table" => some .table
    | "--on-duplicate" => some .onDuplicate
    | "--output" => some .output
    | "--verbose" => some .verbose
    | "--version" => some .version
    | "--help" => some .help
    | _ => none
  short? c :=
    match c with
    | 't' => some .table
    | 'o' => some .output
    | 'v' => some .verbose
    | _ => none
  takesValue o :=
    match o with
    | .table | .onDuplicate | .output => true
    | .verbose | .version | .help => false

/-- What a run is to do. Paths are without idle parts. -/
structure Request where
  table : Option RawText := none
  policy : RepeatPolicy := .refuse
  output : Option RawText := none
  verbose : Bool := false

def readPolicy? (value : RawText) : Option RepeatPolicy := value.text?.bind RepeatPolicy.ofText?

def check (files : Files) (a : Arguments Opt) (o : Opt) : Except Misuse Unit :=
  match o, a.value? o with
  | .table, some path => checkInput files path
  | .onDuplicate, some text =>
    if (readPolicy? text).isSome then .ok () else .error .badValue
  | .output, some path => checkOutput files path
  | _, _ => .ok ()

def request (_ : Files) (a : Arguments Opt) : Except Misuse Request :=
  if a.operands.isEmpty then
    .ok { table := (a.value? .table).map Path.normalise
          policy := ((a.value? .onDuplicate).bind readPolicy?).getD .refuse
          output := (a.value? .output).map Path.normalise
          verbose := a.isGiven .verbose }
  else .error .surplusOperand

def helpText : String :=
  "Usage: m6502gen [OPTIONS]\n\n  Generate 6502 opcode table declarations.\n\n" ++
  "Options:\n  -t, --table FILE             Opcode table file\n" ++
  "  --on-duplicate [error|last]  What to do with a repeated opcode byte\n" ++
  "  -o, --output FILE            Output file (default: stdout)\n" ++
  "  -v, --verbose                Verbose output\n" ++
  "  --version                    Show the version and exit.\n" ++
  "  --help                       Show this message and exit.\n"

def activity : String := "Generation"

def perform (console : Console) (files : Files) (r : Request) : Outcome :=
  let generated := (tableAt files r.table).declarations r.policy {}
  match generated.result with
  | .error fault => failed console files r.verbose generated.log activity (.ofFault fault)
  | .ok text =>
    deliver console files r.verbose generated.log activity r.output (RawText.ofText text) []

def tool : Tool Opt Request where
  name := "m6502gen"
  grammar := grammar
  versionOption := .version
  helpOption := .help
  helpText := helpText
  check := check
  request := request
  perform := perform

end Cpu6502.Cli.Declare
