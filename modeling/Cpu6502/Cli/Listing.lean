import Cpu6502.Address
import Cpu6502.Cli.Tool
import Cpu6502.Sweep

namespace Cpu6502.Cli.Listing

inductive Opt where
  | output
  | address
  | count
  | table
  | verbose
  | version
  | help
  deriving DecidableEq, Repr

def grammar : Grammar Opt where
  long? name :=
    match name with
    | "--output" => some .output
    | "--address" => some .address
    | "--count" => some .count
    | "--table" => some .table
    | "--verbose" => some .verbose
    | "--version" => some .version
    | "--help" => some .help
    | _ => none
  short? c :=
    match c with
    | 'o' => some .output
    | 'a' => some .address
    | 'c' => some .count
    | 't' => some .table
    | 'v' => some .verbose
    | _ => none
  takesValue o :=
    match o with
    | .output | .address | .count | .table => true
    | .verbose | .version | .help => false

/-- What a run is to do. Paths are without idle parts, and the address is as it was given. -/
structure Request where
  input : RawText
  output : Option RawText := none
  address : RawText := ("0" : String)
  count : Option Int := none
  table : Option RawText := none
  verbose : Bool := false

def readCount? (value : RawText) : Option Int := value.text?.bind (Text.readDecimal ·.toList)

def readAddress? (value : RawText) : Option Int := value.text?.bind Address.read

/-- An address is not checked here: a bad one is reported by the run itself. -/
def check (files : Files) (a : Arguments Opt) (o : Opt) : Except Misuse Unit :=
  match o, a.value? o with
  | .output, some path => checkOutput files path
  | .count, some text => if (readCount? text).isSome then .ok () else .error .badValue
  | .table, some path => checkInput files path
  | _, _ => .ok ()

def request (files : Files) (a : Arguments Opt) : Except Misuse Request :=
  match a.operands with
  | [] => .error .missingOperand
  | input :: surplus => do
    checkInput files input
    if surplus.isEmpty then
      return { input := Path.normalise input
               output := (a.value? .output).map Path.normalise
               address := (a.value? .address).getD ("0" : String)
               count := (a.value? .count).bind readCount?
               table := (a.value? .table).map Path.normalise
               verbose := a.isGiven .verbose }
    else throw .surplusOperand

def helpText : String :=
  "Usage: m6502dis [OPTIONS] INPUT_FILE\n\n  Disassemble 6502 machine code.\n\n" ++
  "Options:\n  -o, --output FILE   Output file (default: stdout)\n" ++
  "  -a, --address TEXT  Base address, hexadecimal after 0x or $, or decimal\n" ++
  "  -c, --count NUMBER  Maximum number of instructions\n" ++
  "  -t, --table FILE    Opcode table file\n" ++
  "  -v, --verbose       Verbose output\n" ++
  "  --version           Show the version and exit.\n" ++
  "  --help              Show this message and exit.\n"

def activity : String := "Disassembly"

/-- Three lines about the input, and an empty one. -/
def header (fileName : RawText) (size : Nat) (address : Int) : List RawText :=
  [("; Disassembly of " : String) ++ fileName,
    ("; Size: " ++ Text.decimal size ++ " bytes" : String),
    ("; Base address: $" ++ Text.upperHex 4 address : String), []]

/-- Every line ends with a line feed, the last one too. -/
def text (fileName : RawText) (size : Nat) (address : Int) (instructions : List Instruction) :
    RawText :=
  [.char '\n'].intercalate (header fileName size address ++
    instructions.map fun i => RawText.ofText i.listingLine) ++ [.char '\n']

def decodeInput (files : Files) (r : Request) (data : ByteArray) (address : Int) :
    Logged (List Instruction) := do
  .write .debug ("Input file: " ++ r.input.shown ++ " (" ++ Text.decimal data.size ++ " bytes)")
  .write .debug ("Base address: $" ++ Text.upperHex 4 address)
  let table ← (tableAt files r.table).denseTable .refuse
  .ofExcept (Sweep.sweep table data.data address { count := r.count })

def listInput (console : Console) (files : Files) (r : Request) (data : ByteArray)
    (address : Int) : Outcome :=
  let decoded := decodeInput files r data address
  match decoded.result with
  | .error fault => failed console files r.verbose decoded.log activity (.ofFault fault)
  | .ok instructions =>
    let closing : LogEntry :=
      { level := .debug
        text := "Instructions disassembled: " ++ Text.decimal instructions.length }
    deliver console files r.verbose decoded.log activity r.output
      (text (Path.fileName r.input) data.size address instructions) [closing]

/-- The address is looked at first, then the input, and the table last. -/
def perform (console : Console) (files : Files) (r : Request) : Outcome :=
  let refuse (failure : Failure) : Outcome := failed console files r.verbose [] activity failure
  match readAddress? r.address with
  | none => refuse (.argument ("Invalid address '" ++ r.address.shown ++ "'"))
  | some address =>
    if Address.inRange address then
      match files.read r.input with
      | .error cause => refuse (.ofFault (.access r.input cause))
      | .ok data =>
        if data.isEmpty then refuse (.argument (r.input.shown ++ " is empty"))
        else listInput console files r data address
    else refuse (.argument "Address must be 0-65535 (0x0000-0xFFFF)")

def tool : Tool Opt Request where
  name := "m6502dis"
  grammar := grammar
  versionOption := .version
  helpOption := .help
  helpText := helpText
  check := check
  request := request
  perform := perform

end Cpu6502.Cli.Listing
