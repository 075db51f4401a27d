import Cpu6502.RawText

namespace Cpu6502.Cli

/-- Why the words are no proper use of a tool. -/
inductive Misuse where
  | unknownOption
  /-- A value is missing, or there is one for a flag. -/
  | valueMismatch
  | missingOperand
  | badValue
  /-- A path has a null character in it, so that nothing can be asked about it. -/
  | nullCharacter
  | surplusOperand
  deriving DecidableEq, Repr

/-- The options of a tool. Long names are given with their dashes. -/
structure Grammar (ι : Type) where
  long? : String → Option ι
  short? : Char → Option ι
  takesValue : ι → Bool

structure Arguments (ι : Type) where
  /-- Options in the order in which they are given, with their values; flags have an empty one. -/
  options : List (ι × RawText) := []
  operands : List RawText := []

namespace Arguments

/-- What a word of options says. -/
inductive Reading (ι : Type) where
  /-- All of them are complete. -/
  | complete (options : List (ι × RawText))
  /-- The last of them has its value in the next word. -/
  | needsValue (options : List (ι × RawText)) (last : ι)

def Reading.cons (option : ι) : Reading ι → Reading ι
  | complete options => complete ((option, []) :: options)
  | needsValue options last => needsValue ((option, []) :: options) last

/-- The characters after a single dash. Flags can be put together, and the rest after an option that
takes a value is its value. -/
def readCluster (g : Grammar ι) : RawText → Except Misuse (Reading ι)
  | [] => .ok (.complete [])
  | s :: rest =>
    match s.char?.bind g.short? with
    | none => .error .unknownOption
    | some option =>
      if g.takesValue option then
        if rest.isEmpty then .ok (.needsValue [] option)
        else .ok (.complete [(option, rest)])
      else (readCluster g rest).map (.cons option)

/-- An option by its long name, with what follows the name in its word: nothing, or a value after an
equals sign. -/
def readLong (g : Grammar ι) (option : ι) (rest : RawText) : Except Misuse (Reading ι) :=
  match g.takesValue option, rest with
  | true, [] => .ok (.needsValue [] option)
  | true, _ :: value => .ok (.complete [(option, value)])
  | false, [] => .ok (.complete [(option, [])])
  | false, _ :: _ => .error .valueMismatch

/-- A word that starts with a dash. What stands before an equals sign is tried as a long name
first. -/
def readWord (g : Grammar ι) (word : RawText) : Except Misuse (Reading ι) :=
  let name : RawText := word.takeWhile (· != .char '=')
  match name.text?.bind g.long? with
  | some option => readLong g option (word.dropWhile (· != .char '='))
  | none =>
    match word with
    | .char '-' :: .char '-' :: _ => .error .unknownOption
    | _ => readCluster g word.tail

/-- Reads words from left to right. After a word of two dashes all are operands. Tools leave this to
a library for command lines, which is assumed to work as it is documented. -/
def ofWords (g : Grammar ι) : List RawText → Except Misuse (Arguments ι)
  | [] => .ok {}
  | word :: rest =>
    match word with
    | [.char '-', .char '-'] => .ok { operands := rest }
    | .char '-' :: _ :: _ =>
      match readWord g word with
      | .error e => .error e
      | .ok (.complete options) =>
        (ofWords g rest).map fun a => { a with options := options ++ a.options }
      | .ok (.needsValue options last) =>
        match rest with
        | [] => .error .valueMismatch
        | value :: rest =>
          (ofWords g rest).map fun a => { a with options := options ++ (last, value) :: a.options }
    | _ => (ofWords g rest).map fun a => { a with operands := word :: a.operands }

variable [BEq ι]

def isGiven (a : Arguments ι) (option : ι) : Bool := a.options.any (fun o => o.1 == option)

/-- The value of an option. Of several the last one counts. -/
def value? (a : Arguments ι) (option : ι) : Option RawText :=
  (a.options.reverse.find? (fun o => o.1 == option)).map Prod.snd

/-- The options that are given, each at the place where it first appears. -/
def givenOptions (a : Arguments ι) : List ι := (a.options.map Prod.fst).eraseDups

end Arguments

end Cpu6502.Cli
