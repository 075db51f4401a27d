import Cpu6502.Fault

namespace Cpu6502

inductive Level where
  | debug
  | info
  | warning
  deriving DecidableEq, Repr

def Level.name : Level → String
  | .debug => "DEBUG"
  | .info => "INFO"
  | .warning => "WARNING"

structure LogEntry where
  level : Level
  text : String
  deriving DecidableEq, Repr

/-- An operation that keeps a log. What was logged before a fault stays in it. -/
structure Logged (α : Type) where
  result : Except Fault α
  log : List LogEntry := []

namespace Logged

protected def bind (first : Logged α) (next : α → Logged β) : Logged β :=
  match first.result with
  | .ok a => { result := (next a).result, log := first.log ++ (next a).log }
  | .error fault => { result := .error fault, log := first.log }

instance : Monad Logged where
  pure a := { result := .ok a }
  bind := Logged.bind

def ofExcept (result : Except Fault α) : Logged α := { result := result }

def fail (fault : Fault) : Logged α := { result := .error fault }

def write (level : Level) (text : String) : Logged Unit :=
  { result := .ok (), log := [{ level := level, text := text }] }

end Logged

end Cpu6502
