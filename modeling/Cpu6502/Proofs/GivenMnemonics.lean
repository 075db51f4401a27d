import Cpu6502.Proofs.MnemonicOrder
import Cpu6502.Proofs.ReplacedRecords

namespace Cpu6502

open OpcodeIndex

namespace DenseTable

variable {mnemonics : Mnemonics} {policy : RepeatPolicy} {records index : List Record}
  {fault : Fault}

end DenseTable

end Cpu6502
