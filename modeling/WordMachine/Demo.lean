import WordMachine.Assembly.Program
import WordMachine.Display
import WordMachine.Machine.Step

/-!
The demonstration: two programs that multiply ten by five, one by repeated addition and one with
the multiply instruction, each shown before and after its run.
-/

namespace WordMachine

structure Transcript where
  output : String := ""
  errors : String := ""
  deriving DecidableEq, Repr

instance : Append Transcript where
  append s t := ⟨s.output ++ t.output, s.errors ++ t.errors⟩

def Transcript.say (line : String) : Transcript := { output := line ++ "\n" }

def Transcript.complain (line : String) : Transcript := { errors := line ++ "\n" }

structure Demo where
  name : String
  source : String
  deriving DecidableEq, Repr

namespace Demo

/-- Leaves the product in memory at address 0. -/
def repeatedAddition : Demo where
  name := "repeated addition"
  source := "
    set x1 10
    set x2 5
    set x8 0
    slti x3 x1 1
    bne x3 x0 12     # to the store
    addi x1 x1 -1
    add x8 x8 x2
    jal x0 -20       # to the comparison
    sw x7 0 x8
    hlt"

def multiply : Demo where
  name := "multiply"
  source := "
    set x1 10
    set x2 5
    mlt x8 x1 x2
    hlt"

def budget : Nat := 100

def outcome : Except Fault Status → Transcript
  | .ok .halted => .say "Halted."
  | .ok .running => .say s!"Stopped after {budget} steps without halting."
  | .error fault => .complain s!"Fault: {fault.message}"

def runReport (m : Machine) : Transcript :=
  let (final, result) := m.run budget
  .say s!"Initial machine state:\n{m.display}" ++ outcome result ++
    .say s!"Final machine state:\n{final.display}"

def report (demo : Demo) : Transcript :=
  .say s!"Program: {demo.name}" ++
    match assemble demo.source with
    | .error error => .complain s!"Assembly failed: {error.message}"
    | .ok program =>
      match (Machine.fresh {}).load 0 program with
      | (_, .error fault) => .complain s!"Could not load program: {fault.message}"
      | (m, .ok ()) => runReport m

def transcript : Transcript :=
  .say "Computation Tracing ENABLED" ++ repeatedAddition.report ++ multiply.report

end Demo

end WordMachine
