import WordMachine.Demo

/-! Command line: shows the demonstration. -/

def main : IO Unit := do
  IO.print WordMachine.Demo.transcript.output
  IO.eprint WordMachine.Demo.transcript.errors
