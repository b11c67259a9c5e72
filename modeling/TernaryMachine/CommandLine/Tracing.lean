import TernaryMachine.CommandLine.Log
/-! # Traced runs

`Machine.runTraced` runs a machine like `Machine.run` and keeps the log of its steps.  Beside an
error it names the address where it arose. -/

namespace TernaryMachine

/-- A machine after steps, their log, and what came of them. -/
structure TracedRun where
  machine : Machine
  /-- The lines of the log, last one first. -/
  log : List LogLine
  /-- The number of steps, or an error and its address. -/
  result : Except (Int × StepError) Nat

namespace Machine

/-- Puts the lines of a step that a threshold allows before those of earlier steps. -/
def logStep (threshold : LogLevel) (trace : Bool) (log : List LogLine) (m : Machine)
    (result : Except StepError Instruction) : List LogLine :=
  ((LogLine.ofStep trace m result).filter fun l => threshold.allows l.level).reverse ++ log

/-- Executes `n` more steps after `done` of them, with the log so far. -/
def runTracedFrom (threshold : LogLevel) (trace : Bool) (done : Nat) (log : List LogLine) :
    Nat → Machine → TracedRun
  | 0, m => ⟨m, log, .ok done⟩
  | n + 1, m =>
    let outcome := m.step
    let log := logStep threshold trace log m outcome.result
    match outcome.result with
    | .error e => ⟨outcome.machine, log, .error (m.registers.pc.toInt, e)⟩
    | .ok _ => runTracedFrom threshold trace (done + 1) log n outcome.machine

/-- Executes steps until there were `n`, or until one fails, and keeps their log. -/
def runTraced (m : Machine) (threshold : LogLevel) (trace : Bool) (n : Nat) : TracedRun :=
  runTracedFrom threshold trace 0 [] n m

end Machine

end TernaryMachine
