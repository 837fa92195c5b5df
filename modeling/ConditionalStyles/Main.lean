import ConditionalStyles.Checkboxes

/-!
The command line: prints the style sheet and the styles of the check boxes, and the log on the
error stream.
-/

def main (arguments : List String) : IO UInt32 := do
  let level := (← IO.getEnv "CSS_HOOKS_LOG").bind ConditionalStyles.Level.ofName?
  let logger := ConditionalStyles.Logger.install none level
  let readable := ConditionalStyles.Checkboxes.wantsReadable arguments
  IO.eprint (logger.text (ConditionalStyles.Checkboxes.events readable))
  IO.print (ConditionalStyles.Checkboxes.report readable)
  return 0
