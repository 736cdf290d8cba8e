/-
The texts of the command: its usage, its help, and what it says about arguments it refuses.
-/
import RingTape.CommandLine.Arguments

namespace RingTape.Usage

/-- the forms of the command -/
def forms : String :=
  "Usage:\n  bfwalk [--timeout=<ms>] <program>\n  bfwalk --ast <program>\n  bfwalk (-h | --help)"

/-- the help of the command -/
def help : String :=
  "bfwalk\n\n" ++ forms ++ "\n\nOptions:\n"
    ++ "  -h --help         Show this screen.\n"
    ++ "  --ast             Display the parsed syntax tree instead of running.\n"
    ++ "  --timeout=<ms>    Cancel the program after this many milliseconds."

end RingTape.Usage

namespace RingTape.ArgumentError

/-- what is said about refused arguments -/
def message : ArgumentError → String
  | unknownFlag flag none => s!"Unknown flag: '{flag}'"
  | unknownFlag flag (some close) => s!"Unknown flag: '{flag}'. Did you mean '{close}'?"
  | unwantedValue flag value => s!"Flag '{flag}' cannot have an argument, but found '{value}'."
  | missingValue flag => s!"Expected argument for flag '{flag}' but reached end of arguments."
  | misfit => "Invalid arguments."
  | notANumber value => s!"Could not deserialize '{value}' to u64 for '--timeout'."

/-- whether the forms of the command are shown beside the message -/
def showsForms : ArgumentError → Bool
  | notANumber _ => false
  | _ => true

/-- everything that is said about refused arguments -/
def report (e : ArgumentError) : String :=
  e.message ++ (if e.showsForms then "\n\n" ++ Usage.forms else "") ++ "\n"

end RingTape.ArgumentError
