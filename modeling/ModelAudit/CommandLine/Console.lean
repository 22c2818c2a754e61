import ModelAudit.CommandLine.Run
import ModelAudit.Text.Utf8

/-!
# What the console shows

The text of a report on standard output and standard error, and the exit status.
-/

namespace ModelAudit

/-- The name under which the program is started. -/
def programName : Text :=
  "smtmv"

namespace CommandOption

def placeholder? (option : CommandOption) : Option Text :=
  match option with
  | root => some "ROOT"
  | keepTheory => some "FILE"
  | model => some "MODEL"
  | timeout => some "SECONDS"
  | backend => some (Text.join "|" (Backend.all.map Backend.name))
  | method => some (Text.join "|" (ProofMethod.all.map ProofMethod.name))
  | isabelle | logic => some "NAME"
  | help | stdin | verbose | quiet => none

/-- The option with its value's placeholder, in brackets. -/
def usage (option : CommandOption) : Text :=
  let names := Text.join "|" option.spellings
  match option.placeholder? with
  | none => "[" ++ names ++ "]"
  | some placeholder => "[" ++ names ++ " " ++ placeholder ++ "]"

end CommandOption

def usageLine : Text :=
  "usage: " ++ programName ++ " " ++
    Text.words (CommandOption.all.map CommandOption.usage) ++ " FORMULA"

def Breakdown.message : Breakdown → Text
  | undecodable => "An input is not encoded in UTF-8"
  | unencodable => "The theory holds a surrogate"
  | system fault => fault.message
  | overrides _ => "The operator overrides are not an object of objects"
  | reader fault => fault.message
  | limitNotANumber => "The time limit is not a number"
  | limitTooLong => "The time limit is too long"

namespace Report

def standardOutput (report : Report) : Text :=
  match report.ending with
  | .help => usageLine ++ "\n"
  | ending => ending.output

/-- The lines on standard error: the log, and what no entry of the log tells. -/
def errorLines (report : Report) : List Text :=
  report.log.map LogEntry.text ++
    match report.ending with
    | .misuse message => [usageLine, programName ++ ": error: " ++ message]
    | .broken cause => [programName ++ ": " ++ cause.message]
    | _ => []

def standardError (report : Report) : Text :=
  report.errorLines.flatMap fun line => line ++ Text.ofString "\n"

/-- The exit status. A run that breaks off counts as failed. -/
def exitStatus (report : Report) : Nat :=
  report.ending.status?.getD 1

end Report

/-- The bytes of a text. A surrogate, which has no bytes, is written as an
escape. -/
def Text.consoleBytes (text : Text) : List UInt8 :=
  text.flatMap fun point =>
    match Text.encodePoint? point with
    | some bytes => bytes
    | none =>
      let escape : Text := "\\u" ++ Text.hexadecimal 4 point.toNat
      escape.map fun point => UInt8.ofNat point.toNat

end ModelAudit
