import EntitySplit.Files.Cause
import EntitySplit.Path.Basic

namespace EntitySplit

/-- How a run can fail. That a document has no blocks is no failure. -/
inductive Failure where
  /-- The document is no file. -/
  | sourceNotFound (path : Path)
  /-- A class is to go into an entity's file that is not there. -/
  | missingTarget (typeName : Text) (path : Path)
  | read (path : Path) (cause : Files.Cause)
  | write (path : Path) (cause : Files.Cause)
  /-- A configuration file does not say what it should. -/
  | badSettings (path : Path)
  deriving DecidableEq, Repr

namespace Failure

def quoted (path : Path) : Text :=
  '\'' :: path.raw ++ ['\'']

/-- What is said of a failure, with the path that it is about and, where the
    system gave a cause, with that. -/
def message : Failure → Text
  | sourceNotFound path =>
    "DbContext file ".toList ++ quoted path ++ " does not exist or is not a file".toList
  | missingTarget typeName path =>
    "Cannot embed configuration for '".toList ++ typeName ++ "': ".toList ++ quoted path ++
      " does not exist".toList
  | read path cause => "Failed to read ".toList ++ quoted path ++ ": ".toList ++ cause.message
  | write path cause => "Failed to write ".toList ++ quoted path ++ ": ".toList ++ cause.message
  | badSettings path => "Invalid configuration in ".toList ++ quoted path

/-- The message with what lies behind it, which a failure to read or write says
    once more. -/
def fullMessage (failure : Failure) : Text :=
  match failure with
  | read _ cause => failure.message ++ ": ".toList ++ cause.message
  | write _ cause => failure.message ++ ": ".toList ++ cause.message
  | _ => failure.message

/-- The exit code of the program; 2 stands for a mistake on the command line. -/
def exitCode : Failure → Nat
  | sourceNotFound _ => 3
  | missingTarget _ _ => 4
  | write _ _ => 5
  | read _ _ => 1
  | badSettings _ => 1

end Failure

end EntitySplit
