import EntitySplit.Text.Basic

namespace EntitySplit

namespace Files

/-- Why an operation on files cannot be done. -/
inductive Cause where
  | notFound
  | alreadyExists
  | notDirectory
  | isDirectory
  | nameTooLong
  /-- The contents are not UTF-8. -/
  | notText
  | emptyPath
  /-- The path holds a null character. -/
  | nullInPath
  /-- Only files can be copied. -/
  | notRegular
  /-- No folder of the path can be made. -/
  | noTree
  /-- Whatever else a system reports. -/
  | other (message : Text)
  deriving DecidableEq, Repr

/-- What the system says of a cause, as it comes to stand in the messages of
    failures. -/
def Cause.message : Cause → Text
  | notFound => "No such file or directory (os error 2)".toList
  | alreadyExists => "File exists (os error 17)".toList
  | notDirectory => "Not a directory (os error 20)".toList
  | isDirectory => "Is a directory (os error 21)".toList
  | nameTooLong => "File name too long (os error 36)".toList
  | notText => "stream did not contain valid UTF-8".toList
  | emptyPath => "cannot make an empty path absolute".toList
  | nullInPath => "file name contained an unexpected NUL byte".toList
  | notRegular => "the source path is neither a regular file nor a symlink to a regular file".toList
  | noTree => "failed to create whole tree".toList
  | other message => message

/-- The cause behind an error number of the system. -/
def Cause.ofNumber (number : Nat) (description : Text) : Cause :=
  match number with
  | 2 => notFound
  | 17 => alreadyExists
  | 20 => notDirectory
  | 21 => isDirectory
  | 36 => nameTooLong
  | _ => other (description ++ " (os error ".toList ++ Nat.toDigits 10 number ++ [')'])

end Files

end EntitySplit
