/-!
# Failures of input and output

What can go wrong when bytes are read or written. The numbered messages are those of the operating
system.
-/

namespace DrillPost

/-- Why a file could not be read, written, created or moved. -/
inductive IoError where
  | notFound
  | alreadyExists
  | notADirectory
  | isADirectory
  | invalidArgument
  /-- The disk has no room for another byte. -/
  | noSpace
  | nameTooLong
  /-- A name with a zero byte in it never reaches the operating system. -/
  | nulInName
  /-- The content of a file is no text. -/
  | notText
  /-- Every name that could be tried for a temporary file is taken. -/
  | noFreshName
  /-- A sink has no room for another byte. -/
  | sinkFull
  /-- A sink took every byte but could not hand them on. -/
  | flushFailed
deriving DecidableEq

def IoError.message : IoError → String
  | .notFound => "No such file or directory (os error 2)"
  | .alreadyExists => "File exists (os error 17)"
  | .notADirectory => "Not a directory (os error 20)"
  | .isADirectory => "Is a directory (os error 21)"
  | .invalidArgument => "Invalid argument (os error 22)"
  | .noSpace => "No space left on device (os error 28)"
  | .nameTooLong => "File name too long (os error 36)"
  | .nulInName => "file name contained an unexpected NUL byte"
  | .notText => "stream did not contain valid UTF-8"
  | .noFreshName => "too many temporary files exist"
  | .sinkFull => "sink full"
  | .flushFailed => "flush failed"

end DrillPost
