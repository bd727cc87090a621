import ImportIndex.Text.Bytes

/-!
# Why a file cannot be used

The causes for which reading or changing files fails, and how each is put into words.
-/

namespace ImportIndex

/-- Why an operation on files failed. -/
inductive IoFault where
  /-- Nothing is there. -/
  | notFound
  /-- A directory is there, and a file is needed. -/
  | isADirectory
  /-- A file is there, and a directory is needed. -/
  | notADirectory
  /-- A name or a whole path is too long. -/
  | nameTooLong
  /-- Something is there already. -/
  | alreadyExists
  /-- The entry is in use and cannot be replaced. -/
  | busy
  /-- The directory still has entries. -/
  | notEmpty
  /-- The operation makes no sense for this path. -/
  | invalidArgument
  /-- The path holds a zero byte. -/
  | zeroByte
  /-- The content is no text. -/
  | notText
  /-- The content is no text from this place on. -/
  | notTextFrom (fault : Bytes.Utf8Fault)
  /-- Any other cause, in its own words. -/
  | other (message : String)
deriving DecidableEq, Repr

namespace IoFault

/-- The cause in words. -/
def message : IoFault → String
  | notFound => "No such file or directory (os error 2)"
  | isADirectory => "Is a directory (os error 21)"
  | notADirectory => "Not a directory (os error 20)"
  | nameTooLong => "File name too long (os error 36)"
  | alreadyExists => "File exists (os error 17)"
  | busy => "Device or resource busy (os error 16)"
  | notEmpty => "Directory not empty (os error 39)"
  | invalidArgument => "Invalid argument (os error 22)"
  | zeroByte => "file name contained an unexpected NUL byte"
  | notText => "stream did not contain valid UTF-8"
  | notTextFrom ⟨index, some width⟩ =>
    s!"invalid utf-8 sequence of {width} bytes from index {index}"
  | notTextFrom ⟨index, none⟩ => s!"incomplete utf-8 byte sequence from index {index}"
  | other message => message

end IoFault

end ImportIndex
