/-!
# `SchemaAtlas.Failure`: what can go wrong

Failures are causes. The texts that are shown for them are given by `message`; failures of the
file system are told by the system and have no text of their own here.
-/

set_option autoImplicit false

namespace SchemaAtlas

/-- Why the suggestion service gave no usable schema. -/
inductive SuggestionFault
  /-- No key for the service is set. -/
  | noKey
  /-- The request did not get through. -/
  | unreachable (reason : String)
  /-- The service refused the request. -/
  | refused (status : Nat) (reason : String)
  /-- The answer is not built as the service's answers are. -/
  | badShape
  /-- The reply holds no object. -/
  | noObject
  /-- The object lists no tables. -/
  | noTables
  deriving DecidableEq, Repr

/-- The text shown for a fault. -/
def SuggestionFault.message : SuggestionFault → String
  | noKey => "No API key configured (set GROQ_API_KEY)"
  | unreachable reason => "Suggestion request failed: " ++ reason
  | refused status reason => "Suggestion service returned " ++ toString status ++ ": " ++ reason
  | badShape => "Unexpected response shape from suggestion service"
  | noObject => "No JSON object found in suggestion response"
  | noTables => "Suggestion payload has no 'tables' list"

/-- Everything that can go wrong. -/
inductive Failure
  /-- There is no export of this name. -/
  | unknownMode (mode : String)
  /-- A file that is neither migration nor model holds nothing to read. -/
  | nothingToRead (path : String)
  /-- A session that was not loaded from a folder cannot be saved. -/
  | noRoot
  /-- There is no project folder at this path. -/
  | projectMissing (path : String)
  /-- The suggestion service gave no usable schema. -/
  | suggestion (fault : SuggestionFault)
  /-- The key for the suggestion service holds characters that cannot be sent. -/
  | unsendableKey
  /-- A whole number has too many digits. -/
  | tooManyDigits (count : Nat)
  /-- A value is used as a list of columns or as a reply and is of no such kind. -/
  | wrongKind
  /-- The calendar ends before the last of the migrations is named. -/
  | calendarEnds
  /-- The host in an address is malformed. -/
  | badHost (reason : String)
  /-- A path holds the null character. -/
  | nullInPath
  /-- The home folder of a user is not known. -/
  | noHome
  /-- A path, or a name in it, is longer than the file system allows. -/
  | nameTooLong
  /-- Data, folders or references lie in one another more deeply than is gone through. -/
  | tooDeep
  /-- The folder that a file should lie in does not exist. -/
  | folderMissing
  /-- A folder stands where a file should be. -/
  | isFolder
  /-- A file stands where a folder should be, with more of the path behind it. -/
  | notFolder
  /-- A file stands where a folder should be made. -/
  | fileInTheWay
  deriving DecidableEq, Repr

/-- The names of the exports. -/
def exportNames : List String :=
  ["sql", "typescript", "models", "migrations", "shell", "json"]

/-- The text shown for a failure. -/
def Failure.message : Failure → String
  | unknownMode mode =>
    "Unknown export mode: " ++ mode ++ ". Available: ["
      ++ ", ".intercalate (exportNames.map fun name => "'" ++ name ++ "'") ++ "]"
  | nothingToRead path => "No extractor for source kind: other (" ++ path ++ ")"
  | noRoot => "Session has no project root to save into"
  | projectMissing path => "Project directory not found: " ++ path
  | suggestion fault => fault.message
  | unsendableKey => "The API key holds characters other than ASCII"
  | tooManyDigits count =>
    "Exceeds the limit (4300 digits) for integer string conversion: value has " ++ toString count
      ++ " digits; use sys.set_int_max_str_digits() to increase the limit"
  | wrongKind => "value of the wrong kind"
  | calendarEnds => "date value out of range"
  | badHost reason => reason
  | nullInPath => "embedded null byte"
  | noHome => "Could not determine home directory."
  | nameTooLong => "File name too long"
  | tooDeep => "Nested too deeply"
  | folderMissing => "No such file or directory"
  | isFolder => "Is a directory"
  | notFolder => "Not a directory"
  | fileInTheWay => "File exists"

end SchemaAtlas
