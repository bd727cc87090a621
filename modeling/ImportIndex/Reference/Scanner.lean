import ImportIndex.Failure
import ImportIndex.Text.Lines
import ImportIndex.Unicode.Alphabetic
import ImportIndex.Unicode.Blank
import ImportIndex.Unicode.Numeric
import ImportIndex.Unicode.Uppercase

/-!
# References in sources

Sources refer to other sources line by line. A *dotted* reference is a module name after a keyword,
as in `import qualified Data.Map as M`; it stands for the file whose path has a separator for every
dot. A *quoted* reference is a quoted path after a keyword, as in `#include "data/map.h"`; it stands
for the file with that path. What a line refers to depends on that line alone.

The keyword of dotted names, and what has to follow it, make a pattern, and the size of patterns is
limited: `Scanner.ofModules` refuses keywords that are too long. Quoted paths need no pattern.
-/

namespace ImportIndex

/-- How the sources of a family refer to other sources. -/
inductive Scanner where
  /-- Dotted module names after the keyword. The files that they stand for have this extension,
      which does not start with a dot. -/
  | dotted (keyword extension : String)
  /-- Quoted paths after the keyword. -/
  | quoted (keyword : String)
deriving DecidableEq, Repr

namespace Scanner

/-- The most bytes that a pattern may take. -/
def patternLimit : Nat := 10485760

/-- The bytes that the pattern of a keyword takes: the same for every byte of the keyword, and those
    of the character classes that follow it. -/
def patternSize (keyword : String) : Nat := 32 * keyword.utf8ByteSize + 108836

/-- A scanner for dotted names, unless the pattern of the keyword is too large. Dots at the front of
    the extension do not count. -/
def ofModules (keyword extension : String) : Except Failure Scanner :=
  if patternLimit < patternSize keyword then .error (.patternTooLarge patternLimit)
  else .ok (.dotted keyword (String.ofList (extension.toList.dropWhile (· == '.'))))

theorem ofModules_eq_error_iff {keyword extension : String} {failure : Failure} :
    ofModules keyword extension = .error failure ↔
      failure = .patternTooLarge patternLimit ∧ patternLimit < patternSize keyword := by
  unfold ofModules
  split <;> simp_all [eq_comm]

/-- The characters of a dotted name. -/
def isNameChar (c : Char) : Bool :=
  Unicode.isAlphabetic c || Unicode.isNumeric c || c == '.' || c == '_'

/-- The dotted name that a line refers to: the keyword starts the line, white space follows it, and
    the name is the run of name characters from the first uppercase letter on. Words before that
    letter are skipped. -/
def dottedReference? (keyword line : List Char) : Option (List Char) :=
  if keyword.isPrefixOf line then
    match line.drop keyword.length with
    | [] => none
    | c :: rest =>
      if Unicode.isBlank c then
        match rest.dropWhile (!Unicode.isUppercase ·) with
        | [] => none
        | first :: more => some (first :: more.takeWhile isNameChar)
      else none
  else none

/-- The quoted path that a line refers to: the line has exactly two words, the keyword and the path
    in double quotes. -/
def quotedReference? (keyword line : List Char) : Option (List Char) :=
  match Unicode.words line with
  | [first, '"' :: rest] =>
    if first = keyword ∧ rest.getLast? = some '"' then some rest.dropLast else none
  | _ => none

/-- What a line refers to. -/
def reference? : Scanner → List Char → Option (List Char)
  | dotted keyword _, line => dottedReference? keyword.toList line
  | quoted keyword, line => quotedReference? keyword.toList line

/-- The references of a text, in their order. -/
def references (s : Scanner) (text : String) : List String :=
  (Lines.split text.toList).filterMap fun line => (s.reference? line).map String.ofList

/-- The path, from a search root, of the file that a reference stands for. -/
def candidate : Scanner → String → Path
  | dotted _ extension, reference =>
    Path.ofText
      (String.ofList (reference.toList.map fun c => if c = '.' then '/' else c) ++ "." ++ extension)
  | quoted _, reference => Path.ofText reference

example : (dotted "import" "hs").references "import qualified Data.Map as M\n-- import X" =
    ["Data.Map"] := by decide +kernel

example : (quoted "#include").references "#include \"a/b.h\"\n#include <c.h>" = ["a/b.h"] := by
  decide +kernel

end Scanner

end ImportIndex
