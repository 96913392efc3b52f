import SchemaAtlas.Text.Lines

/-!
# `SchemaAtlas.Export.Script`: files as a setup script

A shell script writes a set of files. Each file's content stands in the script as a quoted
document, in which the shell expands nothing, up to a line that is equal to its mark; the mark
is chosen so that no line of the content is equal to it. A document ends in a line break, so
content that does not is passed through a substitution that takes the break off again.
-/

set_option autoImplicit false

namespace SchemaAtlas.Export

/-- Characters that mean nothing to the shell. -/
def isPlain (c : Char) : Bool :=
  (c.toNat < 128 && c.isAlphanum) || "_@%+=:,./-".toList.contains c

/-- A text as one word of the shell: as it is if it is plain, else between single quotes, with
each single quote of its own between double quotes. -/
def shellWord (s : String) : String :=
  if s = "" then "''"
  else if s.toList.all isPlain then s
  else
    String.ofList
      ('\'' :: s.toList.flatMap (fun c => if c = '\'' then "'\"'\"'".toList else [c]) ++ ['\''])

/-- The marks that may end a document, one after another. -/
def mark (n : Nat) : String :=
  if n = 0 then "EOF" else "EOF_" ++ toString n

/-- The first mark that is not a line of the content. Among one more marks than lines there is
one. -/
def markFor (content : String) : String :=
  let lines := Text.cut '\n' content
  (((List.range (lines.length + 1)).map mark).find? fun m => !lines.contains m).getD (mark 0)

/-- Holds when the text ends with a line break. -/
def endsLine (s : String) : Bool :=
  s.toList.getLast? == some '\n'

/-- The instruction that writes content to a file, given as a word of the shell. -/
def writeInstruction (target content : String) : String :=
  if content = "" then ": > " ++ target ++ "\n"
  else
    let mark := markFor content
    if endsLine content then
      "cat <<'" ++ mark ++ "' > " ++ target ++ "\n" ++ content ++ mark ++ "\n"
    else
      "printf '%s' \"$(cat <<'" ++ mark ++ "'\n" ++ content ++ "\n" ++ mark ++ "\n)\" > "
        ++ target ++ "\n"

/-- The path without slashes in front. -/
def relativePath (path : String) : String :=
  String.ofList (path.toList.dropWhile fun c => c == '/')

/-- The instructions for one file: tell of it, make its folder, write it. -/
def fileInstructions (path content : String) : String :=
  let relative := relativePath path
  let target := shellWord relative
  "echo " ++ shellWord ("Creating " ++ relative ++ "...") ++ "\nmkdir -p \"$(dirname " ++ target
    ++ ")\"\n"
    ++ writeInstruction target content ++ "\n"

/-- What comes before the files. -/
def scriptOpening (title : String) : String :=
  "#!/bin/bash\n\n# " ++ title ++ " Setup Script\n# Run this in your Laravel project root\n\n"

/-- What comes after the files. -/
def scriptClosing : String :=
  "echo \"Done! Don't forget to run 'php artisan migrate'\"\n"

/-- The title of scripts that are made without one. -/
def usualTitle : String := "LaraFlow"

/-- The script that writes some files, given as path and content. -/
def script (title : String) (files : List (String × String)) : String :=
  scriptOpening title ++ String.join (files.map fun f => fileInstructions f.1 f.2)
    ++ scriptClosing

end SchemaAtlas.Export
