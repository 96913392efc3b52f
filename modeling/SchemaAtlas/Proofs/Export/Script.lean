import Mathlib.Data.List.Nodup
import Mathlib.Data.List.Perm.Subperm
import SchemaAtlas.Proofs.Export.Shell
import SchemaAtlas.Proofs.Text.Case
import SchemaAtlas.Proofs.Text.Lines

/-!
# `SchemaAtlas.Proofs.Export.Script`: a setup script writes its files

A shell that carries out the setup script of some files is asked to write these files,
in their order, each with its content (`writes_script`). Three ways of writing have to be
undone for that: an empty file is made by a command that says nothing, a text that ends in
a line break is the input of a command, and of any other text the line break that an input
ends in is taken off again.

An input ends at the first line that is equal to its mark, so the mark must be none of the
lines of the content. Marks are distinct (`eq_of_mark_eq`), so one of more marks than there
are lines is free, and the first free one is taken (`exists_markFor`).
-/

set_option autoImplicit false

namespace SchemaAtlas.Export

open Shell Text

/-! ### Marks -/

/-- Every mark but the first is the first one with a number behind it. -/
theorem toList_mark_succ (n : Nat) :
    (mark (n + 1)).toList = "EOF_".toList ++ Nat.toDigits 10 (n + 1) := by
  rw [mark, if_neg (Nat.add_one_ne_zero n), String.toList_append, Nat.toString_eq_repr,
    Nat.toList_repr]

/-- Marks are distinct: the first has no number, and of two others the numbers can be read
off. -/
theorem eq_of_mark_eq {m n : Nat} (h : mark m = mark n) : m = n := by
  have hne : ∀ k, mark 0 ≠ mark (k + 1) := by
    intro k heq
    have hlist := congrArg String.toList heq
    rw [toList_mark_succ] at hlist
    cases hlist
  cases m with
  | zero =>
      cases n with
      | zero => rfl
      | succ n => exact absurd h (hne n)
  | succ m =>
      cases n with
      | zero => exact absurd h.symm (hne m)
      | succ n =>
          have hlist := congrArg String.toList h
          rw [toList_mark_succ, toList_mark_succ] at hlist
          -- behind the name that all marks share, the digits tell the number
          have hdigits := List.append_cancel_left hlist
          have hnumber := congrArg (fun ds => Nat.ofDigitChars 10 ds 0) hdigits
          simpa using hnumber

/-- The search for a mark ends, and with the first one that is no line of the content. -/
theorem exists_markFor (content : String) : ∃ n, markFor content = mark n
    ∧ mark n ∉ cut '\n' content ∧ ∀ m < n, mark m ∈ cut '\n' content := by
  let lines := cut '\n' content
  let free : Nat → Bool := fun n => !lines.contains (mark n)
  have hfree : ∃ n ∈ List.range (lines.length + 1), free n = true := by
    -- otherwise there would be more marks among the lines than lines
    refine Decidable.byContradiction fun hno => ?_
    have hsub : (List.range (lines.length + 1)).map mark ⊆ lines := by
      intro s hs
      obtain ⟨n, hn, rfl⟩ := List.mem_map.mp hs
      refine Decidable.byContradiction fun hmem => hno ⟨n, hn, ?_⟩
      simpa [free] using hmem
    have hnodup : ((List.range (lines.length + 1)).map mark).Nodup :=
      List.nodup_range.map fun _ _ => eq_of_mark_eq
    have hle := (hnodup.subperm hsub).length_le
    rw [List.length_map, List.length_range] at hle
    omega
  obtain ⟨n, hn⟩ := Option.isSome_iff_exists.mp (List.find?_isSome.mpr hfree)
  obtain ⟨hfound, -, hbefore⟩ := List.find?_range_eq_some.mp hn
  refine ⟨n, ?_, by simpa [free] using hfound, fun m hm => by simpa [free] using hbefore m hm⟩
  show (((List.range (lines.length + 1)).map mark).find? fun m => !lines.contains m).getD (mark 0)
    = mark n
  rw [List.find?_map]
  show ((List.find? free (List.range (lines.length + 1))).map mark).getD (mark 0) = mark n
  rw [hn]
  rfl

/-- Marks are made of plain characters, so a mark means itself wherever it stands in a
line. -/
theorem isPlain_of_mem_mark {n : Nat} {c : Char} (hc : c ∈ (mark n).toList) :
    isPlain c = true := by
  have hletters : ∀ d ∈ "EOF_".toList, isPlain d = true := List.all_eq_true.mp (by decide)
  cases n with
  | zero => exact hletters c (List.mem_append_left ['_'] hc)
  | succ n =>
      rw [toList_mark_succ] at hc
      rcases List.mem_append.mp hc with hc | hc
      · exact hletters c hc
      · have hdigit : c.isDigit = true := Nat.isDigit_of_mem_toDigits (by decide) (by decide) hc
        simp [isPlain, Char.isAlphanum, hdigit, toNat_lt_of_isDigit hdigit]

/-! ### The lines of a script, read -/

section Tokens

variable (w mark : String)

/-- A line that ends with a quoted word has this word as its last token, whatever characters
the word is made of. -/
theorem tokens?_append_shellWord {front : List Char} {tokens : List Token}
    (hfront : Reader.read? {} front = some { tokens := tokens }) :
    tokens? (front ++ (shellWord w).toList) = some (tokens ++ [.word w]) := by
  rw [tokens?, Reader.read?_append, hfront, Option.bind_some, Reader.read?_shellWord,
    Option.bind_some]
  simp [Reader.finish?, Reader.flushed]

/-- The line that names a file on the screen is the command `echo` with one word. -/
theorem tokens?_echo :
    tokens? ("echo ".toList ++ (shellWord w).toList) = some [.word "echo", .word w] := by
  have hfront : Reader.read? {} "echo ".toList = some { tokens := [.word "echo"] } := by
    simp only [String.reduceToList]
    rfl
  exact tokens?_append_shellWord w hfront

/-- The line that makes the folder of a file is the command `mkdir -p` with what a second
command, between brackets, gives as its word. -/
theorem tokens?_makeFolder :
    tokens? ("mkdir -p \"$(dirname ".toList ++ (shellWord w).toList ++ ")\"".toList)
      = some [.word "mkdir", .word "-p", .opened, .word "dirname", .word w, .closed] := by
  have hname : Reader.read? {} "mkdir -p \"$(dirname ".toList
      = some { tokens := [.word "mkdir", .word "-p", .opened, .word "dirname"] } := by
    simp only [String.reduceToList]
    rfl
  rw [tokens?, List.append_assoc, Reader.read?_append, hname, Option.bind_some,
    Reader.read?_append, Reader.read?_shellWord, Option.bind_some]
  simp [Reader.read?, Reader.next?, Reader.nextBare?, Reader.finish?, Reader.flushed]

/-- The line that makes an empty file is the command that does nothing, with its output
going into the file. -/
theorem tokens?_clear :
    tokens? (": > ".toList ++ (shellWord w).toList) = some [.word ":", .into, .word w] := by
  have hfront : Reader.read? {} ": > ".toList = some { tokens := [.word ":", .into] } := by
    simp only [String.reduceToList]
    rfl
  exact tokens?_append_shellWord w hfront

variable (hmark : '\'' ∉ mark.toList)

include hmark

/-- The line before the content of a file is the command `cat`, with an input that ends at
the mark and its output going into the file. -/
theorem tokens?_document :
    tokens? ("cat <<'".toList ++ mark.toList ++ "' > ".toList ++ (shellWord w).toList)
    = some [.word "cat", .document, .word mark, .into, .word w] := by
  have hname : Reader.read? {} "cat <<'".toList
      = some { tokens := [.word "cat", .document], word? := some [], place := .single } := by
    simp only [String.reduceToList]
    rfl
  have hinto : Reader.read?
      { tokens := [.word "cat", .document], word? := some mark.toList, place := .single }
      "' > ".toList
        = some { tokens := [.word "cat", .document, .word mark, .into] } := by
    simp [Reader.read?, Reader.next?, Reader.nextBare?, Reader.flushed]
  rw [tokens?, List.append_assoc, List.append_assoc, Reader.read?_append, hname, Option.bind_some,
    Reader.read?_append, Reader.read?_single hmark, Option.bind_some, List.nil_append,
    Reader.read?_append, hinto, Option.bind_some, Reader.read?_shellWord, Option.bind_some]
  simp [Reader.finish?, Reader.flushed]

/-- The line before a content without a last line break opens a group, in which `cat` reads
an input that ends at the mark. -/
theorem tokens?_substitution :
    tokens? ("printf '%s' \"$(cat <<'".toList ++ mark.toList ++ "'".toList)
    = some [.word "printf", .word "%s", .opened, .word "cat", .document, .word mark] := by
  have hname : Reader.read? {} "printf '%s' \"$(cat <<'".toList
      = some { tokens := [.word "printf", .word "%s", .opened, .word "cat", .document]
               word? := some []
               place := .single } := by
    simp only [String.reduceToList]
    rfl
  rw [tokens?, List.append_assoc, Reader.read?_append, hname, Option.bind_some,
    Reader.read?_append, Reader.read?_single hmark, Option.bind_some]
  simp [Reader.read?, Reader.next?, Reader.finish?, Reader.flushed]

omit hmark

/-- The line behind such a content closes the group and names the file that the output goes
into. -/
theorem tokens?_closing :
    tokens? (")\" > ".toList ++ (shellWord w).toList) = some [.closed, .into, .word w] := by
  have hfront : Reader.read? {} ")\" > ".toList = some { tokens := [.closed, .into] } := by
    simp only [String.reduceToList]
    rfl
  exact tokens?_append_shellWord w hfront

/-- A line that begins with `#` is a remark, and has no tokens whatever it says. -/
theorem tokens?_remark (cs : List Char) : tokens? ('#' :: cs) = some [] := by
  have hremark : ∀ r : Reader, r.place = .remark → r.read? cs = some r := by
    intro r hr
    induction cs with
    | nil => rfl
    | cons c cs ih =>
        have hnext : r.next? c = some r := by
          rw [Reader.next?, hr]
        rw [Reader.read?_cons, hnext, Option.bind_some, ih]
  have hfirst : Reader.next? {} '#' = some { place := .remark } := by decide
  rw [tokens?, Reader.read?_cons, hfirst, Option.bind_some, hremark _ rfl]
  rfl

end Tokens

/-! ### What the lines do -/

/-- Naming a file on the screen writes no file. The word must not begin as an option, which
would change what the command does. -/
theorem writes_echo {w : String} (hw : isOption w = false) :
    Writes ["echo ".toList ++ (shellWord w).toList] [] := by
  have heffects : effects? [.word "echo", .word w] = some [.tell (w ++ "\n")] := by
    simp [effects?, substituted?, hw]
  exact writes_command (tokens?_echo w) rfl rfl heffects

/-- Making the folder of a file writes no file. -/
theorem writes_makeFolder (w : String) :
    Writes ["mkdir -p \"$(dirname ".toList ++ (shellWord w).toList ++ ")\"".toList] [] := by
  let folder := stripped (if isOption w then "" else folderOf w ++ "\n")
  let effects : List Effect := if folder = "" || isOption folder then [] else [.makeFolder folder]
  -- a folder without a name is not made: `dirname` says nothing of a path that it takes for an
  -- option
  have heffects : effects? [.word "mkdir", .word "-p", .opened, .word "dirname", .word w, .closed]
      = some effects := by
    simp [effects?, substituted?, effects, folder]
  have hnone : effects.filterMap Effect.written? = [] := by
    show (if _ then [] else [Effect.makeFolder folder]).filterMap Effect.written? = []
    split <;> rfl
  rw [← hnone]
  exact writes_command (tokens?_makeFolder w) rfl rfl heffects

section Content

variable {path : String} (hpath : path ≠ "")

include hpath

/-- A command that says nothing makes an empty file, which is how a file without content is
written. -/
theorem writes_clear : Writes [": > ".toList ++ (shellWord path).toList] [(path, "")] := by
  have heffects : effects? [.word ":", .into, .word path] = some [.write path ""] := by
    simp [effects?, substituted?, hpath]
  exact writes_command (tokens?_clear path) rfl rfl heffects

/-- An input is written as it stands, with the line break that it ends in. -/
theorem writes_document {mark : String} (hquote : '\'' ∉ mark.toList) {lines : List (List Char)}
    (hmark : mark.toList ∉ lines) :
    Writes (["cat <<'".toList ++ mark.toList ++ "' > ".toList ++ (shellWord path).toList] ++ lines
      ++ [mark.toList])
      [(path, String.ofList (unlines '\n' lines))] := by
  have hnext : (State.command []).next?
      ("cat <<'".toList ++ mark.toList ++ "' > ".toList ++ (shellWord path).toList)
      = some (.document [.word "cat"] mark [] [.into, .word path], []) := by
    rw [State.next?, tokens?_document path mark hquote]
    simp [begin?]
  have hend : settle?
      ([.word "cat"] ++ .input (String.ofList ([] ++ unlines '\n' lines)) :: [.into, .word path])
      = some (.command [], [.write path (String.ofList (unlines '\n' lines))]) := by
    simp [settle?, effects?, substituted?, hpath]
  -- the line for the input opens it, and with its mark the command is complete
  apply writes_file
  intro rest
  rw [List.append_assoc, List.append_assoc, List.singleton_append, List.singleton_append,
    State.run?_cons hnext, State.run?_document hmark hend, Option.map_map]
  rfl

/-- An input in a substitution is written without the line breaks that it ends in. -/
theorem writes_substitution {mark : String} (hquote : '\'' ∉ mark.toList)
    {lines : List (List Char)}
    (hmark : mark.toList ∉ lines) :
    Writes (["printf '%s' \"$(cat <<'".toList ++ mark.toList ++ "'".toList] ++ lines
        ++ [mark.toList, ")\" > ".toList ++ (shellWord path).toList])
      [(path, stripped (String.ofList (unlines '\n' lines)))] := by
  let text := String.ofList (unlines '\n' lines)
  have hnext : (State.command []).next?
      ("printf '%s' \"$(cat <<'".toList ++ mark.toList ++ "'".toList)
      = some (.document [.word "printf", .word "%s", .opened, .word "cat"] mark [] [], []) := by
    rw [State.next?, tokens?_substitution mark hquote]
    simp [begin?]
  have hend : settle? ([.word "printf", .word "%s", .opened, .word "cat"]
        ++ .input (String.ofList ([] ++ unlines '\n' lines)) :: [])
      = some (.command [.word "printf", .word "%s", .opened, .word "cat", .input text], []) := by
    simp [settle?, text]
  have hclose :
      (State.command [.word "printf", .word "%s", .opened, .word "cat", .input text]).next?
        (")\" > ".toList ++ (shellWord path).toList)
      = some (.command [], [.write path (stripped text)]) := by
    rw [State.next?, tokens?_closing]
    simp [begin?, settle?, effects?, substituted?, hpath]
  -- behind the mark the substitution is still open, and the last line closes it
  apply writes_file
  intro rest
  rw [List.append_assoc, List.append_assoc, List.singleton_append, List.cons_append,
    List.singleton_append, State.run?_cons hnext, State.run?_document hmark hend,
    State.run?_cons hclose, Option.map_map, Option.map_map]
  rfl

end Content

/-! ### The instructions of a file -/

/-- The lines of the instruction that writes content to a file, given as a word of the shell. -/
def writeLines (target content : String) : List (List Char) :=
  let mark := (markFor content).toList
  if content = "" then [": > ".toList ++ target.toList]
  else if endsLine content then
    ["cat <<'".toList ++ mark ++ "' > ".toList ++ target.toList]
      ++ cutChars '\n' content.toList.dropLast ++ [mark]
  else
    ["printf '%s' \"$(cat <<'".toList ++ mark ++ "'".toList] ++ cutChars '\n' content.toList
      ++ [mark, ")\" > ".toList ++ target.toList]

/-- Content that ends a line is a text and its last line break, which the line of the mark
stands behind. -/
theorem eq_of_endsLine {content : String} (h : endsLine content = true) :
    content.toList = content.toList.dropLast ++ ['\n'] := by
  obtain ⟨cs, hcs⟩ := List.getLast?_eq_some_iff.mp (beq_iff_eq.mp h)
  rw [hcs, List.dropLast_concat]

/-- Behind its last line break, such content has an empty line, which is not written as a
line of its own. -/
theorem cutChars_of_endsLine {content : String} (h : endsLine content = true) :
    cutChars '\n' content.toList = cutChars '\n' content.toList.dropLast ++ [[]] := by
  have hcut := cutChars_unlines fun piece (hp : piece ∈ cutChars '\n' content.toList.dropLast) =>
    notMem_of_mem_cutChars hp
  rw [unlines_cutChars, ← eq_of_endsLine h] at hcut
  exact hcut

/-- The instruction that writes a file is made of its lines, each with a line break behind
it. -/
theorem toList_writeInstruction (target content : String) :
    (writeInstruction target content).toList = unlines '\n' (writeLines target content) := by
  rw [writeInstruction, writeLines]
  split
  · simp [unlines]
  · cases hends : endsLine content with
    | true =>
        have hbody : unlines '\n' (cutChars '\n' content.toList.dropLast) = content.toList := by
          rw [unlines_cutChars, ← eq_of_endsLine hends]
        simp only [if_true, String.toList_append, unlines_append, hbody]
        simp [unlines]
    | false =>
        simp only [Bool.false_eq_true, if_false, String.toList_append, unlines_append,
          unlines_cutChars]
        simp [unlines]

/-- The line break that is put behind a text which does not end in one is taken off again. -/
theorem stripped_append_break {content : String} (hempty : content ≠ "")
    (h : endsLine content = false) :
    stripped (String.ofList (content.toList ++ ['\n'])) = content := by
  obtain ⟨cs, c, hcs⟩ :=
    (List.eq_nil_or_concat' content.toList).resolve_left (by simpa using hempty)
  have hc : c ≠ '\n' := by
    rintro rfl
    rw [endsLine, hcs, List.getLast?_concat] at h
    cases h
  have hlist : ((cs ++ [c] ++ ['\n']).reverse.dropWhile fun c => c == '\n').reverse
      = cs ++ [c] := by
    simp [hc]
  rw [stripped, String.toList_ofList, hcs, hlist, ← hcs, String.ofList_toList]

/-- A character that is not plain is in no mark. -/
theorem notMem_mark {content : String} {c : Char} (hc : isPlain c = false) :
    c ∉ (markFor content).toList := by
  obtain ⟨n, hn, -, -⟩ := exists_markFor content
  intro hmem
  rw [hn] at hmem
  rw [isPlain_of_mem_mark hmem] at hc
  cases hc

/-- The mark is none of the lines of the content, so the input goes on to the end of the
content. -/
theorem mark_notMem_cutChars (content : String) :
    (markFor content).toList ∉ cutChars '\n' content.toList := by
  obtain ⟨n, hn, hfree, -⟩ := exists_markFor content
  rw [hn]
  intro hmem
  refine hfree ?_
  rw [cut]
  exact List.mem_map.mpr ⟨_, hmem, String.ofList_toList⟩

/-- The instruction writes the content, byte for byte. There are three kinds of content:
none, one that ends a line, and any other. -/
theorem writes_writeLines {path : String} (hpath : path ≠ "") (content : String) :
    Writes (writeLines (shellWord path) content) [(path, content)] := by
  have hquote : '\'' ∉ (markFor content).toList := notMem_mark (by decide)
  have hmark := mark_notMem_cutChars content
  rw [writeLines]
  split
  · rename_i hempty
    rw [hempty]
    exact writes_clear hpath
  · rename_i hempty
    split
    · rename_i hends
      -- the empty line behind the last break is no line of the input
      rw [cutChars_of_endsLine hends] at hmark
      have hbody : (markFor content).toList ∉ cutChars '\n' content.toList.dropLast :=
        fun hmem => hmark (List.mem_append_left _ hmem)
      have hwrites := writes_document hpath hquote hbody
      rw [unlines_cutChars, ← eq_of_endsLine hends, String.ofList_toList] at hwrites
      exact hwrites
    · rename_i hends
      -- the input has one line break more than the content, and loses it
      have hwrites := writes_substitution hpath hquote hmark
      rw [unlines_cutChars, stripped_append_break hempty (Bool.eq_false_iff.mpr hends)] at hwrites
      exact hwrites

/-- The lines of the instructions for a file. -/
def fileLines (path content : String) : List (List Char) :=
  let relative := relativePath path
  ["echo ".toList ++ (shellWord ("Creating " ++ relative ++ "...")).toList]
    ++ ["mkdir -p \"$(dirname ".toList ++ (shellWord relative).toList ++ ")\"".toList]
    ++ writeLines (shellWord relative) content ++ [[]]

/-- The instructions for a file are made of their lines, each with a line break behind
it. -/
theorem toList_fileInstructions (path content : String) :
    (fileInstructions path content).toList = unlines '\n' (fileLines path content) := by
  simp only [fileInstructions, fileLines, String.toList_append, unlines_append,
    toList_writeInstruction]
  simp [unlines]

/-- An empty line writes no file. -/
theorem writes_empty : Writes [[]] [] :=
  writes_line (show (State.command []).next? [] = some (.command [], []) by decide)

/-- A remark writes no file, whatever it says. -/
theorem writes_remark (cs : List Char) : Writes ['#' :: cs] [] := by
  have hnext : (State.command []).next? ('#' :: cs) = some (.command [], []) := by
    rw [State.next?, tokens?_remark]
    rfl
  exact writes_line hnext

/-- The instructions for a file write it, and nothing else: its name on the screen and its
folder come before. -/
theorem writes_fileLines {path : String} (hpath : relativePath path ≠ "") (content : String) :
    Writes (fileLines path content) [(relativePath path, content)] := by
  have hoption : isOption ("Creating " ++ relativePath path ++ "...") = false := by
    simp [isOption]
  exact (((writes_echo hoption).append (writes_makeFolder _)).append
    (writes_writeLines hpath content)).append writes_empty

/-! ### The script -/

/-- The lines in front of the files. -/
def openingLines (title : String) : List (List Char) :=
  ["#!/bin/bash".toList] ++ [[]] ++ ["# ".toList ++ title.toList ++ " Setup Script".toList]
    ++ ["# Run this in your Laravel project root".toList] ++ [[]]

/-- The line behind the files. -/
def closingLine : List Char :=
  "echo \"Done! Don't forget to run 'php artisan migrate'\"".toList

/-- The lines of a script. -/
def scriptLines (title : String) (files : List (String × String)) : List (List Char) :=
  openingLines title ++ files.flatMap (fun f => fileLines f.1 f.2) ++ [closingLine]

/-- The head of the script is made of its lines, each with a line break behind it. -/
theorem toList_scriptOpening (title : String) :
    (scriptOpening title).toList = unlines '\n' (openingLines title) := by
  have hfront : "#!/bin/bash\n\n# ".toList = "#!/bin/bash".toList ++ ['\n'] ++ ['\n']
      ++ "# ".toList := by
    simp only [String.reduceToList]
    rfl
  have hback : " Setup Script\n# Run this in your Laravel project root\n\n".toList
      = " Setup Script".toList ++ ['\n'] ++ "# Run this in your Laravel project root".toList
        ++ ['\n'] ++ ['\n'] := by
    simp only [String.reduceToList]
    rfl
  show ("#!/bin/bash\n\n# " ++ title
    ++ " Setup Script\n# Run this in your Laravel project root\n\n").toList = _
  rw [String.toList_append, String.toList_append, hfront, hback, openingLines]
  simp only [unlines_append, unlines_cons, unlines_nil, List.append_nil, List.nil_append,
    List.append_assoc]

/-- The script is made of its lines, those of each file in order between its head and its
last line. -/
theorem toList_script (title : String) (files : List (String × String)) :
    (script title files).toList = unlines '\n' (scriptLines title files) := by
  have hfiles : (String.join (files.map fun f => fileInstructions f.1 f.2)).toList
      = unlines '\n' (files.flatMap fun f => fileLines f.1 f.2) := by
    induction files with
    | nil => rfl
    | cons f files ih =>
        rw [List.map_cons, String.join_cons, String.toList_append, ih, toList_fileInstructions,
          List.flatMap_cons, unlines_append]
  have hclosing : scriptClosing.toList = unlines '\n' [closingLine] := by
    delta scriptClosing closingLine
    simp only [String.reduceToList]
    rfl
  rw [script, String.toList_append, String.toList_append, toList_scriptOpening, hfiles, hclosing,
    scriptLines, unlines_append, unlines_append]

/-- The head of the script writes no file: it has remarks and empty lines only. -/
theorem writes_openingLines (title : String) : Writes (openingLines title) [] :=
  ((((writes_remark "!/bin/bash".toList).append writes_empty).append
    (writes_remark (" ".toList ++ title.toList ++ " Setup Script".toList))).append
      (writes_remark " Run this in your Laravel project root".toList)).append writes_empty

/-- The last line of the script writes no file. -/
theorem writes_closingLine : Writes [closingLine] [] := by
  have htokens : tokens? closingLine
      = some [.word "echo", .word "Done! Don't forget to run 'php artisan migrate'"] := by
    delta closingLine
    simp only [String.reduceToList]
    rfl
  have hnext : (State.command []).next? closingLine
      = some (.command [], [.tell "Done! Don't forget to run 'php artisan migrate'\n"]) := by
    rw [State.next?, htokens]
    decide +kernel
  exact writes_line hnext

/-- The lines of the script write the files, in order. Each path loses the slashes in front,
and must not be empty without them. -/
theorem writes_scriptLines (title : String) {files : List (String × String)}
    (hfiles : ∀ f ∈ files, relativePath f.1 ≠ "") :
    Writes (scriptLines title files) (files.map fun f => (relativePath f.1, f.2)) := by
  have hbody : Writes (files.flatMap fun f => fileLines f.1 f.2)
      (files.map fun f => (relativePath f.1, f.2)) := by
    induction files with
    | nil => exact writes_nil
    | cons f files ih =>
        exact (writes_fileLines (hfiles f List.mem_cons_self) f.2).append
          (ih fun g hg => hfiles g (List.mem_cons_of_mem f hg))
  have hall := ((writes_openingLines title).append hbody).append writes_closingLine
  rw [List.nil_append, List.append_nil] at hall
  exact hall

/-! ### Characters that are in no line -/

section Apart

variable {c : Char} (hc : c = '\n' ∨ c = '\x00')

include hc

/-- A character other than those that quoting adds is in the quoted word only if it is in
the word. -/
theorem notMem_shellWord {s : String} (h : c ∉ s.toList) : c ∉ (shellWord s).toList := by
  -- quoting adds quotes and nothing else
  have hcode : c ∉ "'\"'\"'".toList := by
    rcases hc with rfl | rfl
    · decide
    · decide
  have hquote : c ≠ '\'' := fun heq => hcode (heq ▸ List.mem_cons_self)
  rw [shellWord]
  split
  · simpa using hquote
  · split
    · exact h
    · rw [String.toList_ofList, List.mem_append, List.mem_cons, List.mem_singleton,
        List.mem_flatMap]
      rintro ((heq | ⟨d, hd, hmem⟩) | heq)
      · exact hquote heq
      · split at hmem
        · exact hcode hmem
        · exact h (List.mem_singleton.mp hmem ▸ hd)
      · exact hquote heq

/-- A character other than those of the instruction itself is in none of its lines if
neither the target nor the content has it. -/
theorem notMem_writeLines {target content : String} (htarget : c ∉ target.toList)
    (hcontent : ∀ line ∈ cutChars '\n' content.toList, c ∉ line) :
    ∀ line ∈ writeLines target content, c ∉ line := by
  have hmark : c ∉ (markFor content).toList :=
    notMem_mark (by rcases hc with rfl | rfl <;> decide)
  intro line hline
  -- an empty content, one that ends its last line, and one that does not
  rw [writeLines] at hline
  split at hline
  · rw [List.mem_singleton.mp hline]
    rcases hc with rfl | rfl <;> simpa using htarget
  · split at hline
    · rename_i hends
      rw [cutChars_of_endsLine hends] at hcontent
      simp only [List.mem_append, List.mem_singleton] at hline
      rcases hline with (rfl | hbody) | rfl
      · rcases hc with rfl | rfl <;> simp [hmark, htarget]
      · exact hcontent line (List.mem_append_left _ hbody)
      · exact hmark
    · simp only [List.mem_append, List.mem_cons, List.not_mem_nil, or_false] at hline
      rcases hline with (rfl | hbody) | rfl | rfl
      · rcases hc with rfl | rfl <;> simp [hmark]
      · exact hcontent line hbody
      · exact hmark
      · rcases hc with rfl | rfl <;> simp [htarget]

/-- A character other than those of the instructions themselves is in none of their lines if
neither path nor content has it. -/
theorem notMem_fileLines {path content : String} (hpath : c ∉ path.toList)
    (hcontent : ∀ line ∈ cutChars '\n' content.toList, c ∉ line) :
    ∀ line ∈ fileLines path content, c ∉ line := by
  have hrelative : c ∉ (relativePath path).toList := by
    rw [relativePath, String.toList_ofList]
    exact fun hmem => hpath ((List.dropWhile_sublist _).subset hmem)
  have hword := notMem_shellWord hc hrelative
  have htold : c ∉ (shellWord ("Creating " ++ relativePath path ++ "...")).toList := by
    refine notMem_shellWord hc ?_
    rcases hc with rfl | rfl <;> simp [hrelative]
  intro line hline
  rw [fileLines] at hline
  simp only [List.mem_append, List.mem_singleton] at hline
  rcases hline with ((rfl | rfl) | hwrite) | rfl
  · rcases hc with rfl | rfl <;> simp [htold]
  · rcases hc with rfl | rfl <;> simp [hword]
  · exact notMem_writeLines hc hword hcontent line hwrite
  · exact List.not_mem_nil

/-- A character other than those of the script itself is in none of its lines if no title,
path or content has it. -/
theorem notMem_scriptLines {title : String} (htitle : c ∉ title.toList)
    {files : List (String × String)}
    (hpaths : ∀ f ∈ files, c ∉ f.1.toList)
    (hcontents : ∀ f ∈ files, ∀ line ∈ cutChars '\n' f.2.toList, c ∉ line) :
    ∀ line ∈ scriptLines title files, c ∉ line := by
  intro line hline
  rw [scriptLines] at hline
  simp only [List.mem_append, List.mem_singleton, List.mem_flatMap] at hline
  rcases hline with (hopening | ⟨f, hf, hline⟩) | rfl
  · simp only [openingLines, List.mem_append, List.mem_singleton] at hopening
    rcases hopening with (((rfl | rfl) | rfl) | rfl) | rfl
    all_goals rcases hc with rfl | rfl <;> simp [htitle]
  · exact notMem_fileLines hc (hpaths f hf) (hcontents f hf) line hline
  · rcases hc with rfl | rfl
    · decide
    · decide

end Apart

/-- A shell that carries out the script of some files writes them, in order, each with its
content, and each mark is the first one that is no line of the content. -/
theorem writes_script {title : String} (htitle : '\n' ∉ title.toList ∧ '\x00' ∉ title.toList)
    {files : List (String × String)}
    (hpaths : ∀ f ∈ files, '\n' ∉ f.1.toList ∧ '\x00' ∉ f.1.toList ∧ relativePath f.1 ≠ "")
    (hcontents : ∀ f ∈ files, '\x00' ∉ f.2.toList) :
    writes? (script title files) = some (files.map fun f => (relativePath f.1, f.2))
      ∧ ∀ f ∈ files, ∃ n, markFor f.2 = mark n ∧ mark n ∉ cut '\n' f.2 ∧ ∀ m < n,
        mark m ∈ cut '\n' f.2 := by
  refine ⟨?_, fun f _ => exists_markFor f.2⟩
  have hbreaks : ∀ line ∈ scriptLines title files, '\n' ∉ line :=
    notMem_scriptLines (.inl rfl) htitle.1 (fun f hf => (hpaths f hf).1) fun f _ line hline =>
      notMem_of_mem_cutChars hline
  have hnulls : ∀ line ∈ scriptLines title files, '\x00' ∉ line := by
    refine notMem_scriptLines (.inr rfl) htitle.2 (fun f hf => (hpaths f hf).2.1)
      fun f hf line hline hmem => ?_
    refine hcontents f hf ?_
    have hlines : '\x00' ∈ unlines '\n' (cutChars '\n' f.2.toList) :=
      List.mem_flatMap.mpr ⟨line, hline, List.mem_append_left _ hmem⟩
    rw [unlines_cutChars] at hlines
    simpa using hlines
  -- no line has a break in it, so the script is cut into the lines that it was made of
  refine (writes_scriptLines title fun f hf => (hpaths f hf).2.2).writes? ?_ ?_
  · rw [toList_script, cutChars_unlines hbreaks]
  · rw [toList_script, unlines, List.mem_flatMap]
    rintro ⟨line, hline, hmem⟩
    rcases List.mem_append.mp hmem with hmem | hmem
    · exact hnulls line hline hmem
    · exact absurd hmem (by decide)

/-- Files with the mark among their lines, with no line break at the end, without content,
and with several line breaks at the end. -/
def trickyFiles : List (String × String) :=
  [("notes.txt", "a\nEOF\nEOF_1\n"), ("app/B.php", "$HOME 'n' \x60date\x60\nEOF"),
    ("empty.txt", ""),
    ("//it's here/c d.txt", "tail\n\n\n")]

/-- Contents with lines that look like marks, with signs of the shell, with nothing in them
and with empty lines at their end come out as they went in. -/
theorem writes_script_trickyFiles :
    (∀ f ∈ trickyFiles, '\n' ∉ f.1.toList ∧ '\x00' ∉ f.1.toList ∧ relativePath f.1 ≠ "")
      ∧ (∀ f ∈ trickyFiles, '\x00' ∉ f.2.toList)
      ∧ writes? (script usualTitle trickyFiles)
        = some [("notes.txt", "a\nEOF\nEOF_1\n"), ("app/B.php", "$HOME 'n' \x60date\x60\nEOF"),
          ("empty.txt", ""),
            ("it's here/c d.txt", "tail\n\n\n")] := by
  have hpaths : ∀ f ∈ trickyFiles, '\n' ∉ f.1.toList ∧ '\x00' ∉ f.1.toList
      ∧ relativePath f.1 ≠ "" := by
    decide +kernel
  have hcontents : ∀ f ∈ trickyFiles, '\x00' ∉ f.2.toList := by decide +kernel
  refine ⟨hpaths, hcontents, ?_⟩
  have htitle : '\n' ∉ usualTitle.toList ∧ '\x00' ∉ usualTitle.toList := by decide
  rw [(writes_script htitle hpaths hcontents).1]
  decide +kernel

end SchemaAtlas.Export
