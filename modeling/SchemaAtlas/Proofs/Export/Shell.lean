import SchemaAtlas.Export.Script
import SchemaAtlas.Proofs.Text.Lines

/-!
# `SchemaAtlas.Proofs.Export.Shell`: what a shell makes of a script

A shell reads a script line by line. A line is made of words, some of them between
quotes, and of signs: `>` sends what a command says into a file, `<<` and a quoted mark
give a command the lines below as its input, up to the first line that is equal to the
mark, and `"$(` and `)"` put what a command says in the place of a word, without the
line breaks at its end. Nothing is expanded in such an input.

`Shell.run?` gives what a script asks of the system, one thing after another: lines that
are shown, folders that are made and files that are written. Only the commands and signs
that setup scripts need are known; anything else gives nothing at all, so a script with
effects is understood from its first line to its last. Whether the system can do what it
is asked is not told.

A text that is quoted for the shell is read as one word, which is the text
(`Reader.read?_shellWord`).
-/

set_option autoImplicit false

namespace SchemaAtlas.Export.Shell

/-! ### Lines -/

/-- What a line is made of. -/
inductive Token
  | word (text : String)
  /-- `>`: into a file. -/
  | into
  /-- `<<`: lines below are the input. -/
  | document
  /-- The lines that are the input. -/
  | input (text : String)
  /-- `"$(`: what the command says that begins here. -/
  | opened
  /-- `)"`: up to here. -/
  | closed
  deriving DecidableEq, Repr

/-- Where the reader of a line is: outside of quotes, between single or double ones, behind
a dollar sign, behind `<` or `<<`, behind `)` or `)"`, or in a remark. -/
inductive Place
  | bare | single | double | dollar | less | mark | closing | sealed | remark
  deriving DecidableEq, Repr

/-- The reader of a line: the tokens so far, and the word that has begun. -/
structure Reader where
  tokens : List Token := []
  word? : Option (List Char) := none
  place : Place := .bare
  deriving DecidableEq, Repr

/-- The characters that stand for more than themselves outside of quotes. -/
def isSpecial (c : Char) : Bool :=
  "|&;<>()$\x60\\\"'*?[]#~!\x7b\x7d^ \t".toList.contains c

namespace Reader

/-- The tokens with the word that has begun, if there is one. -/
def flushed (r : Reader) : List Token :=
  r.tokens ++ (r.word?.map fun w => Token.word (String.ofList w)).toList

/-- The reader with one more character in its word. -/
def push (r : Reader) (c : Char) : Reader :=
  { r with word? := some (r.word?.getD [] ++ [c]) }

/-- The reader in a word, be it empty, and at a place. -/
def within (r : Reader) (place : Place) : Reader :=
  { r with word? := some (r.word?.getD []), place := place }

/-- The reader behind a character outside of quotes. -/
def nextBare? (r : Reader) (c : Char) : Option Reader :=
  if c = ' ' then some { tokens := r.flushed }
  else if c = '\'' then some (r.within .single)
  else if c = '"' then some { r with place := .double }
  else if c = ')' then some { tokens := r.flushed, place := .closing }
  else if r.word? = none ∧ c = '>' then some { r with tokens := r.tokens ++ [.into] }
  else if r.word? = none ∧ c = '<' then some { r with place := .less }
  else if r.word? = none ∧ c = '#' then some { r with place := .remark }
  else if isSpecial c then none
  else some (r.push c)

/-- The reader behind one more character of the line. A substitution is known only where
it is all that stands between double quotes. -/
def next? (r : Reader) (c : Char) : Option Reader :=
  match r.place with
  | .bare => r.nextBare? c
  | .single => if c = '\'' then some { r with place := .bare } else some (r.push c)
  | .double =>
    if c = '"' then some (r.within .bare)
    else if c = '$' then (if r.word? = none then some { r with place := .dollar } else none)
    else if c = '\\' ∨ c = '\x60' then none
    else some (r.push c)
  | .dollar => if c = '(' then some { tokens := r.tokens ++ [.opened] } else none
  | .less => if c = '<' then some { tokens := r.tokens ++ [.document], place := .mark } else none
  | .mark => if c = '\'' then some (r.within .single) else none
  | .closing => if c = '"' then some { tokens := r.tokens ++ [.closed], place := .sealed }
      else none
  | .sealed => if c = ' ' then some { r with place := .bare } else none
  | .remark => some r

/-- The reader behind some characters. -/
def read? (r : Reader) (cs : List Char) : Option Reader :=
  cs.foldlM next? r

/-- The tokens of a line that ends here; none if it ends between quotes or signs. -/
def finish? (r : Reader) : Option (List Token) :=
  match r.place with
  | .bare | .sealed | .remark => some r.flushed
  | _ => none

end Reader

/-- The tokens of a line. -/
def tokens? (line : List Char) : Option (List Token) :=
  (Reader.read? {} line).bind Reader.finish?

/-! ### Commands -/

/-- What a script asks of the system. -/
inductive Effect
  | tell (text : String)
  | makeFolder (path : String)
  | write (path content : String)
  deriving DecidableEq, Repr

/-- A command: its name and arguments, its input, and the file that what it says goes into. -/
structure Command where
  words : List String := []
  input? : Option String := none
  target? : Option String := none
  deriving DecidableEq, Repr

/-- The command that tokens spell. A file has a name. -/
@[simp] def Command.ofTokens? : List Token → Option Command
  | [] => some {}
  | .word w :: r => do
    let c ← ofTokens? r
    return { c with words := w :: c.words }
  | .input text :: r => do
    let c ← ofTokens? r
    if c.input?.isSome then none else some { c with input? := some text }
  | .into :: .word path :: r => do
    let c ← ofTokens? r
    if c.target?.isSome || path = "" then none else some { c with target? := some path }
  | _ => none

/-- Holds of words that are taken for options. -/
def isOption (w : String) : Bool :=
  w.toList.head? == some '-' && w != "-"

/-- The folder of a path: all before its last name, without slashes at the end. -/
def folderOf (path : String) : String :=
  let slash := fun c : Char => c == '/'
  let whole := path.toList.reverse.dropWhile slash
  let above := whole.dropWhile fun c => c != '/'
  let folder := (above.dropWhile slash).reverse
  if !folder.isEmpty then String.ofList folder
  else if whole.isEmpty && path != "" || !above.isEmpty then "/"
  else "."

/-- What a command says. -/
@[simp] def Command.output? (c : Command) : Option String :=
  match c.words, c.input? with
  | [":"], none => some ""
  | ["cat"], some text => some text
  | ["echo", w], none => if isOption w then none else some (w ++ "\n")
  | ["printf", "%s", w], none => some w
  | ["dirname", path], none => some (if isOption path then "" else folderOf path ++ "\n")
  | _, _ => none

/-- What a command asks of the system. -/
@[simp] def Command.effects? (c : Command) : Option (List Effect) :=
  match c with
  | ⟨["mkdir", "-p", path], none, none⟩ =>
    some (if path = "" || isOption path then [] else [.makeFolder path])
  | ⟨_, _, some path⟩ => c.output?.map fun text => [.write path text]
  | ⟨_, _, none⟩ => c.output?.map fun text => [.tell text]

/-- A text without the line breaks at its end. -/
def stripped (s : String) : String :=
  String.ofList (s.toList.reverse.dropWhile fun c => c == '\n').reverse

/-- What stands before and behind the first sign of a kind. -/
@[simp] def around? (sign : Token) : List Token → Option (List Token × List Token)
  | [] => none
  | t :: r => if t = sign then some ([], r) else (around? sign r).map fun parts =>
      (t :: parts.1, parts.2)

/-- The tokens with what the command between `"$(` and `)"` says in its place. -/
def substituted? (tokens : List Token) : Option (List Token) :=
  match around? .opened tokens with
  | none => some tokens
  | some (before, rest) => do
    let (inner, after) ← around? .closed rest
    let c ← Command.ofTokens? inner
    if c.target?.isSome then none
    else return before ++ .word (stripped (← c.output?)) :: after

/-- What the tokens of a whole command ask of the system. -/
def effects? (tokens : List Token) : Option (List Effect) :=
  if tokens = [] then some []
  else do (← Command.ofTokens? (← substituted? tokens)).effects?

/-! ### Scripts -/

/-- Where the shell is in a script: in a command, or in the input of one, with the tokens
before and behind the sign for it. -/
inductive State
  | command (before : List Token)
  | document (before : List Token) (mark : String) (text : List Char) (after : List Token)
  deriving DecidableEq, Repr

/-- Behind a line, a command goes on if a substitution in it does, and else is carried out. -/
def settle? (tokens : List Token) : Option (State × List Effect) :=
  if tokens.contains .opened && !tokens.contains .closed then some (.command tokens, [])
  else (effects? tokens).map fun effects => (.command [], effects)

/-- Behind the tokens of a line, the input begins if there is a sign for it. -/
def begin? (tokens : List Token) : Option (State × List Effect) :=
  match around? .document tokens with
  | none => settle? tokens
  | some (before, .word mark :: after) => some (.document before mark [] after, [])
  | some _ => none

/-- Behind one more line. A command that goes on does so with the end of its substitution. -/
def State.next? : State → List Char → Option (State × List Effect)
  | .command before, line => do
    let tokens ← tokens? line
    if before ≠ [] ∧ tokens.head? ≠ some .closed then none else begin? (before ++ tokens)
  | .document before mark text after, line =>
    if line = mark.toList then settle? (before ++ .input (String.ofList text) :: after)
    else some (.document before mark (text ++ line ++ ['\n']) after, [])

/-- What some lines ask of the system. -/
def State.run? : State → List (List Char) → Option (List Effect)
  | s, [] => if s = .command [] then some [] else none
  | s, line :: rest => do
    let (after, effects) ← s.next? line
    return effects ++ (← after.run? rest)

/-- What a script asks of the system. -/
def run? (script : String) : Option (List Effect) :=
  if script.toList.contains '\x00' then none
  else (State.command []).run? (Text.cutChars '\n' script.toList)

/-! ### Reading a line -/

namespace Reader

/-- A text is read in two parts by reading the second part from where the first one ends. -/
theorem read?_append (r : Reader) (a b : List Char) :
    r.read? (a ++ b) = (r.read? a).bind fun r' => r'.read? b :=
  List.foldlM_append

/-- A text is read character by character, each from the state that the one before it leads
to. -/
theorem read?_cons (r : Reader) (c : Char) (cs : List Char) :
    r.read? (c :: cs) = (r.next? c).bind fun r' => r'.read? cs :=
  rfl

/-- A character without a meaning of its own goes on with a word, or begins one. -/
theorem nextBare?_of_isSpecial {c : Char} (h : isSpecial c = false) (r : Reader) :
    r.nextBare? c = some (r.push c) := by
  have hne : ∀ d, isSpecial d = true → c ≠ d := by
    rintro d hd rfl
    rw [h] at hd
    cases hd
  rw [nextBare?, if_neg (hne ' ' (by decide)), if_neg (hne '\'' (by decide)),
    if_neg (hne '"' (by decide)), if_neg (hne ')' (by decide)), if_neg fun hand =>
      hne '>' (by decide) hand.2, if_neg fun hand => hne '<' (by decide) hand.2,
      if_neg fun hand => hne '#' (by decide) hand.2, h]
  rfl

/-- Characters without a meaning of their own are put to the word that is being read, one
after the other. -/
theorem read?_bare {cs : List Char} (h : ∀ c ∈ cs, isSpecial c = false) (tokens : List Token)
    (w : List Char) :
    ({ tokens := tokens, word? := some w } : Reader).read? cs
      = some { tokens := tokens, word? := some (w ++ cs) } := by
  induction cs generalizing w with
  | nil => simp [read?]
  | cons c cs ih =>
      have hfirst : ({ tokens := tokens, word? := some w } : Reader).next? c
          = some { tokens := tokens, word? := some (w ++ [c]) } :=
        nextBare?_of_isSpecial (h c List.mem_cons_self) _
      rw [read?_cons, hfirst, Option.bind_some, ih fun d hd => h d (List.mem_cons_of_mem c hd),
        List.append_assoc, List.singleton_append]

/-- Between single quotes, every character but a single quote is itself, also those that
mean something elsewhere. -/
theorem read?_single {cs : List Char} (h : '\'' ∉ cs) (tokens : List Token) (w : List Char) :
    ({ tokens := tokens, word? := some w, place := .single } : Reader).read? cs
      = some { tokens := tokens, word? := some (w ++ cs), place := .single } := by
  induction cs generalizing w with
  | nil => simp [read?]
  | cons c cs ih =>
      rw [List.mem_cons, not_or] at h
      have hfirst : ({ tokens := tokens, word? := some w, place := .single } : Reader).next? c
          = some { tokens := tokens, word? := some (w ++ [c]), place := .single } :=
        if_neg (Ne.symm h.1)
      rw [read?_cons, hfirst, Option.bind_some, ih h.2, List.append_assoc, List.singleton_append]

/-- A single quote that is put between double quotes, with the single ones closed before
and opened again behind. -/
theorem read?_quote (tokens : List Token) (w : List Char) :
    ({ tokens := tokens, word? := some w, place := .single } : Reader).read? "'\"'\"'".toList
      = some { tokens := tokens, word? := some (w ++ ['\'']), place := .single } :=
  rfl

/-- A text between single quotes, with its own single quotes put between double ones, is
read as the text. -/
theorem read?_quoted (cs : List Char) (tokens : List Token) (w : List Char) :
    ({ tokens := tokens, word? := some w, place := .single } : Reader).read?
        (cs.flatMap fun c => if c = '\'' then "'\"'\"'".toList else [c])
      = some { tokens := tokens, word? := some (w ++ cs), place := .single } := by
  induction cs generalizing w with
  | nil => simp [read?]
  | cons c cs ih =>
      have hfirst : ({ tokens := tokens, word? := some w, place := .single } : Reader).read?
          (if c = '\'' then "'\"'\"'".toList else [c])
          = some { tokens := tokens, word? := some (w ++ [c]), place := .single } := by
        split
        · rename_i hc
          rw [hc]
          exact read?_quote tokens w
        · rename_i hc
          exact read?_single (fun hmem => hc (List.mem_singleton.mp hmem).symm) tokens w
      rw [List.flatMap_cons, read?_append, hfirst, Option.bind_some, ih, List.append_assoc,
        List.singleton_append]

/-- Plain characters have no meaning of their own, so a word of them needs no quotes. -/
theorem isSpecial_of_isPlain {c : Char} (h : isPlain c = true) : isSpecial c = false := by
  rw [Bool.eq_false_iff]
  intro hspecial
  have hnone : ("|&;<>()$\x60\\\"'*?[]#~!\x7b\x7d^ \t".toList.all fun d => !isPlain d)
      = true := by decide
  have hplain := List.all_eq_true.mp hnone c (List.contains_iff_mem.mp hspecial)
  rw [h] at hplain
  cases hplain

/-- A text that is quoted for the shell is read as one word, which is the text. -/
theorem read?_shellWord (s : String) (tokens : List Token) :
    ({ tokens := tokens } : Reader).read? (shellWord s).toList
      = some { tokens := tokens, word? := some s.toList } := by
  rw [shellWord]
  split
  · rename_i hempty
    rw [hempty]
    rfl
  · rename_i hne
    split
    · rename_i hplain
      rw [List.all_eq_true] at hplain
      obtain ⟨c, cs, hs⟩ := List.exists_cons_of_ne_nil (show s.toList ≠ [] by simpa using hne)
      rw [hs] at hplain ⊢
      have hfirst : ({ tokens := tokens } : Reader).next? c
          = some { tokens := tokens, word? := some [c] } :=
        nextBare?_of_isSpecial (isSpecial_of_isPlain (hplain c List.mem_cons_self)) _
      rw [read?_cons, hfirst, Option.bind_some, read?_bare fun d hd =>
        isSpecial_of_isPlain (hplain d (List.mem_cons_of_mem c hd)), List.singleton_append]
    · -- otherwise the word stands between quotes, and quotes in it are escaped one by one
      have hopen : ({ tokens := tokens } : Reader).next? '\''
          = some { tokens := tokens, word? := some [], place := .single } := rfl
      rw [String.toList_ofList, List.cons_append, read?_cons, hopen, Option.bind_some,
        read?_append, read?_quoted, Option.bind_some]
      rfl

end Reader

/-! ### Running lines -/

/-- A run is a step and a run from there, and its effects are those of the step followed by
those of the rest. -/
theorem State.run?_cons {s s' : State} {line : List Char} {effects : List Effect}
    (h : s.next? line = some (s', effects)) (rest : List (List Char)) :
    s.run? (line :: rest) = (s'.run? rest).map fun later => effects ++ later := by
  rw [State.run?, h]
  cases hrest : s'.run? rest with
  | none => simp [hrest]
  | some later => simp [hrest]

/-- The lines of an input up to its mark are its text, if the mark is none of them. Then the
command is carried out that asked for the input. -/
theorem State.run?_document {mark : String} {lines : List (List Char)} (h : mark.toList ∉ lines)
    {before after : List Token} {text : List Char} {s : State} {effects : List Effect}
    (hend : settle? (before ++ .input (String.ofList (text ++ Text.unlines '\n' lines)) :: after)
      = some (s, effects)) (rest : List (List Char)) :
    (State.document before mark text after).run? (lines ++ mark.toList :: rest)
      = (s.run? rest).map fun later => effects ++ later := by
  -- the text grows by each line that is not the mark
  induction lines generalizing text with
  | nil =>
      refine State.run?_cons ?_ rest
      rw [State.next?, if_pos rfl, ← hend]
      simp [Text.unlines]
  | cons line lines ih =>
      rw [List.mem_cons, not_or] at h
      have hnext : (State.document before mark text after).next? line
          = some (.document before mark (text ++ line ++ ['\n']) after, []) :=
            if_neg (Ne.symm h.1)
      rw [Text.unlines_cons, ← List.append_assoc, ← List.append_assoc] at hend
      rw [List.cons_append, State.run?_cons hnext, ih h.2 hend, Option.map_map]
      rfl

/-- The file that is written, if one is. -/
def Effect.written? : Effect → Option (String × String)
  | .write path content => some (path, content)
  | _ => none

/-- Holds of lines that are carried out whatever stands behind them, and write some files. -/
def Writes (lines : List (List Char)) (files : List (String × String)) : Prop :=
  ∃ effects : List Effect, effects.filterMap Effect.written? = files
    ∧ ∀ rest, (State.command []).run? (lines ++ rest)
      = ((State.command []).run? rest).map fun later => effects ++ later

/-- No lines write no files. -/
theorem writes_nil : Writes [] [] :=
  ⟨[], rfl, fun rest => by simp⟩

/-- Lines that write some files, followed by lines that write others, write the ones and
then the others. -/
theorem Writes.append {lines lines' : List (List Char)} {files files' : List (String × String)}
    (h : Writes lines files) (h' : Writes lines' files') :
    Writes (lines ++ lines') (files ++ files') := by
  obtain ⟨effects, rfl, hrun⟩ := h
  obtain ⟨effects', rfl, hrun'⟩ := h'
  refine ⟨effects ++ effects', List.filterMap_append, fun rest => ?_⟩
  rw [List.append_assoc, hrun, hrun', Option.map_map]
  simp [Function.comp_def]

/-- A line that is a whole command writes what is written among its effects, and nothing is
open behind it. -/
theorem writes_line {line : List Char} {effects : List Effect}
    (h : (State.command []).next? line = some (.command [], effects)) :
    Writes [line] (effects.filterMap Effect.written?) := by
  exact ⟨effects, rfl, fun rest => State.run?_cons h rest⟩

/-- A line that is a whole command does what its tokens ask for: none of them opens an
input, and every group in it is closed. -/
theorem writes_command {line : List Char} {tokens : List Token} {effects : List Effect}
    (htokens : tokens? line = some tokens) (hinput : around? .document tokens = none)
    (hwhole : (tokens.contains .opened && !tokens.contains .closed) = false)
    (heffects : effects? tokens = some effects) :
    Writes [line] (effects.filterMap Effect.written?) := by
  refine writes_line ?_
  rw [State.next?, htokens]
  show begin? ([] ++ tokens) = _
  rw [List.nil_append, begin?, hinput]
  show settle? tokens = _
  rw [settle?, hwhole, heffects]
  rfl

/-- Lines that write one file and do nothing else, whatever lines come behind them. -/
theorem writes_file {lines : List (List Char)} {path content : String}
    (h : ∀ rest, (State.command []).run? (lines ++ rest)
      = ((State.command []).run? rest).map fun later => .write path content :: later) :
    Writes lines [(path, content)] :=
  ⟨[.write path content], rfl, h⟩

/-- The files that a script writes; none if it is not understood. -/
def writes? (script : String) : Option (List (String × String)) :=
  (run? script).map fun effects => effects.filterMap Effect.written?

/-- A script of such lines writes the files. It ends with a line break and has no null
character, at which a shell would stop. -/
theorem Writes.writes? {script : String} {lines : List (List Char)}
    {files : List (String × String)}
    (h : Writes lines files) (hscript : Text.cutChars '\n' script.toList = lines ++ [[]])
    (hnull : '\x00' ∉ script.toList) : writes? script = some files := by
  obtain ⟨effects, rfl, hrun⟩ := h
  have hend : (State.command []).run? [[]] = some [] := by decide
  rw [Shell.writes?, run?, if_neg (by simpa using hnull), hscript, hrun, hend]
  simp

end SchemaAtlas.Export.Shell
