import SchemaAtlas.Console.Command
import SchemaAtlas.Proofs.Session.InSync

/-!
# `SchemaAtlas.Proofs.Console.Command`: what a line typed at the prompt does to the session

A command either leaves the session as it is or changes it in one of four ways, and then
it is one of the commands that may do so, and its answer tells of success (`run_cases`).
So a command that fails or is refused changes nothing, and neither does one that
only asks. After any lines, the session can be reached by loading, replacing, editing
and saving (`reachable_typed`): it says what its files say, and what is to be saved is
among its files (`coherent_typed`).
-/

set_option autoImplicit false

namespace SchemaAtlas

namespace Session

/-- Holds of a session that says what its files say, where all that is to be saved is among
its files. -/
structure Coherent (s : Session) : Prop where
  analysis : s.analysis = .ofSources s.files
  known : ∀ path ∈ s.dirty, path ∈ s.files.map SourceFile.path

/-- A save that fails leaves the session as it was, and any other leaves it with nothing to
be saved. -/
theorem session_save (s : Session) (d : Disk) :
    (s.save d).2.1 = match (s.save d).1 with
      | .ok _ => { s with dirty := [] }
      | .error _ => s := by
  rw [save]
  split
  · rfl
  · split
    · rfl
    · rfl

/-- Whatever was done to a session from its start on, it is coherent: each kind of change
keeps the session coherent, and a run of changes does so by induction. -/
theorem Reachable.coherent {s : Session} (h : Reachable s) : s.Coherent := by
  refine ⟨h.analysis, ?_⟩
  induction h with
  | start files root => exact fun path hpath => absurd hpath List.not_mem_nil
  | load hs files root ih => exact fun path hpath => absurd hpath List.not_mem_nil
  | replaceFiles hs files ih => exact fun path hpath => List.mem_eraseDups.mp hpath
  | edit hs hrun ih => exact (Edits.edit _ hrun).known ih
  | @save s hs d ih =>
      rw [session_save]
      split
      · exact fun path hpath => absurd hpath List.not_mem_nil
      · exact ih

end Session

namespace Console

open Session Text

/-! ### What a command does -/

/-- How the answer begins to a command that was refused. -/
def refusals : List String := ["  [!]", "  [?]", "  Usage:"]

/-- How the answer begins to a command that changed the session. -/
def successes : List String := ["  Loaded ", "  [+] ", "  [-] ", "  [~] ", "  [OK] "]

/-- Holds of the answer to a command that failed or was refused. -/
def Refused : Except Failure String → Prop
  | .error _ => True
  | .ok text => ∃ lead ∈ refusals, startsWith lead text = true

/-- The commands that may change the session. -/
def Command.works : Command → Bool
  | .blank => false
  | .hint _ => false
  | .help => false
  | .load _ => true
  | .present _ => false
  | .addColumn _ _ _ _ => true
  | .dropColumn _ _ => true
  | .renameColumn _ _ _ => true
  | .exportAs _ _ => false
  | .save => true
  | .suggest _ => true

/-- What a command may make of a session. -/
inductive Changed (s : Session) : Session → Prop
  | load (files : List SourceFile) (root : Place) : Changed s (s.load files (some root))
  | replaceFiles (files : List SourceFile) : Changed s (s.replaceFiles files)
  | edit {s' : Session} (table : String) (e : ColumnEdit) (h : e.run? s table = some s') :
    Changed s s'
  | save (d : Disk) : Changed s (s.save d).2.1

/-- Holds of an outcome that changes the session and tells of it. -/
structure Done (s : Session) (o : Outcome) : Prop where
  changed : Changed s o.session
  told : ∃ text, o.answer = .ok text ∧ ∃ lead ∈ successes, startsWith lead text = true

/-- How a text begins is told by its first part: what is put behind it does not change which
leads it has. -/
theorem exists_startsWith_append {leads : List String} {text : String}
    (h : ∃ lead ∈ leads, startsWith lead text = true) (rest : String) :
    ∃ lead ∈ leads, startsWith lead (text ++ rest) = true := by
  obtain ⟨lead, hmem, hstarts⟩ := h
  rw [startsWith, List.isPrefixOf_iff_prefix] at hstarts
  refine ⟨lead, hmem, ?_⟩
  rw [startsWith, List.isPrefixOf_iff_prefix, String.toList_append]
  exact hstarts.trans (List.prefix_append _ _)

/-- No success begins like a refusal, so the first characters of an answer tell which of the
two it is. -/
theorem Done.not_refused {s : Session} {o : Outcome} (h : Done s o) : ¬Refused o.answer := by
  obtain ⟨text, hanswer, lead, hlead, hstarts⟩ := h.told
  rw [hanswer]
  rintro ⟨other, hother, hstarts'⟩
  -- of two beginnings of one text, one begins the other
  have hclash : ∀ lead ∈ successes, ∀ other ∈ refusals,
      ¬lead.toList <+: other.toList ∧ ¬other.toList <+: lead.toList := by decide
  obtain ⟨hleft, hright⟩ := hclash lead hlead other hother
  rw [startsWith, List.isPrefixOf_iff_prefix] at hstarts hstarts'
  exact (List.prefix_or_prefix_of_prefix hstarts hstarts').elim hleft hright

/-- An edit changes the session if it is done, and leaves it if it is not. -/
theorem edited_cases {s : Session} {d : Disk} {table done refused : String} {e : ColumnEdit}
    {s? : Option Session}
    (hrun : e.run? s table = s?) (hdone : ∃ lead ∈ successes, startsWith lead done = true) :
    (edited s d done refused s?).session = s ∨ Done s (edited s d done refused s?) := by
  cases hs : s? with
  | none => exact .inl rfl
  | some s' => exact .inr ⟨.edit table e (hrun.trans hs), done, rfl, hdone⟩

variable (w : World) (s : Session) (d : Disk)

/-- A project that is read is loaded, and told of. If it cannot be read, by whatever
failure, the session is the one before. -/
theorem run_load_cases (path : String) :
    ((Command.load path).run w s d).session = s ∨ Done s ((Command.load path).run w s d) := by
  rw [Command.run]
  split
  · refine .inr ⟨.load _ _, _, rfl, ?_⟩
    simp only [String.append_assoc]
    exact exists_startsWith_append (by decide) _
  · exact .inl rfl
  · exact .inl rfl

/-- What is exported is made of the session, which stays as it was, whether the export is
given, written to a file or ends in a failure. -/
theorem session_run_exportAs (mode : String) (target? : Option String) :
    ((Command.exportAs mode target?).run w s d).session = s := by
  rw [Command.run]
  split
  · cases target? with
    | none => rfl
    | some target =>
        rw [exported]
        split
        · rfl
        · rfl
  · rfl
  · rfl

/-- A save changes the session only if it does not fail, and only then says so. -/
theorem run_save_cases :
    (Command.save.run w s d).session = s ∨ Done s (Command.save.run w s d) := by
  have hsession := session_save s d
  have hchanged : Changed s (s.save d).2.1 := .save d
  rw [Command.run]
  split
  · rename_i hsave
    rw [hsave] at hchanged
    refine .inr ⟨hchanged, _, rfl, ?_⟩
    simp only [String.append_assoc]
    exact exists_startsWith_append (by decide) _
  · rename_i hsave
    rw [hsave] at hsession
    exact .inl hsession
  · rename_i hsave
    rw [hsave] at hsession
    exact .inl hsession
  · rename_i hsave
    rw [hsave] at hsession
    exact .inl hsession

/-- A suggestion that is understood replaces the files, and is told of. In every other case,
from a missing key to a reply of the wrong kind, the session stays. -/
theorem run_suggest_cases (wish : String) :
    ((Command.suggest wish).run w s d).session = s
      ∨ Done s ((Command.suggest wish).run w s d) := by
  rw [Command.run]
  split
  · exact .inl rfl
  · exact .inl rfl
  · split
    · exact .inl rfl
    · refine .inr ⟨.replaceFiles _, _, rfl, ?_⟩
      simp only [String.append_assoc]
      exact exists_startsWith_append (by decide) _

/-- A command leaves the session as it is, or it is one that may change the session, does so
and tells of it. -/
theorem run_cases (c : Command) :
    (c.run w s d).session = s ∨ c.works = true ∧ Done s (c.run w s d) := by
  cases c with
  | blank => exact .inl rfl
  | hint text => exact .inl rfl
  | help => exact .inl rfl
  | load path => exact (run_load_cases w s d path).imp_right fun h => ⟨rfl, h⟩
  | present what => exact .inl rfl
  -- an edit that is done tells so in words, by which it is known from a refusal
  | addColumn name type table nullable =>
      refine (edited_cases (e := .add name type nullable) rfl ?_).imp_right fun h => ⟨rfl, h⟩
      simp only [String.append_assoc]
      exact exists_startsWith_append (by decide) _
  | dropColumn name table =>
      refine (edited_cases (e := .drop name) rfl ?_).imp_right fun h => ⟨rfl, h⟩
      simp only [String.append_assoc]
      exact exists_startsWith_append (by decide) _
  | renameColumn old new table =>
      refine (edited_cases (e := .rename old new) rfl ?_).imp_right fun h => ⟨rfl, h⟩
      simp only [String.append_assoc]
      exact exists_startsWith_append (by decide) _
  | exportAs mode target? => exact .inl (session_run_exportAs w s d mode target?)
  | save => exact (run_save_cases w s d).imp_right fun h => ⟨rfl, h⟩
  | suggest wish => exact (run_suggest_cases w s d wish).imp_right fun h => ⟨rfl, h⟩

/-- A command that fails or is refused leaves the session as it is, and so does one that may
not change it. -/
theorem session_run {c : Command} (h : Refused (c.run w s d).answer ∨ c.works = false) :
    (c.run w s d).session = s := by
  rcases run_cases w s d c with hsame | ⟨hworks, hdone⟩
  · exact hsame
  · rcases h with hrefused | hidle
    · exact absurd hrefused hdone.not_refused
    · rw [hidle] at hworks
      cases hworks

/-! ### Lines -/

/-- The word that a line begins with, in capital letters; none if the line is blank. -/
def keyword? (line : String) : Option String :=
  (fields (trim line)).head?.map upper

/-- Holds of lines that only ask: blank ones, and those that show, export or call for help. -/
def Asks (line : String) : Prop :=
  ∀ word ∈ keyword? line, word ∈ ["SHOW", "EXPORT", "HELP"]

/-- The words behind `SHOW` only choose what is shown. Whatever they are, the command is
none that may change the session. -/
theorem works_readShow (args : List String) : (readShow args).works = false := by
  cases args with
  | nil => rfl
  | cons what rest =>
      rw [readShow.eq_def]
      dsimp only
      repeat' split
      all_goals rfl

/-- The words behind `EXPORT` only choose a form and a file. Whatever they are, the command
is none that may change the session. -/
theorem works_readExport (args : List String) : (readExport args).works = false := by
  rw [readExport.eq_def]
  split
  all_goals rfl

/-- A line that only asks is no command that may change the session: it is empty, a call for
help, a listing, an export, or one that is not understood. -/
theorem works_ofLine {line : String} (h : Asks line) : (Command.ofLine line).works = false := by
  rw [Asks, keyword?] at h
  rw [Command.ofLine]
  cases hfields : fields (trim line) with
  | nil => rfl
  | cons keyword args =>
      rw [hfields] at h
      -- the keyword is known, and so is what it leads to
      have hword := h (upper keyword) rfl
      simp only [List.mem_cons, List.not_mem_nil, or_false] at hword
      rcases hword with hword | hword | hword
      · simp [isKeyword, hword, works_readShow]
      · simp [isKeyword, hword, works_readExport]
      · simp [isKeyword, hword, Command.works]

/-- The session after some lines, each typed in a world and with a disk of its own. -/
def typed (s : Session) (lines : List (World × Disk × String)) : Session :=
  lines.foldl (fun s l => (execute l.1 s l.2.1 l.2.2).session) s

/-- A change of one of the kinds that a session can go through leads from a session that can
be reached to another such session. -/
theorem Changed.reachable {s s' : Session} (h : Changed s s') (hs : Reachable s) :
    Reachable s' := by
  cases h with
  | load files root => exact hs.load files _
  | replaceFiles files => exact hs.replaceFiles files
  | edit table e hrun => exact hs.edit hrun
  | save d => exact hs.save d

/-- A command takes a session that can be reached to one that can be reached, in every world
and on every disk. -/
theorem reachable_run (hs : Reachable s) (c : Command) : Reachable (c.run w s d).session := by
  rcases run_cases w s d c with hsame | ⟨-, hdone⟩
  · rw [hsame]
    exact hs
  · exact hdone.changed.reachable hs

/-- What is typed does to a session what can be done to it otherwise: after any number of
lines the session is one that the library's own steps reach. -/
theorem reachable_typed {s : Session} (hs : Reachable s) (lines : List (World × Disk × String)) :
    Reachable (typed s lines) := by
  induction lines generalizing s with
  | nil => exact hs
  | cons l lines ih =>
      rw [typed, List.foldl_cons]
      exact ih (reachable_run l.1 s l.2.1 hs (Command.ofLine l.2.2))

/-- After any lines, typed in any worlds and with any disks, a session is coherent; and a line
that fails, is refused or only asks leaves every session as it is. -/
theorem coherent_typed (files : List SourceFile) (root : Option Place)
    (lines : List (World × Disk × String)) :
    (typed (.start files root) lines).Coherent
      ∧ ∀ (w : World) (s : Session) (d : Disk) (line : String),
        Refused (execute w s d line).answer ∨ Asks line → (execute w s d line).session = s := by
  refine ⟨(reachable_typed (.start files root) lines).coherent, fun w s d line h => ?_⟩
  rw [execute] at h ⊢
  exact session_run w s d (h.imp_right works_ofLine)

/-- The world on some day. -/
def someDay : World := { now := ⟨2024, 1, 31, 23, 59, 58⟩, home := "/" }

/-- A disk with a file where the project should be. -/
def blockedDisk : Disk where
  entries := { entries := [("p", .file [])], nodup := by decide }

/-- On a disk with a file where a folder should be, saving one migration fails with this
failure, and leaves both the session and the disk as they were. -/
theorem save_blockedDisk {s : Session} (hroot : s.root = some tagProject) {f : SourceFile}
    (hunsaved : s.unsaved = [f]) (hpath : f.path = "database/migrations/1_tags.php") :
    s.save blockedDisk = (.error .notFolder, s, blockedDisk) := by
  have hnames : Place.namesIn f.path = ["database", "migrations", "1_tags.php"] := by
    rw [hpath]
    decide +kernel
  have hfolder : (target tagProject f).parent = ⟨"", ["p", "database", "migrations"]⟩ := by
    rw [target, hnames]
    rfl
  have hblocked : blockedDisk.makeFolders ⟨"", ["p", "database", "migrations"]⟩
      = (.error .notFolder, blockedDisk) := by decide +kernel
  rw [unsaved] at hunsaved
  rw [save, hroot]
  simp only [hunsaved, writeFiles, hfolder, hblocked]

/-- A column that was added is still there, and still to be saved, after a save that failed. -/
theorem coherent_typed_tags :
    ∃ s, typed (.start [tagFile tagText] (some tagProject))
        [(someDay, blockedDisk, "add column label text to tags")] = s
      ∧ s.dirty = ["database/migrations/1_tags.php"] ∧ s.Coherent
      ∧ (execute someDay s blockedDisk "SAVE").answer = .error .notFolder
      ∧ (execute someDay s blockedDisk "SAVE").session = s := by
  obtain ⟨s, hrun, hdirty⟩ := exists_run?_tagFile
  have hadd : Command.ofLine "add column label text to tags"
      = .addColumn "label" .text "tags" false := by
    decide +kernel
  have hsave : Command.ofLine "SAVE" = .save := by decide +kernel
  have htyped : typed (.start [tagFile tagText] (some tagProject))
      [(someDay, blockedDisk, "add column label text to tags")] = s := by
    have hadded : (start [tagFile tagText] (some tagProject)).addColumn? "tags" "label" .text
        false = some s :=
      hrun
    rw [typed, List.foldl_cons, List.foldl_nil, execute, hadd, Command.run, hadded]
    rfl
  obtain ⟨hcoherent, hunchanged⟩ := coherent_typed [tagFile tagText] (some tagProject)
    [(someDay, blockedDisk, "add column label text to tags")]
  rw [htyped] at hcoherent
  have hfails : (execute someDay s blockedDisk "SAVE").answer = .error .notFolder := by
    obtain ⟨_, u, -, -, hedit⟩ := exists_written?_of_run? hrun
    obtain ⟨f, i, hcreator, hs⟩ := exists_creator?_of_editTable? hedit
    rw [creator?_start_singleton rfl makes_tagText] at hcreator
    obtain ⟨rfl, rfl⟩ := Prod.mk.inj (Option.some.inj hcreator)
    -- the file that was edited is the one to be saved
    have hfiles : s.files = [(tagFile tagText).withContent
        (Migration.writeBack tagText "tags" u.columns u.foreignKeys)] := by
      rw [hs]
      rfl
    have hroot : s.root = some tagProject := by
      rw [hs]
      rfl
    have hunsaved : s.unsaved = s.files := by
      rw [unsaved, hfiles, hdirty]
      rfl
    rw [execute, hsave, Command.run, save_blockedDisk hroot (hunsaved.trans hfiles) rfl]
  refine ⟨s, htyped, hdirty, hcoherent, hfails, hunchanged _ _ _ _ (.inl ?_)⟩
  rw [hfails]
  trivial

end Console

end SchemaAtlas
