import SchemaAtlas.Proofs.Disk.Unreadable
import SchemaAtlas.Proofs.Export.Migrations
import SchemaAtlas.Proofs.Migration.Names
import SchemaAtlas.Proofs.Session.InSync
import SchemaAtlas.Web.Api

/-!
# `SchemaAtlas.Proofs.Web.Api`: which requests are answered

Every answer is an object with one of three statuses, and tells of an error if and only if
its status is not 200 (`wellFormed_answer`). A request gets one if the files of the
project that it is about can be read and the export that it asks for can be made
(`exists_answer_iff`): the tables can be put in order, and the calendar is long enough for
the migrations (`Exportable`).
-/

set_option autoImplicit false

namespace SchemaAtlas.Web

open SchemaAtlas.Disk SchemaAtlas.Text

/-! ### What is asked for -/

/-- The address of a request to this library has no authority, and so there is nothing wrong
with it. -/
theorem exists_ofText {request : String} (h : startsWith "/api/" request = true) :
    ∃ address, Address.ofText request = .ok address := by
  rw [startsWith, List.isPrefixOf_iff_prefix] at h
  obtain ⟨rest, hrest⟩ := h
  -- a slash begins no scheme, and a letter behind it no authority
  have hcharacters : (request.toList.dropWhile fun c => c.toNat ≤ 32).filter
      (fun c => c != '\t' && c != '\r' && c != '\n')
        = '/' :: 'a' :: 'p' :: 'i' :: '/' :: rest.filter fun c =>
          c != '\t' && c != '\r' && c != '\n' := by
    rw [← hrest]
    rfl
  rw [Address.ofText, hcharacters]
  exact ⟨_, rfl⟩

/-- The project that an address is about, if it is about one. -/
def Address.project? (a : Address) : Option String :=
  if a.path = analyzePath ∨ a.path = exportPath then fieldValue? "path" (queryFields a.query)
    else none

/-- The name of the export that an address asks for, if it asks for one. -/
def Address.mode? (a : Address) : Option String :=
  if a.path = exportPath then some ((fieldValue? "mode" (queryFields a.query)).getD usualMode)
    else none

/-- The exports that put the tables in order. -/
def orderingModes : List String := ["sql", "migrations", "shell"]

/-- The exports that name migrations. -/
def namingModes : List String := ["migrations", "shell"]

/-- Holds of an export that can be made, by its name: if it puts the tables in order they have
one, and if it names migrations the calendar has a second for each of them. -/
structure Exportable (now : Moment) (analysis : Analysis) (mode : String) : Prop where
  orderable : mode ∈ orderingModes → Export.Orderable analysis.snapshot
  named : mode ∈ namingModes → (now.later? (analysis.tableCount - 1)).isSome = true

/-- Holds of an address for which there is an answer: the files of the project that it is about
can be read, and the export of them that it asks for can be made. -/
structure Address.Answerable (now : Moment) (d : Disk) (a : Address) : Prop where
  readable : ∀ project ∈ a.project?, ¬d.Unreadable (Place.ofText project)
  exportable : ∀ project ∈ a.project?, ∀ mode ∈ a.mode?,
    ∀ files, d.project (Place.ofText project) = .ok files →
      Exportable now (Analysis.ofSources files) (lower mode)

/-! ### What is answered -/

/-- Holds of an answer that is an object with one of three statuses, with an error in it if and
only if the status is another than 200. -/
structure Answer.WellFormed (a : Answer) : Prop where
  status : a.status = 200 ∨ a.status = 400 ∨ a.status = 404
  content : ∃ fields, a.content = .object fields
    ∧ ("error" ∈ fields.map Prod.fst ↔ a.status ≠ 200)

variable {now : Moment} {d : Disk} {request : String}

/-- A refusal is well formed if its status is one of the two that are used for refusals. -/
theorem wellFormed_refusal {status : Nat} (h : status = 400 ∨ status = 404) (reason : String) :
    (refusal status reason).WellFormed := by
  refine ⟨.inr h, _, rfl, ?_⟩
  have hne : status ≠ 200 := by omega
  simp [refusal, hne]

/-- The answer to a request for an export is well formed, be it a file or a refusal. -/
theorem wellFormed_exportAnswer {analysis : Analysis} {mode : String} {a : Answer}
    (h : exportAnswer now analysis mode = .ok a) : a.WellFormed := by
  rw [exportAnswer] at h
  split at h
  · obtain rfl := Except.ok.inj h
    exact ⟨.inl rfl, _, rfl, by simp⟩
  · obtain rfl := Except.ok.inj h
    exact ⟨.inr (.inl rfl), _, rfl, by simp⟩
  · cases h

/-- Every answer is well formed, whatever the request asks for and whatever is on the
disk. -/
theorem wellFormed_answer {a : Answer} (h : answer now d request = .ok a) : a.WellFormed := by
  rw [answer] at h
  obtain ⟨address, -, h⟩ := exists_of_bind_eq_ok h
  dsimp only at h
  split at h
  · obtain rfl := Except.ok.inj h
    exact wellFormed_refusal (.inr rfl) _
  · split at h
    · obtain rfl := Except.ok.inj h
      exact wellFormed_refusal (.inl rfl) _
    · split at h
      · obtain rfl := Except.ok.inj h
        exact wellFormed_refusal (.inr rfl) _
      · cases h
      · split at h
        · obtain rfl := Except.ok.inj h
          exact ⟨.inl rfl, _, rfl, by simp⟩
        · exact wellFormed_exportAnswer h

/-- The form of a name is the one that goes by it in small letters. -/
theorem ofName_eq_ok_iff {name : String} {mode : Export.Mode} :
    Export.Mode.ofName name = .ok mode ↔ mode.name = lower name := by
  rw [Export.Mode.ofName]
  constructor
  · intro h
    split at h
    · rename_i hfound
      obtain rfl := Except.ok.inj h
      have hname := List.find?_some hfound
      exact beq_iff_eq.mp hname
    · cases h
  · intro h
    rw [← h]
    cases mode <;> rfl

/-- There are migrations unless the tables have no order, or the calendar ends before the last
of them. -/
theorem migrationFiles_cases (now : Moment) (analysis : Analysis) :
    (Export.Orderable analysis.snapshot ∧ (now.later? (analysis.tableCount - 1)).isSome = true
        ∧ ∃ files, Export.migrationFiles now analysis.snapshot = .ok files)
      ∨ (¬Export.Orderable analysis.snapshot
        ∧ Export.migrationFiles now analysis.snapshot = .error .tooDeep)
      ∨ ((now.later? (analysis.tableCount - 1)).isSome = false
        ∧ Export.migrationFiles now analysis.snapshot = .error .calendarEnds) := by
  obtain ⟨sorted, hordered, hperm⟩ := Export.exists_ordered analysis.snapshot
  rw [Export.migrationFiles_eq now hordered]
  by_cases horderable : Export.Orderable analysis.snapshot
  · rw [if_pos horderable]
    -- the names are as many as the tables, in whatever order
    have hcount : (sorted.map Table.name).length = analysis.tableCount := by
      rw [List.length_map, hperm.length_eq]
      exact List.length_map _
    have hsome := Migration.isSome_fileNames?_iff now (sorted.map Table.name)
    rw [hcount] at hsome
    split
    · rename_i hnames
      exact .inl ⟨horderable, hsome.mp (by rw [hnames]; rfl), _, rfl⟩
    · rename_i hnames
      rw [hnames] at hsome
      exact .inr (.inr ⟨by simpa using hsome, rfl⟩)
  · rw [if_neg horderable]
    exact .inr (.inl ⟨horderable, rfl⟩)

/-- An export is given if it can be made. That it cannot is not for want of such a form. -/
theorem render_cases (now : Moment) (analysis : Analysis) (mode : Export.Mode) :
    (Exportable now analysis mode.name ∧ ∃ content, Export.render now analysis mode = .ok content)
      ∨ (¬Exportable now analysis mode.name
        ∧ ∃ failure, Export.render now analysis mode = .error failure
          ∧ ∀ name, failure ≠ .unknownMode name) := by
  cases mode with
  -- these three forms neither order the tables nor name any migrations
  | typescript | models | json =>
      exact .inl ⟨⟨fun h => absurd h (by decide), fun h => absurd h (by decide)⟩, _, rfl⟩
  | sql =>
      obtain ⟨sorted, hordered, -⟩ := Export.exists_ordered analysis.snapshot
      rw [Export.render, Export.ddl, hordered]
      by_cases horderable : Export.Orderable analysis.snapshot
      · rw [if_pos horderable]
        exact .inl ⟨⟨fun _ => horderable, fun h => absurd h (by decide)⟩, _, rfl⟩
      · rw [if_neg horderable]
        exact .inr ⟨fun h => horderable (h.orderable (by decide)), _, rfl, by simp⟩
  | migrations | shell =>
      rw [Export.render]
      rcases migrationFiles_cases now analysis with
        ⟨horderable, hlong, files, hfiles⟩ | ⟨hdeep, hfiles⟩ | ⟨hshort, hfiles⟩
      · rw [hfiles]
        exact .inl ⟨⟨fun _ => horderable, fun _ => hlong⟩, _, rfl⟩
      · rw [hfiles]
        exact .inr ⟨fun h => hdeep (h.orderable (by decide)), _, rfl, by simp⟩
      · rw [hfiles]
        refine .inr ⟨fun h => ?_, _, rfl, by simp⟩
        have hlong := h.named (by decide)
        rw [hshort] at hlong
        cases hlong

/-- There is an answer to a request for an export if this can be made. Nothing is asked of a
name that is not one of a form: the answer says so. -/
theorem exists_exportAnswer_iff (analysis : Analysis) (mode : String) :
    (∃ a, exportAnswer now analysis mode = .ok a) ↔ Exportable now analysis (lower mode) := by
  rw [exportAnswer, Export.byName]
  cases hmode : Export.Mode.ofName mode with
  | error failure =>
      -- no form goes by the name, and so none that is hard to make does
      have hother : ∀ m : Export.Mode, m.name ≠ lower mode := by
        intro m hname
        rw [ofName_eq_ok_iff.mpr hname] at hmode
        cases hmode
      have hordering : lower mode ∉ orderingModes := by
        simpa [orderingModes] using ⟨(hother .sql).symm, (hother .migrations).symm,
          (hother .shell).symm⟩
      have hnaming : lower mode ∉ namingModes := by
        simpa [namingModes] using ⟨(hother .migrations).symm, (hother .shell).symm⟩
      rw [Export.Mode.ofName] at hmode
      split at hmode
      · cases hmode
      · obtain rfl := Except.error.inj hmode
        exact ⟨fun _ => ⟨fun h => absurd h hordering, fun h => absurd h hnaming⟩,
          fun _ => ⟨_, rfl⟩⟩
  | ok found =>
      rw [← ofName_eq_ok_iff.mp hmode]
      simp only [bind, Except.bind]
      rcases render_cases now analysis found with
        ⟨hexportable, content, hcontent⟩ | ⟨hnot, failure, hfailure, hunknown⟩
      · rw [hcontent]
        exact ⟨fun _ => hexportable, fun _ => ⟨_, rfl⟩⟩
      · rw [hfailure]
        refine ⟨fun hanswer => ?_, fun h => absurd h hnot⟩
        obtain ⟨_, hanswer⟩ := hanswer
        split at hanswer
        · rename_i hcontent
          cases hcontent
        · rename_i name hname
          exact absurd (Except.error.inj hname) (hunknown name)
        · cases hanswer

/-! ### What can be answered -/

section Answerable

variable {address : Address} {project : String}

/-- An address that names no project is answerable, since the answer is a refusal that says
so. -/
theorem answerable_of_noProject (h : address.project? = none) : address.Answerable now d :=
  ⟨by simp [h], by simp [h]⟩

/-- An address of a project that is missing is answerable, too: this is the failure that is
turned into a refusal. -/
theorem answerable_of_missing (h : address.project? = some project) {text : String}
    (hmissing : d.project (Place.ofText project) = .error (.projectMissing text)) :
    address.Answerable now d := by
  refine ⟨fun other hother => ?_, fun other hother mode _ files hfiles => ?_⟩
  · obtain rfl := Option.some.inj (h.symm.trans hother)
    exact project_answers_iff.mp (.inr ⟨text, hmissing⟩)
  · obtain rfl := Option.some.inj (h.symm.trans hother)
    rw [hmissing] at hfiles
    cases hfiles

/-- An address of a project that cannot be read for any other reason is not answerable. -/
theorem not_answerable (h : address.project? = some project) {failure : Failure}
    (hfails : d.project (Place.ofText project) = .error failure)
    (hother : ∀ text, failure = .projectMissing text → False) : ¬address.Answerable now d := by
  intro hanswerable
  rcases project_answers_iff.mpr (hanswerable.readable project h) with
    ⟨files, hfiles⟩ | ⟨text, hmissing⟩
  · rw [hfails] at hfiles
    cases hfiles
  · rw [hfails] at hmissing
    exact hother text (Except.error.inj hmissing)

/-- Where the files of the project have been read, it is the export alone that decides. -/
theorem answerable_iff_of_files (h : address.project? = some project) {files : List SourceFile}
    (hfiles : d.project (Place.ofText project) = .ok files) :
    address.Answerable now d
      ↔ ∀ mode ∈ address.mode?, Exportable now (Analysis.ofSources files) (lower mode) := by
  constructor
  · exact fun hanswerable mode hmode => hanswerable.exportable project h mode hmode files hfiles
  · intro hexportable
    refine ⟨fun other hother => ?_, fun other hother mode hmode files' hfiles' => ?_⟩
    · obtain rfl := Option.some.inj (h.symm.trans hother)
      exact project_answers_iff.mp (.inl ⟨files, hfiles⟩)
    · obtain rfl := Option.some.inj (h.symm.trans hother)
      rw [hfiles] at hfiles'
      obtain rfl := Except.ok.inj hfiles'
      exact hexportable mode hmode

/-- A request is answered if and only if its address is answerable, for every disk and at
every moment. -/
theorem exists_answer_iff (h : Address.ofText request = .ok address) :
    (∃ a, answer now d request = .ok a) ↔ address.Answerable now d := by
  rw [answer, h]
  simp only [bind, Except.bind]
  split
  · rename_i hunknown
    have hnone : address.project? = none := by
      rw [Address.project?, if_neg (by tauto)]
    exact ⟨fun _ => answerable_of_noProject hnone, fun _ => ⟨_, rfl⟩⟩
  · rename_i hknown
    have hproject : address.project? = fieldValue? "path" (queryFields address.query) := by
      rw [Address.project?, if_pos (by tauto)]
    split
    · rename_i hnone
      exact ⟨fun _ => answerable_of_noProject (hproject.trans hnone), fun _ => ⟨_, rfl⟩⟩
    · rename_i hsome
      rw [← hproject] at hsome
      split
      · rename_i hmissing
        exact ⟨fun _ => answerable_of_missing hsome hmissing, fun _ => ⟨_, rfl⟩⟩
      · rename_i hother hfails
        exact ⟨fun h => by simp at h, fun h => absurd h (not_answerable hsome hfails hother)⟩
      · rename_i hfiles
        rw [answerable_iff_of_files hsome hfiles]
        split
        · rename_i hanalyze
          -- an analysis is no export
          have hmode : address.mode? = none := by
            rw [Address.mode?, hanalyze, if_neg (by decide)]
          exact ⟨fun _ => by simp [hmode], fun _ => ⟨_, rfl⟩⟩
        · rename_i hexport
          have hmode : address.mode?
              = some ((fieldValue? "mode" (queryFields address.query)).getD usualMode) := by
            rw [Address.mode?, if_pos (by tauto)]
          rw [exists_exportAnswer_iff, hmode]
          exact ⟨fun h mode hsame => Option.some.inj hsame ▸ h, fun h => h _ rfl⟩

end Answerable

/-- A request to this library is answered, well, if the files of the project that it is about
can be read and the export that it asks for can be made, and only then. -/
theorem answered_iff (now : Moment) (d : Disk) {request : String}
    (h : startsWith "/api/" request = true) :
    ∃ address, Address.ofText request = .ok address
      ∧ ((∃ a, answer now d request = .ok a ∧ a.WellFormed) ↔ address.Answerable now d) := by
  obtain ⟨address, haddress⟩ := exists_ofText h
  refine ⟨address, haddress, ?_⟩
  rw [← exists_answer_iff haddress]
  exact ⟨fun ⟨a, ha, _⟩ => ⟨a, ha⟩, fun ⟨a, ha⟩ => ⟨a, ha, wellFormed_answer ha⟩⟩

/-! A project that can be read, and one that cannot. -/

open Session in
/-- The project of the example is readable, since its one migration is a file. -/
theorem not_unreadable_tagDisk (bytes : List UInt8) : ¬(tagDisk bytes).Unreadable tagProject := by
  have hlocated : (tagDisk bytes).locate tagProject = .ok ["p"] := rfl
  have hbelow : ∀ {folder}, (tagDisk bytes).Rooted tagProject folder →
      (tagDisk bytes).below folder
      = [(["database"], .folder), (["database", "migrations"], .folder),
        (["database", "migrations", "1_tags.php"], .file bytes)] := by
    intro folder h
    obtain rfl := Except.ok.inj (hlocated.symm.trans h.located)
    exact below_tagDisk bytes
  intro hunreadable
  cases hunreadable with
  | place h =>
      rw [hlocated] at h
      cases h
  | folder h hmem hfault =>
      rw [hbelow h] at hmem
      simp only [List.mem_cons, Prod.mk.injEq, reduceCtorEq, and_false, List.not_mem_nil,
        or_false, and_true] at hmem
      rcases hmem with rfl | rfl
      · exact absurd hfault (by decide +kernel)
      · exact absurd hfault (by decide +kernel)
  | source h hmem hname hkind hfault =>
      rw [hbelow h] at hmem
      simp only [List.mem_cons, Prod.mk.injEq, List.not_mem_nil, or_false] at hmem
      -- the two folders do not go by the name of a source, and the third entry is a file
      rcases hmem with ⟨rfl, -⟩ | ⟨rfl, -⟩ | ⟨rfl, rfl⟩
      · exact absurd hname (by decide +kernel)
      · exact absurd hname (by decide +kernel)
      · rcases hfault with hfolder | hfault
        · cases hfolder
        · exact absurd hfault (by decide +kernel)

/-- The address of a request for the analysis of a project has its path and its query
apart. -/
theorem ofText_analyze :
    Address.ofText "/api/analyze?path=p" = .ok ⟨"/api/analyze", "path=p"⟩ := rfl

/-- A request for the analysis of that project is answered, with a well formed answer. -/
theorem answered_iff_tags :
    startsWith "/api/" "/api/analyze?path=p" = true
      ∧ ∃ a, answer ⟨2024, 1, 31, 23, 59, 58⟩ (Session.tagDisk (Utf8.encode Session.tagText))
        "/api/analyze?path=p"
          = .ok a ∧ a.WellFormed := by
  have hrequest : startsWith "/api/" "/api/analyze?path=p" = true := by decide +kernel
  refine ⟨hrequest, ?_⟩
  obtain ⟨address, haddress, hanswered⟩ := answered_iff ⟨2024, 1, 31, 23, 59, 58⟩
    (Session.tagDisk (Utf8.encode Session.tagText)) hrequest
  obtain rfl := Except.ok.inj (ofText_analyze.symm.trans haddress)
  have hproject : Address.project? ⟨"/api/analyze", "path=p"⟩ = some "p" := by decide +kernel
  have hmode : Address.mode? ⟨"/api/analyze", "path=p"⟩ = none := by decide +kernel
  have hplace : Place.ofText "p" = Session.tagProject := by decide +kernel
  refine hanswered.mpr ⟨fun project hother => ?_, by simp [hmode]⟩
  obtain rfl := Option.some.inj (hproject.symm.trans hother)
  rw [hplace]
  exact not_unreadable_tagDisk _

/-- A disk with a folder that goes by the name of a migration. -/
def folderDisk : Disk where
  entries := {
    entries := [("p", .folder), ("p/database", .folder), ("p/database/migrations", .folder),
      ("p/database/migrations/1_tags.php", .folder)]
    nodup := by decide }

/-- There is no answer to a request for the analysis of a project in which a folder goes by
the name of a migration. -/
theorem not_answer_folderDisk :
    startsWith "/api/" "/api/analyze?path=p" = true
      ∧ ¬∃ a, answer ⟨2024, 1, 31, 23, 59, 58⟩ folderDisk "/api/analyze?path=p" = .ok a := by
  refine ⟨by decide +kernel, fun hanswer => ?_⟩
  have hanswerable := (exists_answer_iff ofText_analyze).mp hanswer
  have hproject : Address.project? ⟨"/api/analyze", "path=p"⟩ = some "p" := by decide +kernel
  have hplace : Place.ofText "p" = ⟨"", ["p"]⟩ := by decide +kernel
  refine hanswerable.readable "p" hproject ?_
  rw [hplace]
  have hrooted : folderDisk.Rooted ⟨"", ["p"]⟩ ["p"] := ⟨rfl, rfl⟩
  have hmem : (["database", "migrations", "1_tags.php"], Entry.folder) ∈ folderDisk.below
      ["p"] := by
    decide +kernel
  exact .source hrooted hmem (by decide +kernel) (by decide +kernel) (.inl rfl)

end SchemaAtlas.Web
