import SchemaAtlas.Proofs.Session.InSync

/-!
# `SchemaAtlas.Proofs.Session.Spliced`: what a saved edit leaves of a file

An edit of a table that is saved writes one file: what was read in front of the body of
the closure that creates the table, a new body, and what was read behind it
(`exists_spliced_of_edits`). Reading makes line feeds of all line ends and characters of
all bytes. So the bytes around the body are kept if they are text without carriage returns,
and only then (`TextAround`); a file with other line ends is changed throughout
(`changes_crlf`).
-/

set_option autoImplicit false

namespace SchemaAtlas

open Text

/-! ### Around a closure -/

namespace Migration.Closure

/-- What stands in front of the body of a closure. -/
def front (text : String) (c : Closure) : String :=
  String.ofList (text.toList.take c.bodyStart)

/-- What stands behind the body of a closure. -/
def back (text : String) (c : Closure) : String :=
  String.ofList (text.toList.drop c.bodyEnd)

end Migration.Closure

namespace Session

open Disk Migration

/-- Holds of bytes that begin and end with text of so many characters, without carriage
returns. What is between may be anything. -/
def TextAround (bytes : List UInt8) (first last : Nat) : Prop :=
  ∃ (a b : String) (inside : List UInt8), bytes = Utf8.encode a ++ inside ++ Utf8.encode b
    ∧ '\r' ∉ a.toList ∧ '\r' ∉ b.toList ∧ a.toList.length = first ∧ b.toList.length = last

/-- Text without carriage returns is read as it is in front and behind, whatever bytes are
between the two. -/
theorem exists_toList_read {a b : String} (ha : '\r' ∉ a.toList) (hb : '\r' ∉ b.toList)
    (inside : List UInt8) :
    ∃ between, (withLineFeeds (Utf8.decode (Utf8.encode a ++ inside ++ Utf8.encode b))).toList
      = a.toList ++ between ++ b.toList := by
  have hnone : ∀ p ∈ (none : Option Utf8.Pending), p.GoesOn := fun p hp => by cases hp
  obtain ⟨between, hbetween⟩ := Utf8.exists_decodeFrom_append_encode hnone inside b
  obtain ⟨between', hbetween'⟩ := exists_unifyLineEnds_append hb between
  refine ⟨between', ?_⟩
  rw [withLineFeeds, Utf8.decode, String.toList_ofList, String.toList_ofList, List.append_assoc,
    Utf8.decodeFrom_encode_append, hbetween, unifyLineEnds_append_of_notMem ha, hbetween',
    List.append_assoc]

/-- Text that was read has no carriage return in it, since line ends are unified when a file
is read. -/
theorem notMem_withLineFeeds (text : String) : '\r' ∉ (withLineFeeds text).toList := by
  rw [withLineFeeds, String.toList_ofList]
  exact notMem_unifyLineEnds _

/-- A body lies in its text: it starts before it ends, and ends in the text. -/
theorem le_of_mem_closures {text : String} {c : Closure} (hc : c ∈ closures text) :
    c.bodyStart ≤ c.bodyEnd ∧ c.bodyEnd ≤ text.toList.length := by
  obtain ⟨m, q, before, inside, body, masked, after, -, -, -, hstop, hopened, hclosed, hend⟩ :=
    exists_cut_of_mem_closures hc
  have hlength : text.toList.length = before.length + 1 + (body.length + (1 + after.length)) := by
    rw [hopened.cut, hclosed.cut]
    simp only [List.length_append, List.length_cons]
    omega
  have hstart := hopened.stop
  omega

/-- The bytes around the body of a closure are those of what was read there, if they are
text without carriage returns and only then. -/
theorem exists_inside_iff {bytes : List UInt8} {content : String}
    (hcontent : content = withLineFeeds (Utf8.decode bytes)) {c : Closure}
    (hc : c ∈ closures content) :
    (∃ inside, bytes = Utf8.encode (c.front content) ++ inside ++ Utf8.encode (c.back content))
      ↔ TextAround bytes c.bodyStart (content.toList.length - c.bodyEnd) := by
  obtain ⟨hstart, hend⟩ := le_of_mem_closures hc
  have hreturns : '\r' ∉ content.toList := hcontent ▸ notMem_withLineFeeds _
  constructor
  · rintro ⟨inside, hbytes⟩
    refine ⟨c.front content, c.back content, inside, hbytes, ?_, ?_, ?_, ?_⟩
    · rw [Closure.front, String.toList_ofList]
      exact fun h => hreturns (List.mem_of_mem_take h)
    · rw [Closure.back, String.toList_ofList]
      exact fun h => hreturns (List.mem_of_mem_drop h)
    · rw [Closure.front, String.toList_ofList, List.length_take, Nat.min_eq_left (by omega)]
    · rw [Closure.back, String.toList_ofList, List.length_drop]
  · -- what was read begins and ends with the text that is there
    rintro ⟨a, b, inside, hbytes, ha, hb, hfirst, hlast⟩
    obtain ⟨between, hread⟩ := exists_toList_read ha hb inside
    rw [← hbytes, ← hcontent] at hread
    have hlength := congrArg List.length hread
    rw [List.length_append, List.length_append] at hlength
    have hfront : c.front content = a := by
      rw [Closure.front, hread, ← hfirst, List.append_assoc, List.take_left, String.ofList_toList]
    have hback : c.back content = b := by
      have hdrop : c.bodyEnd = (a.toList ++ between).length := by
        rw [List.length_append]
        omega
      rw [Closure.back, hread, hdrop, List.drop_left, String.ofList_toList]
    exact ⟨inside, by rw [hfront, hback]; exact hbytes⟩

/-- A file of text without carriage returns is such text around every part of it, however it
is cut. -/
theorem textAround_encode {text : String} (h : '\r' ∉ text.toList) {first last : Nat}
    (hlength : first + last ≤ text.toList.length) : TextAround (Utf8.encode text) first last := by
  let rest := text.toList.drop first
  let inside := rest.take (rest.length - last)
  let b := rest.drop (rest.length - last)
  have hrest : rest.length = text.toList.length - first := List.length_drop
  -- the text is its first characters, what is inside, and its last ones
  have hcut : text = String.ofList (text.toList.take first) ++ String.ofList inside
      ++ String.ofList b := by
    apply String.toList_injective
    simp only [String.toList_append, String.toList_ofList]
    rw [List.append_assoc, List.take_append_drop, List.take_append_drop]
  refine ⟨String.ofList (text.toList.take first), String.ofList b,
    Utf8.encode (String.ofList inside), ?_, ?_, ?_,
    ?_, ?_⟩
  · rw [← Utf8.encode_append, ← Utf8.encode_append, ← hcut]
  · rw [String.toList_ofList]
    exact fun hmem => h (List.mem_of_mem_take hmem)
  · rw [String.toList_ofList]
    exact fun hmem => h (List.mem_of_mem_drop (List.mem_of_mem_drop hmem))
  · rw [String.toList_ofList, List.length_take, Nat.min_eq_left (by omega)]
  · rw [String.toList_ofList, List.length_drop]
    omega

/-! ### One saved edit -/

section Edit

variable {d : Disk} {root : Place} {folder : List String} {files : List SourceFile}
    {table : String} {s : Session}

/-- Writing back keeps what stands in front of the body and what stands behind it, with
something else between them. -/
theorem exists_writeBack_eq {text : String} {c : Closure}
    (hc : creation? table (closures text) = some c)
    (columns : List Column) (fks : List ForeignKey) :
    ∃ body, writeBack text table columns fks = c.front text ++ body ++ c.back text := by
  refine ⟨String.ofList (newBody text.toList c columns fks), String.toList_injective ?_⟩
  rw [toList_writeBack hc]
  simp only [rewritten, Closure.front, Closure.back, String.toList_append, String.toList_ofList,
    List.append_assoc]

/-- After an edit of files that were loaded, the one that creates the table is the only one
to be saved. -/
theorem exists_unsaved_of_edits (hdistinct : (files.map SourceFile.path).Nodup)
    {root? : Option Place}
    (hedits : Edits table (start files root?) s) :
    ∃ f ∈ files, ∃ c body, creates table f = true ∧ creation? table (closures f.content) = some c
      ∧ s.unsaved = [f.withContent (c.front f.content ++ body ++ c.back f.content)]
      ∧ s.files.map SourceFile.path = files.map SourceFile.path ∧ s.root = root? := by
  obtain ⟨columns, fks, hedit⟩ := hedits.exists_editTable?
  obtain ⟨f, i, hcreator, rfl⟩ := exists_creator?_of_editTable? hedit
  obtain ⟨hcreates, -⟩ := exists_cut_of_creator? hcreator
  obtain ⟨c, hc⟩ := exists_creation_of_creates hcreates
  obtain ⟨body, hbody⟩ := exists_writeBack_eq hc columns fks
  have hi : files[i]? = some f := getElem?_of_creator? hcreator
  have hpaths := map_path_set hi (writeBack f.content table columns fks)
  refine ⟨f, List.mem_of_getElem? hi, c, body, hcreates, hc, ?_, hpaths, rfl⟩
  -- its path is the only one that is marked, and no other file goes by it
  rw [← hbody]
  refine filter_eq_singleton (g := SourceFile.path) (hpaths ▸ hdistinct)
    (List.mem_set (List.getElem?_eq_some_iff.mp hi).1 _) fun g => ?_
  show (addPath f.path []).contains g.path = true ↔ g.path = f.path
  rw [List.contains_iff_mem, mem_addPath, or_iff_left List.not_mem_nil]

/-- An edit of files that lie below the folder is saved in the one that creates the table:
a new body between what was read in front of the old one and behind it. -/
theorem exists_save_of_edits (h : d.Keeps root folder files)
    (hedits : Edits table (start files (some root)) s) :
    ∃ f ∈ files, ∃ c, creates table f = true ∧ creation? table (closures f.content) = some c
      ∧ ∃ s' d' body, s.save d = (.ok [target root f], s', d')
        ∧ d'.bytesAt? (target root f)
          = some (Utf8.encode (c.front f.content) ++ Utf8.encode body
            ++ Utf8.encode (c.back f.content))
        ∧ ∀ key, (∀ names, d.locate (target root f) = .ok names → path names ≠ key) →
          d'.entries.get? key = d.entries.get? key := by
  obtain ⟨f, hf, c, body, hcreates, hc, hunsaved, hpaths, hroot⟩ :=
    exists_unsaved_of_edits h.distinct hedits
  have hkeeps := h.of_map_path hpaths
  have hplaces : s.unsaved.map (target root) = [target root f] := by
    rw [hunsaved]
    rfl
  have hsave := save_eq hkeeps hroot
  have hwritten := bytesAt?_foldl_store hkeeps (hunsaved ▸ List.mem_singleton_self _)
  rw [hplaces] at hsave
  rw [SourceFile.withContent, Utf8.encode_append, Utf8.encode_append] at hwritten
  refine ⟨f, hf, c, hcreates, hc, _, _, body, hsave, hwritten, fun key hkey => ?_⟩
  refine get?_foldl_store hkeeps fun p hp => ?_
  rw [hplaces, List.mem_singleton] at hp
  rw [hp]
  exact hkey

end Edit

/-- Holds of disks before and after the body of a closure was written anew in one file:
the bytes in front of the body and behind it are those of what was read there, they are
the bytes that were there if these are text without carriage returns and only then, and
no other entry has changed. -/
structure Spliced (d : Disk) (p : Place) (content : String) (c : Closure) (d' : Disk) : Prop where
  written : ∃ body, d'.bytesAt? p
    = some (Utf8.encode (c.front content) ++ Utf8.encode body ++ Utf8.encode (c.back content))
  kept : ∃ bytes, d.bytesAt? p = some bytes
    ∧ ((∃ inside, bytes = Utf8.encode (c.front content) ++ inside ++ Utf8.encode (c.back content))
      ↔ TextAround bytes c.bodyStart (content.toList.length - c.bodyEnd))
  others : ∀ key, (∀ names, d.locate p = .ok names → path names ≠ key) →
    d'.entries.get? key = d.entries.get? key

/-- An edit of a table in a project that was loaded, when it is saved, writes the body of
the closure that creates the table anew. It keeps the bytes around the body if they are
text without carriage returns, and only then, and it keeps everything else on the disk. -/
theorem exists_spliced_of_edits {d : Disk} (hd : d.Sound) {root : Place} {files : List SourceFile}
    (hproject : d.project root = .ok files) (before : Session) {table : String} {s : Session}
    (hedits : Edits table (before.load files (some root)) s) :
    ∃ f ∈ files, ∃ c, creates table f = true ∧ creation? table (closures f.content) = some c
      ∧ ∃ s' d', s.save d = (.ok [target root f], s', d')
      ∧ Spliced d (target root f) f.content c d' := by
  obtain ⟨folder, hkeeps, hfiles⟩ := exists_keeps_of_project hd hproject
  obtain ⟨f, hf, c, hcreates, hc, s', d', body, hsave, hwritten, hothers⟩ :=
    exists_save_of_edits hkeeps hedits
  obtain ⟨bytes, hbytes, hcontent⟩ := hfiles f hf
  have hkept := exists_inside_iff hcontent (List.mem_of_find?_eq_some hc)
  exact ⟨f, hf, c, hcreates, hc, s', d', hsave, ⟨body, hwritten⟩, ⟨bytes, hbytes, hkept⟩, hothers⟩

/-- A migration with line feeds keeps the bytes around the body when a column is added to
its table and the session is saved. -/
theorem exists_spliced_of_edits_tags :
    ∃ s s' d', Edits "tags" ((default : Session).load [tagFile tagText] (some tagProject)) s
      ∧ s.save (tagDisk (Utf8.encode tagText))
        = (.ok [target tagProject (tagFile tagText)], s', d')
      ∧ Spliced (tagDisk (Utf8.encode tagText)) (target tagProject (tagFile tagText)) tagText
        tagBody d'
      ∧ TextAround (Utf8.encode tagText) tagBody.bodyStart
        (tagText.toList.length - tagBody.bodyEnd) := by
  obtain ⟨s, hrun, -⟩ := exists_run?_tagFile
  have hedits : Edits "tags" ((default : Session).load [tagFile tagText] (some tagProject)) s :=
    .edit _ hrun
  have hproject := project_tagDisk (Utf8.encode tagText)
  rw [Utf8.decode_encode, withLineFeeds_of_notMem notMem_tagText] at hproject
  obtain ⟨f, hf, c, -, hc, s', d', hsave, hspliced⟩ :=
    exists_spliced_of_edits (sound_tagDisk _) hproject default hedits
  obtain rfl := List.mem_singleton.mp hf
  obtain rfl : c = tagBody := Option.some.inj (hc.symm.trans makes_tagText.closure)
  have hmem : tagBody ∈ closures tagText := List.mem_of_find?_eq_some hc
  obtain ⟨hstart, hend⟩ := le_of_mem_closures hmem
  exact ⟨s, s', d', hedits, hsave, hspliced, textAround_encode notMem_tagText (by omega)⟩

/-- The same migration with carriage returns in front of its line feeds. -/
def crlfText : String :=
  "<?php\r\nSchema::create('tags',function(Blueprint $t)\x7b"
    ++ "$t->id();\x7d);\r\n"

/-- An edit of that migration takes the carriage return from its first line, which is in
front of the body that is written. -/
theorem changes_crlf :
    ∃ s s' d' new, (tagDisk (Utf8.encode crlfText)).project tagProject = .ok [tagFile tagText]
      ∧ Edits "tags" ((default : Session).load [tagFile tagText] (some tagProject)) s
      ∧ s.save (tagDisk (Utf8.encode crlfText))
        = (.ok [target tagProject (tagFile tagText)], s', d')
      ∧ (tagDisk (Utf8.encode crlfText)).bytesAt? (target tagProject (tagFile tagText))
        = some (Utf8.encode crlfText)
      ∧ d'.bytesAt? (target tagProject (tagFile tagText)) = some new
      ∧ Utf8.encode "<?php\r\n" <+: Utf8.encode crlfText ∧ ¬Utf8.encode "<?php\r\n" <+: new := by
  obtain ⟨s, hrun, -⟩ := exists_run?_tagFile
  have hedits : Edits "tags" ((default : Session).load [tagFile tagText] (some tagProject)) s :=
    .edit _ hrun
  have hproject := project_tagDisk (Utf8.encode crlfText)
  have hread : withLineFeeds crlfText = tagText := by decide +kernel
  rw [Utf8.decode_encode, hread] at hproject
  obtain ⟨folder, hkeeps, -⟩ := exists_keeps_of_project (sound_tagDisk _) hproject
  obtain ⟨f, hf, c, -, hc, s', d', body, hsave, hwritten, -⟩ := exists_save_of_edits hkeeps hedits
  obtain rfl := List.mem_singleton.mp hf
  obtain rfl : c = tagBody := Option.some.inj (hc.symm.trans makes_tagText.closure)
  -- the first line that is written is the one that was read
  have hfirst : (Utf8.encode (tagBody.front (tagFile tagText).content)).take 6
      = Utf8.encode "<?php\n" := by
    decide +kernel
  have hlength : 6 ≤ (Utf8.encode (tagBody.front (tagFile tagText).content)).length := by
    decide +kernel
  refine ⟨s, s', d', _, hproject, hedits, hsave, bytesAt?_tagDisk _ _,
    hwritten, by decide +kernel, ?_⟩
  rintro ⟨rest, hrest⟩
  have htake := congrArg (List.take 6) hrest
  rw [List.append_assoc, List.take_append_of_le_length (by decide +kernel),
    List.take_append_of_le_length hlength] at htake
  exact absurd (htake.trans hfirst) (by decide +kernel)

end Session

end SchemaAtlas
