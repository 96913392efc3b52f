import Mathlib.Data.List.Nodup
import SchemaAtlas.Proofs.List
import SchemaAtlas.Schema.Table

/-!
# `SchemaAtlas.Proofs.Schema.Table`: entering columns and constraints

Columns and foreign keys are entered into lists one after another. One step is told by cutting
the list at the first column of a name (`putColumn_cases`, `updateColumn_cases`). As long as the
names are distinct, entering is appending (`foldl_putColumn_of_nodup`,
`foldl_putForeignKey_of_nodup`), and passing a column of some name through a function is mapping
over the list (`updateColumn_eq_map`). Whatever the names, entering leaves the names that are
there in their places, and the new ones follow as they first occur (`map_name_foldl_putColumn`).
-/

set_option autoImplicit false

namespace SchemaAtlas

attribute [ext] Column

/-! ### Columns -/

/-- Columns under distinct names are the same as others in the order of those names if they
are among them. -/
theorem columns_eq_of_subset {columns others : List Column} (hd : (others.map Column.name).Nodup)
    (hnames : columns.map Column.name = others.map Column.name) (hsubset : columns ⊆ others) :
    columns = others := by
  have hlength : columns.length = others.length := by
    rw [← List.length_map (f := Column.name), hnames, List.length_map]
  refine List.ext_getElem hlength fun i hi hi' => ?_
  refine List.inj_on_of_nodup_map hd (hsubset (List.getElem_mem hi)) (List.getElem_mem hi') ?_
  rw [← List.getElem_map (f := Column.name) (h := by simpa using hi),
    ← List.getElem_map (f := Column.name) (h := by simpa using hi')]
  simp only [hnames]

/-- An update is of the first column of the name, or of none if there is none. -/
theorem updateColumn_cases (name : String) (f : Column → Column) (columns : List Column) :
    (∃ before d after,
      columns = before ++ d :: after ∧ d.name = name ∧ name ∉ before.map Column.name
        ∧ updateColumn name f columns = before ++ f d :: after)
      ∨ (name ∉ columns.map Column.name ∧ updateColumn name f columns = columns) := by
  induction columns with
  | nil => exact .inr ⟨List.not_mem_nil, rfl⟩
  | cons e columns ih =>
      rw [updateColumn]
      by_cases he : e.name = name
      · exact .inl ⟨[], e, columns, rfl, he, List.not_mem_nil, if_pos he⟩
      · rw [if_neg he]
        rcases ih with ⟨before, d, after, rfl, hd, hbefore, hupdate⟩ | ⟨hnone, hupdate⟩
        · exact .inl ⟨e :: before, d, after, rfl, hd,
            List.not_mem_cons_of_ne_of_not_mem (Ne.symm he) hbefore,
            congrArg (e :: ·) hupdate⟩
        · exact .inr ⟨List.not_mem_cons_of_ne_of_not_mem (Ne.symm he) hnone,
            congrArg (e :: ·) hupdate⟩

/-- To enter a column is to update the one of its name, if there is one. -/
theorem putColumn_eq (c : Column) (columns : List Column) :
    putColumn c columns
      = if c.name ∈ columns.map Column.name then updateColumn c.name (fun _ => c) columns
        else columns ++ [c] := by
  induction columns with
  | nil => rfl
  | cons d columns ih =>
      rw [putColumn, updateColumn, ih, List.map_cons]
      by_cases hd : d.name = c.name
      · rw [if_pos hd, if_pos hd, if_pos (hd ▸ List.mem_cons_self)]
      · have hmem : c.name ∈ d.name :: columns.map Column.name
            ↔ c.name ∈ columns.map Column.name := by
          rw [List.mem_cons, or_iff_right (Ne.symm hd)]
        rw [if_neg hd, if_neg hd, if_congr hmem rfl rfl]
        split <;> rfl

/-- So a column takes the place of the first one of its name, or goes to the end if there is
none. -/
theorem putColumn_cases (c : Column) (columns : List Column) :
    (∃ before d after,
      columns = before ++ d :: after ∧ d.name = c.name ∧ c.name ∉ before.map Column.name
        ∧ putColumn c columns = before ++ c :: after)
      ∨ (c.name ∉ columns.map Column.name ∧ putColumn c columns = columns ++ [c]) := by
  rw [putColumn_eq]
  rcases updateColumn_cases c.name (fun _ => c) columns with
    ⟨before, d, after, rfl, hd, hbefore, hupdate⟩ | ⟨hnone, -⟩
  · exact .inl ⟨before, d, after, rfl, hd, hbefore, by rw [if_pos (by simp [hd]), hupdate]⟩
  · exact .inr ⟨hnone, if_neg hnone⟩

/-- A column of a new name goes to the end, and the columns before it stay. -/
theorem putColumn_of_notMem {c : Column} {columns : List Column}
    (h : c.name ∉ columns.map Column.name) : putColumn c columns = columns ++ [c] := by
  rw [putColumn_eq, if_neg h]

/-- Columns of new and distinct names go to the end, one after another in their order. -/
theorem foldl_putColumn_of_nodup (new columns : List Column)
    (h : ((columns ++ new).map Column.name).Nodup) :
    new.foldl (fun columns c => putColumn c columns) columns = columns ++ new :=
  foldl_eq_append_of_nodup (fun _ _ => putColumn_of_notMem) h

/-- With distinct names the first column of a name is the only one, so updating it is
updating all columns of the name. -/
theorem updateColumn_eq_map {columns : List Column} (h : (columns.map Column.name).Nodup)
    (name : String) (f : Column → Column) :
    updateColumn name f columns = columns.map fun c => if c.name = name then f c else c := by
  -- no column of another name is touched
  have hothers : ∀ l : List Column, name ∉ l.map Column.name →
      (l.map fun c => if c.name = name then f c else c) = l := fun l hl => by
    refine (List.map_congr_left fun c hc => if_neg fun e => hl ?_).trans l.map_id
    exact e ▸ List.mem_map_of_mem hc
  rcases updateColumn_cases name f columns with
    ⟨before, d, after, rfl, rfl, hbefore, hupdate⟩ | ⟨hnone, hupdate⟩
  · rw [List.map_append, List.map_cons, List.nodup_middle, List.nodup_cons, List.mem_append,
      not_or] at h
    rw [hupdate, List.map_append, hothers before hbefore, List.map_cons, if_pos rfl,
      hothers after h.1.2]
  · rw [hupdate, hothers columns hnone]

/-- What is among the columns once one is entered is that column or was there before. -/
theorem mem_putColumn {c d : Column} {columns : List Column} (h : d ∈ putColumn c columns) :
    d = c ∨ d ∈ columns := by
  rcases putColumn_cases c columns with ⟨before, e, after, rfl, -, -, hput⟩ | ⟨-, hput⟩
  · rw [hput, List.mem_append, List.mem_cons] at h
    rw [List.mem_append, List.mem_cons]
    tauto
  · rw [hput, List.mem_append, List.mem_singleton] at h
    exact h.symm

/-- A column takes the place of the one of its name, or comes with its name at the end. -/
theorem map_name_putColumn (c : Column) (columns : List Column) :
    (putColumn c columns).map Column.name
      = if c.name ∈ columns.map Column.name then columns.map Column.name
        else columns.map Column.name ++ [c.name] := by
  rcases putColumn_cases c columns with ⟨before, d, after, rfl, hd, -, hput⟩ | ⟨hnone, hput⟩
  · rw [hput, if_pos (by simp [hd]), List.map_append, List.map_append, List.map_cons,
      List.map_cons, hd]
  · rw [hput, if_neg hnone, List.map_append, List.map_singleton]

/-- Entering columns leaves the names in their places, and the new ones follow as they
first occur. -/
theorem map_name_foldl_putColumn (new columns : List Column) :
    (new.foldl (fun columns c => putColumn c columns) columns).map Column.name
      = columns.map Column.name
        ++ ((new.map Column.name).filter fun name =>
          !(columns.map Column.name).contains name).eraseDups := by
  induction new generalizing columns with
  | nil => simp
  | cons c new ih =>
      rw [List.foldl_cons, ih, map_name_putColumn, List.map_cons]
      by_cases hc : c.name ∈ columns.map Column.name
      · rw [if_pos hc, List.filter_cons_of_neg (by simpa using hc)]
      · rw [if_neg hc, List.filter_cons_of_pos (by simpa using hc), List.eraseDups_cons,
          List.filter_filter, List.append_assoc, List.singleton_append]
        congr 3
        refine List.filter_congr fun name _ => ?_
        rw [List.contains_append, Bool.not_or, Bool.and_comm]
        congr 1
        rw [List.contains_cons, List.contains_nil, Bool.or_false]

/-- What is among the columns once some are entered is one of those or was there before. -/
theorem mem_foldl_putColumn {new columns : List Column} {d : Column}
    (h : d ∈ new.foldl (fun columns c => putColumn c columns) columns) : d ∈ columns ∨ d ∈ new :=
  mem_or_mem_of_mem_foldl (fun _ _ _ => mem_putColumn) h

/-- Entering columns adds their names to those that were there, and takes none away. -/
theorem mem_names_foldl_putColumn (new columns : List Column) (name : String) :
    name ∈ (new.foldl (fun columns c => putColumn c columns) columns).map Column.name
      ↔ name ∈ columns.map Column.name ∨ name ∈ new.map Column.name := by
  rw [map_name_foldl_putColumn, List.mem_append, List.mem_eraseDups, List.mem_filter]
  by_cases hname : name ∈ columns.map Column.name
  · simp only [hname, true_or]
  · simp [hname]

/-- Entering a column leaves one of another name, and leaves the same one if that is what is
entered. -/
theorem mem_putColumn_of_eq {c d : Column} {columns : List Column} (hc : c ∈ columns)
    (hd : d.name = c.name → d = c) : c ∈ putColumn d columns := by
  rcases putColumn_cases d columns with ⟨before, e, after, rfl, he, -, hput⟩ | ⟨-, hput⟩
  · rw [hput]
    rcases List.mem_append.mp hc with hc | hc
    · exact List.mem_append_left _ hc
    · rcases List.mem_cons.mp hc with rfl | hc
      · exact List.mem_append_right _ (hd he.symm ▸ List.mem_cons_self)
      · exact List.mem_append_right _ (List.mem_cons_of_mem d hc)
  · exact hput ▸ List.mem_append_left _ hc

/-- Entering columns leaves a column if there is no other of its name among them. -/
theorem mem_foldl_putColumn_of_eq {new columns : List Column} {c : Column} (hc : c ∈ columns)
    (hnew : ∀ d ∈ new, d.name = c.name → d = c) :
    c ∈ new.foldl (fun columns c => putColumn c columns) columns :=
  List.foldlRecOn (motive := fun columns => c ∈ columns) new _ hc fun _ hin d hd =>
    mem_putColumn_of_eq hin (hnew d hd)

/-- No column of a name is found where no column bears it. -/
theorem find?_eq_none_of_notMem {name : String} {columns : List Column}
    (h : name ∉ columns.map Column.name) :
    columns.find? (fun c => c.name == name) = none :=
  List.find?_eq_none.mpr fun _ hc e => h (beq_iff_eq.mp e ▸ List.mem_map_of_mem hc)

/-- The first column of a name is the one that is entered, if it has the name. -/
theorem find?_putColumn (d : Column) (columns : List Column) (name : String) :
    (putColumn d columns).find? (fun c => c.name == name)
      = ([d].find? fun c => c.name == name).or (columns.find? fun c => c.name == name) := by
  rcases putColumn_cases d columns with ⟨before, e, after, rfl, he, hbefore, hput⟩ | ⟨hnone, hput⟩
  · by_cases hd : d.name = name
    · subst hd
      rw [hput, List.find?_append, find?_eq_none_of_notMem hbefore]
      simp
    · simp [hput, List.find?_append, he, hd]
  · by_cases hd : d.name = name
    · subst hd
      rw [hput, List.find?_append, find?_eq_none_of_notMem hnone, Option.none_or, Option.or_none]
    · simp [hput, List.find?_append, hd]

/-- The first column of a name among entered ones is the last that was entered, if any
was. -/
theorem find?_foldl_putColumn (new columns : List Column) (name : String) :
    (new.foldl (fun columns c => putColumn c columns) columns).find? (fun c => c.name == name)
      = (new.reverse.find? fun c => c.name == name).or
        (columns.find? fun c => c.name == name) := by
  induction new generalizing columns with
  | nil => rfl
  | cons d new ih =>
      rw [List.foldl_cons, ih, find?_putColumn, List.reverse_cons, List.find?_append,
        Option.or_assoc]

/-- Entering a column leaves names distinct: it takes the place of one of its name or goes
to the end. -/
theorem nodup_names_putColumn {columns : List Column} (h : (columns.map Column.name).Nodup)
    (c : Column) :
    ((putColumn c columns).map Column.name).Nodup := by
  rw [map_name_putColumn]
  split
  · exact h
  · rename_i hnew
    rw [← List.concat_eq_append]
    exact h.concat hnew

/-- Entering columns one after another leaves names distinct, whatever their own names
are. -/
theorem nodup_names_foldl_putColumn (new : List Column) {columns : List Column}
    (h : (columns.map Column.name).Nodup) :
    ((new.foldl (fun columns c => putColumn c columns) columns).map Column.name).Nodup :=
  List.foldlRecOn (motive := fun columns : List Column => (columns.map Column.name).Nodup) new _ h
    fun _ hd c _ =>
    nodup_names_putColumn hd c

/-- Updating a column leaves whatever the update does not touch, for all columns at once. -/
theorem map_updateColumn {β : Type} {f : Column → Column} {g : Column → β}
    (hf : ∀ c, g (f c) = g c)
    (name : String) (columns : List Column) :
    (updateColumn name f columns).map g = columns.map g := by
  rcases updateColumn_cases name f columns with
    ⟨before, d, after, rfl, -, -, hupdate⟩ | ⟨-, hupdate⟩
  · rw [hupdate, List.map_append, List.map_append, List.map_cons, List.map_cons, hf]
  · rw [hupdate]

/-- Updating a column leaves the others, and also the column itself if the update does not
change it. -/
theorem mem_updateColumn {c : Column} {columns : List Column} (hc : c ∈ columns) {name : String}
    {f : Column → Column} (hf : c.name = name → f c = c) : c ∈ updateColumn name f columns := by
  rcases updateColumn_cases name f columns with
    ⟨before, d, after, rfl, hd, -, hupdate⟩ | ⟨-, hupdate⟩
  · rw [hupdate]
    rcases List.mem_append.mp hc with hc | hc
    · exact List.mem_append_left _ hc
    · rcases List.mem_cons.mp hc with rfl | hc
      · exact List.mem_append_right _ (by rw [hf hd]; exact List.mem_cons_self)
      · exact List.mem_append_right _ (List.mem_cons_of_mem _ hc)
  · rwa [hupdate]

/-- Updating a column leaves the first one of another name, if the update gives no such
name. -/
theorem find?_updateColumn {name old : String} {f : Column → Column} (hold : old ≠ name)
    (hf : ∀ c, c.name = old → (f c).name ≠ name) (columns : List Column) :
    (updateColumn old f columns).find? (fun c => c.name == name)
      = columns.find? fun c => c.name == name := by
  rcases updateColumn_cases old f columns with
    ⟨before, d, after, rfl, hd, -, hupdate⟩ | ⟨-, hupdate⟩
  · have hne : d.name ≠ name := hd ▸ hold
    rw [hupdate, List.find?_append, List.find?_append,
      List.find?_cons_of_neg (by simpa using hf d hd),
      List.find?_cons_of_neg (by simpa using hne)]
  · rw [hupdate]

/-- A name among updated columns was there before, or else the update gave it. -/
theorem mem_names_updateColumn {columns : List Column} {name other : String} {f : Column → Column}
    (h : other ∈ (updateColumn name f columns).map Column.name) :
    other ∈ columns.map Column.name ∨ ∃ c ∈ columns, other = (f c).name := by
  rcases updateColumn_cases name f columns with
    ⟨before, d, after, rfl, -, -, hupdate⟩ | ⟨-, hupdate⟩
  · rw [hupdate, List.map_append, List.map_cons, List.mem_append, List.mem_cons] at h
    rw [List.map_append, List.map_cons, List.mem_append, List.mem_cons]
    rcases h with h | h | h
    · exact .inl (.inl h)
    · exact .inr ⟨d, List.mem_append_right _ List.mem_cons_self, h⟩
    · exact .inl (.inr (.inr h))
  · exact .inl (hupdate ▸ h)

/-- An update that gives a column a free name leaves names distinct. -/
theorem nodup_names_updateColumn {columns : List Column} (h : (columns.map Column.name).Nodup)
    {old new : String} (hnew : new ∉ columns.map Column.name) {f : Column → Column}
    (hf : ∀ c, (f c).name = new) : ((updateColumn old f columns).map Column.name).Nodup := by
  rcases updateColumn_cases old f columns with
    ⟨before, d, after, rfl, -, -, hupdate⟩ | ⟨-, hupdate⟩
  · rw [List.map_append, List.map_cons, List.nodup_middle, List.nodup_cons] at h
    rw [List.map_append, List.map_cons, List.mem_append, List.mem_cons, not_or, not_or] at hnew
    rw [hupdate, List.map_append, List.map_cons, hf, List.nodup_middle, List.nodup_cons,
      List.mem_append, not_or]
    exact ⟨⟨hnew.1, hnew.2.2⟩, h.2⟩
  · rwa [hupdate]

/-- Updating columns of distinct names one after another updates each of them once, in its
place. -/
theorem foldl_updateColumn_of_nodup {f : Column → Column} (hname : ∀ c, (f c).name = c.name)
    (hf : ∀ c, f (f c) = f c) (names : List String) {columns : List Column}
    (h : (columns.map Column.name).Nodup) :
    names.foldl (fun columns name => updateColumn name f columns) columns
      = columns.map fun c => if c.name ∈ names then f c else c := by
  induction names generalizing columns with
  | nil => simp
  | cons name names ih =>
      have hnames : ((updateColumn name f columns).map Column.name).Nodup := by
        rwa [map_updateColumn hname]
      rw [List.foldl_cons, ih hnames, updateColumn_eq_map h, List.map_map]
      refine List.map_congr_left fun c _ => ?_
      rw [Function.comp_apply]
      by_cases hc : c.name = name
      · simp [hc, hname, hf]
      · simp [hc]

/-- The column flagged as foreign. -/
def Column.flagged (c : Column) : Column := { c with isForeign := true }

/-- With distinct names, flagging the columns of some foreign keys one after
another flags those that a key is on. -/
theorem foldl_flag_of_nodup (fks : List ForeignKey) (columns : List Column)
    (h : (columns.map Column.name).Nodup) :
    fks.foldl (fun columns fk => updateColumn fk.column Column.flagged columns) columns
      = columns.map fun c => if fks.any (fun fk => fk.column == c.name) then c.flagged
        else c := by
  have hnames : (fks.map ForeignKey.column).foldl
      (fun columns name => updateColumn name Column.flagged columns) columns
      = fks.foldl (fun columns fk => updateColumn fk.column Column.flagged columns) columns :=
        List.foldl_map
  rw [← hnames,
    foldl_updateColumn_of_nodup (f := Column.flagged) (fun _ => rfl) (fun _ => rfl) _ h]
  refine List.map_congr_left fun c _ => if_congr ?_ rfl rfl
  simp

/-- Flagging columns leaves all but the flags: names, types and the order among them. -/
theorem map_foldl_flag {β : Type} {g : Column → β} (hg : ∀ c : Column, g c.flagged = g c)
    (fks : List ForeignKey) (columns : List Column) :
    (fks.foldl (fun columns fk => updateColumn fk.column Column.flagged columns) columns).map g
      = columns.map g :=
  apply_foldl (g := List.map g) (fun fk _ => map_updateColumn hg fk.column) columns

/-! ### Foreign keys -/

/-- A key on a column without one goes to the end, and the keys before it stay. -/
theorem putForeignKey_of_notMem {fk : ForeignKey} {fks : List ForeignKey}
    (h : fk.column ∉ fks.map ForeignKey.column) : putForeignKey fk fks = fks ++ [fk] := by
  rw [putForeignKey, List.filter_eq_self.mpr]
  intro other hother
  have hne : other.column ≠ fk.column := fun e => h (e ▸ List.mem_map_of_mem hother)
  simpa using hne

/-- Keys on new and distinct columns go to the end, one after another in their order. -/
theorem foldl_putForeignKey_of_nodup (new fks : List ForeignKey)
    (h : ((fks ++ new).map ForeignKey.column).Nodup) :
    new.foldl (fun fks fk => putForeignKey fk fks) fks = fks ++ new :=
  foldl_eq_append_of_nodup (fun _ _ => putForeignKey_of_notMem) h

/-- What is among the keys once one is entered is that key or was there before. -/
theorem mem_putForeignKey {fk other : ForeignKey} {fks : List ForeignKey}
    (h : other ∈ putForeignKey fk fks) :
    other = fk ∨ other ∈ fks := by
  rcases List.mem_append.mp h with h | h
  · exact .inr (List.mem_filter.mp h).1
  · exact .inl (List.mem_singleton.mp h)

/-- What is among the keys once some are entered is one of those or was there before. -/
theorem mem_foldl_putForeignKey {new fks : List ForeignKey} {fk : ForeignKey}
    (h : fk ∈ new.foldl (fun fks fk => putForeignKey fk fks) fks) : fk ∈ fks ∨ fk ∈ new :=
  mem_or_mem_of_mem_foldl (fun _ _ _ => mem_putForeignKey) h

/-- Entering a key leaves one on another column, and leaves the same one if that is what is
entered. -/
theorem mem_putForeignKey_of_eq {fk other : ForeignKey} {fks : List ForeignKey} (hfk : fk ∈ fks)
    (hother : other.column = fk.column → other = fk) : fk ∈ putForeignKey other fks := by
  rw [putForeignKey, List.mem_append, List.mem_filter, List.mem_singleton]
  by_cases hcolumn : other.column = fk.column
  · exact .inr (hother hcolumn).symm
  · exact .inl ⟨hfk, by simpa using Ne.symm hcolumn⟩

/-- Entering keys leaves a key if there is no other on its column among them. -/
theorem mem_foldl_putForeignKey_of_eq {new fks : List ForeignKey} {fk : ForeignKey}
    (hfk : fk ∈ fks)
    (hnew : ∀ other ∈ new, other.column = fk.column → other = fk) :
    fk ∈ new.foldl (fun fks fk => putForeignKey fk fks) fks :=
  List.foldlRecOn (motive := fun fks => fk ∈ fks) new _ hfk fun _ hin other hother =>
    mem_putForeignKey_of_eq hin (hnew other hother)

/-- One key that is entered takes the place of all others on its column, and leaves those on
other columns. -/
theorem filter_putForeignKey (fk : ForeignKey) (fks : List ForeignKey) (column : String) :
    (putForeignKey fk fks).filter (fun fk => fk.column == column)
      = if fk.column = column then [fk] else fks.filter fun fk => fk.column == column := by
  rw [putForeignKey, List.filter_append, List.filter_filter]
  split
  · rename_i hcolumn
    have hnone : fks.filter (fun other => other.column == column && other.column != fk.column)
        = [] :=
      List.filter_eq_nil_iff.mpr fun other _ => by simp [hcolumn]
    rw [hnone, List.filter_cons_of_pos (by simpa using hcolumn), List.filter_nil, List.nil_append]
  · rename_i hcolumn
    have hsame : fks.filter (fun other => other.column == column && other.column != fk.column)
        = fks.filter fun other => other.column == column :=
      List.filter_congr fun other _ => by
        by_cases hother : other.column = column
        · simpa [hother] using Ne.symm hcolumn
        · simp [hother]
    rw [hsame, List.filter_cons_of_neg (by simpa using hcolumn), List.filter_nil, List.append_nil]

/-- The keys on a column among entered ones are the last that was entered, if any was. -/
theorem filter_foldl_putForeignKey (new fks : List ForeignKey) (column : String) :
    (new.foldl (fun fks fk => putForeignKey fk fks) fks).filter (fun fk => fk.column == column)
      = match new.reverse.find? fun fk => fk.column == column with
        | some fk => [fk]
        | none => fks.filter fun fk => fk.column == column := by
  induction new generalizing fks with
  | nil => rfl
  | cons fk new ih =>
      rw [List.foldl_cons, ih, filter_putForeignKey, List.reverse_cons, List.find?_append]
      cases new.reverse.find? fun fk => fk.column == column with
      | some other => rfl
      | none =>
          by_cases hcolumn : fk.column = column
          · simp [hcolumn]
          · simp [hcolumn]

end SchemaAtlas
