import SchemaAtlas.Proofs.Migration.Alteration
import SchemaAtlas.Proofs.Scan.Search

/-!
# `SchemaAtlas.Proofs.Migration.Replay`: alterations done again

The alterations of a table may be done again on what they have made. For a column this
comes out the same in two cases.

Either no alteration gives the column another name or its name to another, and none
takes its foreign key away (`Block.LeavesName`). Then each alteration leaves what there
is of the column or sets it, whatever it was, and so do all of them together
(`Overwrites`): what they set was set the first time as well.

Or each alteration says nothing of the column but what is so (`Block.Confirms`).
-/

set_option autoImplicit false

namespace SchemaAtlas

open SchemaAtlas.Text SchemaAtlas.Migration

namespace Table

/-! ### What a table says of a name -/

/-- The foreign keys on a column. -/
def keysOn (t : Table) (column : String) : List ForeignKey :=
  t.foreignKeys.filter fun fk => fk.column == column

/-- Holds of an entry of a list of foreign keys to drop that can mean the one on a
column: the column or its index. -/
def NamesKey (table column entry : String) : Prop :=
  entry = column ∨ entry = table ++ "_" ++ column ++ "_foreign"

instance (table column entry : String) : Decidable (NamesKey table column entry) :=
  inferInstanceAs (Decidable (_ ∨ _))

/-- Holds of an entry of a list of foreign keys to drop and the column it means, in a table
with columns of the names: the entry itself if it is one of them, and otherwise what is
left of it without the table's name in front and the ending of an index. These may have
their underscore in common; then nothing is left. -/
def MeansKey (table : String) (names : List String) (entry column : String) : Prop :=
  if entry ∈ names then entry = column
  else entry = table ++ "_" ++ column ++ "_foreign" ∨ column = "" ∧ entry = table ++ "_foreign"

instance (table : String) (names : List String) (entry column : String) :
    Decidable (MeansKey table names entry column) :=
  inferInstanceAs
    (Decidable (if entry ∈ names then entry = column else entry = _ ∨ column = "" ∧ entry = _))

/-- Cut at both ends, a text with an index's front and ending leaves what is between, and
nothing if they overlap. -/
theorem cut_eq_iff (table entry column : List Char) :
    (table ++ ['_'] <+: entry ∧ "_foreign".toList <:+ entry)
        ∧ (entry.take (entry.length - "_foreign".length)).drop (table.length + 1) = column
      ↔ entry = table ++ ['_'] ++ column ++ "_foreign".toList
        ∨ column = [] ∧ entry = table ++ "_foreign".toList := by
  have hcut : ∀ front : List Char, (front ++ "_foreign".toList).take
      ((front ++ "_foreign".toList).length - "_foreign".length) = front := by
    intro front
    rw [← String.length_toList, List.length_append, Nat.add_sub_cancel, List.take_left]
  have hfront : (table ++ ['_']).length = table.length + 1 := by simp
  rw [← hfront]
  constructor
  · rintro ⟨⟨⟨x, hx⟩, y, rfl⟩, rfl⟩
    rw [hcut]
    rcases List.append_eq_append_iff.mp hx with ⟨a, rfl, rfl⟩ | ⟨a, ha, hending⟩
    · exact .inl (by rw [List.drop_left])
    · -- the front and the ending share `a`, which ends in the front's underscore
      rcases List.eq_nil_or_concat a with rfl | ⟨a', c, rfl⟩
      · rw [List.append_nil] at ha
        exact .inl (by rw [ha, List.drop_length, List.append_nil])
      · rw [List.concat_eq_append, ← List.append_assoc] at ha
        obtain ⟨htable, hc⟩ := List.append_inj' ha rfl
        obtain rfl : '_' = c := List.singleton_inj.mp hc
        cases a' with
        | nil =>
            rw [List.append_nil] at htable
            exact .inr ⟨List.drop_eq_nil_of_le (by simp [htable]), by rw [htable]⟩
        | cons d a' =>
            -- the ending has no other underscore than its first
            rw [List.concat_eq_append, List.append_assoc] at hending
            have htail : "foreign".toList = a' ++ ('_' :: x) := (List.cons.inj hending).2
            have hmem : '_' ∈ "foreign".toList :=
              htail ▸ List.mem_append_right a' List.mem_cons_self
            exact absurd hmem (by decide)
  · rintro (rfl | ⟨rfl, rfl⟩)
    · refine ⟨⟨⟨column ++ "_foreign".toList, by simp only [List.append_assoc]⟩, _, rfl⟩, ?_⟩
      rw [hcut, List.drop_left]
    · refine ⟨⟨⟨"foreign".toList, by rw [List.append_assoc]; rfl⟩, table, rfl⟩, ?_⟩
      rw [hcut]
      exact List.drop_eq_nil_of_le (by simp)

/-- The column that a foreign key is dropped from is what the entry means: the column
itself, or the one whose index it is by name. -/
theorem droppedForeignColumn?_eq_some_iff (t : Table) (entry column : String) :
    t.droppedForeignColumn? entry = some column
      ↔ MeansKey t.name (t.columns.map Column.name) entry column := by
  rw [droppedForeignColumn?, MeansKey]
  by_cases hentry : entry ∈ t.columns.map Column.name
  · rw [if_pos ((t.hasColumn_iff entry).mpr hentry), if_pos hentry, Option.some.injEq]
  · rw [if_neg (mt (t.hasColumn_iff entry).mp hentry), if_neg hentry,
      Option.ite_none_right_eq_some, Bool.and_eq_true, startsWith, endsWith,
      List.isPrefixOf_iff_prefix, List.isSuffixOf_iff_suffix, Option.some.injEq, dropFirst,
      dropLast, String.toList_ofList]
    simp only [← String.toList_inj, String.toList_append, String.toList_ofList,
      ← String.length_toList]
    exact cut_eq_iff t.name.toList entry.toList column.toList

/-- Unless it is empty, the column that a foreign key is dropped from is named by the entry,
by itself or within the name of its index. -/
theorem namesKey_of_droppedForeignColumn? {t : Table} {column entry : String}
    (hcolumn : column ≠ "")
    (h : t.droppedForeignColumn? entry = some column) : NamesKey t.name column entry := by
  rw [droppedForeignColumn?_eq_some_iff, MeansKey] at h
  split at h
  · exact .inl h
  · exact .inr (h.resolve_right fun hempty => hcolumn hempty.1)

/-! ### Columns and keys of a name -/

/-- With distinct names a column is the first of its name, so looking the name up gives the
column back. -/
theorem column?_of_mem {t : Table} (hd : (t.columns.map Column.name).Nodup) {c : Column}
    (hc : c ∈ t.columns) :
    t.column? c.name = some c := by
  rw [column?]
  cases hfound : t.columns.find? fun d => d.name == c.name with
  | none =>
      have hnone := List.find?_eq_none.mp hfound c hc
      exact absurd (beq_self_eq_true c.name) hnone
  | some d =>
      have hname : d.name = c.name := by simpa using List.find?_some hfound
      rw [List.inj_on_of_nodup_map hd (List.mem_of_find?_eq_some hfound) hc hname]

section Name

variable {t : Table} {name : String}

/-- Renaming a column leaves the column of another name and the keys on it as they are, if
the new name is not that name either. -/
theorem renameColumn_of_ne {old new : String} (hold : old ≠ name) (hnew : new ≠ name) :
    (t.renameColumn old new).column? name = t.column? name
      ∧ (t.renameColumn old new).keysOn name = t.keysOn name := by
  rw [renameColumn]
  split
  · refine ⟨find?_updateColumn hold (fun _ _ => hnew) t.columns, ?_⟩
    show (moveForeignKeys old new t.foreignKeys).filter (fun fk => fk.column == name) = _
    rw [keysOn, moveForeignKeys]
    induction t.foreignKeys with
    | nil => rfl
    | cons fk fks ih =>
        rw [List.map_cons, List.filter_cons, List.filter_cons, ih]
        by_cases hfk : fk.column = old
        · simp [hfk, hold, hnew]
        · simp [hfk]
  · exact ⟨rfl, rfl⟩

/-- A list of renames leaves the column of a name and its keys if none of the renames takes
from that name or gives it. -/
theorem renameColumns_of_notMem {renames : List (String × String)}
    (hold : name ∉ renames.map Prod.fst)
    (hnew : name ∉ renames.map Prod.snd) :
    (t.renameColumns renames).column? name = t.column? name
      ∧ (t.renameColumns renames).keysOn name = t.keysOn name := by
  have hone : ∀ r ∈ renames, ∀ u : Table, (u.renameColumn r.1 r.2).column? name = u.column? name
      ∧ (u.renameColumn r.1 r.2).keysOn name = u.keysOn name := fun r hr _ =>
    renameColumn_of_ne (fun e => hold (e ▸ List.mem_map_of_mem hr))
      (fun e => hnew (e ▸ List.mem_map_of_mem hr))
  exact ⟨apply_foldl (g := fun u : Table => u.column? name) (fun r hr u => (hone r hr u).1) t,
    apply_foldl (g := fun u : Table => u.keysOn name) (fun r hr u => (hone r hr u).2) t⟩

/-- Once columns are dropped, a dropped name has no column, and any other name has the
column it had. -/
theorem column?_dropColumns (names : List String) :
    (t.dropColumns names).column? name = if name ∈ names then none else t.column? name := by
  show (t.columns.filter fun c => !names.contains c.name).find? (fun c => c.name == name) = _
  rw [List.find?_filter]
  split
  · rename_i hname
    refine List.find?_eq_none.mpr fun c _ => ?_
    by_cases hc : c.name = name
    · simp [hc, hname]
    · simp [hc]
  · rename_i hname
    rw [column?]
    congr 1
    funext c
    by_cases hc : c.name = name
    · simp [hc, hname]
    · simp [hc]

/-- The keys are dropped with their columns, and the keys on other columns stay, as with the
columns themselves. -/
theorem keysOn_dropColumns (names : List String) :
    (t.dropColumns names).keysOn name = if name ∈ names then [] else t.keysOn name := by
  show (t.foreignKeys.filter fun fk => !names.contains fk.column).filter
    (fun fk => fk.column == name) = _
  rw [List.filter_filter]
  split
  · rename_i hname
    refine List.filter_eq_nil_iff.mpr fun fk _ => ?_
    by_cases hfk : fk.column = name
    · simp [hfk, hname]
    · simp [hfk]
  · rename_i hname
    rw [keysOn]
    refine List.filter_congr fun fk _ => ?_
    by_cases hfk : fk.column = name
    · simp [hfk, hname]
    · simp [hfk]

/-- Taking the key of another column away leaves the column of a name and its keys. -/
theorem dropForeignKey_of_ne {column : String} (hne : column ≠ name) :
    (t.dropForeignKey column).column? name = t.column? name
      ∧ (t.dropForeignKey column).keysOn name = t.keysOn name := by
  refine ⟨find?_updateColumn hne (fun c hc => by rwa [hc]) t.columns, ?_⟩
  show (t.foreignKeys.filter fun fk => fk.column != column).filter
    (fun fk => fk.column == name) = _
  rw [List.filter_filter, keysOn]
  refine List.filter_congr fun fk _ => ?_
  by_cases hfk : fk.column = name
  · simpa [hfk] using Ne.symm hne
  · simp [hfk]

/-- The column of a name and its keys stay if none of the foreign keys to drop is one on
that column. -/
theorem dropForeignKeys_of_notMem {entries : List String}
    (h : ∀ entry ∈ entries, t.droppedForeignColumn? entry ≠ some name) :
    (t.dropForeignKeys entries).column? name = t.column? name
      ∧ (t.dropForeignKeys entries).keysOn name = t.keysOn name := by
  have hone : ∀ column ∈ entries.filterMap t.droppedForeignColumn?, ∀ u : Table,
      (u.dropForeignKey column).column? name = u.column? name
        ∧ (u.dropForeignKey column).keysOn name = u.keysOn name := by
    intro column hcolumn u
    obtain ⟨entry, hentry, hnamed⟩ := List.mem_filterMap.mp hcolumn
    exact dropForeignKey_of_ne fun e => h entry hentry (e ▸ hnamed)
  -- the columns are those of the table as it was, whatever is left of it by now
  exact ⟨apply_foldl (g := fun u : Table => u.column? name)
    (fun column hc u => (hone column hc u).1) t,
    apply_foldl (g := fun u : Table => u.keysOn name) (fun column hc u => (hone column hc u).2) t⟩

end Name

end Table

/-! ### What is left or set -/

/-- Holds of an alteration that gives no column of the table the name or takes it from
one, and takes no foreign key of such a column away. -/
def Migration.Block.LeavesName (b : Block) (table name : String) : Prop :=
  name ∉ b.renamed.map Prod.fst ∧ name ∉ b.renamed.map Prod.snd
    ∧ ∀ entry ∈ b.droppedForeign, ¬Table.NamesKey table name entry

instance (b : Block) (table name : String) : Decidable (b.LeavesName table name) :=
  inferInstanceAs (Decidable (_ ∧ _ ∧ _))

/-- Holds of alterations that leave what is read of a table of the name, or set it,
whatever it was. -/
def Overwrites {β : Type} (table : String) (g : Table → β) (bs : List Block) : Prop :=
  (∀ t : Table, t.name = table → g (bs.foldl Table.alter t) = g t)
    ∨ ∃ v, ∀ t : Table, t.name = table → g (bs.foldl Table.alter t) = v

namespace Overwrites

variable {β : Type} {table : String} {g : Table → β}

/-- One more alteration in front leaves or sets what is read, too. If those behind it set
it, nothing that was done before them counts. -/
theorem cons {b : Block} {bs : List Block} (hb : Overwrites table g [b])
    (hbs : Overwrites table g bs) :
    Overwrites table g (b :: bs) := by
  rcases hbs with hleave | ⟨v, hset⟩
  · -- what the first alteration does is what all of them do
    rcases hb with hleaveb | ⟨w, hsetb⟩
    · left
      intro t ht
      exact (hleave (t.alter b) ((t.name_alter b).trans ht)).trans (hleaveb t ht)
    · right
      exact ⟨w, fun t ht => (hleave (t.alter b) ((t.name_alter b).trans ht)).trans (hsetb t ht)⟩
  · right
    exact ⟨v, fun t ht => hset (t.alter b) ((t.name_alter b).trans ht)⟩

/-- Alterations that each leave what is read or set it do so together, by induction over
their list. -/
theorem of_forall {bs : List Block} (h : ∀ b ∈ bs, Overwrites table g [b]) :
    Overwrites table g bs := by
  induction bs with
  | nil => exact .inl fun _ _ => rfl
  | cons b bs ih =>
      exact (h b List.mem_cons_self).cons (ih fun d hd => h d (List.mem_cons_of_mem b hd))

/-- What is so when alterations are done for the first time is so again when they are
done on a table where it is so. -/
theorem again {bs : List Block} (h : Overwrites table g bs) {t u : Table} (ht : t.name = table)
    (hu : u.name = table) {p : β → Prop} (hfirst : p (g (bs.foldl Table.alter t)))
    (hp : p (g u)) :
    p (g (bs.foldl Table.alter u)) := by
  rcases h with hleave | ⟨v, hset⟩
  · rw [hleave u hu]
    exact hp
  · rw [hset u hu, ← hset t ht]
    exact hfirst

end Overwrites

namespace Table

variable {b : Block} {table name : String}

/-- What is read of a column of the name behind renames and foreign keys that are taken
away is what was read in front. -/
theorem dropForeignKeys_of_leavesName (h : b.LeavesName table name) (hname : name ≠ "")
    {t : Table}
    (ht : t.name = table) :
    let u := ((t.renameColumns b.renamed).dropColumns b.dropped).dropForeignKeys b.droppedForeign
    u.column? name = (if name ∈ b.dropped then none else t.column? name)
      ∧ u.keysOn name = if name ∈ b.dropped then [] else t.keysOn name := by
  obtain ⟨hold, hnew, hentries⟩ := h
  obtain ⟨hcolumn, hkeys⟩ := renameColumns_of_notMem (t := t) hold hnew
  have htable : ((t.renameColumns b.renamed).dropColumns b.dropped).name = table :=
    (name_renameColumns b.renamed t).trans ht
  have hnone : ∀ entry ∈ b.droppedForeign,
      ((t.renameColumns b.renamed).dropColumns b.dropped).droppedForeignColumn? entry
        ≠ some name :=
    fun entry hentry hsome =>
      hentries entry hentry (htable ▸ namesKey_of_droppedForeignColumn? hname hsome)
  obtain ⟨hkept, hkeptKeys⟩ := dropForeignKeys_of_notMem hnone
  constructor
  · rw [hkept, column?_dropColumns, hcolumn]
  · rw [hkeptKeys, keysOn_dropColumns, hkeys]

/-- An alteration that leaves a name in its place either declares no column under it and
leaves the column, or declares one and sets it. -/
theorem overwrites_column? (h : b.LeavesName table name) (hname : name ≠ "") :
    Overwrites table (fun t => t.column? name) [b] := by
  have halter : ∀ t : Table, t.name = table → (t.alter b).column? name
      = (b.columns.reverse.find? fun c => c.name == name).or
          (if name ∈ b.dropped then none else t.column? name) := by
    intro t ht
    rw [← (dropForeignKeys_of_leavesName h hname ht).1]
    exact find?_foldl_putColumn b.columns _ name
  cases hdeclared : b.columns.reverse.find? fun c => c.name == name with
  | some c =>
      -- the last declaration of the name wins
      simp only [hdeclared, Option.some_or] at halter
      exact .inr ⟨some c, halter⟩
  | none =>
      by_cases hdropped : name ∈ b.dropped
      · simp only [hdeclared, Option.none_or, if_pos hdropped] at halter
        exact .inr ⟨none, halter⟩
      · simp only [hdeclared, Option.none_or, if_neg hdropped] at halter
        exact .inl halter

/-- The same alteration leaves the keys on the column, or sets them to the one that it
states. -/
theorem overwrites_keysOn (h : b.LeavesName table name) (hname : name ≠ "") :
    Overwrites table (fun t => t.keysOn name) [b] := by
  have halter : ∀ t : Table, t.name = table → (t.alter b).keysOn name
      = (b.foreignKeys.reverse.find? fun fk => fk.column == name).elim
          (if name ∈ b.dropped then [] else t.keysOn name) fun fk => [fk] := by
    intro t ht
    rw [← (dropForeignKeys_of_leavesName h hname ht).2]
    refine (filter_foldl_putForeignKey b.foreignKeys _ name).trans ?_
    cases b.foreignKeys.reverse.find? fun fk => fk.column == name <;> rfl
  cases hgiven : b.foreignKeys.reverse.find? fun fk => fk.column == name with
  | some fk =>
      simp only [hgiven, Option.elim_some] at halter
      exact .inr ⟨[fk], halter⟩
  | none =>
      by_cases hdropped : name ∈ b.dropped
      · simp only [hgiven, Option.elim_none, if_pos hdropped] at halter
        exact .inr ⟨[], halter⟩
      · simp only [hgiven, Option.elim_none, if_neg hdropped] at halter
        exact .inl halter

/-- A column of the name that was there when alterations had been done is there when they
are done again on a table that has it, and so are its keys. -/
theorem mem_foldl_alter_of_leavesName {c : Column} {later : List Block}
    (h : ∀ b ∈ later, b.LeavesName table c.name) (hname : c.name ≠ "") {t u : Table}
    (ht : t.name = table)
    (hu : u.name = table) (hd : ((later.foldl alter t).columns.map Column.name).Nodup)
    (hdu : (u.columns.map Column.name).Nodup) (hc : c ∈ (later.foldl alter t).columns)
    (hcu : c ∈ u.columns) :
    c ∈ (later.foldl alter u).columns ∧ ∀ key ∈ (later.foldl alter t).keysOn c.name,
      key ∈ u.keysOn c.name → key ∈ (later.foldl alter u).foreignKeys := by
  constructor
  · have hcolumn :=
      (Overwrites.of_forall fun b hb => overwrites_column? (h b hb) hname).again ht hu
      (p := fun c' => c' = some c) (column?_of_mem hd hc) (column?_of_mem hdu hcu)
    exact List.mem_of_find?_eq_some hcolumn
  · intro key hkey hkeyu
    have hkeys := (Overwrites.of_forall fun b hb => overwrites_keysOn (h b hb) hname).again ht hu
      (p := fun keys => key ∈ keys) hkey hkeyu
    exact (List.mem_filter.mp hkeys).1

end Table

/-! ### What is confirmed -/

/-- Holds of an alteration of a table that says nothing of a column but what is so: it
declares it as it is, with the keys that it has. -/
structure Migration.Block.Confirms (b : Block) (t : Table) (c : Column) (keys : List ForeignKey) :
    Prop where
  keeps : b.Keeps t c.name
  column : ∀ d ∈ b.columns, d.name = c.name → d = c
  key : ∀ fk ∈ b.foreignKeys, fk.column = c.name → ∀ key ∈ keys, fk = key
  /-- A foreign key that is taken away was not there. -/
  noKey : ∀ entry ∈ b.droppedForeign, Table.NamesKey t.name c.name entry →
    c.isForeign = false ∧ keys = []

/-- Holds of a column that all alterations of a list confirm, where each of them works
on what the ones before it leave of the table. -/
def Migration.Block.AllConfirm (c : Column) (keys : List ForeignKey) : Table → List Block → Prop
  | _, [] => True
  | t, b :: later => b.Confirms t c keys ∧ AllConfirm c keys (t.alter b) later

namespace Table

variable {t : Table} {c : Column} {keys : List ForeignKey}

/-- A foreign key stays a key of the table through renames that do not take the name of its
column. -/
theorem mem_foreignKeys_renameColumns {renames : List (String × String)} {fk : ForeignKey}
    (hfk : fk ∈ t.foreignKeys) (hrenames : fk.column ∉ (t.takenRenames renames).map Prod.fst) :
    fk ∈ (t.renameColumns renames).foreignKeys := by
  refine of_renameColumns (p := fun t => fk ∈ t.foreignKeys) hfk fun r hr u hu => ?_
  have hne : fk.column ≠ r.1 := fun hname => hrenames (List.mem_map.mpr ⟨r, hr, hname.symm⟩)
  rw [renameColumn]
  split
  · exact List.mem_map.mpr ⟨fk, hu, if_neg hne⟩
  · exact hu

/-- A column and its keys outlast foreign keys that are taken away if it is not named, or
has no key and no flag. -/
theorem mem_foldl_dropForeignKey (hkeys : ∀ key ∈ keys, key.column = c.name) (hc : c ∈ t.columns)
    (hfks : ∀ key ∈ keys, key ∈ t.foreignKeys) {columns : List String}
    (hfree : c.name ∈ columns → c.isForeign = false ∧ keys = []) :
    c ∈ (columns.foldl dropForeignKey t).columns
      ∧ ∀ key ∈ keys, key ∈ (columns.foldl dropForeignKey t).foreignKeys := by
  induction columns generalizing t with
  | nil => exact ⟨hc, hfks⟩
  | cons column columns ih =>
      rw [List.foldl_cons]
      refine ih ?_ (fun key hkey => ?_) fun hm => hfree (List.mem_cons_of_mem column hm)
      · refine mem_updateColumn hc fun hcolumn => ?_
        obtain ⟨hflag, -⟩ := hfree (hcolumn ▸ List.mem_cons_self)
        exact Column.ext rfl rfl rfl hflag.symm rfl
      · refine List.mem_filter.mpr ⟨hfks key hkey, ?_⟩
        by_cases hcolumn : c.name = column
        · obtain ⟨-, hnone⟩ := hfree (hcolumn ▸ List.mem_cons_self)
          rw [hnone] at hkey
          cases hkey
        · rw [hkeys key hkey]
          simpa using hcolumn

/-- A column and its keys outlast an alteration that confirms them: what is dropped or
renamed is something else, and what is declared is the same again. -/
theorem mem_alter_of_confirms (hname : c.name ≠ "") (hkeys : ∀ key ∈ keys, key.column = c.name)
    (hc : c ∈ t.columns) (hfks : ∀ key ∈ keys, key ∈ t.foreignKeys) {b : Block}
    (h : b.Confirms t c keys) :
    c ∈ (t.alter b).columns ∧ ∀ key ∈ keys, key ∈ (t.alter b).foreignKeys := by
  have hfirst : c ∈ ((t.renameColumns b.renamed).dropColumns b.dropped).columns :=
    mem_columns_dropColumns (mem_columns_renameColumns hc h.keeps.2) h.keeps.1
  have hfirstKeys : ∀ key ∈ keys,
      key ∈ ((t.renameColumns b.renamed).dropColumns b.dropped).foreignKeys := by
    intro key hkey
    have hcolumn := hkeys key hkey
    refine List.mem_filter.mpr
      ⟨mem_foreignKeys_renameColumns (hfks key hkey) (by rw [hcolumn]; exact h.keeps.2), ?_⟩
    rw [hcolumn]
    simpa using h.keeps.1
  -- the column may be named by an entry, but then it has no key and is not flagged
  have hfree : c.name ∈ b.droppedForeign.filterMap
      ((t.renameColumns b.renamed).dropColumns b.dropped).droppedForeignColumn? →
      c.isForeign = false ∧ keys = [] := by
    intro hm
    obtain ⟨entry, hentry, hsome⟩ := List.mem_filterMap.mp hm
    have hnames := namesKey_of_droppedForeignColumn? hname hsome
    have htable : ((t.renameColumns b.renamed).dropColumns b.dropped).name = t.name :=
      name_renameColumns b.renamed t
    exact h.noKey entry hentry (htable ▸ hnames)
  obtain ⟨hsecond, hsecondKeys⟩ := mem_foldl_dropForeignKey hkeys hfirst hfirstKeys hfree
  -- what is declared of it is what is so
  refine ⟨mem_foldl_putColumn_of_eq hsecond h.column, fun key hkey => ?_⟩
  refine mem_foldl_putForeignKey_of_eq (hsecondKeys key hkey) fun fk hfk hcolumn => ?_
  exact h.key fk hfk (hcolumn.trans (hkeys key hkey)) key hkey

/-- A column and its keys outlast all alterations that confirm them, by induction over the
alterations, each on what the ones before it leave. -/
theorem mem_foldl_alter_of_allConfirm (hname : c.name ≠ "")
    (hkeys : ∀ key ∈ keys, key.column = c.name)
    (hc : c ∈ t.columns) (hfks : ∀ key ∈ keys, key ∈ t.foreignKeys) {later : List Block}
    (h : Block.AllConfirm c keys t later) :
    c ∈ (later.foldl alter t).columns ∧ ∀ key ∈ keys,
      key ∈ (later.foldl alter t).foreignKeys := by
  induction later generalizing t with
  | nil => exact ⟨hc, hfks⟩
  | cons b later ih =>
      obtain ⟨hb, hrest⟩ := h
      obtain ⟨hstays, hstaysKeys⟩ := mem_alter_of_confirms hname hkeys hc hfks hb
      exact ih hstays hstaysKeys hrest

end Table

end SchemaAtlas
