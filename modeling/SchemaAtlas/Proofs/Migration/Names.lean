import Mathlib.Data.List.Chain
import SchemaAtlas.Migration.File
import SchemaAtlas.Model.Source
import SchemaAtlas.Proofs.Calendar.Stamp

/-!
# `SchemaAtlas.Proofs.Migration.Names`: the names of a batch of migrations

A batch of migrations has names as long as the calendar has a second for each of
them (`isSome_fileNames?_iff`), and the names stand in the order in which the
migrations were asked for (`pairwise_fileNames?`).
-/

set_option autoImplicit false

namespace SchemaAtlas

namespace Moment

/-- The moment so many seconds later, if the calendar has one. -/
def later? : (seconds : Nat) → Moment → Option Moment
  | 0, m => some m
  | seconds + 1, m => m.next?.bind (later? seconds)

end Moment

namespace Migration

/-- There are as many names in a batch as tables. Together with the chain below, this says
that each table has a name of its own. -/
theorem length_fileNames? {m : Moment} {tables names : List String}
    (h : fileNames? m tables = some names) : names.length = tables.length := by
  fun_induction fileNames? m tables generalizing names with
  | case1 => rw [← Option.some.inj h]
  | case2 m table => rw [← Option.some.inj h, List.length_singleton, List.length_singleton]
  | case3 m table rest hrest ih =>
      simp only [Option.bind_eq_bind, Option.bind_eq_some_iff, Option.pure_def] at h
      obtain ⟨next, hnext, later, hlater, h⟩ := h
      rw [← Option.some.inj h, List.length_cons, List.length_cons, ih next hlater]

/-- Each of the names is that of a table, in the order of the tables. -/
theorem forall₂_fileNames? {m : Moment} {tables names : List String}
    (h : fileNames? m tables = some names) :
    List.Forall₂ (fun table name => ∃ moment, name = fileName table moment) tables names := by
  fun_induction fileNames? m tables generalizing names with
  | case1 =>
      rw [← Option.some.inj h]
      exact .nil
  | case2 m table =>
      rw [← Option.some.inj h]
      exact .cons ⟨m, rfl⟩ .nil
  | case3 m table rest hrest ih =>
      simp only [Option.bind_eq_bind, Option.bind_eq_some_iff, Option.pure_def] at h
      obtain ⟨next, hnext, later, hlater, h⟩ := h
      rw [← Option.some.inj h]
      exact .cons ⟨m, rfl⟩ (ih next hlater)

/-- No migration lies where a class does: the folders begin with different letters, so the
two paths differ at once. -/
theorem path_ne_modelPath (name other : String) :
    folder ++ "/" ++ name ≠ Model.folder ++ "/" ++ other := by
  intro h
  have hhead := congrArg (fun s => s.toList.head?) h
  have hmigration : folder.toList = 'd' :: "atabase/migrations".toList := rfl
  have hmodel : Model.folder.toList = 'a' :: "pp/Models".toList := rfl
  simp only [String.toList_append, hmigration, hmodel, List.cons_append, List.head?_cons] at hhead
  exact absurd hhead (by decide)

/-- A batch has names if and only if the calendar does not end before its last migration,
which is one second later for each table. -/
theorem isSome_fileNames?_iff (m : Moment) (tables : List String) :
    (fileNames? m tables).isSome ↔ (m.later? (tables.length - 1)).isSome := by
  fun_induction fileNames? m tables with
  | case1 m => simp [Moment.later?]
  | case2 m table => simp [Moment.later?]
  | case3 m table rest hrest ih =>
      obtain ⟨second, rest, rfl⟩ := List.exists_cons_of_ne_nil hrest
      simp only [List.length_cons, Nat.add_sub_cancel] at ih ⊢
      rw [Moment.later?]
      cases hnext : m.next? with
      | none => rfl
      | some next =>
          rw [Option.bind_some, ← ih next]
          simp only [Option.bind_eq_bind, Option.bind_some]
          generalize fileNames? next (second :: rest) = names?
          cases names? <;> rfl

/-- The first of some names is stamped with the moment that they start from. The induction
over a batch peels names off like this. -/
theorem exists_cons_of_fileNames? {m : Moment} {table : String} {rest names : List String}
    (h : fileNames? m (table :: rest) = some names) :
    ∃ later, names = fileName table m :: later := by
  cases rest with
  | nil => exact ⟨[], (Option.some.inj h).symm⟩
  | cons second rest =>
      rw [fileNames?] at h
      · simp only [Option.bind_eq_bind, Option.bind_eq_some_iff, Option.pure_def] at h
        obtain ⟨next, -, later, -, h⟩ := h
        exact ⟨later, (Option.some.inj h).symm⟩
      · exact List.cons_ne_nil second rest

/-- A migration that is made a second after another has the later name, whatever tables the
two are for: the stamp decides. -/
theorem fileName_lt {m m' : Moment} (hm : m.Proper) (hyear : 1000 ≤ m.year)
    (h : m.next? = some m')
    (table table' : String) : fileName table m < fileName table' m' := by
  show (fileName table m).toList < (fileName table' m').toList
  rw [fileName, fileName]
  simp only [String.toList_append, List.append_assoc]
  exact Moment.stamp_append_lt hm hyear h _ _

/-- Each name of a batch is less than the one right behind it, since their moments are a
second apart. -/
theorem isChain_fileNames? {m : Moment} (hm : m.Proper) (hyear : 1000 ≤ m.year)
    {tables names : List String}
    (h : fileNames? m tables = some names) : names.IsChain (· < ·) := by
  fun_induction fileNames? m tables generalizing names with
  | case1 m =>
      rw [← Option.some.inj h]
      exact List.isChain_nil
  | case2 m table =>
      rw [← Option.some.inj h]
      exact List.isChain_singleton _
  | case3 m table rest hrest ih =>
      simp only [Option.bind_eq_bind, Option.bind_eq_some_iff, Option.pure_def] at h
      obtain ⟨next, hnext, later, hlater, h⟩ := h
      -- the next second is in no earlier year, so its stamp is as long as this one
      obtain ⟨hproper, hyears⟩ := hm.next hnext
      have hchain := ih next hproper (Nat.le_trans hyear hyears) hlater
      obtain ⟨second, rest, rfl⟩ := List.exists_cons_of_ne_nil hrest
      obtain ⟨last, rfl⟩ := exists_cons_of_fileNames? hlater
      rw [← Option.some.inj h]
      exact List.isChain_cons_cons.mpr ⟨fileName_lt hm hyear hnext table second, hchain⟩

/-- The names of a batch ascend in the order of its tables. Hence they are distinct, and
sorting files by name keeps the order. -/
theorem pairwise_fileNames? {m : Moment} (hm : m.Proper) (hyear : 1000 ≤ m.year)
    {tables names : List String}
    (h : fileNames? m tables = some names) : names.Pairwise (· < ·) :=
  haveI : Trans (α := String) (· < ·) (· < ·) (· < ·) := ⟨String.lt_trans⟩
  (isChain_fileNames? hm hyear h).pairwise

end Migration

end SchemaAtlas
