import Mathlib.Data.List.Nodup
import SchemaAtlas.Analysis

/-!
# `SchemaAtlas.Proofs.Source.Order`: files in any order

Migrations go by their names and paths, whatever order they are given in: this
order is linear on names and paths (`notAfter_total`, `notAfter_trans`,
`eq_of_notAfter`), so files that no other shares both with stand in one order
only (`chronological_eq_of_perm`). Nothing else of the order that files are given
in shows in an analysis, but the order of the models (`ofSources_eq_of_perm`).
-/

set_option autoImplicit false

namespace SchemaAtlas

namespace SourceFile

/-! ### The order of creation -/

/-- Of two files, one is not after the other. It is what sorting by this order needs. -/
theorem notAfter_total (f g : SourceFile) : (f.notAfter g || g.notAfter f) = true := by
  rw [notAfter, notAfter, Bool.or_eq_true]
  by_cases hname : f.name = g.name
  · rw [if_pos hname, if_pos hname.symm, decide_eq_true_eq, decide_eq_true_eq]
    exact String.le_total f.path g.path
  · rw [if_neg hname, if_neg (Ne.symm hname), decide_eq_true_eq, decide_eq_true_eq]
    exact String.le_total f.name g.name

/-- What is not after a file is not after what that file is not after, for names and for
paths. -/
theorem notAfter_trans (f g h : SourceFile) (hfg : f.notAfter g = true)
    (hgh : g.notAfter h = true) :
    f.notAfter h = true := by
  rw [notAfter] at hfg hgh ⊢
  by_cases hname : f.name = g.name
  · rw [if_pos hname] at hfg
    by_cases hname' : g.name = h.name
    · -- three files of one name go by their paths
      rw [if_pos hname'] at hgh
      rw [if_pos (hname.trans hname'), decide_eq_true_eq]
      exact String.le_trans (of_decide_eq_true hfg) (of_decide_eq_true hgh)
    · rw [if_neg hname'] at hgh
      rw [hname, if_neg hname']
      exact hgh
  · rw [if_neg hname] at hfg
    by_cases hname' : g.name = h.name
    · rw [← hname', if_neg hname]
      exact hfg
    · rw [if_neg hname'] at hgh
      have hle := String.le_trans (of_decide_eq_true hfg) (of_decide_eq_true hgh)
      -- were the outer names the same, so would be the one between them
      have hne : f.name ≠ h.name := fun heq =>
        hname (String.le_antisymm (of_decide_eq_true hfg) (heq ▸ of_decide_eq_true hgh))
      rw [if_neg hne]
      exact decide_eq_true hle

/-- What a file goes by in the order of creation. -/
def key (f : SourceFile) : String × String :=
  (f.name, f.path)

/-- Files neither of which is after the other have one name and one path. -/
theorem eq_of_notAfter {f g : SourceFile} (hfg : f.notAfter g = true)
    (hgf : g.notAfter f = true) :
    f.key = g.key := by
  rw [notAfter] at hfg hgf
  by_cases hname : f.name = g.name
  · rw [if_pos hname] at hfg
    rw [if_pos hname.symm] at hgf
    have hpath := String.le_antisymm (of_decide_eq_true hfg) (of_decide_eq_true hgf)
    rw [key, key, hname, hpath]
  · rw [if_neg hname] at hfg
    rw [if_neg (Ne.symm hname)] at hgf
    exact absurd (String.le_antisymm (of_decide_eq_true hfg) (of_decide_eq_true hgf)) hname

/-- Files that differ in their names or paths stand in one order only, in whatever order
they were found. -/
theorem chronological_eq_of_perm {files files' : List SourceFile} (h : files.Perm files')
    (hdistinct : (files.map key).Nodup) : chronological files = chronological files' := by
  have hsorted : ∀ l : List SourceFile, (chronological l).Pairwise fun f g =>
      f.notAfter g = true :=
    fun l => List.pairwise_mergeSort notAfter_trans notAfter_total l
  have hperm : (chronological files).Perm (chronological files') :=
    (List.mergeSort_perm files _).trans (h.trans (List.mergeSort_perm files' _).symm)
  refine List.Perm.eq_of_pairwise (fun f g hf hg hfg hgf => ?_) (hsorted files)
    (hsorted files') hperm
  have hf' : f ∈ files := List.mem_mergeSort.mp hf
  have hg' : g ∈ files := h.mem_iff.mpr (List.mem_mergeSort.mp hg)
  exact List.inj_on_of_nodup_map hdistinct hf' hg' (eq_of_notAfter hfg hgf)

/-- The files of a kind are the same files in any order of all files. -/
theorem perm_ofKind {files files' : List SourceFile} (h : files.Perm files') (kind : SourceKind) :
    (ofKind kind files).Perm (ofKind kind files') :=
  h.filter _

end SourceFile

open SourceFile

namespace History

/-- A history is that of the migrations in order of creation, and then of the models as they are
given. -/
theorem ofSources_congr {files files' : List SourceFile}
    (hmigrations : chronological (ofKind .migration files)
      = chronological (ofKind .migration files'))
    (hmodels : ofKind .model files = ofKind .model files') :
    ofSources files = ofSources files' := by
  rw [ofSources, ofSources, hmigrations, hmodels]

end History

namespace Analysis

/-- Files say the same in any order in which the models among them follow one another
as before, if no two migrations share both name and path. -/
theorem ofSources_eq_of_perm {files files' : List SourceFile} (h : files.Perm files')
    (hdistinct : ((ofKind .migration files).map fun f => (f.name, f.path)).Nodup)
    (hmodels : ofKind .model files = ofKind .model files') :
    ofSources files = ofSources files' := by
  have hmigrations := perm_ofKind h .migration
  have hhistory : History.ofSources files = History.ofSources files' :=
    History.ofSources_congr (chronological_eq_of_perm hmigrations hdistinct) hmodels
  rw [ofSources, ofSources, hhistory, hmigrations.length_eq, hmodels]

/-- Two migrations and a model. -/
def supplied : List SourceFile :=
  [.make "database/migrations/2_posts.php"
      "Schema::create('posts',function(Blueprint $t)\x7b$t->foreignId('user_id')->constrained();\x7d);",
    .make "app/Models/User.php"
      "class User extends Model \x7b public function posts() \x7b return $this->hasMany(Post::class); \x7d \x7d",
    .make "database/migrations/1_users.php"
      "Schema::create('users',function(Blueprint $t)\x7b$t->id();\x7d);"]

/-- In the example the files are supplied in reverse. Since migrations have names to go by
and the one model has no other to compete with, the schema is the same. -/
theorem ofSources_eq_of_perm_reversed :
    supplied.Perm supplied.reverse
      ∧ ((ofKind .migration supplied).map fun f => (f.name, f.path)).Nodup
      ∧ ofKind .model supplied = ofKind .model supplied.reverse
      ∧ ofSources supplied = ofSources supplied.reverse := by
  have hperm : supplied.Perm supplied.reverse := (List.reverse_perm supplied).symm
  have hdistinct : ((ofKind .migration supplied).map fun f => (f.name, f.path)).Nodup := by
    decide +kernel
  have hmodels : ofKind .model supplied = ofKind .model supplied.reverse := by
    decide +kernel
  exact ⟨hperm, hdistinct, hmodels, ofSources_eq_of_perm hperm hdistinct hmodels⟩

end Analysis

end SchemaAtlas
