import SchemaAtlas.Migration.File
import SchemaAtlas.Proofs.Migration.Body
import SchemaAtlas.Proofs.Naming

/-!
# `SchemaAtlas.Proofs.Migration.TableCalls`: a rendered table as calls

Rendering a table gives a list of statements as text. `tableCalls` is that list
as calls, and `toList_statementLines` says that the rendered lines are exactly
the texts of these calls. All that is proved about calls and bodies applies to
rendered tables from here on; the rest of the text of a statement is not looked
at again.
-/

set_option autoImplicit false

namespace SchemaAtlas.Migration

open SchemaAtlas.Scan SchemaAtlas.Text

/-! ### The calls of columns -/

/-- The modifier that turns an identifier column into a foreign key. -/
def constrainedModifier (column : String) (fk? : Option ForeignKey) : Modifier where
  name := "constrained"
  argument := (fk?.map ForeignKey.target).filter fun target =>
    target != Naming.defaultTarget column

/-- The modifier of columns that may be null. -/
def nullableModifiers (nullable : Bool) : List Modifier :=
  if nullable then [⟨"nullable", none⟩] else []

/-- The modifier of columns in the primary key. -/
def primaryModifiers (isPrimary : Bool) : List Modifier :=
  if isPrimary then [⟨"primary", none⟩] else []

/-- The modifiers of a column that carries its foreign key. -/
def referenceModifiers (c : Column) (fk? : Option ForeignKey) : List Modifier :=
  nullableModifiers c.nullable ++ [constrainedModifier c.name fk?, ⟨"cascadeOnDelete", none⟩]

/-- The call that declares an identifier. -/
def identifierCall (name : String) : Call where
  method := "id"
  argument := if name = Naming.identifier then none else some name

/-- The call that declares a column. -/
def columnCall (c : Column) (fk? : Option ForeignKey) : Call :=
  if c.type = .id then identifierCall c.name
  else if c.type = .foreignId then ⟨"foreignId", some c.name, referenceModifiers c fk?⟩
  else if c.type = .uuid ∧ c.isForeign ∧ fk?.isSome then
    ⟨"foreignUuid", some c.name, referenceModifiers c fk?⟩
  else ⟨c.type.method, some c.name, nullableModifiers c.nullable ++ primaryModifiers c.isPrimary⟩

/-- The call for the foreign key on a column that cannot carry it. -/
def constraintCall (column target : String) : Call where
  method := "foreign"
  argument := some column
  modifiers :=
    [⟨"references", some Naming.identifier⟩, ⟨"on", some target⟩, ⟨"cascadeOnDelete", none⟩]

/-- The call that declares the audit columns. -/
def auditCall : Call := ⟨"timestamps", none, []⟩

/-- The rendered `constrained` is the text of that modifier, with the target if it is not
the one that the name suggests. -/
theorem toList_constrained (column : String) (fk? : Option ForeignKey) :
    (constrained column fk?).toList = (constrainedModifier column fk?).text := by
  cases fk? with
  | none => simp [constrained, constrainedModifier, Modifier.text]
  | some fk =>
      by_cases h : fk.target = Naming.defaultTarget column
      · simp [constrained, constrainedModifier, Modifier.text, Option.filter, h]
      · simp [constrained, constrainedModifier, Modifier.text, Option.filter, h]

/-- The rendered `nullable` is the text of that modifier, or nothing for a column that may
not be null. -/
theorem toList_nullable (nullable : Bool) :
    (if nullable then "->nullable()" else "").toList
      = modifiersText (nullableModifiers nullable) := by
  cases nullable with
  | true => simp [nullableModifiers, modifiersText, Modifier.text]
  | false => simp [nullableModifiers, modifiersText]

/-- The rendered `primary` is the text of that modifier, or nothing for a column that is not
primary. -/
theorem toList_primary (isPrimary : Bool) :
    (if isPrimary then "->primary()" else "").toList
      = modifiersText (primaryModifiers isPrimary) := by
  cases isPrimary with
  | true => simp [primaryModifiers, modifiersText, Modifier.text]
  | false => simp [primaryModifiers, modifiersText]

/-- The modifiers of a reference are rendered in the order in which they are listed, one
right behind the other. -/
theorem toList_reference (c : Column) (fk? : Option ForeignKey) :
    ((if c.nullable then "->nullable()" else "") ++ constrained c.name fk?
      ++ "->cascadeOnDelete()").toList = modifiersText (referenceModifiers c fk?) := by
  rw [String.toList_append, String.toList_append, toList_nullable, toList_constrained]
  simp [referenceModifiers, modifiersText, Modifier.text]

/-- The text of a call with a name as its argument: builder, method and quoted name, then
the modifiers and the semicolon. -/
theorem text_of_argument (builder method n : String) (ms : List Modifier) :
    (Call.mk method (some n) ms).text builder
      = ("$" ++ builder ++ "->" ++ method ++ "('" ++ n ++ "')").toList
        ++ (modifiersText ms ++ [';']) := by
  simp [Call.text, Call.tail]

/-- The statement that declares a column is the text of its call, whichever of the four ways
of declaring it applies. -/
theorem toList_columnStatement (builder : String) (c : Column) (fk? : Option ForeignKey) :
    (columnStatement builder c fk?).toList = (columnCall c fk?).text builder := by
  by_cases hid : c.type = .id
  · by_cases hname : c.name = Naming.identifier
    · simp [columnStatement, columnCall, hid, hname, identifierCall, Call.text, Call.tail,
        modifiersText]
    · simp [columnStatement, columnCall, hid, hname, identifierCall, Call.text, Call.tail,
        modifiersText]
  · by_cases hforeign : c.type = .foreignId
    · rw [columnCall, if_neg hid, if_pos hforeign, text_of_argument, ← toList_reference]
      simp [columnStatement, hforeign]
    · by_cases huuid : c.type = .uuid ∧ c.isForeign ∧ fk?.isSome
      · rw [columnCall, if_neg hid, if_neg hforeign, if_pos huuid, text_of_argument,
          ← toList_reference]
        simp [columnStatement, huuid]
      · rw [columnCall, if_neg hid, if_neg hforeign, if_neg huuid, text_of_argument,
          modifiersText, List.flatMap_append, ← modifiersText, ← modifiersText, ← toList_nullable,
          ← toList_primary]
        simp [columnStatement, hid, hforeign, huuid]

/-! ### The calls of tables -/

/-- The call for a table's own identifier, if it takes one. -/
def identifierCalls (columns : List Column) : List Call :=
  match columns.find? fun c => c.type == .id with
  | some c => [columnCall c none]
  | none =>
    if columns.any fun c => c.name == Naming.identifier then []
    else [identifierCall Naming.identifier]

/-- The call for a column among others. -/
def bodyCall (fks : List ForeignKey) (morphs : List (String × String × String)) (c : Column) :
    Call :=
  match findLast? (fun m => m.1 == c.name) morphs with
  | some (_, stem, method) => ⟨method, some stem, []⟩
  | none => columnCall c (foreignKeyFor? fks c)

/-- The call for the foreign key on a column whose own call cannot carry it. -/
def constraintCall? (fks : List ForeignKey) (morphs : List (String × String × String))
    (c : Column) :
    Option Call :=
  if morphs.any fun m => m.1 == c.name then none
  else match foreignKeyFor? fks c with
    | some fk =>
      if c.type = .foreignId ∨ c.type = .uuid then none
        else some (constraintCall c.name fk.target)
    | none => none

/-- The calls of a whole table. -/
def tableCalls (columns : List Column) (fks : List ForeignKey) : List Call :=
  let morphs := morphs columns fks
  let body := bodyColumns columns morphs
  identifierCalls columns ++ body.map (bodyCall fks morphs)
    ++ body.filterMap (constraintCall? fks morphs) ++ [auditCall]

/-- Every table has a call for its audit columns, so no body is without a statement. -/
theorem tableCalls_ne_nil (columns : List Column) (fks : List ForeignKey) :
    tableCalls columns fks ≠ [] := by
  rw [tableCalls]
  exact List.append_ne_nil_of_right_ne_nil _ (List.cons_ne_nil _ _)

section Statements

variable (builder : String) (columns : List Column) (fks : List ForeignKey)
  (morphs : List (String × String × String)) (c : Column)

/-- The statements for an identifier are the texts of their calls: the table's first
identifier, a made-up one, or none at all. -/
theorem toList_identifierStatements :
    (identifierStatements builder columns).map String.toList
      = (identifierCalls columns).map (Call.text builder) := by
  have hid : ("$" ++ builder ++ "->id();").toList
      = (identifierCall Naming.identifier).text builder := by
    simp [identifierCall, Call.text, Call.tail, argumentText, modifiersText]
  unfold identifierStatements identifierCalls
  cases columns.find? fun c => c.type == .id with
  | some c => simp [toList_columnStatement]
  | none =>
      by_cases hany : (columns.any fun c => c.name == Naming.identifier) = true
      · simp only [if_pos hany, List.map_nil]
      · simp only [if_neg hany, List.map_cons, List.map_nil, hid]

/-- The statement of a column among the others is the text of its call, be it a reference to
any table's rows or not. -/
theorem toList_bodyStatement :
    (bodyStatement builder fks morphs c).toList = (bodyCall fks morphs c).text builder := by
  unfold bodyStatement bodyCall
  cases findLast? (fun m => m.1 == c.name) morphs with
  | some m => simp [Call.text, Call.tail, argumentText, modifiersText]
  | none => exact toList_columnStatement builder c _

/-- The statement of a foreign key that stands apart is the text of its call, if there is
one. -/
theorem toList_constraintStatement? :
    (constraintStatement? builder fks morphs c).map String.toList
      = (constraintCall? fks morphs c).map (Call.text builder) := by
  unfold constraintStatement? constraintCall?
  split
  · rfl
  · cases foreignKeyFor? fks c with
    | none => rfl
    | some fk =>
        by_cases h : c.type = .foreignId ∨ c.type = .uuid
        · simp only [if_pos h, Option.map_none]
        · simp [h, constraintCall, Call.text, Call.tail, argumentText, modifiersText,
            Modifier.text]

/-- and that of the audit columns: the statements of a table are the texts of its calls. -/
theorem toList_tableStatements :
    (tableStatements builder columns fks).map String.toList
      = (tableCalls columns fks).map (Call.text builder) := by
  have haudit : ("$" ++ builder ++ "->timestamps();").toList = auditCall.text builder := by
    simp [auditCall, Call.text, Call.tail, argumentText, modifiersText]
  simp only [tableStatements, tableCalls, List.map_append, toList_identifierStatements,
    List.map_map, List.map_filterMap, toList_constraintStatement?, List.map_cons, List.map_nil,
    haudit]
  simp only [Function.comp_def, toList_bodyStatement]

end Statements

/-- The rendered lines of a table are the lines of its calls. From here on, only calls are
looked at. -/
theorem toList_statementLines (builder : String) (indent : List Char) (columns : List Column)
    (fks : List ForeignKey) :
    (statementLines (String.ofList indent) (tableStatements builder columns fks)).toList
      = linesText builder indent (tableCalls columns fks) := by
  have hlines : ∀ statements : List String,
      (statementLines (String.ofList indent) statements).toList
        = (statements.map String.toList).flatMap fun s => indent ++ (s ++ ['\n']) := by
    intro statements
    simp [statementLines, String.toList_join, List.flatMap_def, Function.comp_def]
  rw [hlines, toList_tableStatements, List.flatMap_map]
  rfl

/-! ### Names in, names out -/

/-- The lists that a table is rendered from have names where names are expected. -/
structure Named (columns : List Column) (fks : List ForeignKey) : Prop where
  columns : ∀ c ∈ columns, isName c.name = true
  targets : ∀ fk ∈ fks, isName fk.target = true

instance (columns : List Column) (fks : List ForeignKey) : Decidable (Named columns fks) :=
  decidable_of_iff ((∀ c ∈ columns, isName c.name = true) ∧ ∀ fk ∈ fks, isName fk.target = true)
    ⟨fun h => ⟨h.1, h.2⟩, fun h => ⟨h.columns, h.targets⟩⟩

/-- The lists that a table is rendered from have nothing but the characters of names where
names are expected. -/
structure Worded (columns : List Column) (fks : List ForeignKey) : Prop where
  columns : ∀ c ∈ columns, IsArgument (some c.name)
  targets : ∀ fk ∈ fks, IsArgument (some fk.target)

/-- A call without an argument is well-formed in this respect: there is nothing to be
quoted. -/
theorem isArgument_none : IsArgument none := fun _ hs => by cases hs

/-- A name is an argument that can be read back, since no quote stands in it. -/
theorem isArgument_of_isName {s : String} (h : isName s = true) : IsArgument (some s) := by
  rintro _ ⟨⟩ c hc
  exact isWord_of_mem_name h hc

/-- Names are words, so a table whose names are names is one whose arguments can be read
back. -/
theorem Named.worded {columns : List Column} {fks : List ForeignKey} (h : Named columns fks) :
    Worded columns fks where
  columns := fun c hc => isArgument_of_isName (h.columns c hc)
  targets := fun fk hfk => isArgument_of_isName (h.targets fk hfk)

/-- The method of a column type is a name, so the call of a column of any type is
well-formed. -/
theorem isName_method (type : ColumnType) : isName type.method = true := by
  cases type <;> decide

/-- The modifier of columns that may be null is well-formed, and so is its absence. -/
theorem wellFormed_nullable (nullable : Bool) :
    ∀ m ∈ nullableModifiers nullable, m.WellFormed := by
  intro m hm
  cases nullable with
  | false => cases hm
  | true =>
      rw [List.mem_singleton.mp hm]
      exact ⟨by decide, fun _ hs => by cases hs⟩

/-- The modifier of columns in the primary key is well-formed, and so is its absence. -/
theorem wellFormed_primary (isPrimary : Bool) :
    ∀ m ∈ primaryModifiers isPrimary, m.WellFormed := by
  intro m hm
  cases isPrimary with
  | false => cases hm
  | true =>
      obtain rfl := List.mem_singleton.mp hm
      exact ⟨by decide, fun _ hs => by cases hs⟩

/-- What a reference names is the target of its foreign key. There is a key then, and its
target is not the suggested one. -/
theorem exists_of_mem_constrained {column s : String} {fk? : Option ForeignKey}
    (hs : s ∈ (constrainedModifier column fk?).argument) : ∃ fk ∈ fk?, fk.target = s := by
  simp only [constrainedModifier, Option.mem_def, Option.filter_eq_some_iff,
    Option.map_eq_some_iff] at hs
  obtain ⟨⟨fk, hfk, rfl⟩, -⟩ := hs
  exact ⟨fk, hfk, rfl⟩

/-- The modifiers of a reference are well-formed if the target of its foreign key can be an
argument. -/
theorem wellFormed_reference (c : Column) {fk? : Option ForeignKey}
    (hfk : ∀ fk ∈ fk?, IsArgument (some fk.target)) :
    ∀ m ∈ referenceModifiers c fk?, m.WellFormed := by
  intro m hm
  simp only [referenceModifiers, List.mem_append, List.mem_cons, List.not_mem_nil, or_false] at hm
  rcases hm with hm | rfl | rfl
  · exact wellFormed_nullable _ m hm
  · refine ⟨by show isName "constrained" = true; decide, fun s hs => ?_⟩
    obtain ⟨fk, hfk', rfl⟩ := exists_of_mem_constrained hs
    exact hfk fk hfk' _ rfl
  · exact ⟨by decide, fun _ hs => by cases hs⟩

/-- The call of an identifier is well-formed if its name can be an argument, spelled out or
not. -/
theorem wellFormed_identifierCall {name : String} (h : IsArgument (some name)) :
    (identifierCall name).WellFormed := by
  refine ⟨by show isName "id" = true; decide, ?_, fun m hm => by cases hm⟩
  show IsArgument (if name = Naming.identifier then none else some name)
  split
  · exact isArgument_none
  · exact h

/-- The call of a column is well-formed if its name and the target of its foreign key can be
arguments. -/
theorem wellFormed_columnCall {c : Column} (h : IsArgument (some c.name))
    {fk? : Option ForeignKey}
    (hfk : ∀ fk ∈ fk?, IsArgument (some fk.target)) : (columnCall c fk?).WellFormed := by
  unfold columnCall
  split
  · exact wellFormed_identifierCall h
  · split
    · exact ⟨by show isName "foreignId" = true; decide, h, wellFormed_reference c hfk⟩
    · split
      · exact ⟨by show isName "foreignUuid" = true; decide, h, wellFormed_reference c hfk⟩
      · refine ⟨isName_method _, h, fun m hm => ?_⟩
        rcases List.mem_append.mp hm with hm | hm
        · exact wellFormed_nullable _ m hm
        · exact wellFormed_primary _ m hm

/-- The call of a foreign key that stands apart is well-formed if its column and its target
can be arguments. -/
theorem wellFormed_constraintCall {column target : String} (hc : IsArgument (some column))
    (ht : IsArgument (some target)) : (constraintCall column target).WellFormed := by
  refine ⟨by show isName "foreign" = true; decide, hc, fun m hm => ?_⟩
  simp only [constraintCall, List.mem_cons, List.not_mem_nil, or_false] at hm
  rcases hm with rfl | rfl | rfl
  · exact ⟨by decide, isArgument_of_isName (by decide)⟩
  · exact ⟨by show isName "on" = true; decide, ht⟩
  · exact ⟨by decide, fun _ hs => by cases hs⟩

/-- The last element that satisfies `p` is one of the list, and it does satisfy `p`. -/
theorem mem_of_findLast?_eq_some {α : Type} {p : α → Bool} {l : List α} {a : α}
    (h : findLast? p l = some a) : a ∈ l ∧ p a = true :=
  ⟨List.mem_reverse.mp (List.mem_of_find?_eq_some h), List.find?_some h⟩

/-- The methods of references are names, all four of them, so the calls with them are
well-formed. -/
theorem isName_of_morphMethod? {type : ColumnType} {nullable : Bool} {method : String}
    (h : morphMethod? type nullable = some method) : isName method = true := by
  simp only [morphMethod?, Option.map_eq_some_iff] at h
  obtain ⟨m, hm, rfl⟩ := h
  have hall : ∀ m ∈ morphMethods, isName m.1 = true := by decide
  exact hall m (List.mem_of_find?_eq_some hm)

/-- What a reference to any table's rows is made from: a column whose name is the stem with
its ending, of a type that has a method. -/
theorem of_mem_morphs {columns : List Column} {fks : List ForeignKey} {n stem method : String}
    (h : (n, stem, method) ∈ morphs columns fks) :
    ∃ c ∈ columns, c.name = n ∧ beforeTail? Naming.referenceEnd n = some stem
      ∧ morphMethod? c.type c.nullable = some method := by
  simp only [morphs, List.mem_filterMap, Option.map_eq_some_iff, Prod.mk.injEq] at h
  obtain ⟨c, hc, m, hm, rfl, rfl⟩ := h
  simp only [morphOf?, Option.bind_eq_bind, Option.bind_eq_some_iff] at hm
  obtain ⟨stem', hstem, typeColumn, -, hm⟩ := hm
  split at hm
  · simp only [Option.bind_eq_some_iff, Option.pure_def, Option.some.injEq, Prod.mk.injEq] at hm
    obtain ⟨method', hmethod, rfl, rfl⟩ := hm
    exact ⟨c, hc, rfl, hstem, hmethod⟩
  · cases hm

/-- The stem of a name can be an argument if the name can, since it is a part of it. -/
theorem isArgument_stem {s stem : String} (hs : IsArgument (some s))
    (h : beforeTail? Naming.referenceEnd s = some stem) : IsArgument (some stem) := by
  rintro _ ⟨⟩ c hc
  exact Naming.isWord_of_beforeTail? (hs s rfl) h c hc

section Worded

variable {columns : List Column} {fks : List ForeignKey} (h : Worded columns fks)

include h

/-- The calls of a table's identifiers are well-formed, the one of a made-up identifier
included. -/
theorem wellFormed_identifierCalls : ∀ call ∈ identifierCalls columns, call.WellFormed := by
  intro call hcall
  unfold identifierCalls at hcall
  split at hcall
  · rename_i c hc
    obtain rfl := List.mem_singleton.mp hcall
    exact wellFormed_columnCall (h.columns c (List.mem_of_find?_eq_some hc)) fun _ hs =>
      by cases hs
  · split at hcall
    · cases hcall
    · obtain rfl := List.mem_singleton.mp hcall
      exact wellFormed_identifierCall (isArgument_of_isName (by decide))

/-- The call of a column among the others is well-formed, whether it declares a reference or
a single column. -/
theorem wellFormed_bodyCall {c : Column} (hc : IsArgument (some c.name)) :
    (bodyCall fks (morphs columns fks) c).WellFormed := by
  unfold bodyCall
  split
  · rename_i n stem method hm
    obtain ⟨d, hd, -, hstem, hmethod⟩ := of_mem_morphs (mem_of_findLast?_eq_some hm).1
    have hn : n = c.name := beq_iff_eq.mp (mem_of_findLast?_eq_some hm).2
    rw [hn] at hstem
    exact ⟨isName_of_morphMethod? hmethod, isArgument_stem hc hstem, fun m hm => by cases hm⟩
  · exact wellFormed_columnCall hc fun fk hfk => h.targets fk (mem_of_findLast?_eq_some hfk).1

/-- The call of a foreign key that stands apart is well-formed, if there is one. -/
theorem wellFormed_constraintCall? {morphs : List (String × String × String)} {c : Column}
    (hc : IsArgument (some c.name)) : ∀ call ∈ constraintCall? fks morphs c, call.WellFormed := by
  intro call hcall
  unfold constraintCall? at hcall
  split at hcall
  · cases hcall
  · split at hcall
    · rename_i fk hfk
      split at hcall
      · cases hcall
      · obtain rfl := Option.some.inj hcall
        exact wellFormed_constraintCall hc (h.targets fk (mem_of_findLast?_eq_some hfk).1)
    · cases hcall

/-- A rendered table is made of well-formed calls, if its names can be arguments. This is
the form in which bodies ask for it. -/
theorem wellFormed_tableCalls : ∀ c ∈ tableCalls columns fks, c.WellFormed := by
  intro call hcall
  have hcolumn : ∀ c ∈ bodyColumns columns (morphs columns fks), IsArgument (some c.name) :=
    fun c hc =>
    h.columns c (List.mem_of_mem_eraseP (List.mem_filter.mp hc).1)
  simp only [tableCalls, List.mem_append, List.mem_map, List.mem_filterMap,
    List.mem_singleton] at hcall
  rcases hcall with ((hcall | ⟨c, hc, rfl⟩) | ⟨c, hc, hcall⟩) | rfl
  · exact wellFormed_identifierCalls h call hcall
  · exact wellFormed_bodyCall h (hcolumn c hc)
  · exact wellFormed_constraintCall? h (hcolumn c hc) call hcall
  · exact ⟨by decide, isArgument_none, fun m hm => by cases hm⟩

end Worded

end SchemaAtlas.Migration
