import SchemaAtlas.Migration.Block
import SchemaAtlas.Proofs.Migration.TableCalls

/-!
# `SchemaAtlas.Proofs.Migration.Requests`: what the calls of a table ask for

Each call that a table is rendered as is read into requests. There are five
kinds of calls, and one lemma for each of them says what it asks for. The lemma
about columns, `requests_columnCall`, goes over all types at once: a call either
carries its column's foreign key or only declares the column.
-/

set_option autoImplicit false

namespace SchemaAtlas.Migration

open SchemaAtlas.Scan SchemaAtlas.Text

/-- What a call asks for. -/
def Call.requests (c : Call) : List Request :=
  c.statement.requests

/-- A name is not empty, so the readers that pass over empty arguments do not pass over
it. -/
theorem isEmpty_of_isName {s : String} (h : isName s = true) : s.isEmpty = false := by
  simp only [isName, Bool.and_eq_true, Bool.not_eq_true'] at h
  exact h.1

/-- Names pass for arguments that are not empty, and so an argument that is a name is kept
as it is. -/
theorem filter_of_isName {argument : Option String} (h : ∀ s ∈ argument, isName s = true) :
    (argument.filter fun s => !s.isEmpty) = argument := by
  cases argument with
  | none => rfl
  | some s => simp [Option.filter, isEmpty_of_isName (h s rfl)]

/-- The argument of a well-formed call is read back from its tail if it is a name. -/
theorem firstArgument?_of_isName {c : Call} (h : c.WellFormed) {s : String} (hs : isName s = true)
    (hc : c.argument = some s) : firstArgument? c.tail = some s := by
  rw [firstArgument?_tail h, hc, filter_of_isName]
  rintro _ ⟨⟩
  exact hs

/-- A call without an argument has none read back: its tail begins with the closing
parenthesis. -/
theorem firstArgument?_of_none {c : Call} (h : c.WellFormed) (hc : c.argument = none) :
    firstArgument? c.tail = none := by
  rw [firstArgument?_tail h, hc]
  rfl

/-! ### Identifiers, audit columns, references and constraints -/

/-- The call that declares an identifier asks for one of the same name, whether it spells
the name out or leaves it to be understood. -/
theorem requests_identifierCall {name : String} (h : isName name = true) :
    (identifierCall name).requests = [.identify name] := by
  have hwf := wellFormed_identifierCall (isArgument_of_isName h)
  by_cases hn : name = Naming.identifier
  · have hargument : (identifierCall name).argument = none := if_pos hn
    have hfirst := firstArgument?_of_none hwf hargument
    show Statement.requests ⟨"id", (identifierCall name).tail⟩ = _
    rw [Statement.requests]
    simp only [hfirst, Option.getD_none]
    rw [hn]
  · have hargument : (identifierCall name).argument = some name := if_neg hn
    have hfirst := firstArgument?_of_isName hwf h hargument
    show Statement.requests ⟨"id", (identifierCall name).tail⟩ = _
    rw [Statement.requests]
    simp only [hfirst, Option.getD_some]

/-- The call for the audit columns asks for nothing, which is why they have no place among
the columns that come back. -/
theorem requests_auditCall : auditCall.requests = [] := rfl

/-- The call for a foreign key that stands apart asks for that key, since its target is
found behind `on`. -/
theorem requests_constraintCall {column target : String} (hc : isName column = true)
    (ht : isName target = true) :
    (constraintCall column target).requests = [.constrain ⟨column, target⟩] := by
  have hwf := wellFormed_constraintCall (isArgument_of_isName hc) (isArgument_of_isName ht)
  have hfirst := firstArgument?_of_isName hwf hc rfl
  have hon : modifierArgument? "on" (constraintCall column target).tail = some target := by
    rw [modifierArgument?_tail (by decide) hwf, filter_of_isName]
    · rfl
    · rintro _ ⟨⟩
      exact ht
  show Statement.requests ⟨"foreign", (constraintCall column target).tail⟩ = _
  rw [Statement.requests]
  simp only [hfirst, hon]

/-- There are four methods for references to any table's rows, one for each identifier type
with and without null values. -/
theorem eq_of_morphMethod? {type : ColumnType} {nullable : Bool} {method : String}
    (h : morphMethod? type nullable = some method) :
    (method = "morphs" ∧ type = .unsignedBigInteger ∧ nullable = false)
      ∨ (method = "nullableMorphs" ∧ type = .unsignedBigInteger ∧ nullable = true)
      ∨ (method = "uuidMorphs" ∧ type = .uuid ∧ nullable = false)
      ∨ (method = "nullableUuidMorphs" ∧ type = .uuid ∧ nullable = true) := by
  simp only [morphMethod?, Option.map_eq_some_iff] at h
  obtain ⟨m, hm, rfl⟩ := h
  have hfound := List.find?_some hm
  have hpair := beq_iff_eq.mp hfound
  have hmem := List.mem_of_find?_eq_some hm
  simp only [morphMethods, List.mem_cons, List.not_mem_nil, or_false] at hmem
  rcases hmem with rfl | rfl | rfl | rfl
  all_goals
    obtain ⟨rfl, rfl⟩ := Prod.mk.inj hpair
    simp

/-- A method that is named for references to any table's rows reads the stem as its first
argument, and declares two columns for it. -/
theorem requests_morphMethod {type : ColumnType} {nullable : Bool} {method : String}
    (hmethod : morphMethod? type nullable = some method) (tail : List Char) :
    Statement.requests ⟨method, tail⟩
      = match firstArgument? tail with
        | some stem => (morphColumns stem type nullable).map .declare
        | none => [] := by
  rcases eq_of_morphMethod? hmethod with
    ⟨rfl, rfl, rfl⟩ | ⟨rfl, rfl, rfl⟩ | ⟨rfl, rfl, rfl⟩ | ⟨rfl, rfl, rfl⟩
  all_goals
    rw [Statement.requests]
    cases firstArgument? tail with
    | none | some stem => rfl

/-- A reference to any table's rows declares both of its columns, the identifier half and
the type half, if its stem is a name. -/
theorem requests_morphCall {type : ColumnType} {nullable : Bool} {method stem : String}
    (hmethod : morphMethod? type nullable = some method) (hstem : isName stem = true) :
    (Call.mk method (some stem) []).requests
      = (morphColumns stem type nullable).map .declare := by
  have hwf : (Call.mk method (some stem) []).WellFormed :=
    ⟨isName_of_morphMethod? hmethod, isArgument_of_isName hstem,
      fun m hm => absurd hm List.not_mem_nil⟩
  show Statement.requests ⟨method, Call.tail _⟩ = _
  rw [requests_morphMethod hmethod, firstArgument?_of_isName hwf hstem rfl]

/-- A reference with an empty stem asks for nothing: an empty argument is not read as a
stem. -/
theorem requests_morphCall_empty {type : ColumnType} {nullable : Bool} {method : String}
    (hmethod : morphMethod? type nullable = some method) :
    (Call.mk method (some "") []).requests = [] := by
  have hargument : IsArgument (some "") := by
    rintro _ ⟨⟩ c hc
    simp at hc
  have hwf : (Call.mk method (some "") []).WellFormed :=
    ⟨isName_of_morphMethod? hmethod, hargument, fun m hm => absurd hm List.not_mem_nil⟩
  have hfirst : firstArgument? (Call.mk method (some "") []).tail = none := by
    rw [firstArgument?_tail hwf]
    rfl
  show Statement.requests ⟨method, Call.tail _⟩ = _
  rw [requests_morphMethod hmethod, hfirst]

/-! ### Columns -/

/-- Holds when the statement of a column carries its foreign key. -/
def carriesKey (c : Column) (fk? : Option ForeignKey) : Bool :=
  c.type = .foreignId || (c.type = .uuid && c.isForeign && fk?.isSome)

/-- The table that a column with this key refers to. -/
def targetOf (c : Column) (fk? : Option ForeignKey) : String :=
  (fk?.map ForeignKey.target).getD (Naming.defaultTarget c.name)

/-- The column that the statement of a column declares. Foreign keys that a
statement carries put the column out of the primary key, and a column of
universal identifiers named like an identifier is always in it. -/
def declaredColumn (c : Column) (fk? : Option ForeignKey) : Column :=
  { c with
    isPrimary :=
      (c.isPrimary && !carriesKey c fk?) || (c.type = .uuid && c.name = Naming.identifier)
    isForeign := carriesKey c fk? }

/-- The target is the named one, or the one that the column's name suggests when the
modifier leaves it out. Either way it is the target of the key. -/
theorem constrainedModifier_target (c : Column) (fk? : Option ForeignKey) :
    (constrainedModifier c.name fk?).argument.getD (Naming.defaultTarget c.name)
      = targetOf c fk? := by
  cases fk? with
  | none => rfl
  | some fk =>
      by_cases h : fk.target = Naming.defaultTarget c.name
      · simp [constrainedModifier, targetOf, Option.filter, h]
      · simp [constrainedModifier, targetOf, Option.filter, h]

/-- Among the modifiers of a reference, `constrained` is found as it was written, behind
`nullable` or without it. -/
theorem find?_constrained (c : Column) (fk? : Option ForeignKey) :
    ((referenceModifiers c fk?).find? fun m => m.name == "constrained")
      = some (constrainedModifier c.name fk?) := by
  cases hn : c.nullable with
  | true | false => simp [referenceModifiers, nullableModifiers, constrainedModifier, hn]

/-- No modifier of a reference is called `on`, so the target is read off `constrained`
alone. -/
theorem find?_on (c : Column) (fk? : Option ForeignKey) :
    ((referenceModifiers c fk?).find? fun m => m.name == "on") = none := by
  cases hn : c.nullable with
  | true | false => simp [referenceModifiers, nullableModifiers, constrainedModifier, hn]

/-- A reference has the modifier `nullable` just when its column may be null, so the flag is
read back. -/
theorem any_nullable (c : Column) (fk? : Option ForeignKey) :
    ((referenceModifiers c fk?).any fun m => m.name == "nullable") = c.nullable := by
  cases hn : c.nullable with
  | true | false => simp [referenceModifiers, nullableModifiers, constrainedModifier, hn]

/-- A reference never has the modifier `primary`. A column that carries its foreign key can
be primary by its type and name only. -/
theorem any_primary (c : Column) (fk? : Option ForeignKey) :
    ((referenceModifiers c fk?).any fun m => m.name == "primary") = false := by
  cases hn : c.nullable with
  | true | false => simp [referenceModifiers, nullableModifiers, constrainedModifier, hn]

/-- A call with the modifiers of a reference asks for the foreign key first, and then
declares the column as foreign, with the flags that follow. -/
theorem columnRequests_reference {c : Column} {fk? : Option ForeignKey} {method : String}
    (hwf : (Call.mk method (some c.name) (referenceModifiers c fk?)).WellFormed)
    (hfk : ∀ fk ∈ fk?, isName fk.target = true) (hcarries : carriesKey c fk? = true)
    (htype : c.type ≠ .id)
    (hmethod : c.type = .foreignId ∨ method = "foreignUuid") :
    columnRequests method c.type c.name
      (Call.mk method (some c.name) (referenceModifiers c fk?)).tail
      = [.refer ⟨c.name, targetOf c fk?⟩, .declare (declaredColumn c fk?)] := by
  have hconstrained := modifierArgument?_tail (n := "constrained") (by decide) hwf
  have hon := modifierArgument?_tail (n := "on") (by decide) hwf
  have hname : ∀ s ∈ (constrainedModifier c.name fk?).argument, isName s = true := by
    intro s hs
    obtain ⟨fk, hmem, rfl⟩ := exists_of_mem_constrained hs
    exact hfk fk hmem
  rw [find?_constrained, Option.bind_some, filter_of_isName hname] at hconstrained
  rw [find?_on, Option.bind_none, Option.filter_none] at hon
  have hforeign : (c.type = .foreignId || method = "foreignUuid"
      || (constrainedModifier c.name fk?).argument.isSome) = true := by
    rcases hmethod with h | h
    · simp [h]
    · simp [h]
  simp only [columnRequests, hconstrained, hon, Option.or_none, isNullable_tail hwf,
    isPrimary_tail hwf, any_nullable, any_primary, hforeign, if_true, constrainedModifier_target]
  simp [declaredColumn, hcarries, htype]

section Plain

variable (nullable isPrimary : Bool)

/-- A plain column has no modifiers but `nullable` and `primary`. In particular, none that
names a table is found. -/
theorem find?_plain {n : String} (hnullable : "nullable" ≠ n) (hprimary : "primary" ≠ n) :
    ((nullableModifiers nullable ++ primaryModifiers isPrimary).find? fun m => m.name == n)
      = none := by
  cases nullable <;> cases isPrimary <;>
    simp [nullableModifiers, primaryModifiers, hnullable, hprimary]

/-- A plain column has the modifier `nullable` just when it may be null, so this flag is
read back. -/
theorem any_nullable_plain :
    ((nullableModifiers nullable ++ primaryModifiers isPrimary).any fun m => m.name == "nullable")
      = nullable := by
  cases nullable <;> cases isPrimary <;> simp [nullableModifiers, primaryModifiers]

/-- A plain column has the modifier `primary` just when it is primary, so this flag is read
back as well. -/
theorem any_primary_plain :
    ((nullableModifiers nullable ++ primaryModifiers isPrimary).any fun m => m.name == "primary")
      = isPrimary := by
  cases nullable <;> cases isPrimary <;> simp [nullableModifiers, primaryModifiers]

end Plain

/-- A call without the modifiers of a reference declares its column and asks for no foreign
key. -/
theorem columnRequests_plain {c : Column} {fk? : Option ForeignKey}
    (hwf : (Call.mk c.type.method (some c.name)
      (nullableModifiers c.nullable ++ primaryModifiers c.isPrimary)).WellFormed)
    (hcarries : carriesKey c fk? = false) (htype : c.type ≠ .id) :
    columnRequests c.type.method c.type c.name (Call.mk c.type.method (some c.name)
        (nullableModifiers c.nullable ++ primaryModifiers c.isPrimary)).tail
      = [.declare (declaredColumn c fk?)] := by
  have hconstrained := modifierArgument?_tail (n := "constrained") (by decide) hwf
  have hon := modifierArgument?_tail (n := "on") (by decide) hwf
  rw [find?_plain _ _ (by decide) (by decide), Option.bind_none,
    Option.filter_none] at hconstrained hon
  have hforeignId : c.type ≠ .foreignId := by
    intro h
    simp [carriesKey, h] at hcarries
  have hmethod : c.type.method ≠ "foreignUuid" := by
    cases c.type <;> decide
  simp only [columnRequests, hconstrained, hon, Option.or_none, isNullable_tail hwf,
    isPrimary_tail hwf, any_nullable_plain, any_primary_plain]
  simp [declaredColumn, hcarries, htype, hforeignId, hmethod]

/-- A method that is named for a type declares a column of that type, unless it is the
identifier's. -/
theorem requests_typeMethod {type : ColumnType} (htype : type ≠ .id) {tail : List Char}
    {name : String}
    (hfirst : firstArgument? tail = some name) :
    Statement.requests ⟨type.method, tail⟩ = columnRequests type.method type name tail := by
  -- no other type is named by a method that is read apart
  cases type
  case id => exact absurd rfl htype
  all_goals
    rw [Statement.requests]
    simp only [hfirst, ColumnType.method]
    rfl

/-- What the call of a column asks for, whatever its type: its foreign key if it carries
one, and then the column with the flags that follow. -/
theorem requests_columnCall {c : Column} {fk? : Option ForeignKey} (hc : isName c.name = true)
    (hfk : ∀ fk ∈ fk?, isName fk.target = true) (htype : c.type ≠ .id) :
    (columnCall c fk?).requests
      = (if carriesKey c fk? then [.refer ⟨c.name, targetOf c fk?⟩] else [])
        ++ [.declare (declaredColumn c fk?)] := by
  have hwf := wellFormed_columnCall (isArgument_of_isName hc) fun fk hmem =>
    isArgument_of_isName (hfk fk hmem)
  -- a column is written in one of three ways, and carries its key in the first two
  by_cases hforeign : c.type = .foreignId
  · have hcall : columnCall c fk? = ⟨c.type.method, some c.name, referenceModifiers c fk?⟩ := by
      rw [columnCall, if_neg htype, if_pos hforeign, hforeign]
      rfl
    have hcarries : carriesKey c fk? = true := by simp [carriesKey, hforeign]
    rw [hcall] at hwf ⊢
    show Statement.requests ⟨c.type.method, Call.tail _⟩ = _
    rw [requests_typeMethod htype (firstArgument?_of_isName hwf hc rfl),
      columnRequests_reference hwf hfk hcarries htype (.inl hforeign), hcarries]
    rfl
  · by_cases huuid : c.type = .uuid ∧ c.isForeign ∧ fk?.isSome
    · have hcall : columnCall c fk? = ⟨"foreignUuid", some c.name, referenceModifiers c fk?⟩ := by
        rw [columnCall, if_neg htype, if_neg hforeign, if_pos huuid]
      have hcarries : carriesKey c fk? = true := by simp [carriesKey, huuid]
      rw [hcall] at hwf ⊢
      have hfirst := firstArgument?_of_isName hwf hc rfl
      have hrequests := columnRequests_reference hwf hfk hcarries htype (.inr rfl)
      rw [huuid.1] at hrequests
      show Statement.requests ⟨_, Call.tail _⟩ = _
      rw [Statement.requests]
      simp only [hfirst, hcarries, if_true]
      exact hrequests
    · have hcall : columnCall c fk? = ⟨c.type.method, some c.name,
          nullableModifiers c.nullable ++ primaryModifiers c.isPrimary⟩ := by
        rw [columnCall, if_neg htype, if_neg hforeign, if_neg huuid]
      have hcarries : carriesKey c fk? = false := by
        simpa [carriesKey, hforeign] using huuid
      rw [hcall] at hwf ⊢
      show Statement.requests ⟨c.type.method, Call.tail _⟩ = _
      rw [requests_typeMethod htype (firstArgument?_of_isName hwf hc rfl),
        columnRequests_plain hwf hcarries htype, hcarries]
      rfl

end SchemaAtlas.Migration
