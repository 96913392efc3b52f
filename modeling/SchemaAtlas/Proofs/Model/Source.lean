import SchemaAtlas.Model.Class
import SchemaAtlas.Model.Source
import SchemaAtlas.Proofs.Scan.Search
import SchemaAtlas.Proofs.Scan.Segment
import SchemaAtlas.Proofs.Text.Lines

/-!
# `SchemaAtlas.Proofs.Model.Source`: a class that is made here, read again

The class of a table is read back as it was meant (`ofText?_source`): its name,
its table, and a relation for each method that it was given. Names are names in
the narrow sense and nothing else is asked of them, so a class may be called
`class`, its table `protected` and a method `function`.

The class is told in pieces. Each of the three readers is `Quiet` on what comes
before the piece that it looks for. Fixed text is quiet because the first word
of what is looked for begins nowhere in it. A name could begin with that word,
but is followed by a character that cannot come next.
-/

set_option autoImplicit false

namespace SchemaAtlas.Model

open SchemaAtlas.Scan SchemaAtlas.Text

/-! ### The methods of a class -/

/-- Of the relations that are not seen yet, those with a method name get a method, and of
several under one name the first. -/
theorem distinctMethods_eq (seen : List String) (relations : List DeclaredRelation) :
    distinctMethods seen relations
      = (relations.filter fun r => r.method != "" && !seen.contains r.method).eraseDupsBy
          (·.method == ·.method) := by
  induction relations generalizing seen with
  | nil => rfl
  | cons r rest ih =>
      by_cases h : r.method = "" ∨ r.method ∈ seen
      · have hdropped : ¬(r.method != "" && !seen.contains r.method) = true := by
          simpa [imp_iff_not_or] using h
        rw [distinctMethods, if_pos h, ih, List.filter_cons, if_neg hdropped]
      · have hkept : (r.method != "" && !seen.contains r.method) = true := by
          simpa using h
        -- erasing what has the method name of `r` is dropping what is seen once `r` is
        have hlater :
            (rest.filter fun s => s.method != "" && !(r.method :: seen).contains s.method)
            = (rest.filter fun s => s.method != "" && !seen.contains s.method).filter
                fun s => decide ((s.method == r.method) = false) := by
          rw [List.filter_filter]
          refine List.filter_congr fun s _ => ?_
          rw [List.contains_cons, Bool.not_or, Bool.decide_eq_false, Bool.and_left_comm]
        rw [distinctMethods, if_neg h, ih, List.filter_cons, if_pos hkept, List.eraseDupsBy_cons,
          hlater]

/-- What gets a method is one of the relations, and has a method name. So whatever is asked
of all relations is so of it. -/
theorem of_mem_distinctMethods {seen : List String} {relations : List DeclaredRelation}
    {r : DeclaredRelation}
    (h : r ∈ distinctMethods seen relations) : r ∈ relations ∧ r.method ≠ "" := by
  induction relations generalizing seen with
  | nil => exact absurd h List.not_mem_nil
  | cons s rest ih =>
      rw [distinctMethods] at h
      split at h
      · obtain ⟨hmem, hne⟩ := ih h
        exact ⟨List.mem_cons_of_mem s hmem, hne⟩
      · rename_i hkept
        rcases List.mem_cons.mp h with rfl | h
        · exact ⟨List.mem_cons_self, fun hempty => hkept (.inl hempty)⟩
        · obtain ⟨hmem, hne⟩ := ih h
          exact ⟨List.mem_cons_of_mem s hmem, hne⟩

/-! ### The three readers -/

/-- The head of a class begins with the word `class`, so it is not found in a text without
that word. -/
theorem leads_classHead : Leads (· = "class".toList) classHead := by
  intro cs m h
  simp only [classHead, Option.bind_eq_bind, Option.bind_eq_some_iff] at h
  obtain ⟨cs₁, hclass, -⟩ := h
  exact ⟨_, rfl, cs₁, ((literal_eq_some_iff _ _ _).mp hclass).symm⟩

/-- The head of a class is recognized with its name, whatever comes behind, if the name ends
there. -/
theorem classHead_append {className : String} (h : isName className = true) {c : Char}
    (hc : isWord c = false) (r : List Char) :
    classHead ("class ".toList ++ (className.toList ++ c :: r)) = some (className, c :: r) := by
  obtain ⟨b, w, hw, hb, -⟩ := exists_cons_of_isName h
  have hname : name (className.toList ++ c :: r) = some (className, c :: r) :=
    (name_eq_some_iff _ _ _).mpr ⟨rfl, h, by simpa using hc⟩
  have hblank : someBlanks (' ' :: (className.toList ++ c :: r))
      = some (className.toList ++ c :: r) := by
    refine (someBlanks_eq_some_iff _ _).mpr ⟨[' '], by simp [Blanks]; decide, by simp, rfl, ?_⟩
    rw [hw]
    simpa using isBlank_of_isWord hb
  have hcut : "class ".toList = "class".toList ++ [' '] := rfl
  rw [hcut, List.append_assoc, List.singleton_append, classHead, literal_append]
  simp only [Option.bind_eq_bind, Option.bind_some, hblank, hname]

/-- The class is looked for behind a quiet piece; what stands there begins in a word if the
piece ends in one. -/
theorem classNameFrom_of_quiet {x : List Char} (h : Quiet classHead x) (inWord : Bool)
    (r : List Char) :
    classNameFrom inWord (x ++ r) = classNameFrom (x.foldl (fun _ c => isWord c) inWord) r := by
  induction x generalizing inWord with
  | nil => rfl
  | cons c x ih =>
      have hnone : classHead (c :: (x ++ r)) = none := h (c :: x) (by simp) (List.suffix_refl _) r
      rw [List.cons_append, classNameFrom, hnone, ite_self]
      exact ih (quiet_of_cons h) (isWord c)

/-- A statement of the table begins with its first word, blanks and a dollar sign. -/
theorem leads_tableStatement :
    Leads (fun lead => ∃ b, Blanks b ∧ lead = "protected".toList ++ (b ++ ['$']))
      tableStatement := by
  intro cs m h
  simp only [tableStatement, Option.bind_eq_bind, Option.bind_eq_some_iff] at h
  obtain ⟨cs₁, hword, cs₂, hblank, cs₃, htable, -⟩ := h
  obtain rfl := (literal_eq_some_iff _ _ _).mp hword
  obtain ⟨b, hb, -, rfl, -⟩ := (someBlanks_eq_some_iff _ _).mp hblank
  obtain rfl := (literal_eq_some_iff _ _ _).mp htable
  refine ⟨_, ⟨b, hb, rfl⟩, "table".toList ++ cs₃, ?_⟩
  show ("protected".toList ++ (b ++ ['$'])) ++ ("table".toList ++ cs₃)
    = "protected".toList ++ (b ++ ('$' :: ("table".toList ++ cs₃)))
  simp only [List.append_assoc, List.singleton_append]

/-- The head of a method begins with its two words and its name, up to the parenthesis. -/
theorem leads_methodHead :
    Leads (fun lead => ∃ b b' n b'', Blanks b ∧ Blanks b' ∧ isName n = true ∧ Blanks b''
      ∧ lead = "public".toList
        ++ (b ++ ("function".toList ++ (b' ++ (n.toList ++ (b'' ++ ['('])))))) methodHead := by
  intro cs m h
  simp only [methodHead, Option.bind_eq_bind, Option.bind_eq_some_iff, Prod.exists] at h
  obtain ⟨cs₁, hpublic, cs₂, hblank, cs₃, hfunction, cs₄, hblank', n, cs₅, hname, cs₆, hopen,
    -⟩ := h
  obtain rfl := (literal_eq_some_iff _ _ _).mp hpublic
  obtain ⟨b, hb, -, rfl, -⟩ := (someBlanks_eq_some_iff _ _).mp hblank
  obtain rfl := (literal_eq_some_iff _ _ _).mp hfunction
  obtain ⟨b', hb', -, rfl, -⟩ := (someBlanks_eq_some_iff _ _).mp hblank'
  obtain ⟨rfl, hn, -⟩ := (name_eq_some_iff _ _ _).mp hname
  obtain ⟨b'', hb'', hcut, -⟩ := exists_skipBlanks cs₅
  rw [(char_eq_some_iff _ _ _).mp hopen] at hcut
  refine ⟨_, ⟨b, b', n, b'', hb, hb', hn, hb'', rfl⟩, cs₆, ?_⟩
  rw [hcut]
  simp only [List.append_assoc, List.singleton_append]

/-- The call that a method returns begins with the word `return`, so it is not found before
that word. -/
theorem leads_returnedCall : Leads (· = "return".toList) returnedCall := by
  intro cs m h
  simp only [returnedCall, Option.bind_eq_bind, Option.bind_eq_some_iff] at h
  obtain ⟨cs₁, hreturn, -⟩ := h
  exact ⟨_, rfl, cs₁, ((literal_eq_some_iff _ _ _).mp hreturn).symm⟩

/-- No statement of the table begins in text without a dollar sign that ends in an opening
brace. -/
theorem quiet_tableStatement {x : List Char} (h : '$' ∉ x) :
    Quiet tableStatement (x ++ ['\x7b']) := by
  refine quiet_of_stop leads_tableStatement ?_
  rintro _ ⟨b, hb, rfl⟩
  have hbrace : '\x7b' ∉ b := fun hm => absurd (hb _ hm) (by decide)
  exact ⟨by simp [hbrace], '$', by simp, h⟩

/-- No method begins in text without a parenthesis that ends in a colon or a semicolon. -/
theorem quiet_methodHead {x : List Char} {d : Char} (h : '(' ∉ x) (hd : d ∈ [':', ';']) :
    Quiet methodHead (x ++ [d]) := by
  have hwords : d ∉ "public".toList ∧ d ∉ "function".toList ∧ d ≠ '(' ∧ isBlank d = false
      ∧ isWord d = false := by
    simp only [List.mem_cons, List.not_mem_nil, or_false] at hd
    rcases hd with rfl | rfl
    · decide
    · decide
  obtain ⟨hpublic, hfunction, hparen, hblank, hword⟩ := hwords
  have hblanks : ∀ {b}, Blanks b → d ∉ b := fun hb hm => absurd (hb _ hm) (by simp [hblank])
  refine quiet_of_stop leads_methodHead ?_
  rintro _ ⟨b, b', n, b'', hb, hb', hn, hb'', rfl⟩
  refine ⟨?_, '(', by simp, h⟩
  simp only [List.mem_append, List.mem_singleton, not_or]
  exact ⟨hpublic, hblanks hb, hfunction, hblanks hb', notMem_of_isName hn hword, hblanks hb'',
    hparen⟩

/-- No method begins where its first letter is not, the one that `public` begins with. -/
theorem quiet_methodHead_of_notMem {x : List Char} (h : 'p' ∉ x) : Quiet methodHead x := by
  refine quiet_of_notMem leads_methodHead ?_ h
  rintro _ ⟨b, b', n, b'', -, -, -, -, rfl⟩
  rfl

/-! ### One method -/

/-- The head of a method, opening brace included. -/
def headText (r : DeclaredRelation) : List Char :=
  "public function ".toList ++ (r.method.toList ++ "()\n    \x7b".toList)

/-- What follows the name of the kind in the returned call, up to the end of the body. -/
def targetText (r : DeclaredRelation) : List Char :=
  r.toModel.toList ++ "::class);\n    ".toList

/-- The returned call and what follows it in the body. -/
def callText (r : DeclaredRelation) : List Char :=
  "return $this->".toList ++ (r.kind.keyword.toList ++ '(' :: targetText r)

/-- The body of a method. -/
def bodyText (r : DeclaredRelation) : List Char :=
  "\n        ".toList ++ callText r

/-- The text of a method is its head, its body and the brace behind it, indented as in a
class. -/
theorem toList_methodSource (r : DeclaredRelation) :
    (methodSource r).toList = "    ".toList ++ (headText r ++ (bodyText r ++ ['\x7d'])) := by
  have hpublic : "    public function ".toList = "    ".toList ++ "public function ".toList := rfl
  have hreturn : "()\n    \x7b\n        return $this->".toList
      = "()\n    \x7b".toList ++ ("\n        ".toList ++ "return $this->".toList) := rfl
  have hclose : "::class);\n    \x7d".toList = "::class);\n    ".toList ++ ['\x7d'] := rfl
  have hopen : "(".toList = ['('] := rfl
  unfold methodSource headText bodyText callText targetText
  simp only [String.toList_append, hpublic, hreturn, hclose, hopen]
  simp only [List.append_assoc, List.cons_append, List.nil_append]

/-- Holds of a relation that makes a method: the method and the class have names. -/
structure Named (r : DeclaredRelation) : Prop where
  method : isName r.method = true
  target : isName r.toModel = true

section Method

variable {r : DeclaredRelation} (h : Named r)

include h

/-- The head of the method is recognized with the method's name, whatever the method
returns. -/
theorem methodHead_headText (rest : List Char) :
    methodHead (headText r ++ rest) = some (r.method, rest) := by
  have hpublic : "public function ".toList = "public".toList ++ ' '
      :: ("function".toList ++ [' ']) := rfl
  have hend : "()\n    \x7b".toList = '(' :: ')' :: "\n    \x7b".toList := rfl
  -- blanks lie between the words, before the name, and before the brace
  have hblank : ∀ cs,
      someBlanks (' ' :: ("function".toList ++ cs)) = some ("function".toList ++ cs) :=
    fun _ => rfl
  have hname : ∀ cs,
      someBlanks (' ' :: (r.method.toList ++ cs)) = some (r.method.toList ++ cs) := by
    intro cs
    show some (skipBlanks ([] ++ (r.method.toList ++ cs))) = _
    rw [skipBlanks_append_name blanks_nil h.method]
  have hresult : skipResultClass (skipBlanks ("\n    \x7b".toList ++ rest))
      = some ('\x7b' :: rest) := rfl
  have hopen : name (r.method.toList ++ '(' :: ')' :: ("\n    \x7b".toList ++ rest))
      = some (r.method, '(' :: ')' :: ("\n    \x7b".toList ++ rest)) :=
    name_append h.method blanks_nil (by decide) _
  have hparen : isBlank '(' = false ∧ isBlank ')' = false := by decide
  unfold headText methodHead
  simp only [hpublic, hend]
  simp only [List.append_assoc, List.cons_append, List.nil_append, literal_append,
    Option.bind_eq_bind, Option.bind_some, hblank, hname, hopen, skipBlanks_cons hparen.1,
    skipBlanks_cons hparen.2, char_cons, hresult, Option.pure_def]

/-- The class that the call is given is the target of the relation, and the search goes on
behind it. -/
theorem classArgument_targetText :
    classArgument (targetText r) = some (r.toModel, ");\n    ".toList) := by
  obtain ⟨hne, hwords⟩ := (isName_iff _).mp h.target
  have hclass : "::class);\n    ".toList = "::class".toList ++ ");\n    ".toList := rfl
  have hrun : run isClassPart (targetText r)
      = some (r.toModel.toList, "::class);\n    ".toList) := by
    refine (run_eq_some_iff _ _ _ _).mpr ⟨rfl, hne, ?_, ?_⟩
    · intro c hc
      simp [isClassPart, hwords c hc]
    · intro c hc
      obtain rfl : ':' = c := Option.some.inj hc
      decide
  have hshort : shortClassName r.toModel.toList = r.toModel := by
    rw [shortClassName, String.ofList_toList,
      lastPiece_of_notMem (notMem_of_isName h.target (by decide))]
  rw [hclass] at hrun
  simp only [classArgument, classConstant, Option.bind_eq_bind, hrun, Option.bind_some,
    literal_append, hshort, Option.pure_def]

/-- The call that the method returns is that of the relation, with the keyword of its
kind. -/
theorem returnedCall_callText :
    returnedCall (callText r) = some ((r.kind.keyword, r.toModel), ");\n    ".toList) := by
  -- piece by piece: what stands between the pieces is no blank and in no name
  have hkind : isName r.kind.keyword = true := by
    cases r.kind <;> decide
  have hreturn : "return $this->".toList = "return".toList ++ ' '
      :: ("$this".toList ++ "->".toList) := rfl
  have hblank : ∀ cs, someBlanks (' ' :: ("$this".toList ++ cs)) = some ("$this".toList ++ cs) :=
    fun _ => rfl
  have harrow : ∀ cs, skipBlanks ("->".toList ++ cs) = "->".toList ++ cs := fun _ => rfl
  have hcall : ∀ cs, skipBlanks (r.kind.keyword.toList ++ cs) = r.kind.keyword.toList ++ cs :=
    skipBlanks_append_name blanks_nil hkind
  have hopen : ∀ cs,
      name (r.kind.keyword.toList ++ '(' :: cs) = some (r.kind.keyword, '(' :: cs) :=
    name_append hkind blanks_nil (by decide)
  have hparen : isBlank '(' = false := by decide
  have htarget : skipBlanks (targetText r) = targetText r :=
    skipBlanks_append_name blanks_nil h.target _
  unfold callText returnedCall
  simp only [hreturn]
  simp only [List.append_assoc, List.cons_append, literal_append, Option.bind_eq_bind,
    Option.bind_some, hblank, harrow, hcall, hopen, skipBlanks_cons hparen, char_cons, htarget,
    classArgument_targetText h, Option.pure_def]

/-- The body has no character but those of names and of its fixed text, so most of what is
looked for cannot begin in it. -/
theorem notMem_bodyText {d : Char} (hd : isWord d = false)
    (hfixed : d ∉ "\n        ".toList ∧ d ∉ "return $this->".toList ∧ d ≠ '('
      ∧ d ∉ "::class);\n    ".toList) :
    d ∉ bodyText r := by
  have hkind : isName r.kind.keyword = true := by
    cases r.kind <;> decide
  unfold bodyText callText targetText
  simp only [List.mem_append, List.mem_cons, not_or]
  obtain ⟨hindent, hreturn, hparen, hend⟩ := hfixed
  exact ⟨hindent, hreturn, notMem_of_isName hkind hd, hparen, notMem_of_isName h.target hd, hend⟩

/-- The body that a method's head opens ends with the brace behind it, and its call makes the
relation. -/
theorem relation?_bodyText (start stop : Nat) (rest : List Char) :
    relation? ⟨start, stop, r.method, bodyText r ++ '\x7d' :: rest⟩
      = some ⟨r.method, r.kind, r.toModel⟩ := by
  -- no quote and no brace stands in the body
  have hover : Quotes.outside.over (bodyText r) = .outside := by
    refine Quotes.over_outside_of_noQuote _ fun c hc => ?_
    cases hq : isQuote c with
    | false => rfl
    | true =>
        have hquotes : c = '\'' ∨ c = '"' := by simpa [isQuote] using hq
        rcases hquotes with rfl | rfl
        · exact absurd hc (notMem_bodyText h (by decide) (by decide))
        · exact absurd hc (notMem_bodyText h (by decide) (by decide))
  have hend : blockEnd? stop (bodyText r ++ '\x7d' :: rest)
      = some (stop + (bodyText r).length) := by
    rw [blockEnd?,
      closeFrom_append_of_noBrace _ _ _ _ _ (notMem_bodyText h (by decide) (by decide))
      (notMem_bodyText h (by decide) (by decide)), hover, closeFrom_cons, if_pos ⟨rfl, rfl, rfl⟩]
  have hbody : (bodyText r ++ '\x7d' :: rest).take (stop + (bodyText r).length - stop)
      = bodyText r := by
    rw [Nat.add_sub_cancel_left, List.take_left]
  have hcall : (find? returnedCall (bodyText r)).map Match.value
      = some (r.kind.keyword, r.toModel) := by
    have hquiet : Quiet returnedCall "\n        ".toList :=
      quiet_of_clear leads_returnedCall (by decide)
    have hne : callText r ≠ [] := List.append_ne_nil_of_left_ne_nil (by decide) _
    unfold find? bodyText
    rw [findFrom_of_quiet hquiet]
    exact map_value_findFrom (returnedCall_callText h) hne _
  have hkind : RelationKind.ofKeyword? r.kind.keyword = some r.kind := by
    cases r.kind <;> rfl
  obtain ⟨m, hm, hvalue⟩ := Option.map_eq_some_iff.mp hcall
  simp only [relation?, Option.bind_eq_bind, hend, Option.bind_some, hbody, hm, hvalue, hkind,
    Option.pure_def]

/-- No method begins in the body, or in the brace behind it, even if the class that it names
is called `public`. -/
theorem quiet_methodHead_body : Quiet methodHead (bodyText r ++ ['\x7d']) := by
  have hcut : bodyText r ++ ['\x7d']
      = ("\n        ".toList ++ ("return $this->".toList ++ (r.kind.keyword.toList ++ ['(']))) ++
          ((r.toModel.toList ++ [':']) ++ ":class);\n    \x7d".toList) := by
    have hclass : "::class);\n    ".toList ++ ['\x7d'] = ':' :: ":class);\n    \x7d".toList := rfl
    unfold bodyText callText targetText
    simp only [List.append_assoc, List.cons_append, List.nil_append, hclass]
  have hcall : 'p' ∉ "\n        ".toList
      ++ ("return $this->".toList ++ (r.kind.keyword.toList ++ ['('])) := by
    cases r.kind <;> decide
  rw [hcut]
  refine quiet_append (quiet_methodHead_of_notMem hcall)
    (quiet_append ?_ (quiet_methodHead_of_notMem (by decide)))
  exact quiet_methodHead (notMem_of_isName h.target (by decide)) (by decide)

/-- A method makes its relation, and the search goes on behind it. This is one step of the
induction over all methods. -/
theorem filterMap_relation?_methodSource (i : Nat) (rest : List Char) :
    (findAllFrom methodHead i 0 ((methodSource r).toList ++ rest)).filterMap relation?
      = ⟨r.method, r.kind, r.toModel⟩
        :: (findAllFrom methodHead (i + (methodSource r).toList.length) 0 rest).filterMap
          relation? := by
  have hlength : (methodSource r).toList.length
      = "    ".toList.length + ((headText r).length + (bodyText r ++ ['\x7d']).length) := by
    rw [toList_methodSource, List.length_append, List.length_append]
  have hne : headText r ≠ [] := List.append_ne_nil_of_left_ne_nil (by decide) _
  have hindent : Quiet methodHead "    ".toList := quiet_methodHead_of_notMem (by decide)
  have hbody : ∀ start stop, relation? ⟨start, stop, r.method, (bodyText r ++ ['\x7d']) ++ rest⟩
      = some ⟨r.method, r.kind, r.toModel⟩ := by
    intro start stop
    rw [List.append_assoc, List.singleton_append, relation?_bodyText h]
  rw [hlength, toList_methodSource, List.append_assoc, List.append_assoc,
    findAllFrom_of_quiet hindent, findAllFrom_of_match (methodHead_headText h _) hne,
    List.filterMap_cons_some (hbody _ _), findAllFrom_of_quiet (quiet_methodHead_body h),
    Nat.add_assoc, Nat.add_assoc]

end Method

/-! ### All methods -/

/-- The relation that a method is read as. -/
def relationOf (r : DeclaredRelation) : ModelRelation :=
  ⟨r.method, r.kind, r.toModel⟩

/-- The methods of a class, in its text. -/
def methodsText (rs : List DeclaredRelation) : List Char :=
  ("\n\n".intercalate (rs.map methodSource)).toList

/-- The last method has no empty line behind it, so the text of one method is its source. -/
theorem methodsText_singleton (r : DeclaredRelation) :
    methodsText [r] = (methodSource r).toList := by
  simp [methodsText]

/-- Two methods have an empty line between them, in front of which the text of the first one
ends. -/
theorem methodsText_cons_cons (r s : DeclaredRelation) (rs : List DeclaredRelation) :
    methodsText (r :: s :: rs) = (methodSource r).toList
      ++ ("\n\n".toList ++ methodsText (s :: rs)) := by
  unfold methodsText
  rw [List.map_cons, List.map_cons, String.intercalate_cons_cons, String.toList_append,
    String.toList_append, List.append_assoc]

/-- Methods one after another make their relations, in their order, with anything behind
them in which no method can begin. -/
theorem filterMap_relation?_methodsText {rs : List DeclaredRelation} (h : ∀ r ∈ rs, Named r)
    {tail : List Char}
    (htail : 'p' ∉ tail) (i : Nat) :
    (findAllFrom methodHead i 0 (methodsText rs ++ tail)).filterMap relation?
      = rs.map relationOf := by
  have hnone := findAllFrom_quiet (quiet_methodHead_of_notMem htail)
  induction rs generalizing i with
  | nil =>
      rw [show methodsText [] = [] from rfl, List.nil_append, hnone]
      rfl
  | cons r rs ih =>
      have hr := h r List.mem_cons_self
      have hrest := ih fun s hs => h s (List.mem_cons_of_mem r hs)
      cases rs with
      | nil =>
          rw [methodsText_singleton, filterMap_relation?_methodSource hr, hnone]
          rfl
      | cons s rs =>
          have hgap : Quiet methodHead "\n\n".toList := quiet_methodHead_of_notMem (by decide)
          rw [methodsText_cons_cons, List.append_assoc, List.append_assoc,
            filterMap_relation?_methodSource hr, findAllFrom_of_quiet hgap, hrest]
          rfl

/-! ### The class around the methods -/

/-- The code in front of the class. -/
def importCode : String :=
  "<?php\n\nnamespace App\\Models;\n\n"
    ++ "use Illuminate\\Database\\Eloquent\\Factories\\HasFactory;\n"
    ++ "use Illuminate\\Database\\Eloquent\\Model;\n\n"

/-- Nothing that the readers look for begins in the code in front of the class. -/
theorem importCode_plain : clearOf "class".toList importCode.toList = true
    ∧ importCode.toList.foldl (fun _ c => isWord c) false = false
    ∧ '$' ∉ importCode.toList ∧ '(' ∉ importCode.toList ∧ '/' ∉ importCode.toList := by
  unfold importCode
  simp only [String.toList_append, String.reduceToList]
  decide +kernel

/-- The head of the class, without its opening brace. -/
def classText (className : String) : List Char :=
  "class ".toList ++ (className.toList ++ " extends Model\n".toList)

/-- The statement of the table. -/
def tableText (table : String) : List Char :=
  "protected $table = '".toList ++ (table.toList ++ "';".toList)

/-- The last of the class's own statements, without its semicolon. -/
def guardText : List Char := "\n\n    protected $guarded = []".toList

/-- The class up to that semicolon. -/
def frontText (className table : String) : List Char :=
  importCode.toList ++ (classText className ++ '\x7b' :: ("\n    use HasFactory;\n\n    ".toList
    ++ (tableText table ++ guardText)))

/-- What comes behind the semicolon. -/
def backText (rs : List DeclaredRelation) : List Char :=
  if rs = [] then "\n\x7d\n".toList else "\n\n".toList ++ (methodsText rs ++ "\n\x7d\n".toList)

/-- What the class has behind its own statements: its methods with the empty lines around
them, if any, and its closing brace. -/
theorem toList_methods (rs : List DeclaredRelation) :
    "\n".toList ++ ((if (rs.map methodSource).isEmpty then ""
        else "\n" ++ "\n\n".intercalate (rs.map methodSource) ++ "\n").toList ++ "\x7d\n".toList)
          = backText rs := by
  cases rs with
  | nil => rfl
  | cons r rs =>
      have hgap : "\n\n".toList = "\n".toList ++ "\n".toList := rfl
      have hend : "\n\x7d\n".toList = "\n".toList ++ "\x7d\n".toList := rfl
      have hne : r :: rs ≠ [] := List.cons_ne_nil r rs
      have hmethods : ((r :: rs).map methodSource).isEmpty = false := rfl
      rw [hmethods, if_neg Bool.false_ne_true, String.toList_append, String.toList_append]
      unfold backText methodsText
      rw [if_neg hne, hend]
      simp only [hgap]
      simp only [List.append_assoc]

/-- The text of a class is its own statements, a semicolon, and the methods of its distinct
relations. -/
theorem toList_source (className table : String) (relations : List DeclaredRelation) :
    (source className table relations).toList
      = frontText className table ++ ';' :: backText (distinctMethods [] relations) := by
  have hopen : " extends Model\n\x7b\n    use HasFactory;\n\n".toList
      = " extends Model\n".toList ++ '\x7b' :: "\n    use HasFactory;\n\n".toList := rfl
  have hindent : "    protected $table = '".toList
      = "    ".toList ++ "protected $table = '".toList := rfl
  have hguard : "';\n\n    protected $guarded = [];\n".toList
      = "';".toList ++ ("\n\n    protected $guarded = []".toList ++ ';' :: "\n".toList) := rfl
  have htrait : "\n    use HasFactory;\n\n    ".toList = "\n    use HasFactory;\n\n".toList
      ++ "    ".toList := rfl
  rw [← toList_methods]
  unfold source frontText classText tableText guardText importCode
  simp only [String.toList_append, hopen, hindent, hguard, htrait]
  simp only [List.append_assoc, List.cons_append]

section Named

variable {className table : String} (hclass : isName className = true)
    (htable : isName table = true)

include hclass in
/-- The class is found by its name, whatever that is, even if it is the word that classes
begin with. -/
theorem classNameFrom_frontText (rest : List Char) :
    classNameFrom false (frontText className table ++ rest) = some className := by
  obtain ⟨hclear, hfree, -⟩ := importCode_plain
  have hextends : " extends Model\n".toList = ' ' :: "extends Model\n".toList := rfl
  have hword : "class ".toList = 'c' :: "lass ".toList := rfl
  unfold frontText classText
  simp only [hextends, List.append_assoc, List.cons_append]
  rw [classNameFrom_of_quiet (quiet_of_clear leads_classHead hclear), hfree]
  have hhead := classHead_append hclass (c := ' ') (by decide)
  simp only [hword, List.cons_append] at hhead ⊢
  rw [classNameFrom, if_neg Bool.false_ne_true, hhead]

include htable in
/-- The statement of the table says the table, between quotes that no name has in it. -/
theorem tableStatement_tableText (rest : List Char) :
    tableStatement (tableText table ++ rest) = some (table, rest) := by
  have hbegin : "protected $table = '".toList = "protected".toList ++ ' '
      :: ("$table".toList ++ " = '".toList) := rfl
  have hend : "';".toList = ['\'', ';'] := rfl
  have hblank : ∀ cs,
      someBlanks (' ' :: ("$table".toList ++ cs)) = some ("$table".toList ++ cs) := fun _ => rfl
  have hequals : ∀ cs, char '=' (skipBlanks (" = '".toList ++ cs)) = some (" '".toList ++ cs) :=
    fun _ => rfl
  have hquote : ∀ cs, quote (skipBlanks (" '".toList ++ cs)) = some ('\'', cs) := fun _ => rfl
  have hname : ∀ cs, name (table.toList ++ '\'' :: cs) = some (table, '\'' :: cs) :=
    name_append htable blanks_nil (by decide)
  have hclose : ∀ cs, quote ('\'' :: cs) = some ('\'', cs) := fun _ => rfl
  have hsemicolon : isBlank ';' = false := by decide
  unfold tableText tableStatement
  simp only [hbegin, hend]
  simp only [List.append_assoc, List.cons_append, List.nil_append, literal_append,
    Option.bind_eq_bind, Option.bind_some, hblank, hequals, hquote, hname, hclose,
    skipBlanks_cons hsemicolon, char_cons, Option.pure_def]

include hclass htable

/-- Up to the methods there is no character but those of names and of fixed text. -/
theorem notMem_frontText {d : Char} (hd : isWord d = false) (himport : d ∉ importCode.toList)
    (hfixed : d ∉ "class ".toList ∧ d ∉ " extends Model\n".toList ∧ d ≠ '\x7b'
      ∧ d ∉ "\n    use HasFactory;\n\n    ".toList ∧ d ∉ "protected $table = '".toList
      ∧ d ∉ "';".toList
      ∧ d ∉ guardText) :
    d ∉ frontText className table := by
  obtain ⟨hhead, hextends, hbrace, htrait, hbegin, hend, hguard⟩ := hfixed
  unfold frontText classText tableText
  simp only [List.mem_append, List.mem_cons, not_or]
  exact ⟨himport, ⟨hhead, notMem_of_isName hclass hd, hextends⟩, hbrace, htrait,
    ⟨hbegin, notMem_of_isName htable hd, hend⟩, hguard⟩

/-- No parenthesis stands before the methods, so none of the calls that are looked for
begins there. -/
theorem paren_notMem_frontText : '(' ∉ frontText className table :=
  notMem_frontText hclass htable (by decide) importCode_plain.2.2.2.1 (by decide)

/-- No slash stands before the methods either, so no comment begins there. -/
theorem slash_notMem_frontText : '/' ∉ frontText className table :=
  notMem_frontText hclass htable (by decide) importCode_plain.2.2.2.2 (by decide)

/-- The statement of the table is the first of its kind, and so the one that is found. -/
theorem find?_tableStatement_frontText (rest : List Char) :
    (find? tableStatement (frontText className table ++ rest)).map Match.value = some table := by
  have hcut : frontText className table ++ rest
      = ((importCode.toList ++ classText className) ++ ['\x7b'])
        ++ ("\n    use HasFactory;\n\n    ".toList
          ++ (tableText table ++ (guardText ++ rest))) := by
    unfold frontText
    simp only [List.append_assoc, List.cons_append, List.nil_append]
  -- every lead of the statement has a dollar sign, and there is none before the brace
  have hdollar : '$' ∉ importCode.toList ++ classText className := by
    have himport : '$' ∉ importCode.toList := importCode_plain.2.2.1
    have hname : '$' ∉ className.toList := notMem_of_isName hclass (by decide)
    unfold classText
    simp only [List.mem_append, not_or]
    exact ⟨himport, by decide, hname, by decide⟩
  have htrait : Quiet tableStatement "\n    use HasFactory;\n\n    ".toList := by
    refine quiet_of_notMem leads_tableStatement (c := 'p') ?_ (by decide)
    rintro _ ⟨b, -, rfl⟩
    rfl
  have hne : tableText table ++ (guardText ++ rest) ≠ [] :=
    List.append_ne_nil_of_left_ne_nil (List.append_ne_nil_of_left_ne_nil (by decide) _) _
  rw [find?, hcut, findFrom_of_quiet (quiet_tableStatement hdollar), findFrom_of_quiet htrait]
  exact map_value_findFrom (tableStatement_tableText htable _) hne _

/-- No method begins before the methods, so the search for methods can begin behind the
class's own statements. -/
theorem findAll_frontText (rest : List Char) :
    findAll methodHead (frontText className table ++ ';' :: rest)
      = findAllFrom methodHead ((frontText className table).length + 1) 0 rest := by
  have hquiet := quiet_methodHead (paren_notMem_frontText hclass htable) (d := ';') (by decide)
  have hall := findAllFrom_of_quiet hquiet 0 rest
  rw [List.append_assoc, List.singleton_append, List.length_append, Nat.zero_add] at hall
  exact hall

end Named

/-! ### The class read again -/

/-- No slash is in a method, so masking comments leaves it as it is. -/
theorem slash_notMem_methodSource {r : DeclaredRelation} (h : Named r) :
    '/' ∉ (methodSource r).toList := by
  have hbody : '/' ∉ bodyText r := notMem_bodyText h (by decide) (by decide)
  have hmethod : '/' ∉ r.method.toList := notMem_of_isName h.method (by decide)
  rw [toList_methodSource]
  unfold headText
  simp only [List.mem_append, List.mem_singleton, not_or]
  exact ⟨by decide, ⟨by decide, hmethod, by decide⟩, hbody, by decide⟩

/-- No slash is in the methods one after another, with the empty lines between them. -/
theorem slash_notMem_methodsText {rs : List DeclaredRelation} (h : ∀ r ∈ rs, Named r) :
    '/' ∉ methodsText rs := by
  induction rs with
  | nil => exact List.not_mem_nil
  | cons r rs ih =>
      have hr := slash_notMem_methodSource (h r List.mem_cons_self)
      have hrest := ih fun s hs => h s (List.mem_cons_of_mem r hs)
      cases rs with
      | nil =>
          rw [methodsText_singleton]
          exact hr
      | cons s rs =>
          rw [methodsText_cons_cons]
          simp only [List.mem_append, not_or]
          exact ⟨hr, by decide, hrest⟩

/-- No slash is in what the class has behind its own statements, be it methods or the brace
alone. -/
theorem slash_notMem_backText {rs : List DeclaredRelation} (h : ∀ r ∈ rs, Named r) :
    '/' ∉ backText rs := by
  unfold backText
  split
  · decide
  · simp only [List.mem_append, not_or]
    exact ⟨by decide, slash_notMem_methodsText h, by decide⟩

/-- The methods behind the class's own statements make their relations, in the order in
which they were written. -/
theorem filterMap_relation?_backText {rs : List DeclaredRelation} (h : ∀ r ∈ rs, Named r)
    (i : Nat) :
    (findAllFrom methodHead i 0 (backText rs)).filterMap relation? = rs.map relationOf := by
  have hgap : Quiet methodHead "\n\n".toList := quiet_methodHead_of_notMem (by decide)
  have htail : 'p' ∉ "\n\x7d\n".toList := by decide
  unfold backText
  split
  · rename_i hnil
    subst hnil
    exact filterMap_relation?_methodsText h htail i
  · rw [findAllFrom_of_quiet hgap]
    exact filterMap_relation?_methodsText h htail _

/-- A class that is made for a table is read as the model of that table: by its name, bound to
the table that it names itself, with a relation for each of the given relations that has a
method name, where of several with one method name the first counts. -/
theorem ofText?_source {className table : String} (hclass : isName className = true)
    (htable : isName table = true) {relations : List DeclaredRelation}
    (hrelations : ∀ r ∈ relations,
      (r.method = "" ∨ isName r.method = true) ∧ isName r.toModel = true)
    (path : String) :
    ofText? (source className table relations) path
      = some {
          className := className
          tableName := table
          isExplicit := true
          relations :=
            ((relations.filter (·.method != "")).eraseDupsBy (·.method == ·.method)).map
            fun r => ⟨r.method, r.kind, r.toModel⟩
          path := path } := by
  have hmethods : distinctMethods [] relations
      = (relations.filter (·.method != "")).eraseDupsBy (·.method == ·.method) := by
    rw [distinctMethods_eq]
    simp
  have hnamed : ∀ r ∈ distinctMethods [] relations, Named r := by
    intro r hr
    obtain ⟨hmem, hnotEmpty⟩ := of_mem_distinctMethods hr
    obtain ⟨hmethod, htarget⟩ := hrelations r hmem
    exact ⟨hmethod.resolve_left hnotEmpty, htarget⟩
  -- no slash stands in the class, so masking leaves it as it is
  have hslash : '/' ∉ frontText className table ++ ';'
      :: backText (distinctMethods [] relations) := by
    rw [List.mem_append, List.mem_cons, not_or, not_or]
    exact ⟨slash_notMem_frontText hclass htable, by decide, slash_notMem_backText hnamed⟩
  have hmask : mask (source className table relations).toList
      = frontText className table ++ ';' :: backText (distinctMethods [] relations) := by
    have hall := maskFrom_append_of_noSlash .outside _ [] hslash
    rw [List.append_nil] at hall
    rw [toList_source, mask, hall]
    exact List.append_nil _
  have hne : ¬className = "" := by
    rintro rfl
    exact absurd hclass (by decide)
  have htable' : ¬table = "" := by
    rintro rfl
    exact absurd htable (by decide)
  have hfound : relationsOfMasked
      (frontText className table ++ ';' :: backText (distinctMethods [] relations))
      = (distinctMethods [] relations).map relationOf := by
    rw [relationsOfMasked, findAll_frontText hclass htable, filterMap_relation?_backText hnamed]
  unfold ofText?
  simp only [hmask, classNameFrom_frontText hclass, find?_tableStatement_frontText hclass htable,
    hfound, Option.getD_some, if_neg hne, Option.isSome_some, bind, if_neg htable']
  rw [hmethods]
  rfl

/-- No word of the language stands in the way: the class may be called `class`, its table
`protected`, and its methods `function` and `public`. -/
theorem ofText?_source_keywords :
    ofText?
        (source "class" "protected"
          [⟨"class", .hasMany, "public", "function"⟩, ⟨"class", .belongsTo, "extends", ""⟩,
            ⟨"class", .hasOne, "return", "function"⟩,
            ⟨"class", .belongsToMany, "class", "public"⟩])
        "app/Models/class.php"
      = some {
          className := "class"
          tableName := "protected"
          isExplicit := true
          relations := [⟨"function", .hasMany, "public"⟩, ⟨"public", .belongsToMany, "class"⟩]
          path := "app/Models/class.php" } :=
  ofText?_source (by decide) (by decide) (by decide) "app/Models/class.php"

end SchemaAtlas.Model
