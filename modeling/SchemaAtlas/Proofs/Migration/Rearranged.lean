import SchemaAtlas.Proofs.List
import SchemaAtlas.Proofs.Migration.Call
import SchemaAtlas.Proofs.Migration.Draft
import SchemaAtlas.Proofs.Scan.Fence

/-!
# `SchemaAtlas.Proofs.Migration.Rearranged`: modifiers in another order

A body that holds a chain of modifiers is read once with the chain in one order and once
in another (`Rearranged`). The statements that are read differ in their tails only, and
there in the order of the chain (`tail_cases`). Every modifier is looked for by its name,
and no name stands twice, so each reader of a tail finds the same
(`map_modifier?_rearranged`). What a statement has dropped or renamed is read off all
quoted words of its tail, and may change; what it declares does not
(`filter_requests_rearranged`), and neither do the columns and foreign keys that the
statements of the body come to (`Rearranged.finalColumns_eq`).
-/

set_option autoImplicit false

namespace SchemaAtlas.Migration

open SchemaAtlas.Scan SchemaAtlas.Text

/-- Two orders of a chain of modifiers, in which no name stands twice. -/
structure Rearranged (ls ls' : List Link) : Prop where
  perm : ls.Perm ls'
  wellFormed : ∀ l ∈ ls, l.WellFormed
  nodup : (ls.map Link.name).Nodup

namespace Rearranged

variable {ls ls' : List Link}

/-- The links are well-formed in the other order as well, since they are the same links. -/
theorem wellFormed' (h : Rearranged ls ls') : ∀ l ∈ ls', l.WellFormed :=
  fun l hl => h.wellFormed l (h.perm.mem_iff.mpr hl)

/-- The modifier of a name is the same in both orders. This is where the names have to be
distinct. -/
theorem find?_eq (h : Rearranged ls ls') (n : String) :
    (ls.find? fun l => l.name == n) = ls'.find? fun l => l.name == n :=
  find?_eq_of_perm h.perm h.nodup n

/-- The chain is as long in both orders, so everything behind it stays where it is. -/
theorem length_chainText (h : Rearranged ls ls') :
    (chainText ls).length = (chainText ls').length :=
  (h.perm.flatMap_right Link.text).length_eq

/-- Both orders leave strings open or closed alike: behind a chain of links no string is
open, and both chains are empty or neither is. -/
theorem over_eq (h : Rearranged ls ls') {q : Quotes} (hq : q.Proper) :
    q.over (chainText ls) = q.over (chainText ls') := by
  have hempty : ls.isEmpty = ls'.isEmpty := by
    rw [Bool.eq_iff_iff, List.isEmpty_iff_length_eq_zero, List.isEmpty_iff_length_eq_zero,
      h.perm.length_eq]
  rw [over_chainText hq h.wellFormed, over_chainText hq h.wellFormed', hempty]

end Rearranged

/-! ### Blind readers -/

/-- The beginning of a statement never reads over a closing parenthesis, unless the
builder's name has one in it. -/
theorem fenced_statementHead {builder : String} (hb : ')' ∉ builder.toList) :
    Fenced (statementHead builder) :=
  (stops_char (by decide)).bind <| (stops_literal hb).bind <| Fenced.skipped <|
    (stops_literal (by decide)).bind <| Fenced.skipped <|
      fenced_name.bind
      (k := fun method cs => (char '(' (skipBlanks cs)).bind fun cs => some (method, cs))
        fun _ method _ _ => Fenced.skipped ((stops_char (by decide)).bind (fenced_pure method))

/-- Nor does the beginning of a modifier that is looked for by name, up to the parenthesis
that opens its argument. -/
theorem fenced_modifierCall {n : String} (hn : isName n = true) : Fenced (modifierCall n) :=
  (stops_literal (by decide)).bind <| Fenced.skipped <|
    (stops_literal (notMem_of_isName hn (by decide))).bind <| Fenced.skipped <|
      (stops_char (by decide)).bind <| Fenced.skipped (fenced_pure ())

/-- What is found as the first argument does not depend on anything behind the parenthesis
that closes the call. -/
theorem blind_firstArgument? : Blind firstArgument? := by
  have htake := takeWhile_append_fence (p := fun c => isWord c || c == '.') (by decide)
  have hdrop := dropWhile_append_fence (p := fun c => isWord c || c == '.') (by decide)
  intro y r r'
  obtain ⟨found?, hfound⟩ := fenced_quote (skipBlanks y)
  cases found? with
  | none =>
      simp only [firstArgument?, skipBlanks_append_fence, hfound, Option.map_none,
        Option.bind_eq_bind, Option.bind_none]
  | some m =>
      have hquote : isQuote m.1 = true := ((quote_eq_some_iff _ _ _).mp (hfound [])).2
      obtain ⟨left?, hleft⟩ :=
        stops_char (ne_of_class hquote (by decide)) (m.2.dropWhile fun c => isWord c || c == '.')
      simp only [firstArgument?, skipBlanks_append_fence, hfound, Option.map_some,
        Option.bind_eq_bind, Option.bind_some, htake, hdrop, hleft]
      cases left? with
      | none => rfl
      | some z => rfl

/-- The same is so of the second argument. It is looked for behind a comma and blanks, and a
closing parenthesis is neither. -/
theorem blind_secondArgument? : Blind secondArgument? := by
  have hfenced : Fenced fun cs => (char ',' (skipBlanks cs)).bind fun cs =>
      quotedName (skipBlanks cs) :=
    Fenced.skipped ((stops_char (by decide)).bind fenced_quotedName.skipped)
  have hread : secondArgument?
      = fun cs => ((char ',' (skipBlanks cs)).bind fun cs => quotedName (skipBlanks cs)).map
        Prod.fst := by
    funext cs
    simp only [secondArgument?, Option.bind_eq_bind]
    cases char ',' (skipBlanks cs) with
    | none => rfl
    | some u => cases hq : quotedName (skipBlanks u) <;> simp [hq]
  rw [hread]
  exact hfenced.blind

/-! ### Modifiers of a rearranged tail -/

/-- What a blind reader makes of the first modifier of a name: it stands in front of the
chain, or in it, or behind. -/
theorem map_modifier?_chain {β : Type} {f : List Char → β} (hf : Blind f) {n : String}
    (hn : isName n = true)
    {ls : List Link} (h : ∀ l ∈ ls, l.WellFormed) (y σ : List Char) :
    (modifier? n (y ++ ')' :: (chainText ls ++ σ))).map f
      = ((modifier? n (y ++ [')'])).map f).or
          (((ls.find? fun l => l.name == n).map fun l => f (l.argument.text ++ [')'])).or
            ((modifier? n σ).map f)) := by
  have hcut : y ++ ')' :: (chainText ls ++ σ) = (y ++ [')']) ++ (chainText ls ++ σ) := by simp
  have hfront :
      (((findFrom (modifierCall n) 0 (y ++ [')'])).map (Match.extended (chainText ls ++ σ))).map
      Match.rest).map f = ((modifier? n (y ++ [')'])).map f) := by
    rw [modifier?, find?]
    cases hm : findFrom (modifierCall n) 0 (y ++ [')']) with
    | none => rfl
    | some m =>
        -- the match leaves the parenthesis over, and the reader does not look behind it
        obtain ⟨z, hz⟩ :=
          (fenced_modifierCall hn).exists_rest_of_mem (mem_findAllFrom_of_findFrom hm)
        refine congrArg some ?_
        show f (m.rest ++ (chainText ls ++ σ)) = f m.rest
        rw [hz, List.append_assoc]
        exact hf z _ _
  have hbehind : ∀ i, (findFrom (modifierCall n) i σ).map Match.rest = modifier? n σ := by
    intro i
    have hadd := findFrom_add (p := modifierCall n) 0 i σ
    rw [Nat.zero_add] at hadd
    rw [hadd, modifier?, find?, Option.map_map]
    rfl
  have hchain := map_linkRest? (f := f) h (fun a _ r => hf a.text r []) n σ
  rw [modifier?, find?, hcut, findFrom_of_firm ((fenced_modifierCall hn).firm y), Option.map_or,
    Option.map_or, hfront, map_rest_findFrom_chainText hn h, Option.map_or, hchain, hbehind]

section Tail

variable {ls ls' : List Link} (h : Rearranged ls ls') (y σ : List Char)

include h

/-- A blind reader finds the same for the modifier of a name in both orders. The modifier is
either in front of the chain, where nothing has changed, or it is a link of it. -/
theorem map_modifier?_rearranged {β : Type} {f : List Char → β} (hf : Blind f) {n : String}
    (hn : isName n = true) :
    (modifier? n (y ++ ')' :: (chainText ls ++ σ))).map f
      = (modifier? n (y ++ ')' :: (chainText ls' ++ σ))).map f := by
  rw [map_modifier?_chain hf hn h.wellFormed, map_modifier?_chain hf hn h.wellFormed',
    h.find?_eq n]

/-- So the argument of a modifier is the same in both orders, since reading an argument is
blind. -/
theorem modifierArgument?_rearranged {n : String} (hn : isName n = true) :
    modifierArgument? n (y ++ ')' :: (chainText ls ++ σ))
      = modifierArgument? n (y ++ ')' :: (chainText ls' ++ σ)) := by
  rw [modifierArgument?_eq_join, modifierArgument?_eq_join,
    map_modifier?_rearranged h y σ fenced_quotedName.blind hn]

/-- Whether a column is nullable is the same in both orders, whether by the modifier alone
or by what it is told. -/
theorem isNullable_rearranged :
    isNullable (y ++ ')' :: (chainText ls ++ σ))
      = isNullable (y ++ ')' :: (chainText ls' ++ σ)) := by
  rw [isNullable_eq_getD, isNullable_eq_getD,
    map_modifier?_rearranged h y σ (stops_literal (by decide)).blind (by decide)]

/-- Whether a column is primary is the same in both orders: only the modifier's being there
counts. -/
theorem isPrimary_rearranged :
    isPrimary (y ++ ')' :: (chainText ls ++ σ))
      = isPrimary (y ++ ')' :: (chainText ls' ++ σ)) := by
  have hread := map_modifier?_rearranged h y σ (blind_const ()) (n := "primary") (by decide)
  rw [isPrimary, isPrimary, ← Option.isSome_map, hread, Option.isSome_map]

/-- What the statement of a column asks for is the same in both orders: its column, with its
flags, and its foreign key. -/
theorem columnRequests_rearranged (method : String) (type : ColumnType) (name : String) :
    columnRequests method type name (y ++ ')' :: (chainText ls ++ σ))
      = columnRequests method type name (y ++ ')' :: (chainText ls' ++ σ)) := by
  rw [columnRequests, columnRequests,
    modifierArgument?_rearranged h y σ (n := "constrained") (by decide),
    modifierArgument?_rearranged h y σ (n := "on") (by decide), isPrimary_rearranged h,
    isNullable_rearranged h]

/-- A reference that is named for a class asks for the same in both orders, since it is read
off its arguments and these modifiers. -/
theorem foreignIdForRequests_rearranged :
    foreignIdForRequests (y ++ ')' :: (chainText ls ++ σ))
      = foreignIdForRequests (y ++ ')' :: (chainText ls' ++ σ)) := by
  obtain ⟨found?, hfound⟩ := fenced_classArgument (skipBlanks y)
  cases found? with
  | none => simp only [foreignIdForRequests, skipBlanks_append_fence, hfound, Option.map_none]
  | some m =>
      simp only [foreignIdForRequests, skipBlanks_append_fence, hfound, Option.map_some,
        blind_secondArgument? m.2 (chainText ls ++ σ) (chainText ls' ++ σ),
        modifierArgument?_rearranged h m.2 σ (n := "constrained") (by decide),
        isNullable_rearranged h m.2]

end Tail

/-! ### Requests -/

/-- Holds of a request that goes into the columns or the foreign keys of a draft. -/
def Request.builds : Request → Bool
  | .drop _ => false
  | .dropForeign _ => false
  | .rename _ _ => false
  | _ => true

/-- A request that does not build has no part in a draft's identifier, its columns or its
foreign keys. It drops or renames something. -/
theorem Request.parts_of_not_builds {r : Request} (h : r.builds = false) :
    r.identified? = none ∧ r.declared? = none ∧ r.referred? = none ∧ r.constrained? = none := by
  cases r with
  | drop names => exact ⟨rfl, rfl, rfl, rfl⟩
  | dropForeign names => exact ⟨rfl, rfl, rfl, rfl⟩
  | rename old new => exact ⟨rfl, rfl, rfl, rfl⟩
  | _ => cases h

/-- What a statement asks for, but for what it takes away or renames, does not depend on
the order of its modifiers. -/
theorem filter_requests_rearranged {ls ls' : List Link} (h : Rearranged ls ls') (method : String)
    (y σ : List Char) :
    (Statement.requests ⟨method, y ++ ')' :: (chainText ls ++ σ)⟩).filter Request.builds
      = (Statement.requests ⟨method, y ++ ')' :: (chainText ls' ++ σ)⟩).filter
        Request.builds := by
  have hfirst := blind_firstArgument? y (chainText ls ++ σ) (chainText ls' ++ σ)
  simp only [Statement.requests, hfirst,
    modifierArgument?_rearranged h y σ (n := "on") (by decide),
    foreignIdForRequests_rearranged h y σ, columnRequests_rearranged h y σ]
  split
  -- what is renamed is read off all quoted words, and is left out
  case h_15 => split <;> split <;> rfl
  all_goals rfl

/-! ### Statements -/

/-- What the statement behind a beginning in front of the chain asks for. It ends in front
of the chain, in both orders at the same place, or behind it. -/
theorem filter_requests_ofHead {ls ls' : List Link} (h : Rearranged ls ls') {m : Match String}
    {y : List Char}
    (hm : m.rest = y ++ [')']) (r : List Char) :
    (Statement.ofHead (m.extended (chainText ls ++ r))).requests.filter Request.builds
      = (Statement.ofHead (m.extended (chainText ls' ++ r))).requests.filter Request.builds := by
  have htail : ∀ ms, Statement.ofHead (m.extended (chainText ms ++ r))
      = ⟨m.value, Quotes.outside.upTo ((y ++ [')']) ++ (chainText ms ++ r))⟩ := by
    intro ms
    rw [← hm]
    rfl
  rw [htail, htail]
  rcases Quotes.outside.upTo_append (y ++ [')']) with hx | hx
  · rw [hx, hx]
  · have hq : (Quotes.outside.over (y ++ [')'])).Proper :=
      Quotes.Proper.over (s := .outside) trivial _
    rw [hx, hx, Quotes.upTo_append_of_notMem
      _ (notMem_chainText h.wellFormed (by decide) (by decide)),
      Quotes.upTo_append_of_notMem _ (notMem_chainText h.wellFormed' (by decide) (by decide)),
      h.over_eq hq]
    simp only [List.append_assoc, List.singleton_append]
    exact filter_requests_rearranged h m.value y _

/-- What the statements of a body ask for, but for what they take away or rename, does not
depend on the order of a chain in it. -/
theorem filter_requests_statements {ls ls' : List Link} (h : Rearranged ls ls') {builder : String}
    (hb : ')' ∉ builder.toList) (y r : List Char) :
    ((statements (y ++ ')' :: (chainText ls ++ r)) builder).flatMap Statement.requests).filter
    Request.builds
      = ((statements (y ++ ')' :: (chainText ls' ++ r)) builder).flatMap
        Statement.requests).filter
          Request.builds := by
  have hfirm := (fenced_statementHead hb).firm y
  -- no statement begins in the chain
  have hcut : ∀ ms, (∀ l ∈ ms, l.WellFormed) →
      statements (y ++ ')' :: (chainText ms ++ r)) builder
      = (findAll (statementHead builder) (y ++ [')'])).map
          (fun m => Statement.ofHead (m.extended (chainText ms ++ r)))
        ++ (findAllFrom (statementHead builder) ((y ++ [')']).length + (chainText ms).length) 0
          r).map
          Statement.ofHead := by
    intro ms hms
    have hquiet : Quiet (statementHead builder) (chainText ms) :=
      quiet_of_notMem (leads_statementHead builder) (fun _ hl => hl.1)
        (notMem_chainText hms (by decide) (by decide))
    have hbody : y ++ ')' :: (chainText ms ++ r) = (y ++ [')']) ++ (chainText ms ++ r) := by simp
    rw [statements, hbody, findAll, findAllFrom_of_firm hfirm 0 0 (Nat.zero_le _), Nat.zero_add,
      findAllFrom_of_quiet hquiet, List.map_append, List.map_map]
    rfl
  rw [hcut ls h.wellFormed, hcut ls' h.wellFormed', h.length_chainText]
  simp only [List.flatMap_append, List.filter_append, List.flatMap_map, List.filter_flatMap]
  refine congrArg (· ++ _) (List.flatMap_congr fun m hm => ?_)
  obtain ⟨z, hz⟩ := (fenced_statementHead hb).exists_rest_of_mem hm
  exact filter_requests_ofHead h hz r

/-! ### Columns and foreign keys -/

namespace Draft

/-- What does not build up a draft can be left out before one of the building parts is
gathered. -/
theorem filterMap_filter_builds {β : Type} {f : Request → Option β}
    (hf : ∀ r, r.builds = false → f r = none)
    (requests : List Request) :
    (requests.filter Request.builds).filterMap f = requests.filterMap f := by
  rw [List.filterMap_filter]
  refine List.filterMap_congr fun r _ => ?_
  cases hr : r.builds with
  | false => exact (hf r hr).symm
  | true => rfl

/-- The columns and the foreign keys of a draft come from the requests that build, so
statements that agree on these come to the same. -/
theorem final_eq_of_filter {ss ss' : List Statement}
    (h : (ss.flatMap Statement.requests).filter Request.builds
      = (ss'.flatMap Statement.requests).filter Request.builds) :
    (ofStatements ss).finalColumns = (ofStatements ss').finalColumns
      ∧ (ofStatements ss).finalForeignKeys = (ofStatements ss').finalForeignKeys := by
  have hpart : ∀ {β : Type} {f : Request → Option β}, (∀ r, r.builds = false → f r = none) →
      (ss.flatMap Statement.requests).filterMap f
        = (ss'.flatMap Statement.requests).filterMap f := by
    intro β f hf
    rw [← filterMap_filter_builds hf, h, filterMap_filter_builds hf]
  have hidentifier := hpart fun r hr => (Request.parts_of_not_builds hr).1
  have hcolumns := hpart fun r hr => (Request.parts_of_not_builds hr).2.1
  have hkeys := hpart fun r hr => (Request.parts_of_not_builds hr).2.2.1
  have hconstraints := hpart fun r hr => (Request.parts_of_not_builds hr).2.2.2
  rw [ofStatements, ofStatements, foldl_add_eq, foldl_add_eq]
  constructor
  · simp only [finalColumns, orderedColumns, hconstraints, hidentifier, hcolumns]
  · simp only [finalForeignKeys, hconstraints, hkeys]

end Draft

end SchemaAtlas.Migration
