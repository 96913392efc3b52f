import SchemaAtlas.Text.Lines

/-!
# `SchemaAtlas.Proofs.Text.Lines`: cutting what was joined

The pieces of a text have no separator in them (`notMem_of_mem_cutChars`), and pieces
that have none are the pieces of what they are joined to (`cutChars_intercalate`), or written
as, one line after another (`cutChars_unlines`).
Text without carriage returns has no foreign line ends, whatever stands behind it
(`unifyLineEnds_append_of_notMem`) or in front of it (`exists_unifyLineEnds_append`).
-/

set_option autoImplicit false

namespace SchemaAtlas.Text

variable {sep : Char}

/-! ### Pieces -/

/-- A separator ends an empty piece when it comes first. -/
theorem cutChars_cons_sep (cs : List Char) :
    cutChars sep (sep :: cs) = [] :: cutChars sep cs := by
  rw [cutChars, if_pos rfl]

/-- A piece in front goes on up to the first separator, and the other pieces are those of
the text behind it. -/
theorem cutChars_append {piece : List Char} (h : sep ∉ piece) (cs first : List Char)
    (rest : List (List Char))
    (hcs : cutChars sep cs = first :: rest) :
    cutChars sep (piece ++ cs) = (piece ++ first) :: rest := by
  induction piece with
  | nil => exact hcs
  | cons c piece ih =>
      rw [List.mem_cons, not_or] at h
      rw [List.cons_append, cutChars, if_neg (Ne.symm h.1), ih h.2]
      rfl

/-- A text without the separator is one piece, even if it is empty. -/
theorem cutChars_of_notMem {cs : List Char} (h : sep ∉ cs) : cutChars sep cs = [cs] := by
  have hcut := cutChars_append h [] [] [] rfl
  rwa [List.append_nil] at hcut

/-- No piece has the separator in it, since the text is cut at every one. -/
theorem notMem_of_mem_cutChars {cs piece : List Char} (h : piece ∈ cutChars sep cs) :
    sep ∉ piece := by
  induction cs generalizing piece with
  | nil =>
      rw [List.mem_singleton.mp h]
      exact List.not_mem_nil
  | cons c cs ih =>
      by_cases hc : c = sep
      · rw [hc, cutChars_cons_sep] at h
        rcases List.mem_cons.mp h with rfl | h
        · exact List.not_mem_nil
        · exact ih h
      · obtain ⟨first, rest, hcut⟩ := List.exists_cons_of_ne_nil (cutChars_ne_nil sep cs)
        have hfirst : sep ∉ [c] := by simpa using Ne.symm hc
        rw [← List.singleton_append, cutChars_append hfirst cs first rest hcut] at h
        rcases List.mem_cons.mp h with rfl | h
        · rw [List.singleton_append, List.mem_cons, not_or]
          exact ⟨Ne.symm hc, ih (hcut ▸ List.mem_cons_self)⟩
        · exact ih (hcut ▸ List.mem_cons_of_mem first h)

/-- Pieces without the separator are what they are joined to, cut again, if there are
any. -/
theorem cutChars_intercalate {pieces : List (List Char)} (hne : pieces ≠ [])
    (h : ∀ piece ∈ pieces, sep ∉ piece) :
    cutChars sep ([sep].intercalate pieces) = pieces := by
  induction pieces with
  | nil => exact absurd rfl hne
  | cons piece pieces ih =>
      have hpiece := h piece List.mem_cons_self
      cases pieces with
      | nil =>
          rw [List.intercalate_singleton]
          exact cutChars_of_notMem hpiece
      | cons next rest =>
          have hrest := ih (List.cons_ne_nil next rest) fun p hp =>
            h p (List.mem_cons_of_mem piece hp)
          rw [List.intercalate_cons_cons, List.append_assoc, List.singleton_append,
            cutChars_append hpiece _ [] (next :: rest) (by rw [cutChars_cons_sep, hrest]),
            List.append_nil]

/-! ### Lines one after another -/

/-- Pieces with a separator behind each. -/
def unlines (sep : Char) (pieces : List (List Char)) : List Char :=
  pieces.flatMap fun piece => piece ++ [sep]

/-- Without pieces there is no text. -/
theorem unlines_nil : unlines sep [] = [] :=
  rfl

/-- Two lists of pieces give the text of the one and then the text of the other. -/
theorem unlines_append (pieces pieces' : List (List Char)) :
    unlines sep (pieces ++ pieces') = unlines sep pieces ++ unlines sep pieces' :=
  List.flatMap_append

/-- The first piece comes with its separator, in front of the text of the others. -/
theorem unlines_cons (piece : List Char) (pieces : List (List Char)) :
    unlines sep (piece :: pieces) = piece ++ [sep] ++ unlines sep pieces :=
  List.flatMap_cons

/-- What is behind the last separator is the last piece, also when it is empty. -/
theorem cutChars_unlines_append {pieces : List (List Char)} (h : ∀ piece ∈ pieces, sep ∉ piece)
    {last : List Char}
    (hlast : sep ∉ last) : cutChars sep (unlines sep pieces ++ last) = pieces ++ [last] := by
  induction pieces with
  | nil => exact cutChars_of_notMem hlast
  | cons piece pieces ih =>
      have hrest := ih fun p hp => h p (List.mem_cons_of_mem piece hp)
      rw [unlines_cons, List.append_assoc, List.append_assoc, List.singleton_append,
        cutChars_append (h piece List.mem_cons_self) _ [] (pieces ++ [last])
        (by rw [cutChars_cons_sep, hrest]), List.append_nil, List.cons_append]

/-- When each piece is ended by a separator, the last one has an empty piece behind it. -/
theorem cutChars_unlines {pieces : List (List Char)} (h : ∀ piece ∈ pieces, sep ∉ piece) :
    cutChars sep (unlines sep pieces) = pieces ++ [[]] := by
  have hcut := cutChars_unlines_append h List.not_mem_nil
  rwa [List.append_nil] at hcut

/-- The pieces of a text, each with a separator, are the text with one more separator. -/
theorem unlines_cutChars (cs : List Char) : unlines sep (cutChars sep cs) = cs ++ [sep] := by
  induction cs with
  | nil => rfl
  | cons c cs ih =>
      by_cases hc : c = sep
      · rw [hc, cutChars_cons_sep, unlines_cons, ih]
        rfl
      · obtain ⟨first, rest, hcut⟩ := List.exists_cons_of_ne_nil (cutChars_ne_nil sep cs)
        have hfirst : sep ∉ [c] := by simpa using Ne.symm hc
        have hrest : first ++ [sep] ++ unlines sep rest = cs ++ [sep] := by
          rw [← unlines_cons, ← hcut, ih]
        rw [← List.singleton_append, cutChars_append hfirst cs first rest hcut, unlines_cons,
          List.append_assoc, List.append_assoc, ← List.append_assoc first, hrest,
          List.append_assoc]

/-! ### Texts -/

/-- The pieces of a text are made of its characters, so what is so of all of these is so of
each piece. -/
theorem mem_of_mem_cutChars {c : Char} {cs piece : List Char} (h : piece ∈ cutChars sep cs)
    (hc : c ∈ piece) :
    c ∈ cs := by
  have hmem : c ∈ unlines sep (cutChars sep cs) :=
    List.mem_flatMap.mpr ⟨piece, h, List.mem_append_left _ hc⟩
  rw [unlines_cutChars] at hmem
  rcases List.mem_append.mp hmem with hmem | hmem
  · exact hmem
  · rw [List.mem_singleton.mp hmem] at hc
    exact absurd hc (notMem_of_mem_cutChars h)

/-- A text without the separator is its own last piece. -/
theorem lastPiece_of_notMem {s : String} (h : sep ∉ s.toList) : lastPiece sep s = s := by
  simp [lastPiece, cut, cutChars_of_notMem h]

/-- No piece of a text has the separator in it. It is the statement about lists of
characters, for strings. -/
theorem notMem_of_mem_cut {s piece : String} (h : piece ∈ cut sep s) : sep ∉ piece.toList := by
  obtain ⟨cs, hcs, rfl⟩ := List.mem_map.mp h
  rw [String.toList_ofList]
  exact notMem_of_mem_cutChars hcs

/-! ### Line ends -/

/-- Up to where no carriage return is, the text stays as it is, and what follows is changed
by itself. -/
theorem unifyLineEnds_append_of_notMem {cs : List Char} (h : '\r' ∉ cs) (r : List Char) :
    unifyLineEnds (cs ++ r) = cs ++ unifyLineEnds r := by
  induction cs with
  | nil => rfl
  | cons c cs ih =>
      rw [List.mem_cons, not_or] at h
      rw [List.cons_append, unifyLineEnds.eq_3, if_neg (Ne.symm h.1), ih h.2]
      · rfl
      · intro _ hc _
        exact h.1 hc.symm

/-- Without carriage returns all line ends are line feeds, and the text stays as it is. -/
theorem unifyLineEnds_of_notMem {cs : List Char} (h : '\r' ∉ cs) : unifyLineEnds cs = cs := by
  have hall := unifyLineEnds_append_of_notMem h []
  rw [List.append_nil] at hall
  exact hall.trans (List.append_nil cs)

/-- What is behind any other text stays as well, if no carriage return is in it. -/
theorem exists_unifyLineEnds_append {cs : List Char} (h : '\r' ∉ cs) (x : List Char) :
    ∃ front, unifyLineEnds (x ++ cs) = front ++ cs := by
  fun_induction unifyLineEnds x with
  | case1 => exact ⟨[], unifyLineEnds_of_notMem h⟩
  | case2 r ih =>
      obtain ⟨front, hfront⟩ := ih
      exact ⟨'\n' :: front, by
        rw [List.cons_append, List.cons_append, unifyLineEnds, hfront]; rfl⟩
  | case3 c r hnot ih =>
      obtain ⟨front, hfront⟩ := ih
      by_cases hjoined : c = '\r' ∧ ∃ r', r ++ cs = '\n' :: r'
      · -- the line feed behind the carriage return is the first of the text
        obtain ⟨rfl, r', hr⟩ := hjoined
        cases r with
        | nil =>
            rw [List.nil_append] at hr
            subst hr
            have hrest := unifyLineEnds_of_notMem h
            rw [unifyLineEnds.eq_3 _ _ fun _ hc _ => absurd hc (by decide)] at hrest
            exact ⟨[], by rw [List.singleton_append, unifyLineEnds]; exact hrest⟩
        | cons d r =>
            obtain rfl := (List.cons.inj hr).1
            exact absurd rfl (hnot r rfl)
      · refine ⟨(if c = '\r' then '\n' else c) :: front, ?_⟩
        rw [List.cons_append, unifyLineEnds.eq_3, hfront]
        · rfl
        · exact fun r' hc hr => hjoined ⟨hc, r', hr⟩

/-- No carriage return is left, neither alone nor in front of a line feed. -/
theorem notMem_unifyLineEnds (cs : List Char) : '\r' ∉ unifyLineEnds cs := by
  fun_induction unifyLineEnds cs with
  | case1 => exact List.not_mem_nil
  | case2 r ih => simpa using ih
  | case3 c r hnot ih =>
      rw [List.mem_cons, not_or]
      refine ⟨?_, ih⟩
      split
      · decide
      · exact Ne.symm ‹_›

/-- A string without carriage returns stays as it is when its line ends are unified. -/
theorem withLineFeeds_of_notMem {s : String} (h : '\r' ∉ s.toList) : withLineFeeds s = s := by
  rw [withLineFeeds, unifyLineEnds_of_notMem h, String.ofList_toList]

end SchemaAtlas.Text
