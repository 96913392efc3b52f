import SchemaAtlas.Scan.Quotes

/-!
# `SchemaAtlas.Scan.Mask`: source text with its comments blanked out

Comments run from `//` to the end of the line and from `/*` to `*/`, unless they would begin
inside a quoted string. Masking puts a space for every character of a comment, line breaks
excepted, so that every offset into the masked text is an offset into the text itself.
-/

set_option autoImplicit false

namespace SchemaAtlas.Scan

/-- The part of the source that a reader is in. -/
inductive Region
  | code (quotes : Quotes)
  | lineComment
  | blockComment

/-- Masks the rest of a text whose beginning led into the given region. -/
def maskFrom : Region → List Char → List Char
  | _, [] => []
  | .code .outside, '/' :: '/' :: r => ' ' :: ' ' :: maskFrom .lineComment r
  | .code .outside, '/' :: '*' :: r => ' ' :: ' ' :: maskFrom .blockComment r
  | .code quotes, c :: r => c :: maskFrom (.code (quotes.step c)) r
  | .lineComment, c :: r =>
    if c = '\n' then '\n' :: maskFrom (.code .outside) r else ' ' :: maskFrom .lineComment r
  | .blockComment, '*' :: '/' :: r => ' ' :: ' ' :: maskFrom (.code .outside) r
  | .blockComment, c :: r => (if c = '\n' then '\n' else ' ') :: maskFrom .blockComment r

/-- Masking keeps every offset. -/
theorem length_maskFrom (region : Region) (cs : List Char) :
    (maskFrom region cs).length = cs.length := by
  fun_induction maskFrom region cs <;> simp_all

/-- The characters of a text with its comments blanked out. -/
def mask (cs : List Char) : List Char :=
  maskFrom (.code .outside) cs

/-- The text with its comments blanked out. -/
def maskComments (text : String) : String :=
  String.ofList (mask text.toList)

end SchemaAtlas.Scan
