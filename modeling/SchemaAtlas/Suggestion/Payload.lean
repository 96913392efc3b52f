import SchemaAtlas.Failure
import SchemaAtlas.Json.Reader

/-!
# `SchemaAtlas.Suggestion.Payload`: the object in a reply

A reply should be one object, but it may come between fences of three backticks or amid prose.
Tried are, in this order: what stands between fences marked `json`, what stands between any
fences, the whole reply, and the first object that starts at an opening brace anywhere in it.
-/

set_option autoImplicit false

namespace SchemaAtlas.Suggestion

open SchemaAtlas.Text SchemaAtlas.Scan

/-- The members of an object. -/
abbrev Payload := List (String × Json)

/-- Three backticks. -/
def fence : List Char := ['\x60', '\x60', '\x60']

/-- What stands before the first fence, if there is one. -/
def beforeFence : List Char → Option (List Char)
  | [] => none
  | c :: r => if fence.isPrefixOf (c :: r) then some [] else (beforeFence r).map (c :: ·)

/-- Past the mark `json`, in capital or small letters; the long s counts as an s. -/
def skipMark (cs : List Char) : Option (List Char) :=
  match cs with
  | j :: s :: o :: n :: r =>
    if (j == 'j' || j == 'J') && (s == 's' || s == 'S' || s == 'ſ') && (o == 'o' || o == 'O')
        && (n == 'n' || n == 'N') then some r
    else none
  | _ => none

/-- What stands between a fence, which may need to be marked, and the next. -/
def fenced (marked : Bool) : Recognizer (List Char) := fun cs => do
  let cs ← afterLead? fence cs
  let cs ← if marked then skipMark cs else some cs
  let cs := skipBlanks cs
  return (← beforeFence cs, cs)

/-- The text without blanks at either end. -/
def trimmed (cs : List Char) : List Char :=
  dropEndWhile isBlank (skipBlanks cs)

/-- The failure that a fault in data is, unless the data can be passed over. -/
def failureOf? : Json.Fault → Option Failure
  | .malformed => none
  | .tooManyDigits count => some (.tooManyDigits count)
  | .tooDeep => some .tooDeep

/-- The object that a text holds, with nothing around it; a text that holds none is passed over,
but not one with too long a number or too deep an array. -/
def objectIn (cs : List Char) : Except Failure (Option Payload) :=
  match Json.read cs with
  | .ok (.object members) => .ok (some members)
  | .ok _ => .ok none
  | .error fault => (failureOf? fault).elim (.ok none) .error

/-- The first object that starts at an opening brace. -/
def embedded : List Char → Except Failure (Option Payload)
  | [] => .ok none
  | c :: r =>
    if c = '{' then
      match Json.readValue (c :: r) with
      | .ok (.object members, _) => .ok (some members)
      | .ok _ => embedded r
      | .error fault => (failureOf? fault).elim (embedded r) .error
    else embedded r

/-- The object between the first fences, if it is one. -/
def inFences (marked : Bool) (cs : List Char) : Except Failure (Option Payload) :=
  match find? (fenced marked) cs with
  | some m => objectIn (trimmed m.value)
  | none => .ok none

/-- The first answer of several attempts. -/
def firstOf : List (Unit → Except Failure (Option Payload)) → Except Failure (Option Payload)
  | [] => .ok none
  | attempt :: rest =>
    match attempt () with
    | .ok none => firstOf rest
    | found => found

/-- The object in a reply, if there is one. -/
def payload (reply : String) : Except Failure (Option Payload) :=
  let cs := reply.toList
  firstOf
    [fun _ => inFences true cs, fun _ => inFences false cs, fun _ => objectIn (trimmed cs),
      fun _ => embedded cs]

end SchemaAtlas.Suggestion
