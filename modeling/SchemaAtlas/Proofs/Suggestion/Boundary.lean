import Mathlib.Control.Monad.Basic
import SchemaAtlas.Proofs.List
import SchemaAtlas.Suggestion.Client

/-!
# `SchemaAtlas.Proofs.Suggestion.Boundary`: how asking the service can end

Asking should give a suggestion from a success of the service, or a failure that the
service is answerable for (`Kept`). `kept_suggest_iff` says when it does, for every key,
wish, schema and service. There are three ways to break it:

- the key holds characters that cannot be sent;
- the reply puts a value of the wrong kind in the place of a text or a list of columns
  (`Mistyped`), and no fault of the service is made of that;
- the service neither succeeds nor refuses. Its answer is read as if it had succeeded,
  since only refusals are told apart.

Below each function that reads a part of the reply stands how it can fail.
-/

set_option autoImplicit false

namespace SchemaAtlas

/-- Holds of the failures that asking the service should end with: faults of the service,
and the limits of the reader of data. -/
def Failure.IsServiceFault : Failure → Prop
  | .suggestion _ | .tooDeep | .tooManyDigits _ => True
  | _ => False

namespace Suggestion

/-! ### Values of the wrong kind -/

/-- Holds of values that count as true and have no parts to go through. -/
inductive Partless : Json → Prop
  | bool : Partless (.bool true)
  | int (n : Int) (h : n ≠ 0) : Partless (.int n)
  | float (x : Binary64) (h : x.isZero = false) : Partless (.float x)

/-- Holds of objects that list a table with a name and columns that cannot be gone through. -/
def MistypedTables (members : Payload) : Prop :=
  ∃ items, member members "tables" = .array items
    ∧ ∃ table name, .object table ∈ items ∧ nameOf? table = some name
    ∧ Partless (member table "columns")

/-- Holds of contents with a value of the wrong kind: the content itself is no text, and not
passed over as an empty one, or the object in it lists such tables. -/
def MistypedContent (content : Json) : Prop :=
  (content.isTrue = true ∧ ∀ s, content ≠ .string s)
    ∨ ∃ text members, textOf content = .ok text ∧ payload text = .ok (some members)
      ∧ MistypedTables members

/-- Holds of the bodies of answers with such a content. -/
def Mistyped (body : String) : Prop :=
  ∃ data content, bodyData body = .ok (some data) ∧ contentOf? data = some content
    ∧ MistypedContent content

/-! ### How reading fails -/

/-- A value that is no use is refused if it counts as true, and otherwise it passes for
nothing at all. -/
theorem refused_iff {α : Type} (v : Json) (a : α) (failure : Failure) :
    (if v.isTrue then Except.error Failure.wrongKind else .ok a) = .error failure
      ↔ failure = .wrongKind ∧ v.isTrue = true := by
  cases v.isTrue <;> simp [eq_comm]

/-- Reading the items of a value fails if and only if the value is true but has no parts,
and then for its kind. -/
theorem itemsOf_eq_error_iff (v : Json) (failure : Failure) :
    itemsOf v = .error failure ↔ failure = .wrongKind ∧ Partless v := by
  -- lists, texts and objects can be gone through; of the others, those that are true cannot
  cases v with
  | null => exact (refused_iff .null [] failure).trans ⟨nofun, nofun⟩
  | bool b =>
      refine (refused_iff (.bool b) [] failure).trans (and_congr_right fun _ => ⟨?_, ?_⟩)
      · rintro rfl
        exact .bool
      · rintro ⟨⟩
        rfl
  | int n =>
      refine (refused_iff (.int n) [] failure).trans (and_congr_right fun _ => ⟨fun h => ?_, ?_⟩)
      · exact .int n (bne_iff_ne.mp h)
      · rintro ⟨⟩
        exact bne_iff_ne.mpr ‹_›
  | float x =>
      refine (refused_iff (.float x) [] failure).trans
        (and_congr_right fun _ => ⟨fun h => ?_, ?_⟩)
      · exact .float x (by simpa [Json.isTrue] using h)
      · rintro ⟨⟩
        simpa [Json.isTrue]
  | string s => exact ⟨nofun, nofun⟩
  | array items => exact ⟨nofun, nofun⟩
  | object members => exact ⟨nofun, nofun⟩

/-- Reading a table fails if and only if it is an object with a name whose columns have no
parts to go through. -/
theorem tableOf?_eq_error_iff (item : Json) (failure : Failure) :
    tableOf? item = .error failure ↔ failure = .wrongKind
      ∧ ∃ table name, item = .object table ∧ nameOf? table = some name
        ∧ Partless (member table "columns") := by
  cases item with
  | object table =>
      rw [tableOf?]
      cases hname : nameOf? table with
      | none => simp [hname]
      | some name =>
          have hitems := itemsOf_eq_error_iff (member table "columns") failure
          cases h : itemsOf (member table "columns") <;> simp_all [Except.map]
  | _ => simp [tableOf?]

/-- Reading a payload fails if it has no list of tables, or if one of these is mistyped.
There is no other failure. -/
theorem ofPayload_eq_error_iff (members : Payload) (failure : Failure) :
    ofPayload members = .error failure ↔
      (failure = .suggestion .noTables ∧ ∀ items, member members "tables" ≠ .array items)
        ∨ failure = .wrongKind ∧ MistypedTables members := by
  rw [ofPayload, MistypedTables]
  cases member members "tables" with
  | array items =>
      -- every table fails alike, so it does not matter which one is met first
      have halike : ∀ item item' e e', tableOf? item = .error e → tableOf? item' = .error e' →
          e = e' := by
        intro item item' e e' he he'
        rw [((tableOf?_eq_error_iff item e).mp he).1, ((tableOf?_eq_error_iff item' e').mp he').1]
      have htables : (∃ item ∈ items, tableOf? item = .error failure) ↔ failure = .wrongKind
          ∧ ∃ table name, .object table ∈ items ∧ nameOf? table = some name
            ∧ Partless (member table "columns") := by
        simp only [tableOf?_eq_error_iff]
        constructor
        · rintro ⟨_, hmem, rfl, table, name, rfl, htable⟩
          exact ⟨rfl, table, name, hmem, htable⟩
        · rintro ⟨rfl, table, name, hmem, htable⟩
          exact ⟨_, hmem, rfl, table, name, rfl, htable⟩
      rw [← mapM_eq_error_iff halike] at htables
      simp only [Json.array.injEq, exists_eq_left', ← htables]
      cases items.mapM tableOf? <;> simp [bind, Except.bind, pure, Except.pure]
  | _ => simp [eq_comm]

/-! ### Limits of the reader -/

/-- A fault in reading a text that is passed on as a failure is one that the service is
answerable for. -/
theorem isServiceFault_of_failureOf? {fault : Json.Fault} {failure : Failure}
    (h : failureOf? fault = some failure) : failure.IsServiceFault := by
  cases fault with
  | malformed => cases h
  | tooManyDigits count =>
      cases h
      trivial
  | tooDeep =>
      cases h
      trivial

/-- Reading the body of an answer fails for nothing but what the service is answerable
for. -/
theorem isServiceFault_of_bodyData {body : String} {failure : Failure}
    (h : bodyData body = .error failure) :
    failure.IsServiceFault := by
  rw [bodyData] at h
  split at h
  · cases h
  · cases h
    trivial
  · cases h

/-- So does reading the reason out of a refusal, where any kind of value may stand. -/
theorem isServiceFault_of_refusalReason {body : String} {failure : Failure}
    (h : refusalReason body = .error failure) : failure.IsServiceFault := by
  rw [refusalReason] at h
  rcases exists_of_bind_eq_error h with hdata | ⟨data?, -, hreason⟩
  · exact isServiceFault_of_bodyData hdata
  · split at hreason
    · cases hreason
    · cases hreason

/-- So does reading an object from a text that may hold one. -/
theorem isServiceFault_of_objectIn {cs : List Char} {failure : Failure}
    (h : objectIn cs = .error failure) :
    failure.IsServiceFault := by
  rw [objectIn] at h
  split at h
  · cases h
  · cases h
  · rename_i fault _
    cases hfault : failureOf? fault with
    | none =>
        rw [hfault] at h
        cases h
    | some e =>
        rw [hfault] at h
        cases h
        exact isServiceFault_of_failureOf? hfault

/-- So does looking for an object amid prose, at each brace of a text in turn. -/
theorem isServiceFault_of_embedded {cs : List Char} {failure : Failure}
    (h : embedded cs = .error failure) :
    failure.IsServiceFault := by
  induction cs with
  | nil => cases h
  | cons c r ih =>
      rw [embedded] at h
      split at h
      · -- a value may begin here
        split at h
        · cases h
        · exact ih h
        · rename_i fault _
          cases hfault : failureOf? fault with
          | none =>
              rw [hfault] at h
              exact ih h
          | some e =>
              rw [hfault] at h
              cases h
              exact isServiceFault_of_failureOf? hfault
      · exact ih h

/-- So does looking for an object between fences, with a mark or without one. -/
theorem isServiceFault_of_inFences {marked : Bool} {cs : List Char} {failure : Failure}
    (h : inFences marked cs = .error failure) : failure.IsServiceFault := by
  rw [inFences] at h
  split at h
  · exact isServiceFault_of_objectIn h
  · cases h

/-- A row of attempts fails only as one of them does, so what is so of each failure is so of
this one. -/
theorem exists_of_firstOf {attempts : List (Unit → Except Failure (Option Payload))}
    {failure : Failure}
    (h : firstOf attempts = .error failure) :
    ∃ attempt ∈ attempts, attempt () = .error failure := by
  induction attempts with
  | nil => cases h
  | cons attempt rest ih =>
      rw [firstOf] at h
      split at h
      · obtain ⟨later, hmem, hlater⟩ := ih h
        exact ⟨later, List.mem_cons_of_mem attempt hmem, hlater⟩
      · exact ⟨attempt, List.mem_cons_self, h⟩

/-- Looking for the payload of a reply therefore fails for nothing but what the service is
answerable for. -/
theorem isServiceFault_of_payload {reply : String} {failure : Failure}
    (h : payload reply = .error failure) :
    failure.IsServiceFault := by
  obtain ⟨attempt, hmem, hattempt⟩ := exists_of_firstOf h
  simp only [List.mem_cons, List.not_mem_nil, or_false] at hmem
  rcases hmem with rfl | rfl | rfl | rfl
  · exact isServiceFault_of_inFences hattempt
  · exact isServiceFault_of_inFences hattempt
  · exact isServiceFault_of_objectIn hattempt
  · exact isServiceFault_of_embedded hattempt

/-! ### Replies -/

/-- A content is used as a text unless it counts as true and is none. Then it is of the
wrong kind. -/
theorem textOf_eq_error_iff (content : Json) (failure : Failure) :
    textOf content = .error failure ↔
    failure = .wrongKind ∧ content.isTrue = true ∧ ∀ s, content ≠ .string s := by
  cases content with
  | string s => simp [textOf]
  | _ =>
      rw [textOf, refused_iff]
      · simp
      · exact nofun

/-- An answer that is no refusal is read like one of success, whatever its status says. -/
theorem ofReply_of_lt {status : Nat} (h : status < 400) (body : String) :
    ofReply (.answered status body) = ofReply (.answered 200 body) := by
  rw [ofReply, ofReply, if_neg (Nat.not_le.mpr h), if_neg (by decide)]

/-- Only an answer that is no refusal holds a suggestion, so a suggestion comes from a
status below 400. -/
theorem lt_of_ofReply_eq_ok {status : Nat} {body : String} {s : Suggestion}
    (h : ofReply (.answered status body) = .ok s) : status < 400 := by
  refine Nat.lt_of_not_le fun hge => ?_
  rw [ofReply, if_pos hge] at h
  cases hreason : refusalReason body with
  | error failure =>
      rw [hreason] at h
      cases h
  | ok reason =>
      rw [hreason] at h
      cases h

/-- The suggestion in the content of an answer. -/
def ofContent (content : Json) : Except Failure Suggestion := do
  match ← payload (← textOf content) with
  | none => .error (.suggestion .noObject)
  | some members => ofPayload members

/-- A content with a value of the wrong kind cannot be read, and the failure is that of a
wrong kind. -/
theorem ofContent_of_mistyped {content : Json} (h : MistypedContent content) :
    ofContent content = .error .wrongKind := by
  rw [ofContent]
  rcases h with h | ⟨text, members, htext, hpayload, htables⟩
  · rw [(textOf_eq_error_iff content .wrongKind).mpr ⟨rfl, h⟩]
    rfl
  · have hmembers := (ofPayload_eq_error_iff members .wrongKind).mpr (.inr ⟨rfl, htables⟩)
    simp only [bind, Except.bind, htext, hpayload, hmembers]

/-- Reading a content without one ends in nothing but what the service is answerable for, or
in a suggestion. -/
theorem isServiceFault_or_mistypedContent {content : Json} {failure : Failure}
    (h : ofContent content = .error failure) :
    failure.IsServiceFault ∨ failure = .wrongKind ∧ MistypedContent content := by
  rw [ofContent] at h
  rcases exists_of_bind_eq_error h with htext | ⟨text, htext, h⟩
  · obtain ⟨rfl, hwrong⟩ := (textOf_eq_error_iff content failure).mp htext
    exact .inr ⟨rfl, .inl hwrong⟩
  rcases exists_of_bind_eq_error h with hpayload | ⟨members?, hpayload, h⟩
  · exact .inl (isServiceFault_of_payload hpayload)
  cases members? with
  | none =>
      cases h
      exact .inl trivial
  | some members =>
      rcases (ofPayload_eq_error_iff members failure).mp h with ⟨rfl, -⟩ | ⟨rfl, htables⟩
      · exact .inl trivial
      · exact .inr ⟨rfl, .inr ⟨text, members, htext, hpayload, htables⟩⟩

/-- What is made of an answer that is no refusal is what is made of its content, if it has one. -/
theorem ofReply_answered {status : Nat} (h : status < 400) (body : String) :
    ofReply (.answered status body) = (do
      match (← bodyData body).bind contentOf? with
      | none => .error (.suggestion .badShape)
      | some content => ofContent content) := by
  rw [ofReply, if_neg (Nat.not_le.mpr h)]
  rfl

/-- A value of the wrong kind ends the reading of an answer that is no refusal. -/
theorem ofReply_of_mistyped {status : Nat} {body : String} (h : status < 400)
    (hbody : Mistyped body) :
    ofReply (.answered status body) = .error .wrongKind := by
  obtain ⟨data, content, hdata, hcontent, hwrong⟩ := hbody
  rw [ofReply_answered h, hdata]
  simp only [bind, Except.bind, Option.bind_some, hcontent]
  exact ofContent_of_mistyped hwrong

/-- Nothing else ends the reading of an answer, but for what the service is answerable
for. -/
theorem isServiceFault_or_mistyped {status : Nat} {body : String} {failure : Failure}
    (h : ofReply (.answered status body) = .error failure) :
    failure.IsServiceFault ∨ failure = .wrongKind ∧ status < 400 ∧ Mistyped body := by
  by_cases hlt : status < 400
  · rw [ofReply_answered hlt] at h
    rcases exists_of_bind_eq_error h with hdata | ⟨data?, hdata, h⟩
    · exact .inl (isServiceFault_of_bodyData hdata)
    cases hcontent : data?.bind contentOf? with
    | none =>
        rw [hcontent] at h
        cases h
        exact .inl trivial
    | some content =>
        rw [hcontent] at h
        obtain ⟨data, rfl, hcontent⟩ := Option.bind_eq_some_iff.mp hcontent
        refine (isServiceFault_or_mistypedContent h).imp_right fun ⟨hkind, hwrong⟩ => ?_
        exact ⟨hkind, hlt, data, content, hdata, hcontent, hwrong⟩
  · rw [ofReply, if_pos (Nat.not_lt.mp hlt)] at h
    rcases exists_of_bind_eq_error h with hreason | ⟨reason, -, h⟩
    · exact .inl (isServiceFault_of_refusalReason hreason)
    · cases h
      exact .inl trivial

/-! ### Asking the service -/

/-- Holds of how asking should end: with a suggestion from a success, or with a failure that
the service is answerable for. -/
def Kept (reply : Reply) : Except Failure Suggestion → Prop
  | .ok _ => ∃ status body, reply = .answered status body ∧ 200 ≤ status ∧ status < 300
  | .error failure => failure.IsServiceFault

/-- Holds of answers that are neither success nor refusal, with a body that a success could
have. -/
def Misread (status : Nat) (body : String) : Prop :=
  ¬(200 ≤ status ∧ status < 300) ∧ status < 400 ∧ ∃ s, ofReply (.answered 200 body) = .ok s

/-- A reply is read as it should be unless it is an answer below 400 that is mistyped or
misread. Every other reply is. -/
theorem kept_ofReply_iff (reply : Reply) : Kept reply (ofReply reply) ↔
    ∀ status body, reply = .answered status body → status < 400 →
      ¬Mistyped body ∧ ¬Misread status body := by
  cases reply with
  | failed reason => exact ⟨fun _ => nofun, fun _ => trivial⟩
  | answered status body =>
      cases hread : ofReply (.answered status body) with
      | ok s =>
          have hlt := lt_of_ofReply_eq_ok hread
          -- a suggestion was read, so what is left to tell is whether the service succeeded
          constructor
          · rintro ⟨_, _, ⟨⟩, hsuccess⟩ _ _ ⟨⟩ -
            refine ⟨fun hbody => ?_, fun hmisread => hmisread.1 hsuccess⟩
            rw [ofReply_of_mistyped hlt hbody] at hread
            cases hread
          · intro hall
            refine ⟨status, body, rfl, Decidable.byContradiction fun hno => ?_⟩
            exact (hall status body rfl hlt).2 ⟨hno, hlt, s, by rw [← ofReply_of_lt hlt, hread]⟩
      | error failure =>
          rcases isServiceFault_or_mistyped hread with hfault | ⟨rfl, hlt, hbody⟩
          · -- a mistyped body would have failed in another way, and a misread one not at all
            refine ⟨?_, fun _ => hfault⟩
            rintro - _ _ ⟨⟩ hlt
            refine ⟨fun hbody => ?_, ?_⟩
            · rw [ofReply_of_mistyped hlt hbody] at hread
              cases hread
              exact hfault
            · rintro ⟨-, -, s, hs⟩
              rw [← ofReply_of_lt hlt, hread] at hs
              cases hs
          · exact ⟨fun h => h.elim, fun hall => absurd hbody (hall status body rfl hlt).1⟩

/-- Asking ends as it should unless the key cannot be sent, or the reply is mistyped or
misread. -/
theorem kept_suggest_iff (client : Client) (hkey : client.key ≠ "") (wish : String)
    (current? : Option Snapshot) (service : Json → Reply) :
    Kept (service (client.body wish current?))
      (client.suggest (service (client.body wish current?))) ↔
      (∀ c ∈ client.key.toList, c.toNat < 128)
        ∧ ∀ status body, service (client.body wish current?) = .answered status body →
          status < 400 →
          ¬Mistyped body ∧ ¬Misread status body := by
  rw [← kept_ofReply_iff, Client.suggest, Client.fault?, if_neg hkey]
  by_cases hascii : ∀ c ∈ client.key.toList, c.toNat < 128
  · have hsendable : (client.key.toList.any fun c => 128 ≤ c.toNat) = false := by
      rw [List.any_eq_false]
      intro c hc
      simpa using hascii c hc
    rw [hsendable]
    exact (and_iff_right hascii).symm
  · have hunsendable : (client.key.toList.any fun c => 128 ≤ c.toNat) = true := by
      simpa using hascii
    rw [hunsendable]
    exact ⟨fun h => h.elim, fun h => absurd h.1 hascii⟩

/-- An answer that suggests a table of posts, with a value for its columns. -/
def postsWith (columns : Json) : String :=
  let table : Json := .object [("name", .string "posts"), ("columns", columns)]
  let content : Json := .object [("tables", .array [table])]
  Json.compact (.object
    [("choices", .array [.object [("message", .object [("content", .string content.compact)])]])])

/-- In the example an answer suggests the posts with an empty list of columns. Nothing in it
is mistyped, and it is not misread. -/
theorem kept_suggest_iff_posts :
    let client : Client := { key := "test-key" }
    client.key ≠ "" ∧ ¬Mistyped (postsWith (.array []))
      ∧ ¬Misread 200 (postsWith (.array [])) := by
  intro client
  have hkey : client.key ≠ "" := by decide
  have hread : client.suggest (.answered 200 (postsWith (.array [])))
      = .ok { tables := [{ name := "posts" }] } := by decide +kernel
  have hkept : Kept (.answered 200 (postsWith (.array [])))
      (client.suggest (.answered 200 (postsWith (.array [])))) := by
    rw [hread]
    exact ⟨200, _, rfl, by decide⟩
  have hboundary := (kept_suggest_iff client hkey "a blog" none fun _ =>
    .answered 200 (postsWith (.array []))).mp hkept
  exact ⟨hkey, hboundary.2 200 _ rfl (by decide)⟩

/-- Columns that say `true` end in no fault of the service, and a redirection is read as a
success. -/
theorem not_kept_posts :
    let client : Client := { key := "test-key" }
    (client.suggest (.answered 200 (postsWith (.bool true))) = .error .wrongKind
      ∧ ¬Kept (.answered 200 (postsWith (.bool true)))
        (client.suggest (.answered 200 (postsWith (.bool true)))))
    ∧ client.suggest (.answered 302 (postsWith (.array [])))
      = .ok { tables := [{ name := "posts" }] }
      ∧ ¬Kept (.answered 302 (postsWith (.array [])))
        (client.suggest (.answered 302 (postsWith (.array [])))) := by
  intro client
  have hcolumns : client.suggest (.answered 200 (postsWith (.bool true)))
      = .error .wrongKind := by
    decide +kernel
  have hredirected : client.suggest (.answered 302 (postsWith (.array [])))
      = .ok { tables := [{ name := "posts" }] } := by decide +kernel
  refine ⟨⟨hcolumns, ?_⟩, hredirected, ?_⟩
  · rw [hcolumns]
    exact id
  · rw [hredirected]
    rintro ⟨status, body, ⟨⟩, hsuccess⟩
    exact absurd hsuccess (by decide)

end Suggestion

end SchemaAtlas
