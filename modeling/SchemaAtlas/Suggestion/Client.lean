import SchemaAtlas.Schema.Snapshot
import SchemaAtlas.Suggestion.Basic

/-!
# `SchemaAtlas.Suggestion.Client`: asking the suggestion service

The service is a chat: it is told what it has to answer and given the wish of the user, and it
replies with a text that should hold an object. Whatever goes wrong on the way is a fault of the
service; nothing is taken from a reply unless all of it could be read.
-/

set_option autoImplicit false

namespace SchemaAtlas.Suggestion

/-- How the service is reached. -/
structure Client where
  key : String := ""
  model : String := "llama-3.3-70b-versatile"
  url : String := "https://api.groq.com/openai/v1/chat/completions"
  deriving DecidableEq, Repr

/-- What came back: nothing but a reason, or a status with a body. -/
inductive Reply
  | failed (reason : String)
  | answered (status : Nat) (body : String)
  deriving DecidableEq, Repr

/-! ### The request -/

/-- What the service is told before anything else. -/
def instructions : String :=
  "\n".intercalate
    ["",
      "You are a Laravel Database Architect.",
      "Your goal is to generate a database schema based on the user's description.",
      "You MUST return ONLY a valid JSON object. Do not include any markdown formatting, explanations, or code blocks.",
      "The JSON must follow this exact structure:",
      "",
      "\x7b",
      "  \"tables\": [",
      "    \x7b",
      "      \"name\": \"table_name_plural\",",
      "      \"columns\": [",
      "        \x7b \"name\": \"column_name\", \"type\": \"laravel_column_type\", \"nullable\": boolean \x7d",
      "      ]",
      "    \x7d",
      "  ],",
      "  \"relations\": [",
      "    \x7b",
      "      \"fromModel\": \"ModelName\",",
      "      \"type\": \"hasMany|belongsTo|hasOne|belongsToMany\",",
      "      \"toModel\": \"RelatedModelName\",",
      "      \"methodName\": \"relationMethodName\"",
      "    \x7d",
      "  ]",
      "\x7d",
      "",
      "Rules:",
      "1. Always include 'id' (bigIncrements/id) for every table.",
      "2. Use standard Laravel column types (string, text, integer, boolean, foreignId, timestamp, date, etc.).",
      "3. Infer relationships based on the description.",
      "4. \"fromModel\" and \"toModel\" should be PascalCase (e.g., \"User\", \"Post\").",
      "5. \"name\" in tables should be snake_case plural (e.g., \"users\", \"blog_posts\").",
      ""]

/-- The tables of a schema with the names and types of their columns, as data. -/
def summary (s : Snapshot) : Json :=
  .object (s.tables.map fun t =>
    Json.strings (t.columns.map fun c => c.name ++ ":" ++ c.type.method)).entries

/-- The wish of the user, with the schema that it is about if there is one with tables. -/
def userMessage (wish : String) (current? : Option Snapshot) : String :=
  match current? with
  | some s =>
    if s.tables.entries.isEmpty then wish
    else wish ++ "\n\nCurrent schema (table: columns):\n" ++ (summary s).compact
  | none => wish

/-- How freely the service may answer: a tenth. -/
def temperature : Json := .float (.ofDecimal false 1 (-1))

/-- One message of the chat. -/
def message (role content : String) : Json :=
  .object [("role", .string role), ("content", .string content)]

/-- The body of the request. -/
def Client.body (client : Client) (wish : String) (current? : Option Snapshot) : Json := .object
  [("model", .string client.model),
    ("messages",
      .array [message "system" instructions, message "user" (userMessage wish current?)]),
    ("temperature", temperature), ("response_format", .object [("type", .string "json_object")])]

/-- How the client shows that it may ask. -/
def Client.authorization (client : Client) : String := "Bearer " ++ client.key

/-! ### The reply -/

/-- The body of a reply as data, if it holds any. -/
def bodyData (body : String) : Except Failure (Option Json) :=
  match Json.ofBytes (Text.Utf8.encode body) with
  | .ok v => .ok (some v)
  | .error .tooDeep => .error .tooDeep
  | .error _ => .ok none

/-- How much of a body is shown when it gives no reason. -/
def shownLength : Nat := 200

/-- The reason that a refusal gives: the message of its error, else the beginning of its body. -/
def refusalReason (body : String) : Except Failure String := do
  match ((← bodyData body).bind (Json.member? "error")).bind (Json.member? "message") with
  | some reason => return reason.plain
  | none =>
    let shown := Text.takeFirst shownLength body
    return if shown = "" then "Failed to generate schema" else shown

/-- The content of the first choice of an answer. -/
def contentOf? (answer : Json) : Option Json :=
  match answer.member? "choices" with
  | some (.array (choice :: _)) => (choice.member? "message").bind (Json.member? "content")
  | _ => none

/-- The text of a content. A content that is false counts as an empty text; any other that is no
text cannot be searched. -/
def textOf (content : Json) : Except Failure String :=
  match content with
  | .string s => .ok s
  | v => if v.isTrue then .error .wrongKind else .ok ""

/-- The suggestion in what came back. -/
def ofReply (reply : Reply) : Except Failure Suggestion := do
  match reply with
  | .failed reason => .error (.suggestion (.unreachable reason))
  | .answered status body =>
    if 400 ≤ status then .error (.suggestion (.refused status (← refusalReason body)))
    else match (← bodyData body).bind contentOf? with
      | none => .error (.suggestion .badShape)
      | some content =>
        match ← payload (← textOf content) with
        | none => .error (.suggestion .noObject)
        | some members => ofPayload members

/-- What keeps the client from asking: there is no key, or one that cannot be sent because it
holds other characters than ASCII. -/
def Client.fault? (client : Client) : Option Failure :=
  if client.key = "" then some (.suggestion .noKey)
  else if client.key.toList.any fun c => 128 ≤ c.toNat then some .unsendableKey
  else none

/-- The suggestion, given what comes back if the service is asked. -/
def Client.suggest (client : Client) (reply : Reply) : Except Failure Suggestion :=
  match client.fault? with
  | some fault => .error fault
  | none => ofReply reply

end SchemaAtlas.Suggestion
