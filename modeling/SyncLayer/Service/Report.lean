import SyncLayer.Library.Json
import SyncLayer.Model.Engine

/-!
# The Health Report

The body of `GET /health` is put together as text. Read as JSON it has the values of the
report and nothing else (`decode_json`), as long as the texts in it stand for themselves.
Which values these are is decided by the replies of the two databases, for each of them by
its own (`run_healthCheck_answering`). Together they make the report consistent
(`health_report`).
-/

namespace SyncLayer.Service

open SyncLayer.Interaction SyncLayer.Model SyncLayer.Json

/-! ## The report as JSON -/

def databaseValue (d : DatabaseReport) : Value :=
  .object [("status", .string d.status), ("connections", .integer d.connections),
    ("size_mb", .integer d.sizeMB), ("active_queries", .integer d.activeQueries)]

def reportValue (r : HealthReport) : Value :=
  .object (("status", .string r.status) ::
    ((r.message.map fun message => ("message", Value.string message)).toList ++
      [("databases", .object [("local", databaseValue (r.databases .local_)),
        ("hosted", databaseValue (r.databases .hosted_))])]))

/-- The texts of a report stand for themselves in JSON. -/
structure PlainReport (r : HealthReport) : Prop where
  status : Plain r.status.toList
  message : ∀ message, r.message = some message → Plain message.toList
  databases : ∀ conn, Plain (r.databases conn).status.toList

section Lexing

/-- A string that is read to its end, a comma and a line break behind it. -/
theorem read_string_end (s : Text) (ts : List Token) :
    read ⟨.string s, ts⟩ "\",\n".toList = ⟨.blank, .symbol ',' :: .string s :: ts⟩ := by
  have htext : "\",\n".toList = ['"', ',', '\n'] := by decide
  rw [htext]
  rfl

theorem read_integer_comma (n : Int) (ts : List Token) :
    read ⟨.numeral (toString n).toList, ts⟩ ",\n".toList =
      ⟨.blank, .symbol ',' :: .integer n :: ts⟩ := by
  have htext : ",\n".toList = [',', '\n'] := by decide
  rw [htext, read_numeral n ts (by decide)]
  rfl

theorem read_integer_end (n : Int) (ts : List Token) :
    read ⟨.numeral (toString n).toList, ts⟩ "\n".toList = ⟨.blank, .integer n :: ts⟩ := by
  have htext : "\n".toList = ['\n'] := by decide
  rw [htext, read_numeral n ts (by decide)]
  rfl

/-- The tokens of a database object, in their order. -/
def databaseTokens (d : DatabaseReport) : List Token :=
  [.symbol '\x7b',
    .string "status".toList, .symbol ':', .string d.status.toList, .symbol ',',
    .string "connections".toList, .symbol ':', .integer d.connections, .symbol ',',
    .string "size_mb".toList, .symbol ':', .integer d.sizeMB, .symbol ',',
    .string "active_queries".toList, .symbol ':', .integer d.activeQueries,
    .symbol '\x7d']

theorem read_database {d : DatabaseReport} (hd : Plain d.status.toList) (ts : List Token) :
    read ⟨.blank, ts⟩ d.json.toList = ⟨.blank, (databaseTokens d).reverse ++ ts⟩ := by
  have hopen : read ⟨.blank, []⟩ "\x7b\n".toList = ⟨.blank, [.symbol '\x7b']⟩ := by decide +kernel
  have hstatus : read ⟨.blank, []⟩ "      \"status\": \"".toList =
      ⟨.string [], [.symbol ':', .string "status".toList]⟩ := by decide +kernel
  have hconnections : read ⟨.blank, []⟩ "      \"connections\": ".toList =
      ⟨.blank, [.symbol ':', .string "connections".toList]⟩ := by decide +kernel
  have hsize : read ⟨.blank, []⟩ "      \"size_mb\": ".toList =
      ⟨.blank, [.symbol ':', .string "size_mb".toList]⟩ := by decide +kernel
  have hqueries : read ⟨.blank, []⟩ "      \"active_queries\": ".toList =
      ⟨.blank, [.symbol ':', .string "active_queries".toList]⟩ := by decide +kernel
  have hclose : read ⟨.blank, []⟩ "    \x7d".toList = ⟨.blank, [.symbol '\x7d']⟩ := by
    decide +kernel
  delta DatabaseReport.json
  -- line by line
  simp only [String.toList_append, read_append, -String.reduceAppend]
  rw [read_blank hopen, read_blank hstatus, read_plain hd, read_string_end,
    read_blank hconnections, read_toString, read_integer_comma, read_blank hsize, read_toString,
    read_integer_comma, read_blank hqueries, read_toString, read_integer_end, read_blank hclose]
  rfl

def messageTokens : Option String → List Token
  | some message => [.string "message".toList, .symbol ':', .string message.toList, .symbol ',']
  | none => []

def databasesTokens (databases : Conn → DatabaseReport) : List Token :=
  .string "databases".toList :: .symbol ':' :: .symbol '\x7b' ::
    .string "local".toList :: .symbol ':' :: (databaseTokens (databases .local_) ++
    .symbol ',' :: .string "hosted".toList :: .symbol ':' :: (databaseTokens (databases .hosted_) ++
    [.symbol '\x7d', .symbol '\x7d']))

/-- The tokens of the body, in their order. -/
def reportTokens (r : HealthReport) : List Token :=
  .symbol '\x7b' :: .string "status".toList :: .symbol ':' :: .string r.status.toList ::
    .symbol ',' :: (messageTokens r.message ++ databasesTokens r.databases)

/-- The line of the message, when there is one. -/
def messageLine : Option String → String
  | some message => "  \"message\": \"" ++ message ++ "\",\n"
  | none => ""

theorem messageLine_some (text : String) :
    messageLine (some text) = "  \"message\": \"" ++ text ++ "\",\n" := rfl

theorem json_eq (r : HealthReport) :
    r.json =
      "\n\x7b\n" ++
      "  \"status\": \"" ++ r.status ++ "\",\n" ++
      messageLine r.message ++
      "  \"databases\": \x7b\n" ++
      "    \"local\": " ++ (r.databases .local_).json ++ ",\n" ++
      "    \"hosted\": " ++ (r.databases .hosted_).json ++ "\n" ++
      "  \x7d\n" ++
      "\x7d\n" := rfl

theorem read_message {message : Option String}
    (hmessage : ∀ text, message = some text → Plain text.toList) (ts : List Token) :
    read ⟨.blank, ts⟩ (messageLine message).toList =
      ⟨.blank, (messageTokens message).reverse ++ ts⟩ := by
  cases message with
  | none => rfl
  | some text =>
    have hkey : read ⟨.blank, []⟩ "  \"message\": \"".toList =
        ⟨.string [], [.symbol ':', .string "message".toList]⟩ := by decide +kernel
    rw [messageLine_some]
    simp only [String.toList_append, read_append, -String.reduceAppend]
    rw [read_blank hkey, read_plain (hmessage text rfl), read_string_end]
    rfl

theorem lex_json {r : HealthReport} (hr : PlainReport r) :
    lex r.json.toList = some (reportTokens r) := by
  have hopen : read ⟨.blank, []⟩ "\n\x7b\n".toList = ⟨.blank, [.symbol '\x7b']⟩ := by decide +kernel
  have hstatus : read ⟨.blank, []⟩ "  \"status\": \"".toList =
      ⟨.string [], [.symbol ':', .string "status".toList]⟩ := by decide +kernel
  have hdatabases : read ⟨.blank, []⟩ "  \"databases\": \x7b\n".toList =
      ⟨.blank, [.symbol '\x7b', .symbol ':', .string "databases".toList]⟩ := by decide +kernel
  have hlocal : read ⟨.blank, []⟩ "    \"local\": ".toList =
      ⟨.blank, [.symbol ':', .string "local".toList]⟩ := by decide +kernel
  have hcomma : read ⟨.blank, []⟩ ",\n".toList = ⟨.blank, [.symbol ',']⟩ := by decide +kernel
  have hhosted : read ⟨.blank, []⟩ "    \"hosted\": ".toList =
      ⟨.blank, [.symbol ':', .string "hosted".toList]⟩ := by decide +kernel
  have hbreak : read ⟨.blank, []⟩ "\n".toList = ⟨.blank, []⟩ := by decide +kernel
  have hinner : read ⟨.blank, []⟩ "  \x7d\n".toList = ⟨.blank, [.symbol '\x7d']⟩ := by
    decide +kernel
  have hclose : read ⟨.blank, []⟩ "\x7d\n".toList = ⟨.blank, [.symbol '\x7d']⟩ := by decide +kernel
  have hread : read ⟨.blank, []⟩ r.json.toList = ⟨.blank, (reportTokens r).reverse⟩ := by
    -- piece by piece: the fixed texts, and between them what the report says
    rw [json_eq]
    simp only [String.toList_append, read_append, -String.reduceAppend]
    rw [hopen, read_blank hstatus, read_plain hr.status, read_string_end, read_message hr.message,
      read_blank hdatabases, read_blank hlocal, read_database (hr.databases .local_),
      read_blank hcomma, read_blank hhosted, read_database (hr.databases .hosted_),
      read_blank hbreak, read_blank hinner, read_blank hclose]
    simp [reportTokens, databasesTokens]
  rw [lex, hread, finish, List.reverse_reverse]

theorem value_database (d : DatabaseReport) (fuel : Nat) (ts : List Token) :
    value (fuel + 6) (databaseTokens d ++ ts) = some (databaseValue d, ts) := by
  simp [databaseTokens, databaseValue, value, members, String.ofList_toList]

/-- The parser follows the nesting of the report, here from the inside out. -/
theorem members_databases (databases : Conn → DatabaseReport) (fuel : Nat) :
    members (fuel + 10) (databasesTokens databases) =
      some ([("databases", .object [("local", databaseValue (databases .local_)),
        ("hosted", databaseValue (databases .hosted_))])], []) := by
  have hhosted := value_database (databases .hosted_) fuel [.symbol '\x7d', .symbol '\x7d']
  have hlocal := value_database (databases .local_) (fuel + 1)
    (.symbol ',' :: .string "hosted".toList :: .symbol ':' ::
      (databaseTokens (databases .hosted_) ++ [.symbol '\x7d', .symbol '\x7d']))
  have hmembers := members_cons (s := "local".toList) hlocal
    (members_last (s := "hosted".toList) hhosted)
  have hobject := members_last (s := "databases".toList) (value_object hmembers)
  simpa [databasesTokens] using hobject

theorem value_report (r : HealthReport) (fuel : Nat) :
    value (fuel + 13) (reportTokens r) = some (reportValue r, []) := by
  cases hmessage : r.message with
  | none =>
    have hrest := members_databases r.databases (fuel + 1)
    have hstatus := members_cons (s := "status".toList) (value_string (s := r.status.toList)) hrest
    simpa [reportTokens, messageTokens, hmessage, reportValue] using value_object hstatus
  | some message =>
    have hrest := members_databases r.databases fuel
    have hmember := members_cons (s := "message".toList) (value_string (s := message.toList)) hrest
    have hstatus :=
      members_cons (s := "status".toList) (value_string (s := r.status.toList)) hmember
    simpa [reportTokens, messageTokens, hmessage, reportValue] using value_object hstatus

end Lexing

/-- **The body is JSON** with the values of the report. -/
theorem parse_json {r : HealthReport} (hr : PlainReport r) :
    parse r.json.toList = some (reportValue r) := by
  have hlength : 7 ≤ (reportTokens r).length := by
    simp only [reportTokens, databasesTokens, List.length_append, List.length_cons]
    omega
  have hfuel : 2 * (reportTokens r).length = 2 * (reportTokens r).length - 13 + 13 := by omega
  rw [parse, lex_json hr, Option.bind_eq_bind, Option.bind_some, hfuel, value_report]

/-! ## Reading a report -/

def asString : Value → Option String
  | .string s => some s
  | _ => none

def asInteger : Value → Option Int
  | .integer n => some n
  | _ => none

def member (key : String) : Value → Option Value
  | .object ms => ms.lookup key
  | _ => none

def decodeDatabase (v : Value) : Option DatabaseReport := do
  let status ← member "status" v >>= asString
  let connections ← member "connections" v >>= asInteger
  let sizeMB ← member "size_mb" v >>= asInteger
  let activeQueries ← member "active_queries" v >>= asInteger
  return { status, connections, sizeMB, activeQueries }

def decodeReport (v : Value) : Option HealthReport := do
  let status ← member "status" v >>= asString
  let databases ← member "databases" v
  let onLocal ← member "local" databases >>= decodeDatabase
  let onHosted ← member "hosted" databases >>= decodeDatabase
  return {
    status
    message := member "message" v >>= asString
    databases
      | .local_ => onLocal
      | .hosted_ => onHosted }

/-- What a reader of the body finds in it. -/
def decode (body : String) : Option HealthReport := do
  let v ← parse body.toList
  decodeReport v

theorem decodeDatabase_value (d : DatabaseReport) : decodeDatabase (databaseValue d) = some d := by
  rfl

theorem decodeReport_value (r : HealthReport) : decodeReport (reportValue r) = some r := by
  obtain ⟨status, message, databases⟩ := r
  -- a function on connections is given by its two values
  have hdatabases : (fun
      | .local_ => databases .local_
      | .hosted_ => databases .hosted_) = databases := by
    funext conn
    cases conn <;> rfl
  cases message with
  | none =>
    simp [decodeReport, reportValue, member, List.lookup_cons, asString, decodeDatabase_value,
      hdatabases]
  | some message =>
    simp [decodeReport, reportValue, member, List.lookup_cons, asString, decodeDatabase_value,
      hdatabases]

theorem decode_json {r : HealthReport} (hr : PlainReport r) : decode r.json = some r := by
  rw [decode, parse_json hr, Option.bind_eq_bind, Option.bind_some, decodeReport_value]

/-! ## What the health check finds -/

/-- An environment in which each query of each database has its reply. -/
def answering (replies : Conn → Stmt → Option PGresult) : Prog.Handler Call Call.Reply Unit
  | .pqexec conn query, _ => (replies conn query, ())
  | .pqescapeLiteral _, _ => (true, ())
  | .sleepFor _, _ => ((), ())
  | .log _, _ => ((), ())

/-- The metric that a reply stands for. -/
def metricOf (res : Option PGresult) : Int :=
  if PQresultStatus res = .tuplesOk ∧ PQntuples res > 0 then atol (PQgetvalue res 0 0) else 0

/-- The report about a database, from its own replies. -/
def databaseReport (replies : Stmt → Option PGresult) : DatabaseReport :=
  if PQresultStatus (replies .selectOne) = .tuplesOk then
    { status := "healthy"
      connections := metricOf (replies .countConnections)
      sizeMB := metricOf (replies .databaseSize)
      activeQueries := metricOf (replies .countActiveQueries) }
  else { status := "unhealthy", connections := 0, sizeMB := 0, activeQueries := 0 }

section Check

variable (replies : Conn → Stmt → Option PGresult)

theorem run_PQexec_answering {α : Type} (conn : Conn) (query : Stmt)
    (f : Option PGresult → Code α) :
    (PQexec conn query >>= f).run (answering replies) () =
      (f (replies conn query)).run (answering replies) () := rfl

theorem run_queryMetric_answering (conn : Conn) (query : Stmt) :
    (queryMetric conn query).run (answering replies) () =
      (some (metricOf (replies conn query)), ()) := by
  rw [queryMetric, run_PQexec_answering, metricOf]
  by_cases hrow : PQresultStatus (replies conn query) = .tuplesOk ∧
      PQntuples (replies conn query) > 0
  · rw [if_pos hrow, if_pos hrow]
    rfl
  · rw [if_neg hrow, if_neg hrow]
    rfl

theorem run_checkConnection_answering (conn : Conn) :
    ∃ ok connections sizeMB activeQueries,
      (checkConnection conn).run (answering replies) () =
        (some (ok, connections, sizeMB, activeQueries), ()) ∧
      databaseReport (replies conn) =
        { status := statusText ok, connections, sizeMB, activeQueries } := by
  rw [checkConnection, run_PQexec_answering, databaseReport]
  by_cases hok : PQresultStatus (replies conn .selectOne) = .tuplesOk
  · rw [if_pos hok, if_pos hok, Prog.run_bind_of_some _ _ (run_queryMetric_answering replies ..),
      Prog.run_bind_of_some _ _ (run_queryMetric_answering replies ..),
      Prog.run_bind_of_some _ _ (run_queryMetric_answering replies ..)]
    exact ⟨true, _, _, _, rfl, rfl⟩
  · rw [if_neg hok, if_neg hok]
    exact ⟨false, 0, 0, 0, rfl, rfl⟩

/-- Both databases are checked, each by its own queries. -/
theorem run_healthCheck_answering :
    ∃ h, healthCheck.run (answering replies) () = (some h, ()) ∧
      (∀ conn, h.report.databases conn = databaseReport (replies conn)) ∧
      h.overall = (h.localDb && h.hostedDb) := by
  obtain ⟨ok, connections, sizeMB, activeQueries, hrun, hreport⟩ :=
    run_checkConnection_answering replies .local_
  -- the second check runs whatever the first has found
  obtain ⟨ok', connections', sizeMB', activeQueries', hrun', hreport'⟩ :=
    run_checkConnection_answering replies .hosted_
  refine ⟨_, run_healthCheck_of_checks hrun hrun', fun conn => ?_, rfl⟩
  cases conn with
  | local_ => exact hreport.symm
  | hosted_ => exact hreport'.symm

end Check

/-! ## The law -/

/-- How the parts of a report, and the status code, hang together. -/
structure Consistent (code : Nat) (r : HealthReport) : Prop where
  code_eq : code = 503 ∨ code = 200
  code_iff : code = 503 ↔ r.status ≠ "healthy"
  status_iff : r.status ≠ "healthy" ↔ ∃ conn, (r.databases conn).status ≠ "healthy"
  zero : ∀ conn, (r.databases conn).status ≠ "healthy" →
    (r.databases conn).connections = 0 ∧ (r.databases conn).sizeMB = 0 ∧
      (r.databases conn).activeQueries = 0

theorem plain_statusText (b : Bool) : Plain (statusText b).toList := by
  have hall : (statusText b).toList.all plainChar = true := by
    cases b <;> decide +kernel
  exact List.all_eq_true.1 hall

theorem statusText_ne_iff (b : Bool) : statusText b ≠ "healthy" ↔ b = false := by
  cases b <;> simp [statusText]

theorem plainReport_report (h : HealthStatus) : PlainReport h.report where
  status := plain_statusText h.overall
  message _ hmessage := by cases hmessage
  databases conn := by
    cases conn with
    | local_ => exact plain_statusText h.localDb
    | hosted_ => exact plain_statusText h.hostedDb

theorem plainReport_notInitialized : PlainReport notInitialized where
  status := plain_statusText false
  message text hmessage := by
    obtain rfl := Option.some.inj hmessage
    have hall : ("Replication manager not initialized - database connection failed".toList.all
        plainChar) = true := by decide +kernel
    exact List.all_eq_true.1 hall
  databases _ := plain_statusText false

/-- A database that is reported unhealthy has no numbers. -/
theorem databaseReport_zero (replies : Stmt → Option PGresult)
    (h : (databaseReport replies).status ≠ "healthy") :
    (databaseReport replies).connections = 0 ∧ (databaseReport replies).sizeMB = 0 ∧
      (databaseReport replies).activeQueries = 0 := by
  unfold databaseReport at h ⊢
  split at h
  · exact absurd rfl h
  · next hfailed =>
    rw [if_neg hfailed]
    exact ⟨rfl, rfl, rfl⟩

theorem consistent_report {h : HealthStatus} {replies : Conn → Stmt → Option PGresult}
    (hdatabases : ∀ conn, h.report.databases conn = databaseReport (replies conn))
    (hoverall : h.overall = (h.localDb && h.hostedDb)) {code : Nat}
    (hcode : code = if h.overall then 200 else 503) : Consistent code h.report where
  code_eq := by
    rw [hcode]
    cases h.overall <;> simp
  code_iff := by
    rw [hcode]
    show _ ↔ statusText h.overall ≠ "healthy"
    rw [statusText_ne_iff]
    cases h.overall <;> simp
  status_iff := by
    show statusText h.overall ≠ "healthy" ↔ _
    rw [statusText_ne_iff, hoverall, Bool.and_eq_false_iff]
    constructor
    · rintro (hlocal | hhosted)
      · exact ⟨.local_, (statusText_ne_iff _).2 hlocal⟩
      · exact ⟨.hosted_, (statusText_ne_iff _).2 hhosted⟩
    · rintro ⟨conn, hconn⟩
      cases conn with
      | local_ => exact .inl ((statusText_ne_iff _).1 hconn)
      | hosted_ => exact .inr ((statusText_ne_iff _).1 hconn)
  zero conn hconn := by
    rw [hdatabases conn] at hconn ⊢
    exact databaseReport_zero _ hconn

theorem consistent_notInitialized : Consistent 503 notInitialized where
  code_eq := .inl rfl
  code_iff := iff_of_true rfl (by decide)
  status_iff := iff_of_true (by decide) ⟨.local_, by decide⟩
  zero _ _ := ⟨rfl, rfl, rfl⟩

/-- The handler with a manager. -/
theorem run_getHealth_some (m : ReplicationManager) (replies : Conn → Stmt → Option PGresult) :
    ∃ res h, (getHealth (some m)).run (answering replies) () = (some res, ()) ∧
      healthCheck.run (answering replies) () = (some h, ()) ∧
      res.report = h.report ∧ Consistent res.status h.report ∧
      ∀ conn, h.report.databases conn = databaseReport (replies conn) := by
  obtain ⟨h, hrun, hdatabases, hoverall⟩ := run_healthCheck_answering replies
  cases hok : h.overall with
  | true =>
    refine ⟨{ report := h.report }, h, ?_, hrun, rfl,
      consistent_report hdatabases hoverall (by rw [hok]; rfl), hdatabases⟩
    rw [getHealth, Prog.run_bind_of_some _ _ hrun]
    simp [hok]
  | false =>
    refine ⟨{ status := 503, report := h.report }, h, ?_, hrun, rfl,
      consistent_report hdatabases hoverall (by rw [hok]; rfl), hdatabases⟩
    rw [getHealth, Prog.run_bind_of_some _ _ hrun]
    simp [hok]

/-- **The health report**, with or without a manager and whatever the databases reply: the
    body is JSON that says what the health check found, it is consistent, and what it says
    about a database depends on the replies of that database alone. -/
theorem health_report (manager : Option ReplicationManager)
    (replies : Conn → Stmt → Option PGresult) :
    ∃ res r, (getHealth manager).run (answering replies) () = (some res, ()) ∧
      parse res.content.toList = some (reportValue r) ∧ decode res.content = some r ∧
      Consistent res.status r ∧
      (manager = none → r = notInitialized) ∧
      (manager ≠ none → ∃ h, healthCheck.run (answering replies) () = (some h, ()) ∧
        r = h.report ∧ ∀ conn, h.report.databases conn = databaseReport (replies conn)) ∧
      ∀ replies' res' r', (getHealth manager).run (answering replies') () = (some res', ()) →
        decode res'.content = some r' → ∀ conn, replies conn = replies' conn →
        r.databases conn = r'.databases conn := by
  cases manager with
  | none =>
    have hbody : decode notInitialized.json = some notInitialized :=
      decode_json plainReport_notInitialized
    refine ⟨{ status := 503, report := notInitialized }, notInitialized, rfl,
      parse_json plainReport_notInitialized, hbody, consistent_notInitialized, fun _ => rfl,
      fun h => absurd rfl h, ?_⟩
    intro replies' res' r' hrun hdecode conn _
    -- without a manager every run has the same body
    cases hrun
    rw [HttpResponse.content, hbody] at hdecode
    rw [Option.some.inj hdecode]
  | some m =>
    obtain ⟨res, h, hrun, hcheck, hres, hconsistent, hdatabases⟩ := run_getHealth_some m replies
    have hplain := plainReport_report h
    rw [← hres] at hplain
    refine ⟨res, res.report, hrun, parse_json hplain, decode_json hplain, by rwa [hres], nofun,
      fun _ => ⟨h, hcheck, hres, hdatabases⟩, ?_⟩
    intro replies' res' r' hrun' hdecode conn hsame
    -- the other run has a report of its own, made in the same way
    obtain ⟨res₂, h₂, hrun₂, -, hres₂, -, hdatabases₂⟩ := run_getHealth_some m replies'
    rw [hrun₂] at hrun'
    cases hrun'
    have hbody₂ : decode res'.content = some h₂.report := by
      rw [HttpResponse.content, hres₂, decode_json (plainReport_report h₂)]
    rw [hbody₂] at hdecode
    rw [← Option.some.inj hdecode, hres, hdatabases, hdatabases₂, hsame]

end SyncLayer.Service
