import SyncLayer.Model.Config

/-!
# The Options

Every option has a path in the file, a variable in the environment and a default. Loading
the configuration is reading the options one after the other (`load_eq_assemble`), and what
an option reads depends on nothing but its own path and its own variable.
-/

namespace SyncLayer.Configuration

open SyncLayer.Yaml SyncLayer.Model

/-! ## Options -/

/-- The texts of a connection. -/
inductive ConnKey where
  | host
  | user
  | password
  | dbname
  | sslmode

inductive TextOption where
  | conn (c : Conn) (key : ConnKey)
  | logLevel
  | logFile

inductive IntOption where
  | port (c : Conn)
  | intervalSeconds
  | batchSize
  | healthPort

def connSection : Conn → String
  | .local_ => "local"
  | .hosted_ => "hosted"

def envPrefix : Conn → String
  | .local_ => "SYNC_LOCAL"
  | .hosted_ => "SYNC_HOSTED"

def connPath (c : Conn) : List String := ["databases", connSection c]

def ConnKey.key : ConnKey → String
  | .host => "host"
  | .user => "user"
  | .password => "password"
  | .dbname => "dbname"
  | .sslmode => "sslmode"

namespace TextOption

def path : TextOption → List String
  | .conn c key => connPath c ++ [key.key]
  | .logLevel => ["logging", "level"]
  | .logFile => ["logging", "file"]

def envName : TextOption → String
  | .conn .local_ .host => "SYNC_LOCAL_HOST"
  | .conn .local_ .user => "SYNC_LOCAL_USER"
  | .conn .local_ .password => "SYNC_LOCAL_PASSWORD"
  | .conn .local_ .dbname => "SYNC_LOCAL_DBNAME"
  | .conn .local_ .sslmode => "SYNC_LOCAL_SSLMODE"
  | .conn .hosted_ .host => "SYNC_HOSTED_HOST"
  | .conn .hosted_ .user => "SYNC_HOSTED_USER"
  | .conn .hosted_ .password => "SYNC_HOSTED_PASSWORD"
  | .conn .hosted_ .dbname => "SYNC_HOSTED_DBNAME"
  | .conn .hosted_ .sslmode => "SYNC_HOSTED_SSLMODE"
  | .logLevel => "SYNC_LOG_LEVEL"
  | .logFile => "SYNC_LOG_FILE"

def fallback : TextOption → String
  | .conn _ .host => "localhost"
  | .conn _ .user => "postgres"
  | .conn _ .password => ""
  | .conn _ .dbname => "postgres"
  | .conn _ .sslmode => "disable"
  | .logLevel => "info"
  | .logFile => "logs/synclayer.log"

end TextOption

namespace IntOption

def path : IntOption → List String
  | .port c => connPath c ++ ["port"]
  | .intervalSeconds => ["sync", "interval_seconds"]
  | .batchSize => ["sync", "batch_size"]
  | .healthPort => ["health", "port"]

def envName : IntOption → String
  | .port .local_ => "SYNC_LOCAL_PORT"
  | .port .hosted_ => "SYNC_HOSTED_PORT"
  | .intervalSeconds => "SYNC_INTERVAL_SECONDS"
  | .batchSize => "SYNC_BATCH_SIZE"
  | .healthPort => "SYNC_HEALTH_PORT"

def fallback : IntOption → Int32
  | .port _ => 5432
  | .intervalSeconds => 5
  | .batchSize => 50
  | .healthPort => 8080

end IntOption

def autoFetchPath : List String := ["sync", "auto_fetch"]

def autoFetchEnvName : String := "SYNC_AUTO_FETCH"

def tablesPath : List String := ["sync", "tables"]

/-! ## Reading them -/

def readText (getenv : Env) (root : Node) (o : TextOption) : Except Exception String := do
  let n ← root.path o.path
  return envOr getenv o.envName (n.asStringOr o.fallback)

def readInt (getenv : Env) (root : Node) (o : IntOption) : Except Exception Int32 := do
  let n ← root.path o.path
  return envOrInt getenv o.envName (n.asOr toInt o.fallback)

def readAutoFetch (getenv : Env) (root : Node) : Except Exception Bool := do
  let n ← root.path autoFetchPath
  return envOrBool getenv autoFetchEnvName (n.asOr toBool true)

def readTables (root : Node) : Except Exception (List String) := do
  let n ← root.path tablesPath
  if n.isDefined then
    n.items.mapM Node.asString
  else
    return []

/-- The options of a connection, in the order of `makeConn`. -/
def assembleConn (text : TextOption → Except Exception String)
    (int : IntOption → Except Exception Int32) (c : Conn) : Except Exception String := do
  let host ← text (.conn c .host)
  let port ← int (.port c)
  let user ← text (.conn c .user)
  let password ← text (.conn c .password)
  let dbname ← text (.conn c .dbname)
  let sslmode ← text (.conn c .sslmode)
  return ConnValues.text { host, port, user, password, dbname, sslmode }

/-- All options, in the order of `loadFromFile`. -/
def assemble (text : TextOption → Except Exception String)
    (int : IntOption → Except Exception Int32) (autoFetch : Except Exception Bool)
    (tables : Except Exception (List String)) : Except Exception Config := do
  let localConn ← assembleConn text int .local_
  let hostedConn ← assembleConn text int .hosted_
  let intervalSeconds ← int .intervalSeconds
  let batchSize ← int .batchSize
  let autoFetch ← autoFetch
  let tables ← tables
  let logLevel ← text .logLevel
  let logFile ← text .logFile
  let healthPort ← int .healthPort
  return {
    localConn
    hostedConn
    intervalSeconds
    batchSize
    autoFetch
    tables
    logLevel
    logFile
    healthPort }

section Load

variable {getenv : Env} {root : Node} {key : String} {section_ : Node} {e : Exception}

theorem ok_bind {α β : Type} (a : α) (f : α → Except Exception β) :
    (Except.ok a >>= f) = f a := rfl

theorem error_bind {α β : Type} (e : Exception) (f : α → Except Exception β) :
    (Except.error e >>= f) = .error e := rfl

/-- A section as a map of values. -/
def yamlMap (entries : List (String × Tree)) : YamlMap where
  asString key := (find key entries).bind Tree.text?
  asInt key := ((find key entries).bind Tree.scalar?).bind toInt

/-- On a section, `makeConn` joins the values of its keys. -/
theorem makeConn_value {y : Tree} {entries : List (String × Tree)}
    (hentries : y.entries? = some entries) (getenv : Env) (envPrefix : String) :
    Config.makeConn getenv (.value y) envPrefix =
      .ok (Model.makeConn getenv (yamlMap entries) envPrefix) := by
  obtain ⟨host, hhost, hhost'⟩ := exists_get hentries "host"
  obtain ⟨port, hport, hport'⟩ := exists_get hentries "port"
  obtain ⟨user, huser, huser'⟩ := exists_get hentries "user"
  obtain ⟨password, hpassword, hpassword'⟩ := exists_get hentries "password"
  obtain ⟨dbname, hdbname, hdbname'⟩ := exists_get hentries "dbname"
  obtain ⟨sslmode, hsslmode, hsslmode'⟩ := exists_get hentries "sslmode"
  simp only [Config.makeConn, hhost, hport, huser, hpassword, hdbname, hsslmode, ok_bind,
    asStringOr_eq, asOr_eq, hhost', hport', huser', hpassword', hdbname', hsslmode']
  rfl

/-- The sections of the root. -/
theorem path_section (hsection : root.getMut key = .ok section_) (k : String) :
    root.path [key, k] = section_.get k := by
  simp only [Node.path, hsection, ok_bind, Node.follow, bind_pure]

theorem path_no_section (hsection : root.getMut key = .error e) (path : List String) :
    root.path (key :: path) = .error e := by
  simp only [Node.path, hsection, error_bind]

theorem makeConn_eq (getenv : Env) {dbs : Node} (hdbs : root.getMut "databases" = .ok dbs)
    (c : Conn) :
    (do let node ← dbs.get (connSection c)
        Config.makeConn getenv node (envPrefix c)) =
      assembleConn (readText getenv root) (readInt getenv root) c := by
  have hpath : ∀ c k, root.path ["databases", c, k] = (do
      let node ← dbs.get c
      node.get k) := by
    intro c k
    simp only [Node.path, hdbs, ok_bind, Node.follow, bind_pure]
  simp only [assembleConn, readText, readInt, TextOption.path, IntOption.path, connPath,
    ConnKey.key, List.cons_append, List.nil_append, hpath]
  cases dbs.get (connSection c) with
  | error e => rfl
  | ok node =>
    simp only [Config.makeConn, bind_assoc, pure_bind]
    cases c with
    | local_ => rfl
    | hosted_ => rfl

theorem load_eq_assemble (getenv : Env) (root : Node) : Config.load getenv root =
    assemble (readText getenv root) (readInt getenv root) (readAutoFetch getenv root)
      (readTables root) := by
  cases hdbs : root.getMut "databases" with
  | error e =>
    simp only [Config.load, assemble, assembleConn, readText, TextOption.path, connPath,
      List.cons_append, hdbs, path_no_section hdbs]
    rfl
  | ok dbs =>
    have hlocal := makeConn_eq getenv hdbs .local_
    have hhosted := makeConn_eq getenv hdbs .hosted_
    simp only [connSection, envPrefix] at hlocal hhosted
    simp only [Config.load, Config.yamlTables, assemble, ← hlocal, ← hhosted, hdbs, ok_bind,
      bind_assoc, readText, readInt, readAutoFetch, readTables, TextOption.path, IntOption.path,
      autoFetchPath, tablesPath]
    -- the options of each section, or nothing more if it is not there
    cases hsync : root.getMut "sync" with
    | error e => simp only [path_no_section hsync, error_bind]
    | ok sync =>
      simp only [path_section hsync, ok_bind, pure_bind]
      cases hlog : root.getMut "logging" with
      | error e => simp only [path_no_section hlog, error_bind]
      | ok log =>
        simp only [path_section hlog, ok_bind]
        cases hhealth : root.getMut "health" with
        | error e => simp only [path_no_section hhealth, error_bind]
        | ok health =>
          simp only [path_section hhealth]
          rfl

end Load

end SyncLayer.Configuration
