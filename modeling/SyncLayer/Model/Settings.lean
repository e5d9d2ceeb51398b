import SyncLayer.Library.CString

/-!
# Reading the Settings

`config/Config.cpp`: a value comes from the environment if it is set there and not
empty, else from the YAML file, else from the default in the source. `makeConn` joins
the six values of a connection to the text that `PQconnectdb` gets.
-/

namespace SyncLayer.Model

/-- `std::getenv` -/
abbrev Env := String → Option String

/-- A YAML map as `node[key].as<T>(fallback)` sees it: the value of a key, if there is
    one of that type. -/
structure YamlMap where
  asString : String → Option String
  asInt : String → Option Int32

/-- `std::stoi`; an exception is `none`. -/
def stoi (v : String) : Option Int32 :=
  match CString.strtol v.toList with
  | some n =>
    if Int32.minValue.toInt ≤ n ∧ n ≤ Int32.maxValue.toInt then some (Int32.ofInt n) else none
  | none => none

def envOr (getenv : Env) (name : String) (fallback : String) : String :=
  match getenv name with
  | some v => if v ≠ "" then v else fallback
  | none => fallback

def envOrInt (getenv : Env) (name : String) (fallback : Int32) : Int32 :=
  match getenv name with
  | some v => if v ≠ "" then (stoi v).getD fallback else fallback
  | none => fallback

/-- The values `makeConn` writes. -/
structure ConnValues where
  host : String
  port : Int32
  user : String
  password : String
  dbname : String
  sslmode : String
  deriving DecidableEq

/-- The first half of `makeConn`: where the values come from. -/
def connValues (getenv : Env) (node : YamlMap) (envPrefix : String) : ConnValues where
  host := envOr getenv (envPrefix ++ "_HOST") ((node.asString "host").getD "localhost")
  port := envOrInt getenv (envPrefix ++ "_PORT") ((node.asInt "port").getD 5432)
  user := envOr getenv (envPrefix ++ "_USER") ((node.asString "user").getD "postgres")
  password := envOr getenv (envPrefix ++ "_PASSWORD") ((node.asString "password").getD "")
  dbname := envOr getenv (envPrefix ++ "_DBNAME") ((node.asString "dbname").getD "postgres")
  sslmode := envOr getenv (envPrefix ++ "_SSLMODE") ((node.asString "sslmode").getD "disable")

/-- The second half of `makeConn`: the `ostringstream`. -/
def ConnValues.text (v : ConnValues) : String :=
  "host=" ++ v.host ++
  " port=" ++ toString v.port.toInt ++
  " user=" ++ v.user ++
  " password=" ++ v.password ++
  " dbname=" ++ v.dbname ++
  " sslmode=" ++ v.sslmode

def makeConn (getenv : Env) (node : YamlMap) (envPrefix : String) : String :=
  (connValues getenv node envPrefix).text

end SyncLayer.Model
