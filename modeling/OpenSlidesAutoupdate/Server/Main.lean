import Mathlib.Logic.Basic

/-!
# The configuration of `main`

`main` wires the service from environment variables: `buildDatastore` picks the datastore and,
through `buildReceiver`, the source of change notifications, and `getCert` the TLS certificate.
What these functions read from outside the program (`os.Getenv`, `os.Stat`, `path.Join`, the
certificate generator and loader, the Redis connection test) is a `Host`, and each function is a
pure function of it.

## The certificate

With `CERT_DIR` set, `getCert` looks for `autoupdate.pem`, falling back to `cert.pem`, and for
`autoupdate-key.pem`, falling back to `key.pem`. The fallback tests the first file a second time
where the second is meant (`os.Stat(certFile)`, not `os.Stat(certFile2)`), so it is never taken
(`findFile_eq`): a missing special file is an error whether the general file exists or not, and
only the special pair is ever loaded.

## The datastore and its receiver

`DATASTORE` defaults to `fake`, a datastore fed from standard input whose faker also sends the
change notifications; `service` reads from a datastore reader at a URL built from three more
variables. `MESSAGING` defaults to `fake` as well, and for a reader service that means no
receiver at all: a reader gets change notifications only with `MESSAGING=redis`
(`buildReceiver_eq_ok`).
-/

namespace Main

/-! ## What `main` reads -/

/-- The outside world as `main` sees it, for certificates of type `Cert`. -/
structure Host (Cert : Type) where
  /-- `os.Getenv`: the value of a variable, `""` for one that is not set. -/
  getenv : String → String
  /-- `os.IsNotExist` of the error of `os.Stat` on a path. -/
  notExist : String → Bool
  /-- `path.Join` of a directory and a file name. -/
  join : String → String → String
  /-- `autoupdateHttp.GenerateCert`: a new self-signed certificate, or its error. -/
  generateCert : Except String Cert
  /-- `tls.LoadX509KeyPair` of a certificate file and a key file. -/
  loadX509KeyPair : String → String → Except String Cert
  /-- `conn.TestConn` of a Redis connection to an address. -/
  testConn : String → Except String Unit

/-- `getEnv`: the value of the variable `env`, or `devaultValue` where it is empty. -/
def getEnv (getenv : String → String) (env devaultValue : String) : String :=
  if getenv env = "" then devaultValue else getenv env

/-! ## The certificate -/

/-- `generalCertName`. -/
def generalCertName : String := "cert.pem"

/-- `generalKeyName`. -/
def generalKeyName : String := "key.pem"

/-- `specialCertName`. -/
def specialCertName : String := "autoupdate.pem"

/-- `specialKeyName`. -/
def specialKeyName : String := "autoupdate-key.pem"

section Cert

variable {Cert : Type} (host : Host Cert)

/-- The lookup `getCert` makes for the certificate and again for the key: `file`, or `file2`
when `file` does not exist. As written, the second test stats `file` where `file2` is meant. -/
def findFile (file file2 : String) : Except String String :=
  if host.notExist file then
    if host.notExist file then .error (file ++ " or " ++ file2 ++ " has to exist")
    else .ok file2
  else .ok file

/-- `getCert`: a self-signed certificate without `CERT_DIR`, else the key pair found there. -/
def getCert : Except String Cert :=
  let certDir := getEnv host.getenv "CERT_DIR" ""
  if certDir = "" then
    match host.generateCert with
    | .error err => .error ("creating new certificate: " ++ err)
    | .ok cert => .ok cert
  else do
    let certFile ← findFile host (host.join certDir specialCertName)
      (host.join certDir generalCertName)
    let keyFile ← findFile host (host.join certDir specialKeyName)
      (host.join certDir generalKeyName)
    match host.loadX509KeyPair certFile keyFile with
    | .error err =>
      .error ("loading certificates from " ++ certFile ++ " and " ++ keyFile ++ ": " ++ err)
    | .ok cert => .ok cert

variable {host}

/-- The fallback of `findFile` is dead: it finds `file` or fails. -/
theorem findFile_eq (file file2 : String) :
    findFile host file file2 =
      if host.notExist file then .error (file ++ " or " ++ file2 ++ " has to exist")
      else .ok file := by
  unfold findFile
  cases host.notExist file <;> rfl

end Cert

/-- A host with `CERT_DIR=/certs` in which `cert.pem` and `key.pem` exist and `autoupdate.pem`
does not. -/
def generalCertHost : Host Unit where
  getenv v := if v = "CERT_DIR" then "/certs" else ""
  notExist p := p = "/certs/autoupdate.pem" || p = "/certs/autoupdate-key.pem"
  join d n := d ++ "/" ++ n
  generateCert := .ok ()
  loadX509KeyPair _ _ := .ok ()
  testConn _ := .ok ()

/-- The fallback is dead: with `cert.pem` and `key.pem` in `CERT_DIR` and no `autoupdate.pem`,
`getCert` fails. -/
example : generalCertHost.notExist "/certs/cert.pem" = false ∧
    generalCertHost.notExist "/certs/key.pem" = false ∧
    getCert generalCertHost = .error "/certs/autoupdate.pem or /certs/cert.pem has to exist" :=
  ⟨by decide, by decide, rfl⟩

/-! ## The datastore and its receiver -/

/-- The source of change notifications `buildReceiver` picks: Redis at an address, the faker of
the fake datastore, or none: the nil faker of a datastore that is not fake. -/
inductive Receiver where
  | redis (address : String)
  | faker
  | none
  deriving DecidableEq, Repr

/-- The datastore `buildDatastore` picks: the test server of the faker, or a reader at a URL. -/
inductive Datastore where
  | fake
  | service (url : String)
  deriving DecidableEq, Repr

section Datastore

variable {Cert : Type} (host : Host Cert)

/-- `buildReceiver`, given whether the datastore made a faker. -/
def buildReceiver (faker : Bool) : Except String Receiver :=
  match getEnv host.getenv "MESSAGING" "fake" with
  | "redis" =>
    let redisAddress := getEnv host.getenv "MESSAGE_BUS_HOST" "localhost" ++ ":" ++
      getEnv host.getenv "MESSAGE_BUS_PORT" "6379"
    if getEnv host.getenv "REDIS_TEST_CONN" "true" = "true" then
      match host.testConn redisAddress with
      | .error err => .error ("connect to redis: " ++ err)
      | .ok () => .ok (.redis redisAddress)
    else .ok (.redis redisAddress)
  | "fake" => .ok (if faker then .faker else .none)
  | serviceName => .error ("unknown messagin service " ++ serviceName)

/-- `buildDatastore`: the datastore and the receiver of its change notifications. -/
def buildDatastore : Except String (Datastore × Receiver) := do
  let (ds, faker) ← match getEnv host.getenv "DATASTORE" "fake" with
    | "fake" => pure (Datastore.fake, true)
    | "service" =>
      let url := getEnv host.getenv "DATASTORE_READER_PROTOCOL" "http" ++ "://" ++
        getEnv host.getenv "DATASTORE_READER_HOST" "localhost" ++ ":" ++
        getEnv host.getenv "DATASTORE_READER_PORT" "9010"
      pure (.service url, false)
    | dsService => throw ("unknown datastore " ++ dsService)
  match buildReceiver host faker with
  | .error err => throw ("build receiver: " ++ err)
  | .ok receiver => pure (ds, receiver)

variable {host}

/-- The receiver is Redis exactly when `MESSAGING=redis`, and the faker or none when it is unset
or `fake`. -/
theorem buildReceiver_eq_ok {faker : Bool} {receiver : Receiver}
    (h : buildReceiver host faker = .ok receiver) :
    (getEnv host.getenv "MESSAGING" "fake" = "redis" ∧ ∃ address, receiver = .redis address) ∨
      (getEnv host.getenv "MESSAGING" "fake" = "fake" ∧
        receiver = if faker then .faker else .none) := by
  unfold buildReceiver at h
  split at h
  · refine .inl ⟨‹_›, ?_⟩
    dsimp only at h
    split at h
    · split at h <;> cases h
      exact ⟨_, rfl⟩
    · cases h
      exact ⟨_, rfl⟩
  · cases h
    exact .inr ⟨‹_›, rfl⟩
  · cases h

end Datastore

/-- A host with `DATASTORE=service` and no other variable set. -/
def serviceHost : Host Unit where
  getenv v := if v = "DATASTORE" then "service" else ""
  notExist _ := true
  join d n := d ++ "/" ++ n
  generateCert := .ok ()
  loadX509KeyPair _ _ := .ok ()
  testConn _ := .ok ()

/-- With only `DATASTORE=service` set, the reader at the default URL has no receiver: the default
`MESSAGING=fake` makes none for a datastore that is not fake. -/
example : buildDatastore serviceHost = .ok (.service "http://localhost:9010", .none) := rfl

end Main
