import Athos.Kube.Object

/-!
# PgBouncer

`src/internal/pgbouncer/pgbouncer.go`: the configuration of a pooler and the names of its objects,
and the port conversion of `src/internal/portmap/portmap.go`.
-/

namespace Athos.Pooler

open Base Kube

/-- `Image`; `pgbouncer.go:75`. -/
def image : GoString := lit "pgbouncer/pgbouncer:1.22.1"

/-- `PoolMode`; `pgbouncer.go:79-92`. -/
inductive PoolMode where
  | session
  | transaction
  | statement
  deriving DecidableEq

/-- The text of a pool mode. -/
def PoolMode.text : PoolMode → GoString
  | .session => lit "session"
  | .transaction => lit "transaction"
  | .statement => lit "statement"

/-- `Config`; `pgbouncer.go:95-118`. -/
structure Config where
  listenPort : Int
  poolMode : PoolMode
  maxClientConn : Int
  defaultPoolSize : Int
  minPoolSize : Int
  reservePoolSize : Int
  reservePoolTimeout : Int
  serverIdleTimeout : Int
  serverLifetime : Int
  queryTimeout : Int
  clientIdleTimeout : Int
  deriving DecidableEq

/-- `DefaultConfig`; `pgbouncer.go:121-135`. -/
def defaultConfig : Config where
  listenPort := 5432
  poolMode := .transaction
  maxClientConn := 1000
  defaultPoolSize := 20
  minPoolSize := 0
  reservePoolSize := 5
  reservePoolTimeout := 5
  serverIdleTimeout := 600
  serverLifetime := 3600
  queryTimeout := 0
  clientIdleTimeout := 0

/-- `key = value` and the end of the line. -/
def iniLine (key value : GoString) : GoString := key ++ lit " = " ++ value ++ lit "\n"

/-- `INI`; `pgbouncer.go:139-174`. -/
def Config.ini (c : Config) (clusterName primaryHost database : GoString) : GoString :=
  lit "[databases]\n" ++
  iniLine database (lit "host=" ++ primaryHost ++ lit " port=5432 dbname=" ++ database) ++
  lit "* = host=" ++ primaryHost ++ lit " port=5432\n\n" ++
  lit "[pgbouncer]\n" ++
  iniLine (lit "listen_port") (decimal c.listenPort) ++
  lit "listen_addr = *\n" ++
  iniLine (lit "pool_mode") c.poolMode.text ++
  iniLine (lit "max_client_conn") (decimal c.maxClientConn) ++
  iniLine (lit "default_pool_size") (decimal c.defaultPoolSize) ++
  iniLine (lit "min_pool_size") (decimal c.minPoolSize) ++
  iniLine (lit "reserve_pool_size") (decimal c.reservePoolSize) ++
  iniLine (lit "reserve_pool_timeout") (decimal c.reservePoolTimeout) ++
  iniLine (lit "server_idle_timeout") (decimal c.serverIdleTimeout) ++
  iniLine (lit "server_lifetime") (decimal c.serverLifetime) ++
  (if 0 < c.queryTimeout then iniLine (lit "query_timeout") (decimal c.queryTimeout) else []) ++
  (if 0 < c.clientIdleTimeout then
    iniLine (lit "client_idle_timeout") (decimal c.clientIdleTimeout) else []) ++
  lit "auth_type = scram-sha-256\n" ++
  lit "auth_file = /etc/pgbouncer/userlist.txt\n" ++
  lit "admin_users = pgbouncer_admin\n" ++
  iniLine (lit "stats_users") (clusterName ++ lit "_stats") ++
  lit "server_tls_sslmode = prefer\n" ++
  iniLine (lit "log_connections") (decimal 0) ++
  iniLine (lit "log_disconnections") (decimal 0) ++
  iniLine (lit "log_pooler_errors") (decimal 1) ++
  lit "ignore_startup_parameters = extra_float_digits\n"

/-- `ServiceName`; `pgbouncer.go:187-189`. -/
def serviceName (clusterName : GoString) : GoString := clusterName ++ lit "-pooler"

/-- `DeploymentName`; `pgbouncer.go:192-194`. -/
def deploymentName (clusterName : GoString) : GoString := clusterName ++ lit "-pooler"

/-- `ConfigMapName`; `pgbouncer.go:197-199`. -/
def configMapName (clusterName : GoString) : GoString := clusterName ++ lit "-pgbouncer-config"

/-- `SafeInt32`; `portmap.go:116-121`. -/
def safeInt32 (port : Int) : Int := if port < 0 ∨ 65535 < port then 0 else port

end Athos.Pooler
