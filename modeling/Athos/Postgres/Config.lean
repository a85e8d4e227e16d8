import Athos.Postgres.Naming

/-!
# Configuration files

`src/internal/postgres/config.go` and `hba.go`: the texts that end up in the cluster's ConfigMap.
-/

namespace Athos.Postgres

open Base Kube

/-- `DefaultParams`; `config.go:28-71`. -/
def defaultParams : StringMap :=
  mapOf [
    (lit "listen_addresses", lit "'*'"),
    (lit "max_connections", lit "100"),
    (lit "port", lit "5432"),
    (lit "shared_buffers", lit "128MB"),
    (lit "effective_cache_size", lit "512MB"),
    (lit "maintenance_work_mem", lit "64MB"),
    (lit "work_mem", lit "4MB"),
    (lit "wal_level", lit "replica"),
    (lit "max_wal_senders", lit "10"),
    (lit "max_replication_slots", lit "10"),
    (lit "wal_keep_size", lit "1GB"),
    (lit "archive_mode", lit "off"),
    (lit "checkpoint_completion_target", lit "0.9"),
    (lit "checkpoint_timeout", lit "10min"),
    (lit "random_page_cost", lit "1.1"),
    (lit "effective_io_concurrency", lit "200"),
    (lit "log_destination", lit "'stderr'"),
    (lit "logging_collector", lit "off"),
    (lit "log_min_duration_statement", lit "1000"),
    (lit "log_connections", lit "on"),
    (lit "log_disconnections", lit "on"),
    (lit "log_line_prefix", lit "'%m [%p] %q%u@%d '"),
    (lit "autovacuum", lit "on"),
    (lit "autovacuum_max_workers", lit "3"),
    (lit "autovacuum_naptime", lit "1min"),
    (lit "autovacuum_vacuum_scale_factor", lit "0.1"),
    (lit "autovacuum_analyze_scale_factor", lit "0.05")]

/-- `MergeParams`; `config.go:75-84`. -/
def mergeParams (base override : StringMap) : StringMap := mergeMaps base override

/-- `BuildPostgresConf`; `config.go:88-102`. The keys of a map are listed in byte order. -/
def buildPostgresConf (params : StringMap) : GoString :=
  lit "# Managed by Athos. Do not edit manually.\n" ++
    params.toList.flatMap fun p => p.1 ++ lit " = " ++ p.2 ++ lit "\n"

/-- `DefaultHBAConf`; `hba.go:25-53`. -/
def defaultHBAConf (tlsEnabled : Bool) : List GoString :=
  [lit "local   all             all                                     peer",
    lit "host    all             all             127.0.0.1/32            scram-sha-256",
    lit "host    all             all             ::1/128                 scram-sha-256",
    lit "host    replication     all             10.0.0.0/8              scram-sha-256",
    lit "host    replication     all             172.16.0.0/12           scram-sha-256",
    lit "host    replication     all             192.168.0.0/16          scram-sha-256"] ++
  if tlsEnabled then
    [lit "hostssl all             all             0.0.0.0/0               scram-sha-256",
      lit "hostssl all             all             ::/0                    scram-sha-256"]
  else
    [lit "host    all             all             0.0.0.0/0               scram-sha-256",
      lit "host    all             all             ::/0                    scram-sha-256"]

/-- `BuildHBAConf`; `hba.go:57-77`. -/
def buildHBAConf (rules : List GoString) (tlsEnabled : Bool) : GoString :=
  lit "# Managed by Athos. Do not edit manually.\n" ++
    lit "# TYPE  DATABASE        USER            ADDRESS                 METHOD\n" ++
    (defaultHBAConf tlsEnabled).flatMap (· ++ lit "\n") ++
    if rules = [] then []
    else lit "\n# Custom rules from PostgresCluster.spec.postgresHBA\n" ++
      rules.flatMap (· ++ lit "\n")

end Athos.Postgres
