import Athos.Secretkey.Uri
import Athos.Store.Uri

/-!
# Two URIs of one connection

When the URIs that `ConnParams.URI` and `secretkey.LibpqURI` build are read as what they were built
from, and when they then stand for the same connection. The second has no `sslmode`, for which libpq
then takes `prefer`.
-/

namespace Athos.Store

open Base Kube Libpq Postgres Secretkey

/-- The value of an option: that of the URI, or the default of libpq for `sslmode`. -/
def optionValue (u : Uri) (k : GoString) : Option GoString :=
  (mapOf u.params)[k]?.or (if k = lit "sslmode" then some (lit "prefer") else none)

/-- Two URIs denote the same connection. -/
def SameConnection (u v : Uri) : Prop :=
  u.user = v.user ∧ u.password = v.password ∧ u.host = v.host ∧ u.port = v.port ∧
    u.dbname = v.dbname ∧ ∀ k, optionValue u k = optionValue v k

private theorem ConnParams.DenotedBy.optionValue_eq {c : ConnParams} {u : Uri} (h : c.DenotedBy u)
    (hreadable : c.UriReadable) (k : GoString) :
    optionValue u k = if k = lit "sslmode" then some c.sslModeOrDefault else c.extra[k]? := by
  obtain ⟨-, -, -, -, -, hparams⟩ := h
  rw [optionValue]
  by_cases hk : k = lit "sslmode"
  · subst hk
    obtain ⟨v, hv⟩ := exists_getElem?_mapOf ((hparams _ c.sslModeOrDefault).2 (.inl ⟨rfl, rfl⟩))
    rw [hv, Option.some_or, if_pos rfl, Option.some.injEq]
    rcases (hparams _ v).1 (mem_of_getElem?_mapOf hv) with ⟨-, hmode⟩ | hextra
    · exact hmode
    · exact hreadable.extra_sslMode v hextra
  · rw [if_neg hk, if_neg hk, Option.or_none]
    apply Option.ext
    intro v
    constructor
    · intro hv
      rcases (hparams k v).1 (mem_of_getElem?_mapOf hv) with ⟨hmode, -⟩ | hextra
      · exact absurd hmode hk
      · exact hextra
    · intro hextra
      obtain ⟨v', hv'⟩ := exists_getElem?_mapOf ((hparams k v).2 (.inr hextra))
      rcases (hparams k v').1 (mem_of_getElem?_mapOf hv') with ⟨hmode, -⟩ | hextra'
      · exact absurd hmode hk
      · rwa [← hextra, hextra']

private theorem sameConnection_iff {c : ConnParams} {u : Uri} (h : c.DenotedBy u)
    (hreadable : c.UriReadable) :
    SameConnection u
        { user := c.userOrDefault, password := c.password, host := c.host
          port := decimal c.portOrDefault, dbname := c.databaseOrDefault, params := [] } ↔
      c.sslModeOrDefault = lit "prefer" ∧ ∀ p ∈ c.extra.toList, p.1 = lit "sslmode" := by
  have hdefault : ∀ (user password host port dbname k : GoString),
      optionValue { user, password, host, port, dbname, params := [] } k =
        if k = lit "sslmode" then some (lit "prefer") else none := by
    intro user password host port dbname k
    simp [optionValue, mapOf]
  have hoption := h.optionValue_eq hreadable
  obtain ⟨huser, hpassword, hhost, hport, hdbname, -⟩ := h
  simp only [SameConnection, huser, hpassword, hhost, hport, hdbname, true_and, hdefault, hoption]
  constructor
  · intro hsame
    refine ⟨by simpa using hsame (lit "sslmode"), fun p hp => ?_⟩
    by_contra hk
    have hnone := hsame p.1
    rw [if_neg hk, if_neg hk, Std.ExtTreeMap.mem_toList_iff_getElem?_eq_some.1 hp] at hnone
    cases hnone
  · rintro ⟨hmode, hextra⟩ k
    rw [hmode]
    split_ifs with hk
    · rfl
    · cases hget : c.extra[k]? with
      | none => rfl
      | some v =>
        exact absurd (hextra _ (Std.ExtTreeMap.mem_toList_iff_getElem?_eq_some.2 hget)) hk

/-- What libpq reads from the two URIs of one connection. -/
theorem connection_uris_iff {c : ConnParams} (hc : c.NulFree) (hhost : IsHostName c.host)
    (port : GoString) :
    ((∃ u, readUri c.uri = some u ∧ c.DenotedBy u) ↔ c.UriReadable) ∧
      (readUri (libpqURI c.host port c.database c.user c.password) =
          some
            { user := c.user, password := c.password, host := c.host, port
              dbname := c.database, params := [] } ↔
        LibpqReadable port c.database c.user c.password) ∧
      (c.UriReadable →
        LibpqReadable (decimal c.portOrDefault) c.databaseOrDefault c.userOrDefault c.password →
          ((∃ u v, readUri c.uri = some u ∧
              readUri (libpqURI c.host (decimal c.portOrDefault) c.databaseOrDefault
                c.userOrDefault c.password) = some v ∧ SameConnection u v) ↔
            c.sslModeOrDefault = lit "prefer" ∧ ∀ p ∈ c.extra.toList, p.1 = lit "sslmode")) := by
  refine ⟨ConnParams.denotedBy_uri_iff hc hhost, readUri_libpqURI_iff hhost, fun huri hplain => ?_⟩
  obtain ⟨u, hu, hdenoted⟩ := (ConnParams.denotedBy_uri_iff hc hhost).2 huri
  rw [hu, (readUri_libpqURI_iff hhost).2 hplain, ← sameConnection_iff hdenoted huri]
  simp

/-- An at sign in the name of the user is escaped. -/
theorem connection_uris_ordinary :
    (∃ u,
      readUri (ConnParams.uri
          { host := lit "db-rw.prod.svc", port := 6432, user := lit "app@corp"
            password := lit "a b/c:d", database := lit "orders", sslMode := lit "verify-full"
            extra := mapOf [(lit "connect_timeout", lit "10")] }) = some u ∧
        ConnParams.DenotedBy
          { host := lit "db-rw.prod.svc", port := 6432, user := lit "app@corp"
            password := lit "a b/c:d", database := lit "orders", sslMode := lit "verify-full"
            extra := mapOf [(lit "connect_timeout", lit "10")] } u) ∧
      readUri (libpqURI (lit "db-rw.prod.svc") (lit "6432") (lit "my db/1") (lit "app")
          (lit "a b:c?d")) =
        some
          { user := lit "app", password := lit "a b:c?d", host := lit "db-rw.prod.svc"
            port := lit "6432", dbname := lit "my db/1", params := [] } := by
  have hname : IsHostName (lit "db-rw.prod.svc") := forall_mem_of_all rfl
  constructor
  · refine (connection_uris_iff ⟨by decide, by decide, by decide, by decide, by decide +kernel⟩
      hname []).1.2 ⟨forall_mem_of_all rfl, by decide, by decide +kernel, fun v hv => ?_⟩
    have hnone : (mapOf [(lit "connect_timeout", lit "10")])[lit "sslmode"]? = none := by
      decide +kernel
    rw [hnone] at hv
    cases hv
  · exact (connection_uris_iff
      (c := { host := lit "db-rw.prod.svc", user := lit "app", password := lit "a b:c?d"
              database := lit "my db/1" })
      ⟨by decide, by decide, by decide, by decide, by decide +kernel⟩ hname
      (lit "6432")).2.1.2
        ⟨forall_mem_of_all rfl, forall_mem_of_all rfl, forall_mem_of_all rfl, forall_mem_of_all rfl⟩

/-- A database with a blank is read with the escape of the blank in its name. A password with
`@` and `/` moves the connection to another host. And of one connection that needs no escape,
only the first URI asks for TLS. -/
theorem connection_uris_differ :
    readUri (ConnParams.uri
        { host := lit "h", port := 5432, user := lit "u", password := lit "p"
          database := lit "my db", sslMode := lit "require" }) =
      some
        { user := lit "u", password := lit "p", host := lit "h", port := lit "5432"
          dbname := lit "my%20db", params := [(lit "sslmode", lit "require")] } ∧
    readUri (libpqURI (lit "h") (lit "5432") (lit "db") (lit "u") (lit "p@ss/w")) =
      some
        { user := lit "u", password := lit "p", host := lit "ss", port := []
          dbname := lit "w@h:5432/db", params := [] } ∧
    (∃ u v,
      readUri (ConnParams.uri
        { host := lit "h", port := 5432, user := lit "u", password := lit "p"
          database := lit "db", sslMode := lit "require" }) = some u ∧
      readUri (libpqURI (lit "h") (lit "5432") (lit "db") (lit "u") (lit "p")) = some v ∧
      optionValue u (lit "sslmode") = some (lit "require") ∧
      optionValue v (lit "sslmode") = some (lit "prefer")) := by
  refine ⟨by decide +kernel, by decide +kernel,
    { user := lit "u", password := lit "p", host := lit "h", port := lit "5432"
      dbname := lit "db", params := [(lit "sslmode", lit "require")] },
    { user := lit "u", password := lit "p", host := lit "h", port := lit "5432"
      dbname := lit "db", params := [] }, by decide +kernel, by decide +kernel, ?_, ?_⟩
  · decide +kernel
  · decide +kernel

end Athos.Store
