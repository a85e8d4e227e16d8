import Athos.Base.GoMap
import Athos.User.Escape

/-!
# Plans for users

`src/internal/userstate/userstate.go`: the statements that create or refresh a user, and those that
revoke what it holds. Roles, databases and privileges are sorted first, so a plan shows nothing of
the order in which they were given. A plan that is not refused is the text of a list of statements,
which the results about tokens and about database states share.
-/

namespace Athos.Userstate

open Base Athos.User List Std.ExtTreeMap

/-- `User`; `userstate.go:31-38`. -/
structure User where
  name : GoString
  password : GoString
  superuser : Bool
  connectionLimit : Int
  roles : List GoString
  grantsByDatabase : GoMap (List GoString)

/-- `sorted`; `userstate.go:123-127`. -/
def sorted (S : SliceSort) (items : List GoString) : List GoString := sortStrings S items

/-- `sortedKeys`; `userstate.go:129-136`. The keys are given in the order of `range`. -/
def sortedKeys (S : SliceSort) (keys : List GoString) : List GoString := sortStrings S keys

/-- What was granted on a database, nothing if there is no entry. -/
def User.grants (u : User) (db : GoString) : List GoString := u.grantsByDatabase.getD db []

/-- The body of the loop over roles; `userstate.go:76-80`. -/
def planRole (T : RuneTables) (name role : GoString) : Except GoString GoString :=
  if !isValidIdentifier T role then
    .error (lit "userstate: invalid role name " ++ goQuote T role)
  else .ok (lit "GRANT " ++ identifier role ++ lit " TO " ++ name)

/-- The body of the loop over privileges; `userstate.go:88-94`. -/
def planGrant (T : RuneTables) (name db g : GoString) : Except GoString GoString :=
  if !isValidIdentifier T g then .error (lit "userstate: invalid privilege " ++ goQuote T g)
  else .ok (lit "GRANT " ++ g ++ lit " ON DATABASE " ++ identifier db ++ lit " TO " ++ name)

/-- The body of the loop over databases; `userstate.go:82-95`. -/
def planDatabase (T : RuneTables) (S : SliceSort) (u : User) (name db : GoString) :
    Except GoString (List GoString) :=
  if !isValidIdentifier T db then
    .error (lit "userstate: invalid database name " ++ goQuote T db)
  else (sorted S (u.grants db)).mapM (planGrant T name db)

/-- `Plan`; `userstate.go:45-98`. -/
def plan (T : RuneTables) (S : SliceSort) (keys : List GoString) (u : User) (exist : Bool) :
    Except GoString (List GoString) :=
  if u.name = [] then .error (lit "userstate: user name is required")
  else if !isValidIdentifier T u.name then
    .error (lit "userstate: invalid user name " ++ goQuote T u.name)
  else if !assertSafePassword u.password then
    .error (lit "userstate: sqlescape: password contains an unsafe character")
  else do
    let name := identifier u.name
    let header := if exist then lit "ALTER USER" else lit "CREATE USER"
    let attributes := [header ++ lit " " ++ name ++ lit " WITH LOGIN"] ++
      (if u.password ≠ [] then
        [lit "ALTER USER " ++ name ++ lit " WITH PASSWORD " ++ stringLiteral u.password]
      else []) ++
      [lit "ALTER USER " ++ name ++
        (if u.superuser then lit " SUPERUSER" else lit " NOSUPERUSER")] ++
      (if u.connectionLimit ≠ 0 then
        [lit "ALTER USER " ++ name ++ lit " CONNECTION LIMIT " ++ decimal u.connectionLimit]
      else [])
    let roles ← (sorted S u.roles).mapM (planRole T name)
    let grants ← (sortedKeys S keys).mapM (planDatabase T S u name)
    return attributes ++ roles ++ grants.flatten

/-- `PlanRevoke`; `userstate.go:104-121`. -/
def planRevoke (T : RuneTables) (S : SliceSort) (keys : List GoString) (u : User) :
    List GoString :=
  if !isValidIdentifier T u.name then []
  else
    let name := identifier u.name
    ((sortedKeys S keys).filter (isValidIdentifier T)).map (fun db =>
      lit "REVOKE ALL ON DATABASE " ++ identifier db ++ lit " FROM " ++ name) ++
    [lit "REASSIGN OWNED BY " ++ name ++ lit " TO postgres", lit "DROP OWNED BY " ++ name,
      lit "DROP USER IF EXISTS " ++ name]

/-- Two users that differ in the order of roles and of privileges only. -/
structure SameUpToOrder (u v : User) : Prop where
  name : u.name = v.name
  password : u.password = v.password
  superuser : u.superuser = v.superuser
  connectionLimit : u.connectionLimit = v.connectionLimit
  roles : u.roles.Perm v.roles
  grantsByDatabase : ∀ db : GoString,
    Option.Rel List.Perm u.grantsByDatabase[db]? v.grantsByDatabase[db]?

section

variable {u v : User} (h : SameUpToOrder u v)

include h

private theorem SameUpToOrder.keys : u.grantsByDatabase.keys.Perm v.grantsByDatabase.keys := by
  refine (perm_ext_iff_of_nodup nodup_keys nodup_keys).2
    fun db => ?_
  rw [Std.ExtTreeMap.mem_keys, Std.ExtTreeMap.mem_keys, mem_iff_isSome_getElem?,
    mem_iff_isSome_getElem?]
  have hrel := h.grantsByDatabase db
  generalize u.grantsByDatabase[db]? = gs, v.grantsByDatabase[db]? = gs' at hrel ⊢
  cases hrel <;> rfl

private theorem SameUpToOrder.grants (db : GoString) : (u.grants db).Perm (v.grants db) := by
  rw [User.grants, User.grants, getD_eq_getD_getElem?, getD_eq_getD_getElem?]
  have hrel := h.grantsByDatabase db
  generalize u.grantsByDatabase[db]? = gs, v.grantsByDatabase[db]? = gs' at hrel ⊢
  cases hrel with
  | some hp => exact hp
  | none => exact .refl []

end

/-- Plans do not depend on the order of presentation. Two users equal up to the order of their
roles and of the privileges for each database get the same statements or the same error, and
the same statements for revocation, in whatever order the keys of the two maps are visited and
whichever correct sort is used. -/
theorem plan_eq_of_sameUpToOrder (T : RuneTables) (S S' : SliceSort) {u v : User}
    (h : SameUpToOrder u v) {keys keys' : List GoString} (hkeys : Ranges u.grantsByDatabase keys)
    (hkeys' : Ranges v.grantsByDatabase keys') :
    (∀ exist, plan T S keys u exist = plan T S' keys' v exist) ∧
      planRevoke T S keys u = planRevoke T S' keys' v := by
  have hroles : sorted S u.roles = sorted S' v.roles := sortStrings_eq_of_perm S S' h.roles
  have hsorted : sortedKeys S keys = sortedKeys S' keys' :=
    sortStrings_eq_of_perm S S' (hkeys.trans (h.keys.trans hkeys'.symm))
  have hgrants : planDatabase T S u = planDatabase T S' v := by
    funext name db
    rw [planDatabase, planDatabase, sorted, sorted, sortStrings_eq_of_perm S S' (h.grants db)]
  refine ⟨fun exist => ?_, ?_⟩
  · simp only [plan, h.name, h.password, h.superuser, h.connectionLimit, hroles, hsorted, hgrants]
  · simp only [planRevoke, h.name, hsorted]

/-- A user with two roles and privileges on two databases. -/
def sampleUser (roles privileges : List GoString) : User where
  name := lit "alice"
  password := lit "it's"
  superuser := false
  connectionLimit := 5
  roles := roles
  grantsByDatabase := ((∅ : GoMap (List GoString)).insert (lit "app") privileges).insert
    (lit "logs") [lit "CONNECT"]

/-- Roles and privileges in the other order, and the databases too. -/
theorem plan_sampleUser_reordered :
    plan .basic .insertion [lit "logs", lit "app"]
        (sampleUser [lit "b", lit "a"] [lit "TEMP", lit "CONNECT"]) true =
      plan .basic .insertion [lit "app", lit "logs"]
        (sampleUser [lit "a", lit "b"] [lit "CONNECT", lit "TEMP"]) true := by
  have hsame : SameUpToOrder (sampleUser [lit "b", lit "a"] [lit "TEMP", lit "CONNECT"])
      (sampleUser [lit "a", lit "b"] [lit "CONNECT", lit "TEMP"]) := by
    refine ⟨rfl, rfl, rfl, rfl, by decide, fun db => ?_⟩
    simp only [sampleUser, Std.ExtTreeMap.getElem?_insert]
    split_ifs
    · exact .some (.refl _)
    · exact .some (by decide)
    · rw [getElem?_empty]
      exact .none
  exact (plan_eq_of_sameUpToOrder .basic .insertion .insertion hsame (by decide +kernel)
    (by decide +kernel)).1 true

/-- The statements of a plan, with the values they name. -/
inductive Statement where
  | login (exist : Bool) (name : GoString)
  | password (name pw : GoString)
  | superuser (name : GoString) (su : Bool)
  | connectionLimit (name : GoString) (limit : Int)
  | grantRole (role name : GoString)
  | grantOnDatabase (privilege database name : GoString)
  deriving DecidableEq

/-- The text of a statement. -/
def Statement.render : Statement → GoString
  | .login exist name =>
    (if exist then lit "ALTER USER" else lit "CREATE USER") ++ lit " " ++ identifier name ++
      lit " WITH LOGIN"
  | .password name pw =>
    lit "ALTER USER " ++ identifier name ++ lit " WITH PASSWORD " ++ stringLiteral pw
  | .superuser name su =>
    lit "ALTER USER " ++ identifier name ++
      (if su then lit " SUPERUSER" else lit " NOSUPERUSER")
  | .connectionLimit name limit =>
    lit "ALTER USER " ++ identifier name ++ lit " CONNECTION LIMIT " ++ decimal limit
  | .grantRole role name => lit "GRANT " ++ identifier role ++ lit " TO " ++ identifier name
  | .grantOnDatabase privilege database name =>
    lit "GRANT " ++ privilege ++ lit " ON DATABASE " ++ identifier database ++ lit " TO " ++
      identifier name

/-- The statements about the role itself. -/
def User.attributes (u : User) (exist : Bool) : List Statement :=
  [.login exist u.name] ++
    (if u.password ≠ [] then [.password u.name u.password] else []) ++
    [.superuser u.name u.superuser] ++
    if u.connectionLimit ≠ 0 then [.connectionLimit u.name u.connectionLimit] else []

/-- The statements of a plan, if nothing is refused. -/
def planStatements (S : SliceSort) (keys : List GoString) (u : User) (exist : Bool) :
    List Statement :=
  u.attributes exist ++ (sorted S u.roles).map (Statement.grantRole · u.name) ++
    (sortedKeys S keys).flatMap fun db =>
      (sorted S (u.grants db)).map (Statement.grantOnDatabase · db u.name)

/-- A user that no check of `Plan` refuses. -/
structure User.Valid (T : RuneTables) (u : User) : Prop where
  name : isValidIdentifier T u.name = true
  password : assertSafePassword u.password = true
  roles : ∀ role ∈ u.roles, isValidIdentifier T role = true
  databases : ∀ db ∈ u.grantsByDatabase, isValidIdentifier T db = true
  privileges : ∀ db ∈ u.grantsByDatabase, ∀ g ∈ u.grants db, isValidIdentifier T g = true

section

variable {T : RuneTables} {S : SliceSort} {keys out : List GoString} {u : User} {exist : Bool}

/-- Sorting keeps the members. -/
theorem mem_sorted {s : GoString} {items : List GoString} : s ∈ sorted S items ↔ s ∈ items :=
  (S.perm less items).mem_iff

/-- The sorted keys are those of the map. -/
theorem mem_sortedKeys (hkeys : Ranges u.grantsByDatabase keys) {db : GoString} :
    db ∈ sortedKeys S keys ↔ db ∈ u.grantsByDatabase :=
  (S.perm less keys).mem_iff.trans hkeys.mem_iff

/-- The statements about attributes. -/
theorem mem_attributes {st : Statement} (h : st ∈ u.attributes exist) :
    st = .login exist u.name ∨ st = .password u.name u.password ∨
      st = .superuser u.name u.superuser ∨ st = .connectionLimit u.name u.connectionLimit := by
  simp only [User.attributes, mem_append, mem_singleton, mem_ite_nil_right] at h
  tauto

/-- The statements of a plan. -/
theorem mem_planStatements (hkeys : Ranges u.grantsByDatabase keys) {st : Statement} :
    st ∈ planStatements S keys u exist ↔ st ∈ u.attributes exist ∨
      (∃ role ∈ u.roles, st = .grantRole role u.name) ∨
      ∃ db ∈ u.grantsByDatabase, ∃ g ∈ u.grants db, st = .grantOnDatabase g db u.name := by
  simp only [planStatements, mem_append, List.mem_map, mem_flatMap, mem_sorted,
    mem_sortedKeys hkeys, or_assoc, eq_comm]

private theorem mapM_eq_ok_iff {α β ε : Type} {f : α → Except ε β} {P : α → Prop} {g : α → β}
    (hf : ∀ a b, f a = .ok b ↔ P a ∧ b = g a) (l : List α) (bs : List β) :
    l.mapM f = .ok bs ↔ (∀ a ∈ l, P a) ∧ bs = l.map g := by
  induction l generalizing bs with
  | nil => simp [pure, Except.pure, eq_comm]
  | cons a l ih =>
    rw [mapM_cons, forall_mem_cons, map_cons]
    cases ha : f a with
    | error e =>
      have hnot : ¬ P a := fun hp => by
        rw [(hf a (g a)).2 ⟨hp, rfl⟩] at ha
        cases ha
      simp [hnot, bind, Except.bind]
    | ok b =>
      obtain ⟨hp, rfl⟩ := (hf a b).1 ha
      simp only [hp, true_and, bind, Except.bind]
      cases hl : l.mapM f with
      | error e =>
        have hnot : ¬ ∀ a ∈ l, P a := fun hall => by
          rw [(ih (l.map g)).2 ⟨hall, rfl⟩] at hl
          cases hl
        simp [hnot]
      | ok cs =>
        obtain ⟨hall, rfl⟩ := (ih cs).1 hl
        exact ⟨fun h => ⟨hall, (Except.ok.inj h).symm⟩, fun h => congrArg Except.ok h.2.symm⟩

private theorem planRole_eq_ok_iff (role text : GoString) :
    planRole T (identifier u.name) role = .ok text ↔
      isValidIdentifier T role = true ∧ text = (Statement.grantRole role u.name).render := by
  rw [planRole, Statement.render]
  cases isValidIdentifier T role <;> simp [eq_comm]

private theorem planGrant_eq_ok_iff (db g text : GoString) :
    planGrant T (identifier u.name) db g = .ok text ↔
      isValidIdentifier T g = true ∧
        text = (Statement.grantOnDatabase g db u.name).render := by
  rw [planGrant, Statement.render]
  cases isValidIdentifier T g <;> simp [eq_comm]

private theorem planDatabase_eq_ok_iff (db : GoString) (texts : List GoString) :
    planDatabase T S u (identifier u.name) db = .ok texts ↔
      (isValidIdentifier T db = true ∧ ∀ g ∈ u.grants db, isValidIdentifier T g = true) ∧
        texts = (sorted S (u.grants db)).map
          fun g => (Statement.grantOnDatabase g db u.name).render := by
  rw [planDatabase]
  cases isValidIdentifier T db with
  | false => simp
  | true =>
    have hgrants := mapM_eq_ok_iff (planGrant_eq_ok_iff (T := T) (u := u) db)
      (sorted S (u.grants db)) texts
    simpa [mem_sorted] using hgrants

private theorem plan_of_name (hname : isValidIdentifier T u.name = true)
    (hpassword : assertSafePassword u.password = true) :
    plan T S keys u exist =
      (sorted S u.roles).mapM (planRole T (identifier u.name)) >>= fun roles =>
        (sortedKeys S keys).mapM (planDatabase T S u (identifier u.name)) >>= fun grants =>
          .ok ((u.attributes exist).map Statement.render ++ roles ++ grants.flatten) := by
  have hattributes : (u.attributes exist).map Statement.render =
      [(if exist then lit "ALTER USER" else lit "CREATE USER") ++ lit " " ++ identifier u.name ++
        lit " WITH LOGIN"] ++
      (if u.password ≠ [] then [lit "ALTER USER " ++ identifier u.name ++
        lit " WITH PASSWORD " ++ stringLiteral u.password] else []) ++
      [lit "ALTER USER " ++ identifier u.name ++
        (if u.superuser then lit " SUPERUSER" else lit " NOSUPERUSER")] ++
      (if u.connectionLimit ≠ 0 then [lit "ALTER USER " ++ identifier u.name ++
        lit " CONNECTION LIMIT " ++ decimal u.connectionLimit] else []) := by
    simp only [User.attributes, map_append, apply_ite (List.map Statement.render)]
    rfl
  rw [plan, if_neg (ne_nil_of_isValidIdentifier hname), hname, hpassword, hattributes]
  rfl

private theorem name_of_plan (h : plan T S keys u exist = .ok out) :
    isValidIdentifier T u.name = true ∧ assertSafePassword u.password = true := by
  have hname : isValidIdentifier T u.name = true := by
    by_contra hc
    rw [Bool.not_eq_true] at hc
    rw [plan, hc] at h
    split at h <;> cases h
  refine ⟨hname, ?_⟩
  by_contra hc
  rw [Bool.not_eq_true] at hc
  rw [plan, hname, hc] at h
  split at h <;> cases h

private theorem render_planStatements :
    (planStatements S keys u exist).map Statement.render =
      (u.attributes exist).map Statement.render ++
        (sorted S u.roles).map (fun role => (Statement.grantRole role u.name).render) ++
        ((sortedKeys S keys).map fun db => (sorted S (u.grants db)).map
          fun g => (Statement.grantOnDatabase g db u.name).render).flatten := by
  rw [planStatements, map_append, map_append, List.map_map, map_flatMap, flatMap_def]
  simp only [List.map_map]
  rfl

/-- A plan is the text of its statements, for the users that no check refuses. -/
theorem plan_eq_ok_iff (hkeys : Ranges u.grantsByDatabase keys) :
    plan T S keys u exist = .ok out ↔
      u.Valid T ∧ out = (planStatements S keys u exist).map Statement.render := by
  have hroles := mapM_eq_ok_iff (planRole_eq_ok_iff (T := T) (u := u)) (sorted S u.roles)
  have hdatabases := mapM_eq_ok_iff (planDatabase_eq_ok_iff (T := T) (S := S) (u := u))
    (sortedKeys S keys)
  constructor
  · intro h
    obtain ⟨hname, hpassword⟩ := name_of_plan h
    rw [plan_of_name hname hpassword] at h
    cases hr : (sorted S u.roles).mapM (planRole T (identifier u.name)) with
    | error e => rw [hr] at h; cases h
    | ok roles =>
      cases hd : (sortedKeys S keys).mapM (planDatabase T S u (identifier u.name)) with
      | error e => rw [hr, hd] at h; cases h
      | ok grants =>
        obtain ⟨hvalid, rfl⟩ := (hroles roles).1 hr
        obtain ⟨hvalid', rfl⟩ := (hdatabases grants).1 hd
        simp only [mem_sorted, mem_sortedKeys hkeys] at hvalid hvalid'
        rw [hr, hd] at h
        refine ⟨⟨hname, hpassword, hvalid, fun db hdb => (hvalid' db hdb).1,
          fun db hdb => (hvalid' db hdb).2⟩, ?_⟩
        rw [← Except.ok.inj h, render_planStatements]
  · rintro ⟨hvalid, rfl⟩
    have hr := (hroles _).2 ⟨fun role hrole => hvalid.roles role (mem_sorted.1 hrole), rfl⟩
    have hd := (hdatabases _).2 ⟨fun db hdb =>
      ⟨hvalid.databases db ((mem_sortedKeys hkeys).1 hdb),
        hvalid.privileges db ((mem_sortedKeys hkeys).1 hdb)⟩, rfl⟩
    rw [plan_of_name hvalid.name hvalid.password, hr, hd, render_planStatements]
    rfl

end

end Athos.Userstate
