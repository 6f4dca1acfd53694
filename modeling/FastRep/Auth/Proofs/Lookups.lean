/-
Lookups of the authentication tables, and what the statements of this side
write: nothing references a pending registration, a token or a reset
request, so deleting some of them removes exactly these.

Each table has its lookup by key, its list of rows and its lookup by a
unique column; the lemmas say that they agree: what is found is stored under
its key, and what is stored is found.
-/
import FastRep.Auth.Effects
import FastRep.Txn.Proofs.Writes

namespace FastRep.Auth

open FastRep.Txn

variable {d d' : Db Row} {i : Id}

-- ============================================================ by the key

/-- What is found in the table is the row under its key. -/
theorem user?_eq_some {x : User} : user? d i = some x ↔ d.find? (.user i) = some (.user x) := by
  unfold user?
  split <;> simp_all

theorem pending?_eq_some {x : PendingRegistration} :
    pending? d i = some x ↔ d.find? (.pending i) = some (.pending x) := by
  unfold pending?
  split <;> simp_all

theorem token?_eq_some {x : RefreshToken} :
    token? d i = some x ↔ d.find? (.token i) = some (.token x) := by
  unfold token?
  split <;> simp_all

theorem reset?_eq_some {x : PasswordResetRequest} :
    reset? d i = some x ↔ d.find? (.reset i) = some (.reset x) := by
  unfold reset?
  split <;> simp_all

/-- The row under the key of a table is a row of that table. -/
theorem find?_user {r : Row} (h : d.find? (.user i) = some r) : ∃ x, r = .user x ∧ x.id = i := by
  have hk := Db.key_of_find? h
  cases r <;> simp_all [key]

theorem find?_pending {r : Row} (h : d.find? (.pending i) = some r) :
    ∃ x, r = .pending x ∧ x.id = i := by
  have hk := Db.key_of_find? h
  cases r <;> simp_all [key]

theorem find?_token {r : Row} (h : d.find? (.token i) = some r) :
    ∃ x, r = .token x ∧ x.id = i := by
  have hk := Db.key_of_find? h
  cases r <;> simp_all [key]

theorem find?_reset {r : Row} (h : d.find? (.reset i) = some r) :
    ∃ x, r = .reset x ∧ x.id = i := by
  have hk := Db.key_of_find? h
  cases r <;> simp_all [key]

theorem user?_id {x : User} (h : user? d i = some x) : x.id = i := by
  obtain ⟨y, hy, hi⟩ := find?_user (user?_eq_some.mp h)
  cases hy
  exact hi

theorem pending?_id {x : PendingRegistration} (h : pending? d i = some x) : x.id = i := by
  obtain ⟨y, hy, hi⟩ := find?_pending (pending?_eq_some.mp h)
  cases hy
  exact hi

theorem token?_id {x : RefreshToken} (h : token? d i = some x) : x.id = i := by
  obtain ⟨y, hy, hi⟩ := find?_token (token?_eq_some.mp h)
  cases hy
  exact hi

theorem reset?_id {x : PasswordResetRequest} (h : reset? d i = some x) : x.id = i := by
  obtain ⟨y, hy, hi⟩ := find?_reset (reset?_eq_some.mp h)
  cases hy
  exact hi

theorem pending?_eq_none : pending? d i = none ↔ d.find? (.pending i) = none := by
  cases hf : d.find? (.pending i) with
  | none => simp [pending?, hf]
  | some r =>
      obtain ⟨x, rfl, -⟩ := find?_pending hf
      simp [pending?, hf]

theorem token?_eq_none : token? d i = none ↔ d.find? (.token i) = none := by
  cases hf : d.find? (.token i) with
  | none => simp [token?, hf]
  | some r =>
      obtain ⟨x, rfl, -⟩ := find?_token hf
      simp [token?, hf]

theorem reset?_eq_none : reset? d i = none ↔ d.find? (.reset i) = none := by
  cases hf : d.find? (.reset i) with
  | none => simp [reset?, hf]
  | some r =>
      obtain ⟨x, rfl, -⟩ := find?_reset hf
      simp [reset?, hf]

-- ============================================================ as members

/-- The users are the rows of that kind. -/
theorem mem_users {x : User} : x ∈ users d ↔ .user x ∈ d.rows := by
  simp only [users, List.mem_filterMap]
  constructor
  · rintro ⟨r, hr, hx⟩
    split at hx
    next => cases hx; exact hr
    next => cases hx
  · exact fun hr => ⟨_, hr, rfl⟩

theorem mem_pendings {x : PendingRegistration} : x ∈ pendings d ↔ .pending x ∈ d.rows := by
  simp only [pendings, List.mem_filterMap]
  constructor
  · rintro ⟨r, hr, hx⟩
    split at hx
    next => cases hx; exact hr
    next => cases hx
  · exact fun hr => ⟨_, hr, rfl⟩

theorem mem_tokens {x : RefreshToken} : x ∈ tokens d ↔ .token x ∈ d.rows := by
  simp only [tokens, List.mem_filterMap]
  constructor
  · rintro ⟨r, hr, hx⟩
    split at hx
    next => cases hx; exact hr
    next => cases hx
  · exact fun hr => ⟨_, hr, rfl⟩

theorem mem_resets {x : PasswordResetRequest} : x ∈ resets d ↔ .reset x ∈ d.rows := by
  simp only [resets, List.mem_filterMap]
  constructor
  · rintro ⟨r, hr, hx⟩
    split at hx
    next => cases hx; exact hr
    next => cases hx
  · exact fun hr => ⟨_, hr, rfl⟩

/-- A row stands under its key. -/
theorem user?_of_mem {x : User} (h : .user x ∈ d.rows) : user? d x.id = some x :=
  user?_eq_some.mpr (Db.find?_of_mem h)

/-- A stored registration is found under its id. -/
theorem pending?_of_mem {x : PendingRegistration} (h : .pending x ∈ d.rows) :
    pending? d x.id = some x :=
  pending?_eq_some.mpr (Db.find?_of_mem h)

/-- A stored token is found under its id. -/
theorem token?_of_mem {x : RefreshToken} (h : .token x ∈ d.rows) : token? d x.id = some x :=
  token?_eq_some.mpr (Db.find?_of_mem h)

/-- A stored request is found under its id. -/
theorem reset?_of_mem {x : PasswordResetRequest} (h : .reset x ∈ d.rows) :
    reset? d x.id = some x :=
  reset?_eq_some.mpr (Db.find?_of_mem h)

/-- What the lookups by email find. -/
theorem userByEmail_eq_none {email : String} :
    userByEmail email d = none ↔ ∀ u ∈ users d, u.email ≠ email := by
  simp [userByEmail]

/-- What is found by address is a user with that address. -/
theorem mem_of_userByEmail {email : String} {u : User} (h : userByEmail email d = some u) :
    .user u ∈ d.rows ∧ u.email = email :=
  ⟨mem_users.mp (List.mem_of_find?_eq_some h), by simpa using List.find?_some h⟩

/-- What is found by address is a pending registration with it. -/
theorem mem_of_pendingByEmail {email : String} {x : PendingRegistration}
    (h : pendingByEmail email d = some x) : .pending x ∈ d.rows ∧ x.email = email :=
  ⟨mem_pendings.mp (List.mem_of_find?_eq_some h), by simpa using List.find?_some h⟩

-- ============================================================= deletions

/-- Only users are referenced. -/
theorem reference_user {r : Row} {ref : Key × OnDelete} (h : ref ∈ Schema.references r) :
    ∃ u, ref.1 = .user u := by
  cases r <;> simp_all [Schema.references]

/-- Deleting rows that are no users removes them alone. -/
theorem deletion_eq {ks : List Key} (hks : ∀ u, .user u ∉ ks) :
    d.deletion ks = ((d.rows.map key).filter (· ∈ ks)).map .erase :=
  Db.deletion_of_unreferenced fun r _ ref href hk => by
    obtain ⟨u, hu⟩ := reference_user href
    rw [hu] at hk
    exact hks u hk

/-- Only users are referred to, so deleting anything else erases one row. -/
theorem deletion_single {k : Key} {r : Row} (hk : ∀ u, k ≠ .user u) (h : d.find? k = some r) :
    d.deletion [k] = [.erase k] := by
  rw [deletion_eq fun u hu => hk u (List.mem_singleton.mp hu).symm]
  have hmem : k ∈ d.rows.map key :=
    List.mem_map.mpr ⟨r, Db.mem_of_find? h, Db.key_of_find? h⟩
  have hfilter : (d.rows.map key).filter (· ∈ [k]) = [k] := by
    simp only [List.mem_singleton]
    rw [List.filter_eq, List.count_eq_one_of_mem d.nodup hmem]
    rfl
  rw [hfilter]
  rfl

end FastRep.Auth
