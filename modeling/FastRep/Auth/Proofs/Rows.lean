/-
What a commit of the authentication side does to a row.

`Effect.changes` says of every write of every commit that it is one of six
changes: a row under a new id, a new password, a pending registration or a
reset request of which the columns that last are kept, a pending
registration dropped, a token revoked. From these alone follows what the
versions of a row have in common, that a row is created once, and that what
was removed stays removed.

# How it is used

The clauses of `Effect` differ from site to site; `Change` is what they have
in common. An invariant about single rows is proved over `Change`, and needs
a clause only where the reason of the change matters. `token_after`,
`pending_after`, `reset_after` and `user_after` say it for the row that is
found after a commit.

# Ids

`Uses` says which ids a commit uses up: those of the rows it inserts, and the
salt of a code it stores. Such a commit is counted, and a thread makes one,
so `usedOnce` follows, and with it the three lasting relations of tokens,
registrations and reset requests.
-/
import FastRep.Auth.Proofs.Requests
import FastRep.Txn.Proofs.Once

namespace FastRep.Auth

open FastRep.Txn

variable {cfg : Config} {start : AState} {t : Tid} {s : Site} {S S' : AState}
  {ws : List (Write Row Key)} {i : Id}

-- ============================================================ the changes

/-- The id in a key. -/
def Key.id : Key → Id
  | .user i | .pending i | .token i | .reset i => i

/-- What the versions of a pending registration have in common. -/
structure SamePending (x y : PendingRegistration) : Prop where
  id : y.id = x.id
  email : y.email = x.email
  passwordHash : y.passwordHash = x.passwordHash
  fullName : y.fullName = x.fullName
  language : y.language = x.language

/-- What the versions of a reset request have in common. -/
structure SameReset (x y : PasswordResetRequest) : Prop where
  id : y.id = x.id
  userId : y.userId = x.userId
  codeHash : y.codeHash = x.codeHash
  createdAt : y.createdAt = x.createdAt
  expiresAt : y.expiresAt = x.expiresAt
  attemptCount : x.attemptCount ≤ y.attemptCount
  used : y.usedAt = none → x.usedAt = none

/-- The rows a site creates. -/
def Site.creates : Site → Row → Bool
  | .register _, .pending _ | .verifyRegistration _ _ _, .user _
  | .verifyRegistration _ _ _, .token _ | .createToken _ _, .token _
  | .refresh _ _, .token _ | .forgotPassword _, .reset _ => true
  | _, _ => false

/-- A write of a commit: an insertion under an id the thread drew, with
nothing counted before; a new password, by a reset; a new version of a pending
registration, with its old code or a counted new one; a new version of an
unused reset request; the removal of a pending registration or a token. -/
inductive Change (t : Tid) (s : Site) (S : AState) : Write Row Key → Prop
  | insert (r : Row) : s.creates r = true → s.marked = true → marks S t = [] →
      (key r).id ∈ S.ids t → (∀ y, r = .pending y → y.codeHash.salt ∈ S.ids t) →
      Change t s S (.insert r)
  | password (x : User) (passwordHash : Hash) (requestId : Id) : user? S.db x.id = some x →
      s = .resetPassword x.id requestId → Change t s S (.update (.user { x with passwordHash }))
  | pending (x y : PendingRegistration) : pending? S.db x.id = some x → SamePending x y →
      (s.marked = true → marks S t = [] ∧ y.codeHash.salt ∈ S.ids t) →
      (s.marked = false → y.codeHash = x.codeHash ∧ y.lastSentAt = x.lastSentAt) →
      Change t s S (.update (.pending y))
  | reset (x y : PasswordResetRequest) : reset? S.db x.id = some x → x.usedAt = none →
      SameReset x y → Change t s S (.update (.reset y))
  | drop (x : PendingRegistration) : pending? S.db x.id = some x →
      Change t s S (.erase (.pending x.id))
  | revoke (x : RefreshToken) : token? S.db x.id = some x →
      Change t s S (.erase (.token x.id))

/-- Dropping pending registrations is a change of each of them. -/
theorem Drops.changes (h : Drops ws S) : ∀ w ∈ ws, Change t s S w := by
  obtain ⟨x, hx, -, rfl⟩ := h
  intro w hw
  cases List.mem_singleton.mp hw
  exact .drop x hx

/-- What a registration writes is a change of each of its rows. -/
theorem Registers.changes {email : String} (h : Registers cfg t email ws S) :
    ∀ w ∈ ws, Change t (.register email) S w := by
  rcases h with rfl | ⟨dto, pendingId, passwordHash, codeHash, now, drop, -, -, hids, hmarks, -,
    -, hdrop, -, -, rfl⟩
  · simp
  · intro w hw
    rcases List.mem_append.mp hw with hw | hw
    · rcases hdrop with rfl | hdrop
      · cases hw
      · exact hdrop.changes w hw
    · cases List.mem_singleton.mp hw
      refine .insert _ rfl rfl hmarks ?_ fun y hy => ?_
      · rw [hids]
        exact List.mem_cons_self
      · cases hy
        rw [hids]
        exact List.mem_cons_of_mem _ List.mem_cons_self

theorem Verifies.changes {email : String} {pendingId : Id} {codeHash : Hash}
    (h : Verifies cfg t email pendingId codeHash ws S) :
    ∀ w ∈ ws, Change t (.verifyRegistration email pendingId codeHash) S w := by
  obtain ⟨code, x, read, userId, now, createdAt, tokenId, tokenHash, expiresAt, -, -, -, hx, -, -,
    -, huser, htoken, hmarks, -, rfl⟩ := h
  intro w hw
  simp only [List.mem_cons, List.not_mem_nil, or_false] at hw
  rcases hw with rfl | rfl | rfl
  · have hid := pending?_id hx
    subst hid
    exact .drop x hx
  · exact .insert _ rfl rfl hmarks huser (by simp)
  · exact .insert _ rfl rfl hmarks htoken (by simp)

theorem Resends.changes {email : String} (hs : s.marked = true)
    (h : Resends cfg t email ws S) : ∀ w ∈ ws, Change t s S w := by
  rcases h with rfl | hdrop | ⟨x, codeHash, now, hx, -, -, -, hsalt, hmarks, rfl⟩
  · simp
  · exact hdrop.changes
  · intro w hw
    cases List.mem_singleton.mp hw
    exact .pending x _ hx ⟨rfl, rfl, rfl, rfl, rfl⟩ (fun _ => ⟨hmarks, hsalt⟩)
      fun h => by rw [hs] at h; cases h

theorem Withdraws.changes {pendingId : Id} {codeHash : Hash} (hs : s.marked = false)
    (h : Withdraws cfg t pendingId codeHash ws S) : ∀ w ∈ ws, Change t s S w := by
  rcases h.2 with rfl | ⟨x, expiresAt, hx, -, rfl⟩
  · simp
  · intro w hw
    cases List.mem_singleton.mp hw
    have hid := pending?_id hx
    subst hid
    exact .pending x _ hx ⟨rfl, rfl, rfl, rfl, rfl⟩ (fun h => by rw [hs] at h; cases h)
      fun _ => ⟨rfl, rfl⟩

theorem RecordsRegistration.changes {pendingId : Id} {codeHash : Hash} (hs : s.marked = false)
    (h : RecordsRegistration cfg t pendingId codeHash ws S) : ∀ w ∈ ws, Change t s S w := by
  rcases h.2 with ⟨rfl, -⟩ | ⟨x, y, hx, -, -, hy, hws⟩
  · simp
  · have hid := pending?_id hx
    subst hid
    have hsame : ∀ z, z = y ∨ z = { x with attemptCount := x.attemptCount + 1 } →
        Change t s S (.update (.pending z)) := by
      rintro z (rfl | rfl)
      · rcases hy with rfl | ⟨_, rfl, -⟩ <;>
          exact .pending x _ hx ⟨rfl, rfl, rfl, rfl, rfl⟩ (fun h => by rw [hs] at h; cases h)
            fun _ => ⟨rfl, rfl⟩
      · exact .pending x _ hx ⟨rfl, rfl, rfl, rfl, rfl⟩ (fun h => by rw [hs] at h; cases h)
          fun _ => ⟨rfl, rfl⟩
    intro w hw
    rcases hws with rfl | rfl
    · cases List.mem_singleton.mp hw
      exact hsame y (Or.inl rfl)
    · simp only [List.mem_cons, List.not_mem_nil, or_false] at hw
      rcases hw with rfl | rfl
      · exact hsame _ (Or.inr rfl)
      · exact hsame y (Or.inl rfl)

theorem RecordsReset.changes {requestId : Id} (h : RecordsReset cfg t requestId ws S) :
    ∀ w ∈ ws, Change t s S w := by
  rcases h.2 with ⟨rfl, -⟩ | ⟨x, y, hx, hunused, -, hy, hws⟩
  · simp
  · have hid := reset?_id hx
    subst hid
    have hsame : ∀ z, z = y ∨ z = { x with attemptCount := x.attemptCount + 1 } →
        Change t s S (.update (.reset z)) := by
      rintro z (rfl | rfl)
      · rcases hy with rfl | ⟨_, rfl, -⟩ <;>
          exact .reset x _ hx hunused ⟨rfl, rfl, rfl, rfl, rfl, Nat.le_succ _, fun _ => hunused⟩
      · exact .reset x _ hx hunused ⟨rfl, rfl, rfl, rfl, rfl, Nat.le_succ _, fun _ => hunused⟩
    intro w hw
    rcases hws with rfl | rfl
    · cases List.mem_singleton.mp hw
      exact hsame y (Or.inl rfl)
    · simp only [List.mem_cons, List.not_mem_nil, or_false] at hw
      rcases hw with rfl | rfl
      · exact hsame _ (Or.inr rfl)
      · exact hsame y (Or.inl rfl)

theorem Requests.changes {userId : Id} (h : Requests cfg t userId ws S) :
    ∀ w ∈ ws, Change t (.forgotPassword userId) S w := by
  obtain ⟨closed, requestId, codeHash, now, createdAt, hclosed, -, -, hids, hmarks, -, -, -,
    rfl⟩ := h
  intro w hw
  rcases List.mem_append.mp hw with hw | hw
  · obtain ⟨x, hx, rfl⟩ := List.mem_map.mp hw
    obtain ⟨hfind, -, hunused⟩ := hclosed x hx
    exact .reset x _ hfind hunused ⟨rfl, rfl, rfl, rfl, rfl, Nat.le_refl _, fun _ => hunused⟩
  · cases List.mem_singleton.mp hw
    refine .insert _ rfl rfl hmarks ?_ (by simp)
    rw [hids]
    exact List.mem_cons_self

theorem Resets.changes {userId requestId : Id} (h : Resets cfg t userId requestId ws S) :
    ∀ w ∈ ws, Change t (.resetPassword userId requestId) S w := by
  obtain ⟨_, _, _, x, read, u, passwordHash, now, closed, gone, -, -, -, hx, hunused, -, -, hu, -,
    -, hclosed, hgone, -, rfl⟩ := h
  have hxid := reset?_id hx
  have huid := user?_id hu
  subst hxid huid
  intro w hw
  rcases List.mem_append.mp hw with hw | hw
  · rcases List.mem_cons.mp hw with rfl | hw
    · exact .reset x _ hx hunused ⟨rfl, rfl, rfl, rfl, rfl, Nat.le_refl _, fun _ => hunused⟩
    · rcases List.mem_cons.mp hw with rfl | hw
      · exact .password u passwordHash x.id hu rfl
      · obtain ⟨y, hy, rfl⟩ := List.mem_map.mp hw
        obtain ⟨hfind, -, hunused, -⟩ := hclosed y hy
        exact .reset y _ hfind hunused ⟨rfl, rfl, rfl, rfl, rfl, Nat.le_refl _, fun _ => hunused⟩
  · obtain ⟨i, hi, rfl⟩ := List.mem_map.mp hw
    obtain ⟨y, hy, -⟩ := hgone i hi
    have hyid := token?_id hy
    subst hyid
    exact .revoke y hy

/-- Every write of every commit is one of the changes. -/
theorem Effect.changes (h : Effect cfg t s ws S) : ∀ w ∈ ws, Change t s S w := by
  cases s with
  | register email => exact Registers.changes h
  | verifyRegistration email pendingId codeHash => exact Verifies.changes h
  | resendRegistrationCode email => exact Resends.changes rfl h
  | withdrawRegistrationCode pendingId codeHash => exact Withdraws.changes rfl h
  | dropExpired pendingId =>
      rcases h with rfl | ⟨hdrop, -⟩
      · simp
      · exact hdrop.changes
  | recordFailedRegistrationAttempt pendingId codeHash => exact RecordsRegistration.changes rfl h
  | createToken userId tokenId =>
      obtain ⟨r, passwordHash, rfl, rfl, -, hid, hmarks, -⟩ := h
      intro w hw
      cases List.mem_singleton.mp hw
      exact .insert _ rfl rfl hmarks hid (by simp)
  | refresh tokenId nextTokenId =>
      obtain ⟨x, r, exp, hx, rfl, -, -, hid, hmarks, rfl⟩ := h
      have hxid := token?_id hx
      subst hxid
      intro w hw
      simp only [List.mem_cons, List.not_mem_nil, or_false] at hw
      rcases hw with rfl | rfl
      · exact .revoke x hx
      · exact .insert _ rfl rfl hmarks hid (by simp)
  | logout tokenId =>
      rcases h with rfl | ⟨x, hx, rfl⟩
      · simp
      · have hxid := token?_id hx
        subst hxid
        intro w hw
        cases List.mem_singleton.mp hw
        exact .revoke x hx
  | forgotPassword userId => exact Requests.changes h
  | withdrawReset requestId =>
      rcases h.2 with rfl | ⟨x, usedAt, hx, hunused, rfl⟩
      · simp
      · have hxid := reset?_id hx
        subst hxid
        intro w hw
        cases List.mem_singleton.mp hw
        exact .reset x _ hx hunused ⟨rfl, rfl, rfl, rfl, rfl, Nat.le_refl _, fun _ => hunused⟩
  | recordFailedResetAttempt requestId => exact RecordsReset.changes h
  | resetPassword userId requestId => exact Resets.changes h
  | _ =>
      have hnil : ws = [] := h
      simp [hnil]

-- ========================================================= ids used once

/-- A commit uses up the ids of the rows it inserts and the salt of the
code it stores. -/
def Uses (e : AEntry) (i : Id) : Prop :=
  ∃ s ws, e.event = .commit s ws ∧ ((∃ r, .insert r ∈ ws ∧ (key r).id = i) ∨
    s.marked = true ∧ ∃ y : PendingRegistration,
      (.insert (.pending y) ∈ ws ∨ .update (.pending y) ∈ ws) ∧ y.codeHash.salt = i)

/-- An insertion uses the id of its row. -/
theorem Uses.of_insert {r : Row} {sc : Scene Row Site Req Env} (h : .insert r ∈ ws) :
    Uses ⟨t, .commit s ws, sc⟩ (key r).id :=
  ⟨s, ws, rfl, Or.inl ⟨r, h, rfl⟩⟩

/-- Whoever uses an id has drawn it, and has used none before. -/
theorem Uses.drawn {sc : Scene Row Site Req Env} (hchanges : ∀ w ∈ ws, Change t s S w)
    (h : Uses ⟨t, .commit s ws, sc⟩ i) : i ∈ S.ids t ∧ marks S t = [] ∧ s.marked = true := by
  obtain ⟨_, _, hev, h⟩ := h
  cases hev
  rcases h with ⟨r, hr, rfl⟩ | ⟨hs, y, hy | hy, rfl⟩
  · cases hchanges _ hr with
    | insert _ _ hs hmarks hid _ => exact ⟨hid, hmarks, hs⟩
  · cases hchanges _ hy with
    | insert _ _ hs hmarks _ hsalt => exact ⟨hsalt y rfl, hmarks, hs⟩
  · cases hchanges _ hy with
    | pending x _ _ _ hmarked _ => exact ⟨(hmarked hs).2, (hmarked hs).1, hs⟩

/-- Every id is used at most once, since the commits that use one are counted.
-/
theorem usedOnce : UsedOnce (contract cfg start) marking Uses := by
  have hcommit : ∀ {e S₀ S₁ S} {i : Nat}, Past (contract cfg start) e S₀ S₁ S → Uses e i →
      ∃ s ws, e.event = .commit s ws ∧ i ∈ S₀.ids e.tid ∧ marks S₀ e.tid = [] ∧
        s.marked = true := by
    rintro ⟨t, ev, sc⟩ S₀ S₁ S i hpast hi
    obtain ⟨s, ws, hev, -⟩ := id hi
    cases hev
    obtain ⟨hC, -⟩ := hpast.commit rfl
    exact ⟨s, ws, rfl, hi.drawn hC.1.changes⟩
  refine ⟨fun hpast hi => ?_, fun hpast hi => ?_, fun hpast hi => ?_⟩
  · obtain ⟨_, _, -, hid, -⟩ := hcommit hpast hi
    exact hid
  · obtain ⟨_, _, -, -, hmarks, -⟩ := hcommit hpast hi
    exact hmarks
  · obtain ⟨s, ws, hev, -, -, hs⟩ := hcommit hpast hi
    exact ⟨s, ws, hev, hs⟩

-- =========================================================== rows after

/-- A token after a commit was there before, as it is, or was inserted. -/
theorem token_after (h : ∀ w ∈ ws, Change t s S w) {y : RefreshToken}
    (hy : token? (applyAll ws S.db) i = some y) :
    token? S.db i = some y ∨ .insert (.token y) ∈ ws := by
  obtain ⟨hmem, hkey⟩ := Db.find?_eq_some_iff.mp (token?_eq_some.mp hy)
  rcases mem_applyAll hmem with ⟨w, hw, hrow⟩ | hold
  · cases h w hw with
    | insert r =>
        cases hrow
        exact Or.inr hw
    | _ => cases hrow
  · exact Or.inl (token?_eq_some.mpr (Db.find?_eq_some_iff.mpr ⟨hold, hkey⟩))

/-- A registration after a commit was there before and not touched, or was
inserted, or updated under the same address. -/
theorem pending_after (h : ∀ w ∈ ws, Change t s S w) {y : PendingRegistration}
    (hy : pending? (applyAll ws S.db) i = some y) :
    (pending? S.db i = some y ∧ ∀ w ∈ ws, w.target ≠ .pending i) ∨ .insert (.pending y) ∈ ws ∨
      .update (.pending y) ∈ ws ∧ ∃ x, pending? S.db i = some x ∧ SamePending x y := by
  obtain ⟨hmem, hkey⟩ := Db.find?_eq_some_iff.mp (pending?_eq_some.mp hy)
  rcases mem_applyAll_or_kept hmem with ⟨w, hw, hrow⟩ | ⟨hold, hws⟩
  · cases h w hw with
    | insert r =>
        cases hrow
        exact Or.inr (Or.inl hw)
    | pending x y' hx hsame =>
        cases hrow
        have hid : x.id = i := by
          rw [← hsame.id]
          simpa [key] using hkey
        exact Or.inr (Or.inr ⟨hw, x, hid ▸ hx, hsame⟩)
    | _ => cases hrow
  · exact Or.inl ⟨pending?_eq_some.mpr (Db.find?_eq_some_iff.mpr ⟨hold, hkey⟩), hkey ▸ hws⟩

/-- A request after a commit was there before and not touched, or was
inserted, or updated while it was unused. -/
theorem reset_after (h : ∀ w ∈ ws, Change t s S w) {y : PasswordResetRequest}
    (hy : reset? (applyAll ws S.db) i = some y) :
    (reset? S.db i = some y ∧ ∀ w ∈ ws, w.target ≠ .reset i) ∨ .insert (.reset y) ∈ ws ∨
      .update (.reset y) ∈ ws ∧ ∃ x, reset? S.db i = some x ∧ x.usedAt = none ∧
        SameReset x y := by
  obtain ⟨hmem, hkey⟩ := Db.find?_eq_some_iff.mp (reset?_eq_some.mp hy)
  rcases mem_applyAll_or_kept hmem with ⟨w, hw, hrow⟩ | ⟨hold, hws⟩
  · cases h w hw with
    | insert r =>
        cases hrow
        exact Or.inr (Or.inl hw)
    | reset x y' hx hunused hsame =>
        cases hrow
        have hid : x.id = i := by
          rw [← hsame.id]
          simpa [key] using hkey
        exact Or.inr (Or.inr ⟨hw, x, hid ▸ hx, hunused, hsame⟩)
    | _ => cases hrow
  · exact Or.inl ⟨reset?_eq_some.mpr (Db.find?_eq_some_iff.mpr ⟨hold, hkey⟩), hkey ▸ hws⟩

/-- A user after a commit was there before and not touched, or was inserted,
or got a new password. -/
theorem user_after (h : ∀ w ∈ ws, Change t s S w) {y : User}
    (hy : user? (applyAll ws S.db) i = some y) :
    (user? S.db i = some y ∧ ∀ w ∈ ws, w.target ≠ .user i) ∨ .insert (.user y) ∈ ws ∨
      .update (.user y) ∈ ws ∧
        ∃ x, user? S.db i = some x ∧ y = { x with passwordHash := y.passwordHash } := by
  obtain ⟨hmem, hkey⟩ := Db.find?_eq_some_iff.mp (user?_eq_some.mp hy)
  rcases mem_applyAll_or_kept hmem with ⟨w, hw, hrow⟩ | ⟨hold, hws⟩
  · cases h w hw with
    | insert r =>
        cases hrow
        exact Or.inr (Or.inl hw)
    | password x passwordHash _ hx =>
        cases hrow
        have hid : x.id = i := by simpa [key] using hkey
        exact Or.inr (Or.inr ⟨hw, x, hid ▸ hx, rfl⟩)
    | _ => cases hrow
  · exact Or.inl ⟨user?_eq_some.mpr (Db.find?_eq_some_iff.mpr ⟨hold, hkey⟩), hkey ▸ hws⟩

-- ========================================================= rows that last

/-- At the start there are only users. -/
theorem Begins.find?_eq_none (h : Begins start) {k : Key} (hk : ∀ u, k ≠ .user u) :
    start.db.find? k = none := by
  rw [Db.find?_eq_none_iff]
  rintro r hr rfl
  obtain ⟨u, rfl, -⟩ := h.unused.rows r hr
  exact hk u.id rfl

/-- A token stays as it is until it is deleted, and does not come back. -/
theorem lasting_token (hstart : Begins start) (i : Id) :
    Lasting (contract cfg start) marking Uses (fun d => token? d i) Eq i where
  used := usedOnce
  trace := hstart.trace
  none := token?_eq_none.mpr (hstart.find?_eq_none (by simp))
  refl := fun _ => rfl
  trans := Eq.trans
  same := fun hC hfresh hx hy => by
    rcases token_after hC.1.changes hy with hold | hnew
    · exact Option.some.inj (hx.symm.trans hold)
    · exact absurd (token?_id hy ▸ Uses.of_insert hnew) hfresh
  new := fun hC hnone hy => by
    rcases token_after hC.1.changes hy with hold | hnew
    · cases hnone.symm.trans hold
    · exact token?_id hy ▸ Uses.of_insert hnew

/-- A pending registration keeps its address until it is deleted, and does not
come back. -/
theorem lasting_pending (hstart : Begins start) (i : Id) :
    Lasting (contract cfg start) marking Uses (fun d => pending? d i) SamePending i where
  used := usedOnce
  trace := hstart.trace
  none := pending?_eq_none.mpr (hstart.find?_eq_none (by simp))
  refl := fun _ => ⟨rfl, rfl, rfl, rfl, rfl⟩
  trans := fun h h' => ⟨h'.id.trans h.id, h'.email.trans h.email,
    h'.passwordHash.trans h.passwordHash, h'.fullName.trans h.fullName,
    h'.language.trans h.language⟩
  same := fun hC hfresh hx hy => by
    rcases pending_after hC.1.changes hy with ⟨hold, -⟩ | hnew | ⟨-, x, hx', hsame⟩
    · cases hx.symm.trans hold
      exact ⟨rfl, rfl, rfl, rfl, rfl⟩
    · exact absurd (pending?_id hy ▸ Uses.of_insert hnew) hfresh
    · cases hx.symm.trans hx'
      exact hsame
  new := fun hC hnone hy => by
    rcases pending_after hC.1.changes hy with ⟨hold, -⟩ | hnew | ⟨-, x, hx', -⟩
    · cases hnone.symm.trans hold
    · exact pending?_id hy ▸ Uses.of_insert hnew
    · cases hnone.symm.trans hx'

/-- A reset request keeps its user and its code, and does not come back. -/
theorem lasting_reset (hstart : Begins start) (i : Id) :
    Lasting (contract cfg start) marking Uses (fun d => reset? d i) SameReset i where
  used := usedOnce
  trace := hstart.trace
  none := reset?_eq_none.mpr (hstart.find?_eq_none (by simp))
  refl := fun _ => ⟨rfl, rfl, rfl, rfl, rfl, Nat.le_refl _, id⟩
  trans := fun h h' => ⟨h'.id.trans h.id, h'.userId.trans h.userId,
    h'.codeHash.trans h.codeHash, h'.createdAt.trans h.createdAt,
    h'.expiresAt.trans h.expiresAt, Nat.le_trans h.attemptCount h'.attemptCount,
    h.used ∘ h'.used⟩
  same := fun hC hfresh hx hy => by
    rcases reset_after hC.1.changes hy with ⟨hold, -⟩ | hnew | ⟨-, x, hx', -, hsame⟩
    · cases hx.symm.trans hold
      exact ⟨rfl, rfl, rfl, rfl, rfl, Nat.le_refl _, id⟩
    · exact absurd (reset?_id hy ▸ Uses.of_insert hnew) hfresh
    · cases hx.symm.trans hx'
      exact hsame
  new := fun hC hnone hy => by
    rcases reset_after hC.1.changes hy with ⟨hold, -⟩ | hnew | ⟨-, x, hx', -⟩
    · cases hnone.symm.trans hold
    · exact reset?_id hy ▸ Uses.of_insert hnew
    · cases hnone.symm.trans hx'

/-- The counted commits of a thread are in the trace, and only they. -/
theorem exists_of_marks (h : marks S t = [s]) :
    ∃ e ∈ S.trace, e.tid = t ∧ ∃ ws, e.event = .commit s ws := by
  have hmem : s ∈ S.marks marking t := by
    rw [show S.marks marking t = [s] from h]
    exact List.mem_cons_self
  exact Shared.exists_of_mem_marks hmem

/-- A thread without a counted commit has made none. -/
theorem not_commit_of_marks {e : AEntry} (h : marks S t = []) (he : e ∈ S.trace)
    (ht : e.tid = t) (hs : s.marked = true) : e.event ≠ .commit s ws := by
  intro hev
  have hmem : s ∈ S.marks marking e.tid := Shared.mem_marks he hev hs
  rw [ht, show S.marks marking t = [] from h] at hmem
  cases hmem

-- ========================================================== ended requests

/-- A thread ended with a result. -/
def Ends (S : AState) (t : Tid) (r : Except Error Res) : Prop :=
  ∃ e ∈ S.trace, e.tid = t ∧ e.event = .finish r

/-- A request ends as it has to, and all its commits are made by then. -/
theorem Runs.ended (hstart : Begins start) (h : Runs (contract cfg start) S)
    {r : Except Error Res} (hend : Ends S t r) :
    ∃ S₀, Runs (contract cfg start) S₀ ∧ S₀.trace <:+ S.trace ∧ Finishes t r S₀ ∧
      S₀.asked t = S.asked t ∧ ∀ e ∈ S.trace, e.tid = t →
        ∀ s ws, e.event = .commit s ws → e ∈ S₀.trace := by
  obtain ⟨e, he, rfl, hev⟩ := hend
  obtain ⟨newer, older, htr⟩ := List.append_of_mem he
  obtain ⟨S₀, S₁, hpast, rfl⟩ := h.at hstart.trace htr
  refine ⟨S₀, hpast.runs, (List.suffix_cons _ _).trans hpast.suffix, ?_, ?_, ?_⟩
  · have hpromise := hpast.promised
    rw [hev] at hpromise
    exact hpromise
  · exact hpast.asked (by rw [hev]; simp)
  · intro e' he' ht s ws hev'
    rw [htr] at he'
    rcases List.mem_append.mp he' with hnewer | hrest
    · -- a thread that ended commits nothing
      obtain ⟨newest, between, rfl⟩ := List.append_of_mem hnewer
      rw [List.append_assoc] at htr
      obtain ⟨S₂, S₃, hpast', htr'⟩ := h.at hstart.trace htr
      obtain ⟨q, -, hlive, -⟩ := (hpast'.commit hev').1.2
      rw [ht] at hlive
      refine absurd hlive (Runs.not_live_of_finish hstart.trace hpast'.runs ?_ hev q)
      rw [htr']
      exact List.mem_append_right _ List.mem_cons_self
    · rcases List.mem_cons.mp hrest with rfl | holder
      · cases hev'.symm.trans hev
      · exact holder

/-- The site of a thread's commit belongs to the request it serves. -/
theorem Runs.servedBy (hstart : Begins start) (h : Runs (contract cfg start) S) {e : AEntry}
    (he : e ∈ S.trace) (hev : e.event = .commit s ws) {q : Req} (hq : S.asked e.tid = [q]) :
    s.servedBy q = true := by
  obtain ⟨S₀, S₁, hpast⟩ := h.since hstart.trace he
  obtain ⟨q', hasked, -, hs⟩ := (hpast.commit hev).1.2
  rw [hpast.asked (by rw [hev]; simp), hq] at hasked
  cases hasked
  exact hs

end FastRep.Auth
