/-
Mailed codes are single-use, and only the latest one works.

A code belongs to a row: a pending registration stores the hash of the code
issued for it last (`Runs.lastCode`), a reset request keeps the one it was
created with. A success removes the pending registration or closes the
request, and neither comes back. Withdrawing a code is guarded by its hash,
which tells it from every later one because salts are drawn once.

# Registration

`LastGives` picks out of the trace the entry that gave a pending registration
its last code. A commit that gives a code uses up the salt it hashes with
(`Gives.uses`), so it is the only one with that hash, and a withdrawal that
finds the hash withdraws the last code, its own (`Runs.withdraws_own`). A
verification compares with what is stored, and its commit removes the row:
`Runs.verified_gone`, `Runs.verified_once`.

# Recovery

A reset updates its request from unused to used, and used requests stay so
(`Runs.reset_once`). A user has one unused request at most
(`Runs.oneUnused`): the partial unique index, and `forgotPassword` closes the
others in the transaction that makes a new one.

# The main result

`SingleUse` has a field for each part: no code works twice, no other than
the latest one works, and a success does what it says and nothing else.
-/
import FastRep.Auth.Proofs.Rows

namespace FastRep.Auth

open FastRep.Txn

variable {cfg : Config} {start : AState} {t : Tid} {s : Site} {S S' : AState}
  {ws : List (Write Row Key)} {pendingId requestId userId : Id} {codeHash : Hash} {e : AEntry}

-- ====================================================== where rows are from

/-- A `register` call created the pending registration. -/
def Registered (S : AState) (x : PendingRegistration) : Prop :=
  ∃ e ∈ S.trace, ∃ dto ws y, S.asked e.tid = [.register dto] ∧
    e.event = .commit (.register dto.email) ws ∧ .insert (.pending y) ∈ ws ∧
    y.passwordHash.value = .text dto.password ∧ y.fullName = dto.fullName ∧
    y.language = dto.language.getD "en" ∧ y.email = dto.email ∧ SamePending y x

/-- The row `register` inserts. -/
theorem Registers.inserted {email : String} {y : PendingRegistration}
    (h : Registers cfg t email ws S) (hy : .insert (.pending y) ∈ ws) :
    ∃ dto, S.asked t = [.register dto] ∧ dto.email = email ∧
      y.passwordHash.value = .text dto.password ∧ y.fullName = dto.fullName ∧
      y.language = dto.language.getD "en" ∧ y.email = dto.email := by
  rcases h with rfl | ⟨dto, pendingId, passwordHash, codeHash, now, drop, hasked, hemail, -, -,
    hvalue, -, hdrop, -, -, rfl⟩
  · cases hy
  · rcases List.mem_append.mp hy with hy | hy
    · rcases hdrop with rfl | ⟨x, -, -, rfl⟩
      · cases hy
      · simp at hy
    · cases List.mem_singleton.mp hy
      exact ⟨dto, hasked, hemail, hvalue, rfl, rfl, rfl⟩

/-- A registered address stays registered whoever moves. -/
theorem Registered.move {j : Tid} {x : PendingRegistration} (h : Registered S x)
    (hm : Move (contract cfg start) j S S') : Registered S' x := by
  obtain ⟨e, he, dto, ws, y, hasked, hrest⟩ := h
  exact ⟨e, hm.trace_suffix.subset he, dto, ws, y,
    (hm.asked_of_mem ⟨e, he, rfl⟩).trans hasked, hrest⟩

/-- The versions of a row are registered together. -/
theorem Registered.same {x y : PendingRegistration} (h : Registered S x)
    (hsame : SamePending x y) : Registered S y := by
  obtain ⟨e, he, dto, ws, z, hasked, hev, hmem, hvalue, hname, hlanguage, hemail, hz⟩ := h
  exact ⟨e, he, dto, ws, z, hasked, hev, hmem, hvalue, hname, hlanguage, hemail,
    hsame.id.trans hz.id, hsame.email.trans hz.email,
    hsame.passwordHash.trans hz.passwordHash, hsame.fullName.trans hz.fullName,
    hsame.language.trans hz.language⟩

/-- Every pending registration comes from a `register` call. -/
theorem Runs.registered (hstart : Begins start) (h : Runs (contract cfg start) S)
    {x : PendingRegistration} (hx : pending? S.db pendingId = some x) : Registered S x := by
  refine h.invariant (I := fun S => ∀ i x, pending? S.db i = some x → Registered S x)
    (fun i x hx => ?_) ?_ pendingId x hx
  · have hnone := pending?_eq_none.mpr (hstart.find?_eq_none (k := .pending i) (by simp))
    cases hnone.symm.trans hx
  · intro t S S' hruns ih hm i y hy
    rcases hm.commit_or with ⟨s, ws, hC, -, rfl⟩ | ⟨hdb, -⟩
    · rcases pending_after hC.1.changes hy with ⟨hold, -⟩ | hnew | ⟨-, x, hx, hsame⟩
      · exact (ih i y hold).move hm
      · cases hC.1.changes _ hnew with
        | insert _ hs _ _ _ _ =>
            cases s with
            | register email =>
                obtain ⟨dto, hasked, rfl, hrest⟩ := Registers.inserted hC.1 hnew
                have hlater : (S.commit t (.register dto.email) ws).asked t
                    = S.asked t := by simp [Shared.asked, Shared.commit, Shared.log]
                exact ⟨_, List.mem_cons_self, dto, ws, y, hlater.trans hasked, rfl, hnew,
                  hrest.1, hrest.2.1, hrest.2.2.1, hrest.2.2.2, rfl, rfl, rfl, rfl, rfl⟩
            | _ => cases hs
      · exact ((ih i x hx).move hm).same hsame
    · exact (ih i y (hdb ▸ hy)).move hm

-- ========================================================= the last code

/-- The entry gives a pending registration a code. -/
def Gives (e : AEntry) (pendingId : Id) (codeHash : Hash) : Prop :=
  ∃ s ws, e.event = .commit s ws ∧ s.marked = true ∧ Issues pendingId codeHash ws

/-- A code is given once. -/
theorem Gives.uses (h : Gives e pendingId codeHash) : Uses e codeHash.salt := by
  obtain ⟨s, ws, hev, hs, y, -, rfl, hmem⟩ := h
  exact ⟨s, ws, hev, Or.inr ⟨hs, y, hmem, rfl⟩⟩

/-- The entry is the last one that gave the pending registration a code,
and gave it this one. -/
def LastGives (tr : List AEntry) (e : AEntry) (pendingId : Id) (codeHash : Hash) : Prop :=
  ∃ newer older, tr = newer ++ e :: older ∧ Gives e pendingId codeHash ∧
    ∀ e' ∈ newer, ∀ codeHash', ¬ Gives e' pendingId codeHash'

/-- An event that gives no code does not change which event gave the last one.
-/
theorem LastGives.cons {tr : List AEntry} {e' : AEntry}
    (h : LastGives tr e pendingId codeHash) (hnew : ∀ codeHash', ¬ Gives e' pendingId codeHash') :
    LastGives (e' :: tr) e pendingId codeHash := by
  obtain ⟨newer, older, rfl, hgives, hlast⟩ := h
  refine ⟨e' :: newer, older, rfl, hgives, ?_⟩
  intro e'' he''
  rcases List.mem_cons.mp he'' with rfl | he''
  · exact hnew
  · exact hlast e'' he''

/-- A commit that leaves a stored pending registration's code alone. -/
theorem Gives.of_commit {sc : Scene Row Site Req Env} {codeHash' : Hash}
    (h : Gives ⟨t, .commit s ws, sc⟩ pendingId codeHash') :
    s.marked = true ∧ ∃ w ∈ ws, w.target = .pending pendingId := by
  obtain ⟨_, _, hev, hs, y, rfl, -, hmem | hmem⟩ := h <;> cases hev
  · exact ⟨hs, _, hmem, rfl⟩
  · exact ⟨hs, _, hmem, rfl⟩

/-- A pending registration stores the code it was given last. -/
theorem Runs.lastCode (hstart : Begins start) (h : Runs (contract cfg start) S)
    {x : PendingRegistration} (hx : pending? S.db pendingId = some x) :
    ∃ e, LastGives S.trace e pendingId x.codeHash := by
  refine h.invariant (I := fun S => ∀ x, pending? S.db pendingId = some x →
    ∃ e, LastGives S.trace e pendingId x.codeHash) (fun x hx => ?_) ?_ x hx
  · have hnone := pending?_eq_none.mpr (hstart.find?_eq_none (k := .pending pendingId) (by simp))
    cases hnone.symm.trans hx
  · intro t S S' hruns ih hm y hy
    have hid := pending?_id hy
    rcases hm.commit_or with ⟨s, ws, hC, -, rfl⟩ | ⟨hdb, htr⟩
    · have hgiven : s.marked = true → (.insert (.pending y) ∈ ws ∨ .update (.pending y) ∈ ws) →
          ∃ e, LastGives (S.commit t s ws).trace e pendingId y.codeHash := fun hs hmem =>
        ⟨⟨t, .commit s ws, S.toScene⟩, [], S.trace, rfl, ⟨s, ws, rfl, hs, y, hid, rfl, hmem⟩,
          by simp⟩
      rcases pending_after hC.1.changes hy with ⟨hold, hws⟩ | hnew | ⟨hnew, -⟩
      · obtain ⟨e, he⟩ := ih y hold
        refine ⟨e, he.cons fun codeHash' hgives => ?_⟩
        obtain ⟨-, w, hw, htarget⟩ := hgives.of_commit
        exact hws w hw htarget
      · cases hC.1.changes _ hnew with
        | insert _ _ hs _ _ _ => exact hgiven hs (Or.inl hnew)
      · cases hs : s.marked with
        | true => exact hgiven hs (Or.inr hnew)
        | false =>
            cases hC.1.changes _ hnew with
            | pending x _ hx hsame _ hkeeps =>
                have hxid : x.id = pendingId := hsame.id.symm.trans hid
                obtain ⟨e, he⟩ := ih x (hxid ▸ hx)
                rw [(hkeeps hs).1]
                refine ⟨e, he.cons fun codeHash' hgives => ?_⟩
                rw [hgives.of_commit.1] at hs
                cases hs
    · rw [hdb] at hy
      obtain ⟨e, he⟩ := ih y hy
      rcases htr with htr | ⟨ev, hev, htr⟩
      · exact ⟨e, htr ▸ he⟩
      · rw [htr]
        exact ⟨e, he.cons fun codeHash' ⟨_, _, h, _⟩ => hev _ _ h⟩

/-- The thread that withdraws a stored code issued it, and no code was
issued for the pending registration since. -/
theorem Runs.withdraws_own (hstart : Begins start) (h : Runs (contract cfg start) S)
    (hissued : Issued S t pendingId codeHash) {x : PendingRegistration}
    (hx : pending? S.db pendingId = some x) (hcode : x.codeHash = codeHash) :
    ∃ e, e.tid = t ∧ LastGives S.trace e pendingId codeHash := by
  obtain ⟨e, he, ht, s, ws, hev, hs, hissues⟩ := hissued
  have hgives : Gives e pendingId codeHash := ⟨s, ws, hev, hs, hissues⟩
  obtain ⟨e', hlast⟩ := Runs.lastCode hstart h hx
  rw [hcode] at hlast
  obtain ⟨newer, older, htr, hgives', -⟩ := id hlast
  have he' : e' ∈ S.trace := by
    rw [htr]
    exact List.mem_append_right _ List.mem_cons_self
  have heq := usedOnce.eq_of_mem hstart.trace h he he' hgives.uses hgives'.uses
  exact ⟨e', heq ▸ ht, hlast⟩

-- ========================================================== verification

/-- The writes of a verification: the pending registration goes, a user and
one refresh token come. -/
theorem Verifies.writes {email : String} (h : Verifies cfg t email pendingId codeHash ws S) :
    ∃ u r, ws = [.erase (.pending pendingId), .insert (.user u), .insert (.token r)] ∧
      u.email = email ∧ r.userId = u.id := by
  obtain ⟨_, _, _, _, _, _, _, _, _, -, -, -, -, -, -, -, -, -, -, -, rfl⟩ := h
  exact ⟨_, _, rfl, rfl, rfl⟩

/-- A verified pending registration is gone. -/
theorem Runs.verified_gone (hstart : Begins start) (h : Runs (contract cfg start) S)
    {newer older : List AEntry} {email : String} (htr : S.trace = newer ++ e :: older)
    (hev : e.event = .commit (.verifyRegistration email pendingId codeHash) ws) :
    pending? S.db pendingId = none := by
  obtain ⟨S₀, S₁, hpast, -⟩ := h.at hstart.trace htr
  obtain ⟨hC, rfl⟩ := hpast.commit hev
  have hruns := hpast.runs.move hpast.move
  obtain ⟨_, x, _, _, _, _, _, _, _, -, -, -, hx, -⟩ := id hC.1
  have hused := (Runs.persists (lasting_pending hstart pendingId) hpast.runs).created x hx
  refine Steps.stays_gone (lasting_pending hstart pendingId) hruns
    (hused.mono hpast.move.trace_suffix) ?_ hpast.steps
  obtain ⟨u, r, rfl, -⟩ := Verifies.writes hC.1
  refine pending?_eq_none.mpr (find?_applyAll_eq_none ?_ (Or.inl List.mem_cons_self))
  simp [Write.row?, key]

/-- Two verifications of one pending registration are one. -/
theorem Runs.verified_once (hstart : Begins start) (h : Runs (contract cfg start) S)
    {e' : AEntry} {email email' : String} {codeHash' : Hash} {ws' : List (Write Row Key)}
    (he : e ∈ S.trace) (he' : e' ∈ S.trace)
    (hev : e.event = .commit (.verifyRegistration email pendingId codeHash) ws)
    (hev' : e'.event = .commit (.verifyRegistration email' pendingId codeHash') ws') :
    e' = e := by
  refine eq_of_never_again (P := fun e => ∃ email codeHash ws,
    e.event = .commit (.verifyRegistration email pendingId codeHash) ws) ?_ he he'
    ⟨_, _, _, hev⟩ ⟨_, _, _, hev'⟩
  -- a verification finds the row that the other one removed
  rintro newer e older htr ⟨email, codeHash, ws, hev⟩ e' he' ⟨email', codeHash', ws', hev'⟩
  obtain ⟨newest, between, rfl⟩ := List.append_of_mem he'
  rw [List.append_assoc] at htr
  obtain ⟨S₀, S₁, hpast, htr₀⟩ := h.at hstart.trace htr
  obtain ⟨_, x, _, _, _, _, _, _, _, -, -, -, hx, -⟩ := (hpast.commit hev').1.1
  have hgone := Runs.verified_gone hstart hpast.runs htr₀ hev
  cases hgone.symm.trans hx

-- ============================================================ reset requests

/-- Every version of a reset request a reset leaves behind is used. -/
theorem Resets.used (h : Resets cfg t userId requestId ws S) {y : PasswordResetRequest} :
    .insert (.reset y) ∉ ws ∧ (.update (.reset y) ∈ ws → y.usedAt.isSome = true) ∧
      ∃ x : PasswordResetRequest, x.id = requestId ∧ .update (.reset x) ∈ ws := by
  obtain ⟨_, _, _, x, _, u, _, now, closed, gone, -, -, -, hx, -, -, -, -, -, -, -, -, -, rfl⟩ := h
  have hid := reset?_id hx
  refine ⟨by simp, fun hy => ?_, { x with usedAt := some now }, hid, by simp⟩
  simp only [List.cons_append, List.mem_cons, List.mem_append, List.mem_map, reduceCtorEq,
    and_false, exists_false, or_false] at hy
  rcases hy with hy | hy | ⟨z, -, hy⟩
  · cases hy
    rfl
  · cases hy
  · cases hy
    rfl

/-- Two resets with one request are one. -/
theorem Runs.reset_once (hstart : Begins start) (h : Runs (contract cfg start) S)
    {e' : AEntry} {userId' : Id} {ws' : List (Write Row Key)}
    (he : e ∈ S.trace) (he' : e' ∈ S.trace)
    (hev : e.event = .commit (.resetPassword userId requestId) ws)
    (hev' : e'.event = .commit (.resetPassword userId' requestId) ws') : e' = e := by
  refine eq_of_never_again (P := fun e => ∃ userId ws,
    e.event = .commit (.resetPassword userId requestId) ws) ?_ he he' ⟨_, _, hev⟩ ⟨_, _, hev'⟩
  rintro newer e older htr ⟨userId, ws, hev⟩ e' he' ⟨userId', ws', hev'⟩
  obtain ⟨newest, between, rfl⟩ := List.append_of_mem he'
  rw [List.append_assoc] at htr
  obtain ⟨S₁, S₂, hpast', htr₁⟩ := h.at hstart.trace htr
  obtain ⟨S₀, _, hpast, -⟩ := hpast'.runs.at hstart.trace htr₁
  obtain ⟨hC, rfl⟩ := hpast.commit hev
  have hruns := hpast.runs.move hpast.move
  -- the later reset finds the request unused
  obtain ⟨_, _, _, z, _, _, _, _, _, _, -, -, -, hz, hunused, -⟩ := (hpast'.commit hev').1.1
  obtain ⟨-, -, y₀, hid, hmem⟩ := Resets.used (y := z) hC.1
  -- the earlier one left it used
  cases hafter : reset? (S₀.commit e.tid (.resetPassword userId requestId) ws).db requestId with
  | some y =>
      have hsame := Steps.same (lasting_reset hstart requestId) hruns hpast.steps hafter hz
      have hopen := hsame.used hunused
      rcases reset_after hC.1.changes hafter with ⟨-, hws⟩ | hnew | ⟨hnew, -⟩
      · refine hws _ hmem ?_
        simp [Write.target, key, hid]
      · exact (Resets.used hC.1).1 hnew
      · have hused := (Resets.used hC.1).2.1 hnew
        rw [hopen] at hused
        cases hused
  | none =>
      obtain ⟨_, _, _, x, _, _, _, _, _, _, -, -, -, hx, -⟩ := id hC.1
      have hused := (Runs.persists (lasting_reset hstart requestId) hpast.runs).created x hx
      have hgone := Steps.stays_gone (lasting_reset hstart requestId) hruns
        (hused.mono hpast.move.trace_suffix) hafter hpast.steps
      cases hgone.symm.trans hz

/-- What a new request leaves of the others. -/
theorem Requests.latest (h : Requests cfg t userId ws S) {y : PasswordResetRequest} :
    (.update (.reset y) ∈ ws → y.usedAt.isSome = true) ∧
    (∃ x : PasswordResetRequest, ∀ y, .insert (.reset y) ∈ ws → y = x ∧ x.userId = userId) ∧
    (.reset y ∈ S.db.rows → y.userId = userId → y.usedAt = none →
      ∃ w ∈ ws, w.target = .reset y.id) := by
  obtain ⟨closed, id, codeHash, now, createdAt, -, -, hall, -, -, -, -, -, rfl⟩ := h
  refine ⟨fun hy => ?_, ⟨newReset cfg id userId codeHash now createdAt, fun y hy => ?_⟩,
    fun hy hu hunused => ?_⟩
  · simp only [List.mem_append, List.mem_map, List.mem_singleton, reduceCtorEq, or_false] at hy
    obtain ⟨z, -, hy⟩ := hy
    cases hy
    rfl
  · simp only [List.mem_append, List.mem_map, List.mem_singleton, reduceCtorEq, and_false,
      exists_false, false_or] at hy
    cases hy
    exact ⟨rfl, rfl⟩
  · have hmem := hall y (mem_resets.mpr hy) hu hunused
    exact ⟨_, List.mem_append_left _ (List.mem_map_of_mem hmem), rfl⟩

/-- The unused requests of a user are one at most. -/
def OneUnused (S : AState) : Prop :=
  ∀ i j x y, reset? S.db i = some x → reset? S.db j = some y → x.userId = y.userId →
    x.usedAt = none → y.usedAt = none → i = j

/-- A commit that inserts one of two unused requests inserts both. -/
theorem OneUnused.of_insert {i j : Id} {x y : PasswordResetRequest} (hC : Effect cfg t s ws S)
    (hnew : .insert (.reset x) ∈ ws) (hx : x.id = i)
    (hy : reset? (applyAll ws S.db) j = some y) (huser : x.userId = y.userId)
    (hunused : y.usedAt = none) : i = j := by
  have hyid := reset?_id hy
  cases hC.changes _ hnew with
  | insert _ hs _ _ _ _ =>
      cases s with
      | forgotPassword userId =>
          obtain ⟨hclosed, ⟨z, hz⟩, hall⟩ := Requests.latest (y := y) hC
          obtain ⟨rfl, hu⟩ := hz x hnew
          rcases reset_after hC.changes hy with ⟨hold, hws⟩ | hins | ⟨hupd, -⟩
          · have hmem := Db.mem_of_find? (reset?_eq_some.mp hold)
            obtain ⟨w, hw, htarget⟩ := hall hmem (huser ▸ hu) hunused
            exact absurd (hyid ▸ htarget) (hws w hw)
          · rw [← hx, ← hyid, (hz y hins).1]
          · have hused := hclosed hupd
            rw [hunused] at hused
            cases hused
      | _ => cases hs

/-- In every state of a run a user has at most one unused request. -/
theorem Runs.oneUnused (hstart : Begins start) (h : Runs (contract cfg start) S) :
    OneUnused S := by
  refine h.invariant (I := OneUnused) (fun i j x y hx _ _ _ _ => ?_) ?_
  · have hnone := reset?_eq_none.mpr (hstart.find?_eq_none (k := .reset i) (by simp))
    cases hnone.symm.trans hx
  · intro t S S' hruns ih hm i j x y hx hy huser hxu hyu
    rcases hm.commit_or with ⟨s, ws, hC, -, rfl⟩ | ⟨hdb, -⟩
    · -- the version before of a request that the commit did not create
      have hbefore : ∀ {k z}, reset? (applyAll ws S.db) k = some z → z.usedAt = none →
          .insert (.reset z) ∈ ws ∨
            ∃ z₀, reset? S.db k = some z₀ ∧ z₀.userId = z.userId ∧ z₀.usedAt = none := by
        intro k z hz hzu
        rcases reset_after hC.1.changes hz with ⟨hold, -⟩ | hnew | ⟨-, z₀, hz₀, hopen, hsame⟩
        · exact Or.inr ⟨z, hold, rfl, hzu⟩
        · exact Or.inl hnew
        · exact Or.inr ⟨z₀, hz₀, hsame.userId.symm, hopen⟩
      rcases hbefore hx hxu with hnew | ⟨x₀, hx₀, hxuser, hx₀u⟩
      · exact OneUnused.of_insert hC.1 hnew (reset?_id hx) hy huser hyu
      · rcases hbefore hy hyu with hnew | ⟨y₀, hy₀, hyuser, hy₀u⟩
        · exact (OneUnused.of_insert hC.1 hnew (reset?_id hy) hx huser.symm hxu).symm
        · exact ih i j x₀ y₀ hx₀ hy₀ (hxuser.trans (huser.trans hyuser.symm)) hx₀u hy₀u
    · rw [hdb] at hx hy
      exact ih i j x y hx hy huser hxu hyu

-- ============================================================= the claim

/-- A verification that succeeded with a code of a pending registration. -/
def Verified (S : AState) (t : Tid) (pendingId : Id) (codeHash : Hash) : Prop :=
  ∃ email code r, S.asked t = [.verifyRegistration email code] ∧ Ends S t (.ok r) ∧
    ∃ e ∈ S.trace, e.tid = t ∧ ∃ ws,
      e.event = .commit (.verifyRegistration email pendingId codeHash) ws

/-- A reset that succeeded with the code of a request. -/
def PasswordReset (S : AState) (t : Tid) (requestId : Id) : Prop :=
  ∃ email code newPassword r, S.asked t = [.resetPassword email code newPassword] ∧
    Ends S t (.ok r) ∧ ∃ e ∈ S.trace, e.tid = t ∧ ∃ userId ws,
      e.event = .commit (.resetPassword userId requestId) ws

/-- The commit of a verification, with the code it was given: the stored
code accepts it, the pending registration is removed, and the user is the
one a `register` call asked for, with one refresh token. -/
structure CreatesUser (S : AState) (e : AEntry) (email code : String) (pendingId : Id)
    (codeHash : Hash) : Prop where
  stored : ∃ x, pending? e.before.db pendingId = some x ∧ x.codeHash = codeHash
  accepts : codeHash.accepts (.text code) = true
  issued : ∃ e' ∈ S.trace, Gives e' pendingId codeHash
  creates : ∃ e' ∈ S.trace, ∃ dto ws' y ws u r, S.asked e'.tid = [.register dto] ∧
    e'.event = .commit (.register dto.email) ws' ∧ .insert (.pending y) ∈ ws' ∧
    y.id = pendingId ∧ y.passwordHash.value = .text dto.password ∧
    e.event = .commit (.verifyRegistration email pendingId codeHash) ws ∧
    ws = [.erase (.pending pendingId), .insert (.user u), .insert (.token r)] ∧
    u.email = email ∧ u.passwordHash = y.passwordHash ∧ u.fullName = dto.fullName ∧
    u.language = dto.language.getD "en" ∧ r.userId = u.id

/-- What the codes of a run satisfy. -/
structure SingleUse (S : AState) : Prop where
  verified : ∀ t email code r, S.asked t = [.verifyRegistration email code] →
    Ends S t (.ok r) → ∃ e ∈ S.trace, e.tid = t ∧ ∃ pendingId codeHash,
      CreatesUser S e email code pendingId codeHash
  verifiedOnce : ∀ t t' pendingId codeHash codeHash', Verified S t pendingId codeHash →
    Verified S t' pendingId codeHash' → t = t'
  reset : ∀ t email code newPassword r, S.asked t = [.resetPassword email code newPassword] →
    Ends S t (.ok r) → ∃ e ∈ S.trace, e.tid = t ∧ ∃ userId requestId ws x,
      e.event = .commit (.resetPassword userId requestId) ws ∧
      reset? e.before.db requestId = some x ∧ x.userId = userId ∧ x.usedAt = none ∧
      x.codeHash.accepts (.text code) = true
  resetOnce : ∀ t t' requestId, PasswordReset S t requestId → PasswordReset S t' requestId →
    t = t'
  oneUnused : ∀ x y, x ∈ resets S.db → y ∈ resets S.db → x.userId = y.userId →
    x.usedAt = none → y.usedAt = none → x = y
  /-- what is withdrawn is the thread's own code, and the last one -/
  withdraws : ∀ newer e older pendingId codeHash ws, S.trace = newer ++ e :: older →
    e.event = .commit (.withdrawRegistrationCode pendingId codeHash) ws → ws ≠ [] →
    (∀ w ∈ ws, w.target = .pending pendingId) ∧
      ∃ e', e'.tid = e.tid ∧ LastGives older e' pendingId codeHash
  /-- a request is closed by the thread that created it -/
  closes : ∀ newer e older requestId ws, S.trace = newer ++ e :: older →
    e.event = .commit (.withdrawReset requestId) ws →
    (∀ w ∈ ws, w.target = .reset requestId) ∧
      ∃ e' ∈ older, e'.tid = e.tid ∧ ∃ userId ws' y,
        e'.event = .commit (.forgotPassword userId) ws' ∧ .insert (.reset y) ∈ ws' ∧
        y.id = requestId

/-- A verification that ends well made its commit. -/
theorem Runs.verification_committed (hstart : Begins start) (h : Runs (contract cfg start) S)
    {email code : String} {r : Res} (hasked : S.asked t = [.verifyRegistration email code])
    (hend : Ends S t (.ok r)) :
    ∃ e ∈ S.trace, e.tid = t ∧ ∃ pendingId codeHash ws,
      e.event = .commit (.verifyRegistration email pendingId codeHash) ws := by
  obtain ⟨S₀, -, hsuffix, hfinish, hsame, -⟩ := Runs.ended hstart h hend
  simp only [Finishes, hsame, hasked] at hfinish
  obtain ⟨pendingId, codeHash, hmarks⟩ := hfinish
  obtain ⟨e, he, ht, ws, hev⟩ := exists_of_marks hmarks
  exact ⟨e, hsuffix.subset he, ht, pendingId, codeHash, ws, hev⟩

/-- A reset that ends well made its commit. -/
theorem Runs.reset_committed (hstart : Begins start) (h : Runs (contract cfg start) S)
    {email code newPassword : String} {r : Res}
    (hasked : S.asked t = [.resetPassword email code newPassword])
    (hend : Ends S t (.ok r)) :
    ∃ e ∈ S.trace, e.tid = t ∧ ∃ userId requestId ws,
      e.event = .commit (.resetPassword userId requestId) ws := by
  obtain ⟨S₀, -, hsuffix, hfinish, hsame, -⟩ := Runs.ended hstart h hend
  simp only [Finishes, hsame, hasked] at hfinish
  obtain ⟨userId, requestId, hmarks⟩ := hfinish
  obtain ⟨e, he, ht, ws, hev⟩ := exists_of_marks hmarks
  exact ⟨e, hsuffix.subset he, ht, userId, requestId, ws, hev⟩

/-- The commit of a verification creates the registered user. -/
theorem Runs.creates_user (hstart : Begins start) (h : Runs (contract cfg start) S)
    {email code : String} (hasked : S.asked e.tid = [.verifyRegistration email code])
    (he : e ∈ S.trace)
    (hev : e.event = .commit (.verifyRegistration email pendingId codeHash) ws) :
    CreatesUser S e email code pendingId codeHash := by
  obtain ⟨S₀, S₁, hpast⟩ := h.since hstart.trace he
  obtain ⟨hC, -⟩ := hpast.commit hev
  obtain ⟨code', x, read, userId, now, createdAt, tokenId, tokenHash, expiresAt, hasked',
    haccepts, ⟨⟨e₁, he₁, -, -, hread, -⟩, -⟩, hx, hcode, -, -, -, -, -, -, hws⟩ := hC.1
  have hsuffix : S₀.trace <:+ S.trace := (List.suffix_cons _ _).trans hpast.suffix
  have hsame := hpast.asked (by rw [hev]; simp)
  rw [hsame, hasked] at hasked'
  cases hasked'
  -- the row is the one that was read before the code was tested
  have hsamePending := (Runs.persists (lasting_pending hstart pendingId) hpast.runs).same
    e₁ he₁ read x hread hx
  obtain ⟨e₂, newer, older, htr, hgives, -⟩ := Runs.lastCode hstart hpast.runs hx
  obtain ⟨e₃, he₃, dto, ws', y, hregister, hev₃, hy, hvalue, hname, hlanguage, -, hyx⟩ :=
    Runs.registered hstart hpast.runs hx
  refine ⟨⟨x, hpast.scene ▸ hx, hcode⟩, haccepts, ⟨e₂, hsuffix.subset ?_, hcode ▸ hgives⟩,
    e₃, hsuffix.subset he₃, dto, ws', y, ws, verifiedUser userId read email now createdAt,
    newToken tokenId userId tokenHash expiresAt, ?_, hev₃, hy, ?_, hvalue, hev, hws, rfl, ?_, ?_,
    ?_, rfl⟩
  · rw [htr]
    exact List.mem_append_right _ List.mem_cons_self
  · have hsteps : Steps (contract cfg start) S₀ S :=
      Relation.ReflTransGen.head ⟨_, hpast.move⟩ hpast.steps
    exact (hsteps.asked_of_mem ⟨e₃, he₃, rfl⟩).trans hregister
  · exact hyx.id.symm.trans (pending?_id hx)
  · exact hsamePending.passwordHash.symm.trans hyx.passwordHash
  · exact hsamePending.fullName.symm.trans (hyx.fullName.trans hname)
  · exact hsamePending.language.symm.trans (hyx.language.trans hlanguage)

/-- Codes are single-use and only the latest one works. -/
theorem codes_single_use {w : AWorld} (h : Reached cfg w) : SingleUse w.shared := by
  obtain ⟨start, hstart, hruns⟩ := h.runs
  refine ⟨fun t email code r hasked hend => ?_, ?_, fun t email code newPassword r hasked hend => ?_,
    ?_, fun x y hx hy huser hxu hyu => ?_, fun newer e older pendingId codeHash ws htr hev hws => ?_,
    fun newer e older requestId ws htr hev => ?_⟩
  · obtain ⟨e, he, rfl, pendingId, codeHash, ws, hev⟩ :=
      Runs.verification_committed hstart hruns hasked hend
    exact ⟨e, he, rfl, pendingId, codeHash, Runs.creates_user hstart hruns hasked he hev⟩
  · rintro t t' pendingId codeHash codeHash' ⟨email, code, r, -, -, e, he, rfl, ws, hev⟩
      ⟨email', code', r', -, -, e', he', rfl, ws', hev'⟩
    rw [Runs.verified_once hstart hruns he he' hev hev']
  · obtain ⟨e, he, rfl, userId, requestId, ws, hev⟩ :=
      Runs.reset_committed hstart hruns hasked hend
    obtain ⟨S₀, S₁, hpast⟩ := hruns.since hstart.trace he
    obtain ⟨_, _, _, x, read, _, _, _, _, _, hasked', ⟨⟨e₁, he₁, -, -, hread, -⟩, -⟩, haccepts, hx,
      hunused, huser, -⟩ := (hpast.commit hev).1.1
    rw [hpast.asked (by rw [hev]; simp), hasked] at hasked'
    cases hasked'
    have hsame := (Runs.persists (lasting_reset hstart requestId) hpast.runs).same
      e₁ he₁ read x hread hx
    exact ⟨e, he, rfl, userId, requestId, ws, x, hev, hpast.scene ▸ hx, huser, hunused,
      hsame.codeHash ▸ haccepts⟩
  · rintro t t' requestId ⟨_, _, _, _, -, -, e, he, rfl, userId, ws, hev⟩
      ⟨_, _, _, _, -, -, e', he', rfl, userId', ws', hev'⟩
    rw [Runs.reset_once hstart hruns he he' hev hev']
  · have hxfind := reset?_of_mem (mem_resets.mp hx)
    have hyfind := reset?_of_mem (mem_resets.mp hy)
    have hid := Runs.oneUnused hstart hruns x.id y.id x y hxfind hyfind huser hxu hyu
    rw [hid] at hxfind
    exact Option.some.inj (hxfind.symm.trans hyfind)
  · obtain ⟨S₀, S₁, hpast, rfl⟩ := hruns.at hstart.trace htr
    obtain ⟨hissued, hnil | ⟨x, expiresAt, hx, hcode, rfl⟩⟩ := (hpast.commit hev).1.1
    · exact absurd hnil hws
    · refine ⟨?_, Runs.withdraws_own hstart hpast.runs hissued hx hcode⟩
      simp [Write.target, key, pending?_id hx]
  · obtain ⟨S₀, S₁, hpast, rfl⟩ := hruns.at hstart.trace htr
    obtain ⟨⟨e', he', ht, userId, ws', y, hev', hy, hid⟩, hws⟩ := (hpast.commit hev).1.1
    refine ⟨?_, e', he', ht, userId, ws', y, hev', hy, hid⟩
    rcases hws with rfl | ⟨x, usedAt, hx, -, rfl⟩
    · simp
    · simp [Write.target, key, reset?_id hx]

/-- A newcomer that is verified, and has a token. -/
theorem codes_single_use_newcomer : ∃ w, Reached sampleConfig w ∧
    (pendings w.shared.db = [] ∧ (users w.shared.db).map (·.id) = [1, 13] ∧
      (tokens w.shared.db).map (·.userId) = [13]) ∧ SingleUse w.shared := by
  have hrun : (sampleWorld.runAll (app sampleConfig) newcomerVerified).any
      (fun w => pendings w.shared.db = [] ∧ (users w.shared.db).map (·.id) = [1, 13] ∧
        (tokens w.shared.db).map (·.userId) = [13]) = true := by
    decide +kernel
  obtain ⟨w, hw, hp⟩ := exists_reached hrun
  exact ⟨w, hw, of_decide_eq_true hp, codes_single_use hw⟩

end FastRep.Auth
