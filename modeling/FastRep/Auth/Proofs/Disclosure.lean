/-
What the recovery endpoints tell about an account.

A client calls `forgotPassword`, or `resendRegistrationCode`, for one
address again and again, and compares what it is told with what it would be
told if the address had no account, or no pending registration. Without one
every call returns the same. With one a call within the cooldown throws
(`disclosure_fails`), so the two cannot be told apart exactly where the
calls keep the cooldown (`disclosure_iff`).

# One call

`yields_forgotPassword` and `yields_resend` say what the transactions write
outside the cooldown, `yields_expired` what is left of an expired
registration. From them `forgotPassword_ok` and `resend_noUser` follow the
whole call, by the rules of `FastRep.Txn.Proofs.Alone` for a program that no
other thread meets; `forgotPassword_cooldown` is the call that throws.

# A client's calls

`HasUser` and `HasPending` hold before the first call and after each, and
`Newest` carries the time the cooldown is counted from. The results of the
calls follow by induction on the visits (`visits_known_after`,
`visits_pending`), and are the results of a run of the machine
(`visits_run`): two runs tell the databases apart where the cooldown is not
kept (`told_apart`).
-/
import FastRep.Auth.Proofs.Requests
import FastRep.Txn.Proofs.Alone

namespace FastRep.Auth

open FastRep.Txn

variable {cfg : Config} {s : Site} {i : Nat} {email : String} {now : Time}
  {d : Db Row} {u : User} {α : Type}

/-- A visit of a client, and what a request leaves. -/
abbrev AVisit := Visit Call Choice

abbrev ARest := Rest Row Env

variable {v : AVisit} {vs : List AVisit} {R : ARest}

/-- The mail provider delivers, and a code is drawn. -/
structure Delivered (v : AVisit) : Prop where
  mail : ∀ x, x ≠ .randomInt → v.answer x = .done
  drawn : ∃ n, n < 1000000 ∧ v.answer .randomInt = .drawn n

-- =============================================================== the rules

/-- A query is one step, and reads the database. -/
theorem ends_query {f : Db Row → α} :
    (query s f : Async α).Ends v i R (.ok (f R.db)) (i + 1) R :=
  Prog.Ends.commits ⟨rfl, rfl⟩

/-- A call that is answered. -/
theorem ends_awaitOk {x : Call} {a : x.Value} {env : Env}
    (h : x.serve R.env (v.answer x) = some (.ok a, env)) :
    (awaitOk x : Async x.Value).Ends v i R (.ok a) (i + 1) { R with env } :=
  Prog.Ends.bind (Prog.Ends.await (a := (.ok a : Except Error x.Value)) h) Prog.Ends.settle

/-- A code is drawn in one step. -/
theorem ends_generateSixDigitCode (h : Delivered v) :
    ∃ code, (generateSixDigitCode : Async String).Ends v i R (.ok code) (i + 1) R := by
  obtain ⟨n, hn, hanswer⟩ := h.drawn
  refine ⟨sixDigits n, Prog.Ends.bind (ends_awaitOk (x := .randomInt) (a := n) ?_)
    Prog.Ends.pure⟩
  rw [hanswer]
  exact if_pos hn

/-- A hash takes one id as its salt, and no step. -/
theorem ends_hash {value : Secret} : (hash value : Async Hash).Ends v i R
    (.ok ⟨R.nextId, value⟩) i { R with nextId := R.nextId + 1 } :=
  Prog.Ends.bind Prog.Ends.uuid Prog.Ends.pure

/-- A mail that is delivered. -/
theorem ends_mail (h : Delivered v) {x : Call} (hx : x ≠ .randomInt) :
    ∃ a env, (awaitOk x : Async x.Value).Ends v i R (.ok a) (i + 1) { R with env } := by
  have hdone := h.mail x hx
  cases x with
  | randomInt => exact absurd rfl hx
  | sendRegistrationVerificationCode recipient code minutes language =>
      exact ⟨(), ⟨recipient, code⟩ :: R.env, ends_awaitOk (by rw [hdone]; rfl)⟩
  | sendPasswordResetCode recipient code minutes =>
      exact ⟨(), ⟨recipient, code⟩ :: R.env, ends_awaitOk (by rw [hdone]; rfl)⟩

-- ======================================================= forgotPassword

/-- The address has a user, and no later id is taken by a reset request. -/
structure HasUser (email : String) (u : User) (R : ARest) : Prop where
  user : .user u ∈ R.db.rows
  address : u.email = email
  alone : ∀ u' ∈ users R.db, u'.email = email → u' = u
  fresh : ∀ j, R.nextId ≤ j → R.db.find? (.reset j) = none

theorem HasUser.found (h : HasUser email u R) : userByEmail email R.db = some u := by
  cases hfind : userByEmail email R.db with
  | none =>
      exact absurd h.address (userByEmail_eq_none.mp hfind u (mem_users.mpr h.user))
  | some u' =>
      obtain ⟨hmem, hemail⟩ := mem_of_userByEmail hfind
      rw [h.alone u' (mem_users.mpr hmem) hemail]

/-- When the newest request of a user was created. -/
def Newest (u : User) (d : Db Row) : Option Time → Prop
  | none => ∀ x ∈ resets d, x.userId ≠ u.id
  | some c => (∃ x ∈ resets d, x.userId = u.id ∧ x.createdAt = c) ∧
      ∀ x ∈ resets d, x.userId = u.id → x.createdAt ≤ c

/-- The request that stops a new one within the cooldown. -/
theorem any_latestReset {c : Option Time} (h : Newest u d c) {cooldown : Nat} :
    ((latestReset u.id d).any fun r => (now : Int) - (cooldown : Nat) * 1000 < r.createdAt) = true ↔
      ∃ c' ∈ c, now < c' + cooldown * 1000 := by
  cases hlatest : latestReset u.id d with
  | none =>
      cases c with
      | none => simp
      | some c =>
          obtain ⟨⟨x, hx, hu, -⟩, -⟩ := h
          obtain ⟨r, hr⟩ := exists_latestReset hx hu
          cases hlatest.symm.trans hr
  | some r =>
      obtain ⟨hmem, hu⟩ := mem_of_latestReset hlatest
      cases c with
      | none => exact absurd hu (h r (mem_resets.mpr hmem))
      | some c =>
          obtain ⟨⟨x, hx, hxu, rfl⟩, hall⟩ := h
          have hle := hall r (mem_resets.mpr hmem) hu
          have hge := createdAt_le_of_latestReset hlatest hx hxu
          simp only [Option.any_some, decide_eq_true_eq, Option.mem_def, Option.some.injEq,
            exists_eq_left']
          unfold Time at *
          omega

/-- The rows `forgotPassword` closes. -/
def unusedOf (userId : Id) : Row → Bool :=
  onReset fun r => r.userId = userId && r.usedAt.isNone

def closed (now : Time) : Row → Row :=
  setReset fun r => { r with usedAt := some now }

theorem unusedOf_iff {userId : Id} {r : Row} : unusedOf userId r = true ↔
    ∃ x, r = .reset x ∧ x.userId = userId ∧ x.usedAt = none := by
  cases r with
  | reset x => simp [unusedOf, onReset]
  | _ => simp [unusedOf, onReset]

/-- The writes that close the unused requests of a user. -/
def closings (userId : Id) (now : Time) (d : Db Row) : List (Write Row Key) :=
  (d.rows.filter (unusedOf userId)).map fun r => .update (closed now r)

/-- Each of the writes closes one unused request. -/
theorem mem_closings {userId : Id} {w : Write Row Key} (h : w ∈ closings userId now d) :
    ∃ x, .reset x ∈ d.rows ∧ x.userId = userId ∧ x.usedAt = none ∧
      w = .update (.reset { x with usedAt := some now }) := by
  obtain ⟨r, hr, rfl⟩ := List.mem_map.mp h
  obtain ⟨hmem, hp⟩ := List.mem_filter.mp hr
  obtain ⟨x, rfl, hu, hunused⟩ := unusedOf_iff.mp hp
  exact ⟨x, hmem, hu, hunused, rfl⟩

/-- A request that stands closes at once. -/
theorem violation_closed {x : PasswordResetRequest} (hu : .user u ∈ d.rows)
    (hx : x.userId = u.id) (hused : x.usedAt.isSome = true) : d.violation (.reset x) = none := by
  rw [Db.violation_eq_none_iff]
  have hnone : x.usedAt.isNone = false := by
    rw [← Option.not_isSome, hused]
    rfl
  refine ⟨fun y _ _ i hi => ?_, rfl, fun ref href => ?_⟩
  · simp [Schema.indexes, hnone] at hi
  · simp only [Schema.references, List.mem_singleton] at href
    rw [href, hx]
    exact (Db.find?_of_mem hu).symm ▸ rfl

/-- After the unused requests are closed, a new one violates nothing. -/
theorem violation_newReset {requestId : Id} {codeHash : Hash} {createdAt : Time}
    (hu : .user u ∈ d.rows) :
    (applyAll (closings u.id now d) d).violation
      (.reset (newReset cfg requestId u.id codeHash now createdAt)) = none := by
  rw [Db.violation_eq_none_iff]
  refine ⟨fun r hr _ i hi hir => ?_, rfl, fun ref href => ?_⟩
  · have hindex : i = .activeReset u.id := by simpa [Schema.indexes, newReset] using hi
    subst hindex
    obtain ⟨x, rfl, hxu, hunused⟩ : ∃ x, r = .reset x ∧ x.userId = u.id ∧ x.usedAt = none := by
      cases r with
      | reset x =>
          cases hx : x.usedAt with
          | none => exact ⟨x, rfl, by simpa [Schema.indexes, hx, eq_comm] using hir, hx⟩
          | some t => simp [Schema.indexes, hx] at hir
      | _ => simp [Schema.indexes] at hir
    rcases mem_applyAll_or_kept hr with ⟨w, hw, hrow⟩ | ⟨hold, hws⟩
    · obtain ⟨y, -, -, -, rfl⟩ := mem_closings hw
      cases hrow
      cases hunused
    · refine hws _ (List.mem_map.mpr ⟨.reset x, List.mem_filter.mpr
        ⟨hold, unusedOf_iff.mpr ⟨x, rfl, hxu, hunused⟩⟩, rfl⟩) rfl
  · have hkept : .user u ∈ (applyAll (closings u.id now d) d).rows := by
      refine mem_applyAll_of_ne (fun w hw => ?_) hu
      obtain ⟨x, -, -, -, rfl⟩ := mem_closings hw
      simp [Write.target, key]
    simp only [Schema.references, newReset, List.mem_singleton] at href
    rw [href]
    exact (Db.find?_of_mem hkept).symm ▸ rfl

/-- Outside the cooldown the transaction of `forgotPassword` closes the
unused requests and creates a new one. -/
theorem yields_forgotPassword {c : Option Time} {requestId : Id} {codeHash : Hash} {n : Nat}
    (hu : .user u ∈ d.rows) (hnewest : Newest u d c)
    (hcooldown : ∀ c' ∈ c, c' + cfg.passwordReset.resendCooldownSeconds * 1000 ≤ now)
    (hfresh : d.find? (.reset requestId) = none) :
    (forgotPasswordTransaction cfg u.id requestId codeHash now).Yields n d ()
      (closings u.id now d
        ++ [.insert (.reset (newReset cfg requestId u.id codeHash now n))]) := by
  refine Tx.Yields.select ?_
  rw [if_neg]
  · refine Tx.Yields.updateMany (fun r hr hp => ?_) fun count => Tx.Yields.clock ?_
    · obtain ⟨x, rfl, hx, -⟩ := unusedOf_iff.mp hp
      exact violation_closed hu hx rfl
    · have hfresh' : (applyAll (closings u.id now d) d).find? (.reset requestId) = none := by
        refine (find?_applyAll_ne (fun w hw htarget => ?_) d).trans hfresh
        obtain ⟨x, hx, -, -, rfl⟩ := mem_closings hw
        have hid : x.id = requestId := by simpa [Write.target, key] using htarget
        exact Db.find?_eq_none_iff.mp hfresh _ hx (by rw [← hid]; rfl)
      exact Tx.Yields.insertRow (g := Pure.pure) hfresh' (violation_newReset hu) Tx.Yields.pure
  · rw [any_latestReset hnewest]
    rintro ⟨c', hc', hlt⟩
    exact absurd (hcooldown c' hc') (Nat.not_le.mpr hlt)

/-- The newest request is then the new one. -/
theorem Newest.created {c : Option Time} {requestId : Id} {codeHash : Hash} {n : Nat}
    (h : Newest u d c) (hold : ∀ c' ∈ c, c' ≤ n) :
    Newest u (applyAll (closings u.id now d
      ++ [.insert (.reset (newReset cfg requestId u.id codeHash now n))]) d) (some n) := by
  refine ⟨⟨newReset cfg requestId u.id codeHash now n, ?_, rfl, rfl⟩, fun x hx hxu => ?_⟩
  · rw [mem_resets, applyAll_append]
    exact Db.mem_put.mpr (Or.inl rfl)
  · have hbefore : ∀ y ∈ resets d, y.userId = u.id → y.createdAt ≤ n := by
      intro y hy hyu
      cases c with
      | none => exact absurd hyu (h y hy)
      | some c => exact (h.2 y hy hyu).trans (hold c rfl)
    rcases mem_applyAll (mem_resets.mp hx) with ⟨w, hw, hrow⟩ | hkept
    · rcases List.mem_append.mp hw with hw | hw
      · obtain ⟨y, hy, hyu, -, rfl⟩ := mem_closings hw
        cases hrow
        exact hbefore y (mem_resets.mpr hy) hyu
      · cases List.mem_singleton.mp hw
        cases hrow
        exact le_rfl
    · exact hbefore x (mem_resets.mpr hkept) hxu

/-- Writes of reset requests leave the user, and take one id. -/
theorem HasUser.requested {requestId : Id} {codeHash : Hash} {n : Nat} {env : Env}
    (h : HasUser email u R) (hid : requestId = R.nextId + 1) :
    HasUser email u { R with
      db := applyAll (closings u.id now R.db
        ++ [.insert (.reset (newReset cfg requestId u.id codeHash now n))]) R.db
      env
      nextId := R.nextId + 2 } := by
  have hresets : ∀ w ∈ closings u.id now R.db
      ++ [.insert (.reset (newReset cfg requestId u.id codeHash now n))],
      ∃ y : PasswordResetRequest, w.row? = some (.reset y) ∧ w.target = .reset y.id ∧
        (.reset y ∈ R.db.rows.map (closed now) ∨ y.id = requestId) := by
    intro w hw
    rcases List.mem_append.mp hw with hw | hw
    · obtain ⟨y, hy, -, -, rfl⟩ := mem_closings hw
      exact ⟨_, rfl, rfl, Or.inl (List.mem_map.mpr ⟨_, hy, rfl⟩)⟩
    · cases List.mem_singleton.mp hw
      exact ⟨_, rfl, rfl, Or.inr rfl⟩
  refine ⟨mem_applyAll_of_ne (fun w hw => ?_) h.user, h.address, fun u' hu' => ?_, fun j hj => ?_⟩
  · obtain ⟨y, -, htarget, -⟩ := hresets w hw
    simp [htarget, key]
  · rcases mem_applyAll (mem_users.mp hu') with ⟨w, hw, hrow⟩ | hkept
    · obtain ⟨y, hy, -⟩ := hresets w hw
      cases hy.symm.trans hrow
    · exact h.alone u' (mem_users.mpr hkept)
  · have hle : R.nextId + 2 ≤ j := hj
    have hfree : R.db.find? (.reset j) = none := h.fresh j (Nat.le_of_add_right_le hle)
    refine (find?_applyAll_ne (fun w hw htarget => ?_) R.db).trans hfree
    obtain ⟨y, -, hy, hmem | hnew⟩ := hresets w hw
    · obtain ⟨r, hr, hclosed⟩ := List.mem_map.mp hmem
      cases r with
      | reset x =>
          cases hclosed
          exact Db.find?_eq_none_iff.mp hfree _ hr (hy.symm.trans htarget)
      | _ => cases hclosed
    · have hj' : y.id = j := by
        rw [hy] at htarget
        exact Key.reset.inj htarget
      rw [← hj', hnew, hid] at hle
      omega

/-- A call for an address without a user. -/
theorem forgotPassword_unknown (h : userByEmail email R.db = none) :
    ((app cfg).main (.forgotPassword email)).Ends v 0 R (.ok .done) 1 R := by
  refine Prog.Ends.bind (a := ()) (Prog.Ends.bind ends_query ?_) Prog.Ends.pure
  rw [h]
  exact Prog.Ends.pure

/-- A call for a user returns what its transaction ends in. -/
theorem forgotPassword_known (hv : Delivered v) (h : HasUser email u R) :
    ∃ code, ∀ r R', (transaction (.forgotPassword u.id) (forgotPasswordTransaction cfg u.id
        (R.nextId + 1) ⟨R.nextId, .text code⟩ (v.times 1)) : Async Unit).Ends v 3
          { R with nextId := R.nextId + 2 } r 4 R' →
      ∃ i' env, ((app cfg).main (.forgotPassword email)).Ends v 0 R (match r with
        | .ok _ => .ok .done
        | .error e => .error (forgotPasswordError e)) i' { R' with env } := by
  obtain ⟨code, hcode⟩ := ends_generateSixDigitCode (i := 2) (R := R) hv
  refine ⟨code, fun r R' htx => ?_⟩
  cases r with
  | ok a =>
      obtain ⟨a', env, hmail⟩ := ends_mail (i := 4) (R := R') hv
        (x := .sendPasswordResetCode email code cfg.passwordReset.codeTtlMinutes) (by simp)
      refine ⟨5, env, Prog.Ends.bind (a := ()) (Prog.Ends.bind ends_query ?_) Prog.Ends.pure⟩
      rw [h.found]
      refine Prog.Ends.bind Prog.Ends.clock (Prog.Ends.bind hcode (Prog.Ends.bind ends_hash
        (Prog.Ends.bind Prog.Ends.uuid (Prog.Ends.bind (Prog.Ends.attempt htx) ?_))))
      exact Prog.Ends.bind (Prog.Ends.attempt (Prog.Ends.enter hmail)) Prog.Ends.pure
  | error e =>
      refine ⟨4, R'.env, Prog.Ends.bind_error (Prog.Ends.bind ends_query ?_)⟩
      rw [h.found]
      exact Prog.Ends.bind Prog.Ends.clock (Prog.Ends.bind hcode (Prog.Ends.bind ends_hash
        (Prog.Ends.bind Prog.Ends.uuid (Prog.Ends.bind (Prog.Ends.attempt htx)
          Prog.Ends.throw))))

/-- Outside the cooldown a call ends well, and leaves a new request. -/
theorem forgotPassword_ok {c : Option Time} (hv : Delivered v) (h : HasUser email u R)
    (hnewest : Newest u R.db c)
    (hcooldown : ∀ c' ∈ c, c' + cfg.passwordReset.resendCooldownSeconds * 1000 ≤ v.times 1) :
    ∃ i' R', ((app cfg).main (.forgotPassword email)).Ends v 0 R (.ok .done) i' R' ∧
      HasUser email u R' ∧ Newest u R'.db (some (v.times 3)) := by
  obtain ⟨code, hcall⟩ := forgotPassword_known hv h
  obtain ⟨i', env, hends⟩ := hcall (.ok ()) _ (Prog.Ends.commits (yields_forgotPassword h.user
    hnewest hcooldown (h.fresh _ (Nat.le_succ _))))
  have hold : ∀ c' ∈ c, c' ≤ v.times 3 := fun c' hc' =>
    (Nat.le_add_right _ _).trans ((hcooldown c' hc').trans (v.mono (by decide)))
  exact ⟨i', _, hends, h.requested rfl, hnewest.created hold⟩

/-- Within the cooldown a call throws, and only takes ids. -/
theorem forgotPassword_cooldown {c : Time} (hv : Delivered v) (h : HasUser email u R)
    (hnewest : Newest u R.db (some c))
    (hcooldown : v.times 1 < c + cfg.passwordReset.resendCooldownSeconds * 1000) :
    ∃ i' R', ((app cfg).main (.forgotPassword email)).Ends v 0 R (.error resetCooldown) i' R' ∧
      HasUser email u R' ∧ R'.db = R.db := by
  obtain ⟨code, hcall⟩ := forgotPassword_known hv h
  have hfails : ((forgotPasswordTransaction cfg u.id (R.nextId + 1) ⟨R.nextId, .text code⟩
      (v.times 1)).run (v.times 3) R.db).result = .error resetCooldown := by
    unfold forgotPasswordTransaction
    rw [Tx.run_select, if_pos ((any_latestReset hnewest).mpr ⟨c, rfl, hcooldown⟩)]
    rfl
  obtain ⟨i', env, hends⟩ := hcall (.error resetCooldown) _ (Prog.Ends.fails hfails)
  exact ⟨i', _, hends, ⟨h.user, h.address, h.alone,
    fun j hj => h.fresh j ((Nat.le_add_right _ _).trans hj)⟩, rfl⟩

-- =========================================================== the visits

section Visits

variable {q : Req} {r : Except Error Res} {rs : List (Except Error Res)} {R' : ARest} {i' : Nat}

/-- The result of a first visit is the first result. -/
theorem visits_cons (h : ((app cfg).main q).Ends v 0 R r i' R') :
    (app cfg).visits q (v :: vs) R = ((app cfg).visits q vs R').map (r :: ·) := by
  simp only [App.visits, show ((app cfg).main q).alone v 0 R = some (r, i', R') from h]

/-- What a client is told when every call ends well. -/
def allDone (vs : List AVisit) : List (Except Error Res) := vs.map fun _ => .ok .done

/-- After a call that ends well the rest decides. -/
theorem visits_cons_ok (h : ((app cfg).main q).Ends v 0 R (.ok .done) i' R') :
    (app cfg).visits q (v :: vs) R = some (allDone (v :: vs)) ↔
      (app cfg).visits q vs R' = some (allDone vs) := by
  rw [visits_cons h, Option.map_eq_some_iff]
  constructor
  · rintro ⟨rs, hrs, hcons⟩
    rw [hrs, (List.cons.inj hcons).2]
    rfl
  · intro hrs
    exact ⟨_, hrs, rfl⟩

/-- After a call that throws not every call ends well. -/
theorem visits_cons_error {e : Error} (h : ((app cfg).main q).Ends v 0 R (.error e) i' R') :
    (app cfg).visits q (v :: vs) R ≠ some (allDone (v :: vs)) := by
  rw [visits_cons h]
  intro hrs
  obtain ⟨rs, -, hcons⟩ := Option.map_eq_some_iff.mp hrs
  cases (List.cons.inj hcons).1

end Visits

/-- Calls for an address without a user all return the same. -/
theorem visits_unknown (h : userByEmail email R.db = none) :
    (app cfg).visits (.forgotPassword email) vs R = some (allDone vs) := by
  induction vs with
  | nil => rfl
  | cons v vs ih => exact (visits_cons_ok (forgotPassword_unknown h)).mpr ih

/-- A call reads the clock the cooldown after the one before created its
request. -/
def ResetSpaced (cfg : Config) (v v' : AVisit) : Prop :=
  v.times 3 + cfg.passwordReset.resendCooldownSeconds * 1000 ≤ v'.times 1

/-- With a request from before, every call ends well exactly where each keeps
the cooldown after the one before it. -/
theorem visits_known_after {v₀ : AVisit} (hvs : ∀ v ∈ vs, Delivered v) (h : HasUser email u R)
    (hnewest : Newest u R.db (some (v₀.times 3))) :
    (app cfg).visits (.forgotPassword email) vs R = some (allDone vs) ↔
      (v₀ :: vs).IsChain (ResetSpaced cfg) := by
  induction vs generalizing R v₀ with
  | nil => simp [App.visits, allDone]
  | cons v vs ih =>
      obtain ⟨hv, hvs⟩ := List.forall_mem_cons.mp hvs
      rw [List.isChain_cons_cons]
      by_cases hcooldown : ResetSpaced cfg v₀ v
      · obtain ⟨i', R', hends, hafter, hnewest'⟩ := forgotPassword_ok hv h hnewest
          fun c' hc' => by
            cases hc'
            exact hcooldown
        rw [visits_cons_ok hends, ih hvs hafter hnewest', and_iff_right hcooldown]
      · obtain ⟨i', R', hends, -⟩ := forgotPassword_cooldown hv h hnewest
          (Nat.not_le.mp hcooldown)
        exact iff_of_false (visits_cons_error hends) fun hchain => hcooldown hchain.1

/-- The same from the first call on, which no request stands in the way of. -/
theorem visits_known (hvs : ∀ v ∈ vs, Delivered v) (h : HasUser email u R)
    (hnewest : Newest u R.db none) :
    (app cfg).visits (.forgotPassword email) vs R = some (allDone vs) ↔
      vs.IsChain (ResetSpaced cfg) := by
  cases vs with
  | nil => simp [App.visits, allDone]
  | cons v vs =>
      obtain ⟨hv, hvs⟩ := List.forall_mem_cons.mp hvs
      obtain ⟨i', R', hends, hafter, hnewest'⟩ := forgotPassword_ok hv h hnewest
        (by simp)
      rw [visits_cons_ok hends, visits_known_after hvs hafter hnewest']

/-- Every call for a user is answered, within the cooldown too. -/
theorem visits_answered {c : Option Time} (hvs : ∀ v ∈ vs, Delivered v) (h : HasUser email u R)
    (hnewest : Newest u R.db c) :
    ∃ rs, (app cfg).visits (.forgotPassword email) vs R = some rs ∧ rs.length = vs.length := by
  induction vs generalizing R c with
  | nil => exact ⟨[], rfl, rfl⟩
  | cons v vs ih =>
      obtain ⟨hv, hvs⟩ := List.forall_mem_cons.mp hvs
      by_cases hcooldown :
          ∀ c' ∈ c, c' + cfg.passwordReset.resendCooldownSeconds * 1000 ≤ v.times 1
      · obtain ⟨i', R', hends, hafter, hnewest'⟩ := forgotPassword_ok hv h hnewest hcooldown
        obtain ⟨rs, hrs, hlength⟩ := ih hvs hafter hnewest'
        exact ⟨.ok .done :: rs, by rw [visits_cons hends, hrs]; rfl, by simp [hlength]⟩
      · obtain ⟨c', hc', hwait⟩ : ∃ c' ∈ c,
            v.times 1 < c' + cfg.passwordReset.resendCooldownSeconds * 1000 := by
          simpa using hcooldown
        cases hc'
        obtain ⟨i', R', hends, hafter, hdb⟩ := forgotPassword_cooldown hv h hnewest hwait
        obtain ⟨rs, hrs, hlength⟩ := ih hvs hafter (hdb ▸ hnewest)
        exact ⟨.error resetCooldown :: rs, by rw [visits_cons hends, hrs]; rfl,
          by simp [hlength]⟩

-- =============================================== resendRegistrationCode

/-- The address has a pending registration and no user. -/
structure HasPending (email : String) (x : PendingRegistration) (d : Db Row) : Prop where
  row : .pending x ∈ d.rows
  address : x.email = email
  alone : ∀ y ∈ pendings d, y.email = email → y = x
  noUser : userByEmail email d = none

theorem HasPending.found {x : PendingRegistration} (h : HasPending email x d) :
    pendingByEmail email d = some x := by
  cases hfind : pendingByEmail email d with
  | none =>
      have hnone := List.find?_eq_none.mp hfind x (mem_pendings.mpr h.row)
      simp [h.address] at hnone
  | some y =>
      obtain ⟨hmem, hemail⟩ := mem_of_pendingByEmail hfind
      rw [h.alone y (mem_pendings.mpr hmem) hemail]

/-- The new version of a row whose code is replaced. -/
def resent (cfg : Config) (codeHash : Hash) (now : Time) (x : PendingRegistration) :
    PendingRegistration :=
  { x with
    codeHash
    expiresAt := addMinutes now cfg.registration.codeTtlMinutes
    attemptCount := 0
    lastSentAt := now }

/-- The cooldown is over exactly when there is nothing left to wait. -/
theorem resendAvailable_pos {last cooldown : Nat} :
    0 < registrationResendAvailableInSeconds last now cooldown ↔ now < last + cooldown * 1000 := by
  unfold registrationResendAvailableInSeconds
  unfold Time at *
  omega

/-- Outside the cooldown a live registration gets a new code. -/
theorem yields_resend {x : PendingRegistration} {codeHash : Hash} {n : Nat}
    (h : HasPending email x d) (hlive : now < x.pendingExpiresAt)
    (hcooldown : x.lastSentAt + cfg.registration.resendCooldownSeconds * 1000 ≤ now) :
    (resendTransaction cfg email now codeHash).Yields n d (some (x.id, x.language))
      [.update (.pending (resent cfg codeHash now x))] := by
  refine Tx.Yields.select ?_
  rw [h.noUser]
  refine Tx.Yields.select ?_
  rw [h.found]
  simp only [if_neg (Nat.not_le.mpr hlive)]
  rw [if_neg fun hpos => Nat.not_lt.mpr hcooldown (resendAvailable_pos.mp hpos)]
  refine Tx.Yields.updateRow (x := Row.pending x) (Db.find?_of_mem h.row) ?_ ?_ ?_
  · simp [onPending, h.address, hlive]
  · rw [Db.violation_eq_none_iff]
    refine ⟨fun r hr hk i hi hir => ?_, rfl, fun ref href => by cases href⟩
    have hindex : i = .pendingEmail x.email := by simpa [Schema.indexes, setPending] using hi
    subst hindex
    cases r with
    | pending y =>
        have hemail : y.email = email := by
          rw [← h.address]
          simpa [Schema.indexes, eq_comm] using hir
        rw [h.alone y (mem_pendings.mpr hr) hemail] at hk
        exact hk rfl
    | reset y => cases hy : y.usedAt <;> simp [Schema.indexes, hy] at hir
    | _ => simp [Schema.indexes] at hir
  · exact Tx.Yields.pure

/-- The registration is still the only one, with the new code. -/
theorem HasPending.resent {x : PendingRegistration} {codeHash : Hash} (h : HasPending email x d) :
    HasPending email (resent cfg codeHash now x)
      (applyAll [.update (.pending (resent cfg codeHash now x))] d) := by
  refine ⟨Db.mem_put.mpr (Or.inl rfl), h.address, fun y hy hemail => ?_,
    userByEmail_eq_none.mpr fun u hu => ?_⟩
  · rcases Db.mem_put.mp (mem_pendings.mp hy) with hnew | ⟨hold, hk⟩
    · exact Row.pending.inj hnew
    · rw [h.alone y (mem_pendings.mpr hold) hemail] at hk
      exact absurd rfl hk
  · rcases Db.mem_put.mp (mem_users.mp hu) with hnew | ⟨hold, -⟩
    · cases hnew
    · exact userByEmail_eq_none.mp h.noUser u (mem_users.mpr hold)

/-- An expired registration is removed. -/
theorem yields_expired {x : PendingRegistration} {codeHash : Hash} {n : Nat}
    (h : HasPending email x d) (hexpired : x.pendingExpiresAt ≤ now) :
    (resendTransaction cfg email now codeHash).Yields n d none [.erase (.pending x.id)] := by
  have hdeletion : d.deletion [Key.pending x.id] = [.erase (.pending x.id)] :=
    deletion_single (by simp) (Db.find?_of_mem h.row)
  refine Tx.Yields.select ?_
  rw [h.noUser]
  refine Tx.Yields.select ?_
  rw [h.found]
  simp only [if_pos hexpired]
  have hyields := Tx.Yields.deleteRow (ε := Error) (n := n) (b := (none : Option (Id × String)))
    (p := onPending fun r => r.pendingExpiresAt ≤ now)
    (g := fun _ => Pure.pure none) (Db.find?_of_mem h.row) (by simp [onPending, hexpired])
    Tx.Yields.pure
  rw [show key (Row.pending x) = Key.pending x.id from rfl, hdeletion] at hyields
  exact hyields

/-- With the registration gone nothing has the address any more. -/
theorem HasPending.expired {x : PendingRegistration} (h : HasPending email x d) :
    userByEmail email (applyAll [.erase (.pending x.id)] d) = none ∧
      pendingByEmail email (applyAll [.erase (.pending x.id)] d) = none := by
  refine ⟨userByEmail_eq_none.mpr fun u hu => ?_, List.find?_eq_none.mpr fun y hy => ?_⟩
  · exact userByEmail_eq_none.mp h.noUser u
      (mem_users.mpr (Db.mem_erase.mp (mem_users.mp hu)).1)
  · obtain ⟨hold, hk⟩ := Db.mem_erase.mp (mem_pendings.mp hy)
    intro hemail
    rw [h.alone y (mem_pendings.mpr hold) (of_decide_eq_true hemail)] at hk
    exact hk rfl

/-- A call for an address with a user. -/
theorem resend_user (h : userByEmail email R.db = some u) :
    ((app cfg).main (.resendRegistrationCode email)).Ends v 0 R (.ok .done) 1 R := by
  refine Prog.Ends.bind (a := ()) (Prog.Ends.bind ends_query ?_) Prog.Ends.pure
  rw [h]
  exact Prog.Ends.pure

/-- A call for an address without a user returns what its transaction ends
in. -/
theorem resend_noUser (hv : Delivered v) (h : userByEmail email R.db = none) :
    ∃ code, ∀ r R', (transaction (.resendRegistrationCode email) (resendTransaction cfg email
        (v.times 1) ⟨R.nextId, .text code⟩) : Async (Option (Id × String))).Ends v 3
          { R with nextId := R.nextId + 1 } r 4 R' →
      ∃ i' env, ((app cfg).main (.resendRegistrationCode email)).Ends v 0 R (match r with
        | .ok _ => .ok .done
        | .error e => .error (resendError cfg e)) i' { R' with env } := by
  obtain ⟨code, hcode⟩ := ends_generateSixDigitCode (i := 2) (R := R) hv
  refine ⟨code, fun r R' htx => ?_⟩
  rcases r with e | _ | ⟨pendingId, language⟩
  · refine ⟨4, R'.env, Prog.Ends.bind_error (Prog.Ends.bind ends_query ?_)⟩
    rw [h]
    exact Prog.Ends.bind Prog.Ends.clock (Prog.Ends.bind hcode (Prog.Ends.bind ends_hash
      (Prog.Ends.bind (Prog.Ends.attempt htx) Prog.Ends.throw)))
  · refine ⟨4, R'.env, Prog.Ends.bind (a := ()) (Prog.Ends.bind ends_query ?_) Prog.Ends.pure⟩
    rw [h]
    exact Prog.Ends.bind Prog.Ends.clock (Prog.Ends.bind hcode (Prog.Ends.bind ends_hash
      (Prog.Ends.bind (Prog.Ends.attempt htx) Prog.Ends.pure)))
  · obtain ⟨a', env, hmail⟩ := ends_mail (i := 4) (R := R') hv
      (x := .sendRegistrationVerificationCode email code cfg.registration.codeTtlMinutes
        language) (by simp)
    refine ⟨5, env, Prog.Ends.bind (a := ()) (Prog.Ends.bind ends_query ?_) Prog.Ends.pure⟩
    rw [h]
    refine Prog.Ends.bind Prog.Ends.clock (Prog.Ends.bind hcode (Prog.Ends.bind ends_hash
      (Prog.Ends.bind (Prog.Ends.attempt htx) ?_)))
    exact Prog.Ends.bind (Prog.Ends.attempt (Prog.Ends.enter hmail)) Prog.Ends.pure

/-- Calls for an address with a user all return the same. -/
theorem visits_registered (h : userByEmail email R.db = some u) :
    (app cfg).visits (.resendRegistrationCode email) vs R = some (allDone vs) := by
  induction vs with
  | nil => rfl
  | cons v vs ih => exact (visits_cons_ok (resend_user h)).mpr ih

/-- Calls for an address that is neither registered nor pending all return
the same. -/
theorem visits_absent (hvs : ∀ v ∈ vs, Delivered v) (huser : userByEmail email R.db = none)
    (hpending : pendingByEmail email R.db = none) :
    (app cfg).visits (.resendRegistrationCode email) vs R = some (allDone vs) := by
  induction vs generalizing R with
  | nil => rfl
  | cons v vs ih =>
      obtain ⟨hv, hvs⟩ := List.forall_mem_cons.mp hvs
      obtain ⟨code, hcall⟩ := resend_noUser hv huser
      have hyields : (resendTransaction cfg email (v.times 1) ⟨R.nextId, .text code⟩).Yields
          (v.times 3) R.db none [] := by
        refine Tx.Yields.select ?_
        rw [huser]
        refine Tx.Yields.select ?_
        rw [hpending]
        exact Tx.Yields.pure
      obtain ⟨i', env, hends⟩ := hcall (.ok none) _ (Prog.Ends.commits hyields)
      exact (visits_cons_ok hends).mpr (ih hvs huser hpending)

/-- The send times, with the one before the first call, keep the cooldown
as long as the registration is pending. -/
def ResendSpaced (cfg : Config) (x : PendingRegistration) (vs : List AVisit) : Prop :=
  (x.lastSentAt :: (vs.map fun v => v.times 1).takeWhile (· < x.pendingExpiresAt)).IsChain
    fun sent now : Time => sent + cfg.registration.resendCooldownSeconds * 1000 ≤ now

/-- Every call ends well exactly where the calls keep the cooldown until the
registration expires. -/
theorem visits_pending {x : PendingRegistration} (hvs : ∀ v ∈ vs, Delivered v)
    (h : HasPending email x R.db) :
    (app cfg).visits (.resendRegistrationCode email) vs R = some (allDone vs) ↔
      ResendSpaced cfg x vs := by
  induction vs generalizing R x with
  | nil => simp [App.visits, allDone, ResendSpaced]
  | cons v vs ih =>
      obtain ⟨hv, hvs⟩ := List.forall_mem_cons.mp hvs
      obtain ⟨code, hcall⟩ := resend_noUser hv h.noUser
      unfold ResendSpaced
      rw [List.map_cons]
      by_cases hlive : v.times 1 < x.pendingExpiresAt
      · rw [List.takeWhile_cons_of_pos (by simpa using hlive), List.isChain_cons_cons]
        by_cases hcooldown :
            x.lastSentAt + cfg.registration.resendCooldownSeconds * 1000 ≤ v.times 1
        · obtain ⟨i', env, hends⟩ := hcall (.ok (some (x.id, x.language))) _
            (Prog.Ends.commits (yields_resend h hlive hcooldown))
          rw [visits_cons_ok hends, ih hvs h.resent, and_iff_right hcooldown]
          rfl
        · -- within the cooldown the transaction throws
          have hfails : ((resendTransaction cfg email (v.times 1) ⟨R.nextId, .text code⟩).run
              (v.times 3) R.db).result = .error (.registrationCooldown
                (registrationResendAvailableInSeconds x.lastSentAt (v.times 1)
                  cfg.registration.resendCooldownSeconds)) := by
            unfold resendTransaction
            rw [Tx.run_select, h.noUser]
            simp only [Option.isSome_none, Bool.false_eq_true, if_false]
            rw [Tx.run_select, h.found]
            simp only [if_neg (Nat.not_le.mpr hlive)]
            rw [if_pos (resendAvailable_pos.mpr (Nat.not_le.mp hcooldown))]
            rfl
          obtain ⟨i', env, hends⟩ := hcall (.error _) _ (Prog.Ends.fails hfails)
          exact iff_of_false (visits_cons_error hends) fun hchain => hcooldown hchain.1
      · rw [List.takeWhile_cons_of_neg (by simpa using hlive)]
        obtain ⟨i', env, hends⟩ := hcall (.ok none) _
          (Prog.Ends.commits (yields_expired h (Nat.not_lt.mp hlive)))
        obtain ⟨huser, hpending⟩ := h.expired
        rw [visits_cons_ok hends]
        exact iff_of_true (visits_absent hvs huser hpending) (by simp)

-- ============================================================= the claim

/-- Two databases that differ in one row. -/
structure DifferIn (r : Row) (d₁ d₂ : Db Row) : Prop where
  has : d₁.find? (key r) = some r
  lacks : d₂.find? (key r) = none
  same : ∀ k, k ≠ key r → d₁.find? k = d₂.find? k

/-- A row of the database without the one is a row of the other, under another
key. -/
theorem DifferIn.mem {r r' : Row} {d₁ d₂ : Db Row} (h : DifferIn r d₁ d₂) (hr : r' ∈ d₂.rows) :
    r' ∈ d₁.rows ∧ key r' ≠ key r := by
  have hne : key r' ≠ key r := fun hk => Db.find?_eq_none_iff.mp h.lacks r' hr hk
  exact ⟨Db.mem_of_find? ((h.same _ hne).trans (Db.find?_of_mem hr)), hne⟩

/-- Every other row is in both. -/
theorem DifferIn.mem_of_ne {r r' : Row} {d₁ d₂ : Db Row} (h : DifferIn r d₁ d₂)
    (hr : r' ∈ d₁.rows) (hne : r' ≠ r) : r' ∈ d₂.rows := by
  by_cases hk : key r' = key r
  · have hfind := Db.find?_of_mem hr
    rw [hk, h.has] at hfind
    exact absurd (Option.some.inj hfind).symm hne
  · exact Db.mem_of_find? ((h.same _ hk).symm.trans (Db.find?_of_mem hr))

/-- Unique addresses: a row of the same table with the same address is the
same row. -/
theorem eq_of_user_email {u u' : User} (hd : d.Consistent) (hu : .user u ∈ d.rows)
    (hu' : .user u' ∈ d.rows) (hemail : u'.email = u.email) : u' = u := by
  by_contra hne
  have hkey : key (Row.user u') ≠ key (Row.user u) := by
    intro hk
    have hfind := Db.find?_of_mem hu
    rw [← hk, Db.find?_of_mem hu'] at hfind
    exact hne (Row.user.inj (Option.some.inj hfind))
  refine (Db.violation_eq_none_iff.mp (hd _ hu)).1 _ hu' hkey (.userEmail u.email)
    (by simp [Schema.indexes]) ?_
  simp [Schema.indexes, hemail]

theorem eq_of_pending_email {x x' : PendingRegistration} (hd : d.Consistent)
    (hx : .pending x ∈ d.rows) (hx' : .pending x' ∈ d.rows) (hemail : x'.email = x.email) :
    x' = x := by
  by_contra hne
  have hkey : key (Row.pending x') ≠ key (Row.pending x) := by
    intro hk
    have hfind := Db.find?_of_mem hx
    rw [← hk, Db.find?_of_mem hx'] at hfind
    exact hne (Row.pending.inj (Option.some.inj hfind))
  refine (Db.violation_eq_none_iff.mp (hd _ hx)).1 _ hx' hkey (.pendingEmail x.email)
    (by simp [Schema.indexes]) ?_
  simp [Schema.indexes, hemail]

section Differ

variable {d₁ d₂ : Db Row}

/-- The database with the user has the user, alone under the address. -/
theorem DifferIn.hasUser (h : DifferIn (.user u) d₁ d₂) (hd₁ : d₁.Consistent) {env : Env}
    {nextId : Id} (hfresh : ∀ j, nextId ≤ j → d₁.find? (.reset j) = none) :
    HasUser u.email u ⟨d₁, env, nextId⟩ where
  user := Db.mem_of_find? h.has
  address := rfl
  alone := fun _ hu' hemail =>
    eq_of_user_email hd₁ (Db.mem_of_find? h.has) (mem_users.mp hu') hemail
  fresh := hfresh

/-- The other database has no user of the address. -/
theorem DifferIn.unknown (h : DifferIn (.user u) d₁ d₂) (hd₁ : d₁.Consistent) :
    userByEmail u.email d₂ = none := by
  refine userByEmail_eq_none.mpr fun u' hu' hemail => ?_
  obtain ⟨hmem, hne⟩ := h.mem (mem_users.mp hu')
  exact hne (by rw [eq_of_user_email hd₁ (Db.mem_of_find? h.has) hmem hemail])

/-- A request of the user would refer to a row that is missing in the other
database, so there is none. -/
theorem DifferIn.newest (h : DifferIn (.user u) d₁ d₂) (hd₂ : d₂.Consistent) :
    Newest u d₁ none := by
  intro y hy hyu
  have hmem := h.mem_of_ne (mem_resets.mp hy) (by simp)
  have href := (Db.violation_eq_none_iff.mp (hd₂ _ hmem)).2.2 (.user y.userId, .cascade)
    (by simp [Schema.references])
  rw [hyu] at href
  rw [show d₂.find? (.user u.id) = none from h.lacks] at href
  cases href

end Differ

/-- A client cannot tell whether an address has a user, or a pending
registration, exactly where its calls keep the cooldown. -/
theorem disclosure_iff (hvs : ∀ v ∈ vs, Delivered v) {d₁ d₂ : Db Row} {env : Env} {nextId : Id}
    (hd₁ : d₁.Consistent) (hd₂ : d₂.Consistent)
    (hfresh : ∀ j, nextId ≤ j → d₁.find? (.reset j) = none) :
    (∀ u, DifferIn (.user u) d₁ d₂ →
      ((app cfg).visits (.forgotPassword u.email) vs ⟨d₁, env, nextId⟩
          = (app cfg).visits (.forgotPassword u.email) vs ⟨d₂, env, nextId⟩ ↔
        vs.IsChain (ResetSpaced cfg))) ∧
    ∀ x, DifferIn (.pending x) d₁ d₂ →
      ((app cfg).visits (.resendRegistrationCode x.email) vs ⟨d₁, env, nextId⟩
          = (app cfg).visits (.resendRegistrationCode x.email) vs ⟨d₂, env, nextId⟩ ↔
        (∃ u ∈ users d₁, u.email = x.email) ∨ ResendSpaced cfg x vs) := by
  constructor
  · intro u hdiffer
    rw [visits_unknown (R := ⟨d₂, env, nextId⟩) (hdiffer.unknown hd₁)]
    exact visits_known (R := ⟨d₁, env, nextId⟩) hvs (hdiffer.hasUser hd₁ hfresh)
      (hdiffer.newest hd₂)
  · intro x hdiffer
    have hx : .pending x ∈ d₁.rows := Db.mem_of_find? hdiffer.has
    cases huser : userByEmail x.email d₁ with
    | some u =>
        obtain ⟨hu, hemail⟩ := mem_of_userByEmail huser
        have huser₂ : ∃ u, userByEmail x.email d₂ = some u := by
          cases hnone : userByEmail x.email d₂ with
          | some u => exact ⟨u, rfl⟩
          | none =>
              exact absurd hemail (userByEmail_eq_none.mp hnone u
                (mem_users.mpr (hdiffer.mem_of_ne hu (by simp))))
        obtain ⟨u₂, hu₂⟩ := huser₂
        rw [visits_registered (R := ⟨d₁, env, nextId⟩) huser,
          visits_registered (R := ⟨d₂, env, nextId⟩) hu₂]
        exact iff_of_true rfl (Or.inl ⟨u, mem_users.mpr hu, hemail⟩)
    | none =>
        have huser₂ : userByEmail x.email d₂ = none := userByEmail_eq_none.mpr fun u hu =>
          userByEmail_eq_none.mp huser u (mem_users.mpr (hdiffer.mem (mem_users.mp hu)).1)
        have halone : ∀ y ∈ pendings d₁, y.email = x.email → y = x := fun y hy hemail =>
          eq_of_pending_email hd₁ hx (mem_pendings.mp hy) hemail
        have hpending₂ : pendingByEmail x.email d₂ = none := by
          refine List.find?_eq_none.mpr fun y hy hemail => ?_
          obtain ⟨hmem, hne⟩ := hdiffer.mem (mem_pendings.mp hy)
          exact hne (by rw [halone y (mem_pendings.mpr hmem) (of_decide_eq_true hemail)])
        have hnone : ¬ ∃ u ∈ users d₁, u.email = x.email := fun ⟨u, hu, hemail⟩ =>
          userByEmail_eq_none.mp huser u hu hemail
        rw [visits_absent (R := ⟨d₂, env, nextId⟩) hvs huser₂ hpending₂, or_iff_right hnone]
        exact visits_pending (R := ⟨d₁, env, nextId⟩) hvs ⟨hx, rfl, halone, huser⟩

/-- The visits are a run of the machine, one thread after the other. -/
theorem visits_run {q : Req} {rs : List (Except Error Res)}
    (h : (app cfg).visits q vs R = some rs)
    (horder : vs.Pairwise fun v v' => ∀ i, v.times i ≤ v'.times 0) :
    ∃ w, Reachable (app cfg) (World.init R.db R.env 0 R.nextId) w ∧
      ∀ k r, rs[k]? = some r → w.threads (1 + k) = .finished r := by
  obtain ⟨w, hreach, -, hends⟩ := World.runs_visits (t := 1)
    (w := World.init R.db R.env 0 R.nextId) h (fun _ => rfl) horder (by decide) (fun _ _ => rfl)
    fun v _ => ⟨rfl, rfl, rfl, rfl, Nat.zero_le _⟩
  exact ⟨w, hreach, hends⟩

/-- Where the calls do not keep the cooldown, what tells the user's database
from the other one is in runs of the machine: some call ends well where the
user is missing, and ends otherwise where it is not. -/
theorem told_apart (hvs : ∀ v ∈ vs, Delivered v)
    (horder : vs.Pairwise fun v v' => ∀ i, v.times i ≤ v'.times 0) {d₁ d₂ : Db Row} {env : Env}
    {nextId : Id} (hd₁ : d₁.Consistent) (hd₂ : d₂.Consistent)
    (hfresh : ∀ j, nextId ≤ j → d₁.find? (.reset j) = none) (hdiffer : DifferIn (.user u) d₁ d₂)
    (hsoon : ¬ vs.IsChain (ResetSpaced cfg)) :
    ∃ k w₁ w₂ r, Reachable (app cfg) (World.init d₁ env 0 nextId) w₁ ∧
      Reachable (app cfg) (World.init d₂ env 0 nextId) w₂ ∧
      w₁.threads (1 + k) = .finished r ∧ w₂.threads (1 + k) = .finished (.ok .done) ∧
      r ≠ .ok .done := by
  have hnewest : Newest u d₁ none := hdiffer.newest hd₂
  have huser : HasUser u.email u ⟨d₁, env, nextId⟩ := hdiffer.hasUser hd₁ hfresh
  obtain ⟨rs, hrs, hlength⟩ : ∃ rs,
      (app cfg).visits (.forgotPassword u.email) vs ⟨d₁, env, nextId⟩ = some rs ∧
        rs.length = vs.length := visits_answered hvs huser hnewest
  have hknown : (app cfg).visits (.forgotPassword u.email) vs ⟨d₁, env, nextId⟩
      ≠ some (allDone vs) := (visits_known hvs huser hnewest).not.mpr hsoon
  have hunknown : (app cfg).visits (.forgotPassword u.email) vs ⟨d₂, env, nextId⟩
      = some (allDone vs) := visits_unknown (hdiffer.unknown hd₁)
  -- not all of the answers are the one everybody gets
  obtain ⟨k, hk, hne⟩ : ∃ k, ∃ hk : k < rs.length, rs[k] ≠ .ok .done := by
    by_contra hall
    push Not at hall
    refine hknown (hrs.trans (congrArg some (List.ext_getElem (by simp [allDone, hlength]) ?_)))
    intro k hk _
    simpa [allDone] using hall k hk
  obtain ⟨w₁, hreach₁, hends₁⟩ := visits_run hrs horder
  obtain ⟨w₂, hreach₂, hends₂⟩ := visits_run hunknown horder
  refine ⟨k, w₁, w₂, rs[k], hreach₁, hreach₂, hends₁ k _ (List.getElem?_eq_getElem hk),
    hends₂ k _ ?_, hne⟩
  simp [allDone, ← hlength, hk]

/-- A visit that takes no time, with a code and its mail. -/
def visitAt (n : Nat) : AVisit where
  answer
    | .randomInt => .drawn 7
    | _ => .done
  times := fun _ => n
  mono := monotone_const

theorem visitAt_delivered (n : Nat) : Delivered (visitAt n) where
  mail := fun x hx => by cases x <;> first | exact absurd rfl hx | rfl
  drawn := ⟨7, by decide, rfl⟩

theorem sampleDb_differs : DifferIn (.user sampleUser) sampleDb (Db.empty : Db Row) where
  has := by decide
  lacks := rfl
  same := fun k hk => Db.find?_eq_none_iff.mpr fun r hr => by
    cases List.mem_singleton.mp hr
    exact hk.symm

theorem resetSpaced_minute : ResetSpaced sampleConfig (visitAt 0) (visitAt 60000) :=
  Nat.le_refl 60000

/-- Two calls a minute apart tell nothing about the owner. -/
theorem disclosure_kept :
    (app sampleConfig).visits (.forgotPassword "owner@example.com") [visitAt 0, visitAt 60000]
        ⟨sampleDb, [], 10⟩
      = (app sampleConfig).visits (.forgotPassword "owner@example.com")
        [visitAt 0, visitAt 60000] ⟨Db.empty, [], 10⟩ := by
  refine ((disclosure_iff ?_ ?_ ?_ ?_).1 sampleUser sampleDb_differs).mpr ?_
  · simp [visitAt_delivered]
  · unfold Db.Consistent
    decide
  · unfold Db.Consistent
    decide
  · exact fun j _ => Db.find?_eq_none_iff.mpr fun r hr => by
      cases List.mem_singleton.mp hr
      simp [key]
  · simp [resetSpaced_minute]

/-- Two calls at once do: the second is told to wait. -/
theorem disclosure_fails : ¬ ∀ (vs : List AVisit) (d₁ d₂ : Db Row) (u : User),
    (∀ v ∈ vs, Delivered v) → DifferIn (.user u) d₁ d₂ → d₁.Consistent → d₂.Consistent →
    (∀ j, 10 ≤ j → d₁.find? (.reset j) = none) →
    (app sampleConfig).visits (.forgotPassword u.email) vs ⟨d₁, [], 10⟩
      = (app sampleConfig).visits (.forgotPassword u.email) vs ⟨d₂, [], 10⟩ := by
  intro hclaim
  have hsame := hclaim [visitAt 0, visitAt 0] sampleDb Db.empty sampleUser
    (by simp [visitAt_delivered]) sampleDb_differs (by unfold Db.Consistent; decide)
    (by unfold Db.Consistent; decide) fun j _ => Db.find?_eq_none_iff.mpr fun r hr => by
      cases List.mem_singleton.mp hr
      simp [key]
  have hknown : ((app sampleConfig).visits (.forgotPassword sampleUser.email)
      [visitAt 0, visitAt 0] ⟨sampleDb, [], 10⟩).map (·.map Except.isOk) = some [true, false] := by
    decide +kernel
  have hunknown : ((app sampleConfig).visits (.forgotPassword sampleUser.email)
      [visitAt 0, visitAt 0] ⟨Db.empty, [], 10⟩).map (·.map Except.isOk) = some [true, true] := by
    decide +kernel
  rw [hsame, hunknown] at hknown
  cases hknown

end FastRep.Auth
