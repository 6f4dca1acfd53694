/-
What registering, resending and withdrawing a code commit.

`TxSafe.registerTransaction` walks through the transaction of `register`: the
expired row of the address is dropped, a user is looked for, the new row is
inserted where no other has its email. The search for a user takes no lock,
so what is known at the commit is that it found none when it ran.

A resend reads the row, and replaces its code by an update guarded by the
send time it read; a registration whose time is over loses its row
instead. Sending comes after the commit and may fail; then the code
is withdrawn by its hash. `Triple.sendCode` and `Triple.withdraw` are shared
by the two methods.
-/
import FastRep.Auth.Proofs.Rules

namespace FastRep.Auth

open FastRep.Txn

variable {cfg : Config} {start : AState} {t : Tid} {s : Site} {q : Req} {now : Time}
  {ns : List Id} {ss es : List Site} {fs : List (AEntry → Prop)} {S S' : AState}

-- ===================================================== rows of a statement

/-- A row a statement of the transaction changed is the one that is
committed until the transaction ends. -/
theorem Within.pending_eq {x y : PendingRegistration} {i : Id}
    (h : Within (contract cfg start) t s
      (S.ran t s (Write.update (.pending y) : Write Row Key).locks) S')
    (hy : y.id = i) (hx : S.db.find? (.pending i) = some (.pending x)) :
    pending? S'.db i = some x := by
  subst hy
  exact pending?_eq_some.mpr ((Within.find?_of_write h).trans hx)

/-- A registration that the transaction has erased is stored until it commits.
-/
theorem Within.pending_eq_of_erase {x : PendingRegistration} {i : Id}
    (h : Within (contract cfg start) t s
      (S.ran t s (Write.erase (Key.pending i) : Write Row Key).locks) S')
    (hx : S.db.find? (.pending i) = some (.pending x)) : pending? S'.db i = some x :=
  pending?_eq_some.mpr ((Within.find?_of_write (w := .erase (Key.pending i)) h).trans hx)

theorem Within.token_eq_of_erase {x : RefreshToken} {i : Id}
    (h : Within (contract cfg start) t s
      (S.ran t s (Write.erase (Key.token i) : Write Row Key).locks) S')
    (hx : S.db.find? (.token i) = some (.token x)) : token? S'.db i = some x :=
  token?_eq_some.mpr ((Within.find?_of_write (w := .erase (Key.token i)) h).trans hx)

/-- What a condition on tokens holds of is a token. -/
theorem exists_onToken {r : Row} {p : RefreshToken → Bool} (h : onToken p r = true) :
    ∃ x, r = .token x ∧ p x = true := by
  cases r <;> simp_all [onToken]

theorem exists_onReset {r : Row} {p : PasswordResetRequest → Bool} (h : onReset p r = true) :
    ∃ x, r = .reset x ∧ p x = true := by
  cases r <;> simp_all [onReset]

theorem exists_onPending {r : Row} {p : PendingRegistration → Bool} (h : onPending p r = true) :
    ∃ x, r = .pending x ∧ p x = true := by
  cases r <;> simp_all [onPending]

-- ============================================================= register

/-- The row of `register` is inserted where no other has its email. -/
theorem TxSafe.createPending {drop : List (Write Row Key)} {created : PendingRegistration}
    (hdrop : ∀ S', Within (contract cfg start) t s S S' → drop = [] ∨ Drops drop S') :
    TxSafe (contract cfg start) t s (fun b ws S' => b = none ∧
      ws = drop ++ [.insert (.pending created)] ∧ (drop = [] ∨ Drops drop S') ∧
      ∀ x ∈ pendings S'.db, x.email = created.email → .erase (.pending x.id) ∈ drop)
      (createPending created) drop S := by
  refine TxSafe.insertRow fun S₁ hS₁ hW₁ hnone hviol => TxSafe.pure fun S₂ hS₂ => ?_
  refine ⟨rfl, rfl, hdrop S₂ (hW₁.trans hS₂.within), fun x hx hemail => ?_⟩
  by_contra hkept
  refine Within.index_free (x := .pending x) (i := .pendingEmail created.email)
    hS₂.within (fun w hw he => ?_) hnone hviol ?_ (mem_pendings.mp hx) ?_
  · rcases hdrop S₂ (hW₁.trans hS₂.within) with rfl | ⟨y, -, -, rfl⟩
    · cases hw
    · cases List.mem_singleton.mp hw
      have hid : y.id = x.id := by simpa [Write.target, key] using he
      exact hkept (hid ▸ List.mem_singleton_self _)
  · exact List.mem_singleton_self _
  · rw [← hemail]
    exact List.mem_singleton_self _

/-- The transaction of `register` creates a registration after it has dropped
those of the address and seen no user with it, or creates none. -/
theorem TxSafe.registerTransaction {email : String} {created : PendingRegistration}
    (hemail : created.email = email) (hopen : S.toScene.OpenAt t s 0) (hnow : now ≤ S.clock) :
    TxSafe (contract cfg start) t s (fun b ws S' => (b ≠ none ∧ ws = []) ∨
      b = none ∧ ∃ drop, ws = drop ++ [.insert (.pending created)] ∧
        (drop = [] ∨ Drops drop S') ∧
        (∀ x ∈ pendings S'.db, x.email = email → .erase (.pending x.id) ∈ drop) ∧
        SawInside S' t s fun d => userByEmail email d = none)
      (registerTransaction email now created) [] S := by
  subst hemail
  refine TxSafe.select fun S₁ hS₁ hW₁ => ?_
  split
  next => exact TxSafe.throw _
  next hnone =>
      have hsaw : ∀ S', Within (contract cfg start) t s (S₁.ran t s []) S' →
          SawInside S' t s fun d => userByEmail created.email d = none := fun S' hW =>
        SawInside.of_within (hopen.within hS₁.within) (by simpa using hnone) hW
      -- a row that is inserted follows the check of the users
      have hcreate : ∀ {drop S₂}, Within (contract cfg start) t s (S₁.ran t s []) S₂ →
          (∀ S', Within (contract cfg start) t s S₂ S' → drop = [] ∨ Drops drop S') →
          TxSafe (contract cfg start) t s (fun b ws S' => (b ≠ none ∧ ws = []) ∨
            b = none ∧ ∃ drop, ws = drop ++ [.insert (.pending created)] ∧
              (drop = [] ∨ Drops drop S') ∧
              (∀ x ∈ pendings S'.db, x.email = created.email →
                .erase (.pending x.id) ∈ drop) ∧
              SawInside S' t s fun d => userByEmail created.email d = none)
            (Auth.createPending created) drop S₂ := by
        intro drop S₂ hW₂ hdrop
        refine (TxSafe.createPending hdrop).within.mono fun b ws S' hS' => ?_
        obtain ⟨hW, rfl, rfl, hdrop', hfree⟩ := hS'
        exact Or.inr ⟨rfl, drop, rfl, hdrop', hfree, hsaw S' (hW₂.trans hW)⟩
      refine TxSafe.select fun S₂ hS₂ hW₂ => ?_
      split
      next => exact hcreate hW₂ fun _ _ => Or.inl rfl
      next pending hpending =>
          split
          next hexpired =>
              refine TxSafe.deleteSingle (by simp) (fun S₃ hS₃ => ?_)
                fun S₃ r hS₃ hW₃ hr hp => ?_
              · refine TxSafe.select fun S₄ hS₄ hW₄ => ?_
                split
                next => exact TxSafe.pure fun _ _ => Or.inl ⟨by simp, rfl⟩
                next =>
                    exact hcreate (hW₂.trans ((hS₃.ran (by simp)).trans hW₄))
                      fun _ _ => Or.inl rfl
              · obtain ⟨x, rfl, hx⟩ := exists_onPending hp
                have hid := Db.key_of_find? hr
                refine hcreate (hW₂.trans hW₃) fun S' hW' => Or.inr ⟨x, ?_, ?_, ?_⟩
                · have hxid : x.id = pending.id := by simpa [key] using hid
                  rw [hxid]
                  exact Within.pending_eq_of_erase hW' hr
                · have hclock := (hW₁.trans (hW₂.trans (hW₃.trans hW'))).clock_le
                  exact le_trans (by simpa using hx) (le_trans hnow hclock)
                · rw [← hid]
                  rfl
          next => exact TxSafe.pure fun _ _ => Or.inl ⟨by simp, rfl⟩

/-- A commit that stores a code issues it. -/
theorem Issuing.of_mem {ws : List (Write Row Key)} {y : PendingRegistration}
    (hs : s.marked = true) (hy : .insert (.pending y) ∈ ws ∨ .update (.pending y) ∈ ws) :
    Issuing t y.id y.codeHash ⟨t, .commit s ws, S.toScene⟩ :=
  ⟨rfl, s, ws, rfl, hs, y, rfl, rfl, hy⟩

/-- Withdrawing a code is a commit of the thread that issued it. -/
theorem Triple.withdraw {pendingId : Id} {codeHash : Hash} {E : Error → Knows t}
    (hown : (Site.withdrawRegistrationCode pendingId codeHash).servedBy q = true)
    (hfact : Issuing t pendingId codeHash ∈ fs)
    (hE : ∀ e S, Standing t q now ns ss es fs S → (E e).holds S) :
    Triple (contract cfg start) (At q now ns ss es fs)
      (invalidatePendingRegistrationCode cfg pendingId codeHash)
      (fun _ => At q now ns ss es fs) E := by
  refine Triple.bind Triple.clock fun invalidatedAt => Triple.bind
    (Triple.commits rfl hown (fun S _ _ => ?_) hE) fun _ => Triple.pure fun _ hS => hS
  refine TxSafe.of_bind_pure (TxSafe.updateRow
    (fun S₁ _ _ _ => TxSafe.pure fun _ _ hS => ⟨hS.facts _ hfact, Or.inl rfl⟩)
    fun S₁ r _ _ hr hp _ => TxSafe.pure fun S₂ hS₂ hS => ⟨hS.facts _ hfact, Or.inr ?_⟩)
  obtain ⟨x, rfl, hx⟩ := exists_onPending hp
  have hid : x.id = pendingId := by simpa [key] using Db.key_of_find? hr
  exact ⟨x, invalidatedAt, Within.pending_eq hS₂.within hid hr, by simpa using hx, rfl⟩

/-- A code is sent by the request that issued it. -/
theorem Triple.sendCode {email code language : String} {pendingId : Id} {codeHash : Hash}
    (hown : (Site.withdrawRegistrationCode pendingId codeHash).servedBy q = true)
    (hfact : Issuing t pendingId codeHash ∈ fs) :
    Triple (contract cfg start) (At q now ns ss [] fs)
      (sendRegistrationCode cfg email code language pendingId codeHash)
      (fun _ => Served t q) (fun _ => Served t q) := by
  refine Triple.bind (Triple.attempt (R := fun _ => At q now ns ss
    [.sendRegistrationCode pendingId codeHash]
    (Entering t (.sendRegistrationCode pendingId codeHash) :: fs))
    (Triple.names rfl (fun S hS => ⟨hS.named, hS.facts _ hfact⟩)
      (Triple.calls fun _ _ hS => hS))) fun sent => ?_
  cases sent with
  | error e =>
      exact Triple.bind (Triple.withdraw hown (List.mem_cons_of_mem _ hfact)
        fun e S hS => hS.ended trivial) fun _ => Triple.throw fun S hS => hS.ended trivial
  | ok _ => exact Triple.pure fun S hS => hS.ended trivial

/-- What `register` does about an error serves its request. -/
theorem Triple.registerFailed {dto : RegisterDto} {error : Error} :
    Triple (contract cfg start) (At (.register dto) now ns ss es fs)
      (registerFailed cfg dto.email error) (fun _ => Served t (.register dto))
      (fun _ => Served t (.register dto)) := by
  unfold Auth.registerFailed
  split
  next => exact Triple.throw fun S hS => hS.ended trivial
  next =>
      split
      next =>
          refine Triple.bind (Triple.query rfl rfl (fun _ => rfl) fun e S hS => hS.ended trivial)
            fun user => ?_
          split
          next => exact Triple.throw fun S hS => hS.ended trivial
          next =>
              refine Triple.bind (Triple.query rfl rfl (fun _ => rfl) fun e S hS => hS.ended trivial)
                fun pending => ?_
              split
              next => exact Triple.throw fun S hS => hS.ended trivial
              next =>
                  refine Triple.bind Triple.clock fun _ => ?_
                  split
                  next => exact Triple.bind Triple.clock fun _ => Triple.pure fun S hS => hS.ended trivial
                  next => exact Triple.throw fun S hS => hS.ended trivial
      next => exact Triple.throw fun S hS => hS.ended trivial

/-- `register` serves its request. -/
theorem Triple.register {dto : RegisterDto} :
    Triple (contract cfg start) (At (.register dto) 0 [] [] [] []) (register cfg dto)
      (fun _ => Served t (.register dto)) (fun _ => Served t (.register dto)) := by
  refine Triple.bind (Triple.query rfl rfl (fun _ => rfl) fun e S hS => hS.ended trivial) fun user => ?_
  split
  next => exact Triple.throw fun S hS => hS.ended trivial
  next =>
      refine Triple.bind (R := fun now => At _ now [] [] [] _)
        (Triple.reading fun _ _ hS => hS) fun now => Triple.hash fun passwordSalt => ?_
      refine Triple.bind (Triple.generateSixDigitCode fun e S hS => hS.ended trivial) fun code =>
        Triple.hash fun codeSalt => ?_
      refine Triple.bind (R := fun n => At _ now [n, codeSalt, passwordSalt] [] [] _)
        (Triple.drawn fun _ _ hS => hS) fun pendingId => ?_
      refine Triple.attempts (s := .register dto.email)
        (fun b => if b = none then [Issuing t pendingId ⟨codeSalt, .text code⟩] else []) rfl rfl
        (fun S hS hopen => ?_) (fun lastSentAt => ?_) fun e => Triple.registerFailed
      · have hemail : (newPending cfg dto pendingId ⟨passwordSalt, .text dto.password⟩
            ⟨codeSalt, .text code⟩ now).email = dto.email := rfl
        refine (TxSafe.registerTransaction hemail hopen hS.clock).mono ?_
        intro b ws S' hF hS'
        rcases hF with ⟨hb, rfl⟩ | ⟨rfl, drop, rfl, hdrop, hfree, hsaw⟩
        · exact ⟨Or.inl rfl, by simp [hb]⟩
        · refine ⟨Or.inr ⟨dto, pendingId, ⟨passwordSalt, .text dto.password⟩,
            ⟨codeSalt, .text code⟩, now, drop, hS'.asked, rfl, hS'.ids, hS'.marks, rfl,
            hS'.clock, hdrop, hfree, hsaw, rfl⟩, fun i hi => ?_⟩
          cases List.mem_singleton.mp hi
          exact Issuing.of_mem (y := newPending cfg dto pendingId
            ⟨passwordSalt, .text dto.password⟩ ⟨codeSalt, .text code⟩ now) rfl
            (Or.inl (List.mem_append_right _ List.mem_cons_self))
      · cases lastSentAt with
        | some lastSentAt => exact Triple.pure fun S hS => hS.ended trivial
        | none =>
            exact Triple.bind (Triple.sendCode rfl List.mem_cons_self)
              fun _ => Triple.pure fun S hS => hS

-- =============================================================== resend

/-- Where there is nothing left to wait, the cooldown is over. -/
theorem lastSentAt_le_of_available {lastSentAt cooldownSeconds : Nat}
    (h : ¬ 0 < registrationResendAvailableInSeconds lastSentAt now cooldownSeconds) :
    lastSentAt + cooldownSeconds * 1000 ≤ now := by
  simp only [registrationResendAvailableInSeconds] at h
  omega

/-- The transaction of a resend gives the registration a new code after the
cooldown, or drops it, or does nothing. -/
theorem TxSafe.resendTransaction {email : String} {codeHash : Hash} (hnow : now ≤ S.clock) :
    TxSafe (contract cfg start) t s (fun b ws S' =>
      (b = none ∧ (ws = [] ∨ Drops ws S')) ∨ ∃ x language, b = some (x.id, language) ∧
        pending? S'.db x.id = some x ∧ x.email = email ∧
        x.lastSentAt + cfg.registration.resendCooldownSeconds * 1000 ≤ now ∧
        ws = [.update (.pending { x with
          codeHash
          expiresAt := addMinutes now cfg.registration.codeTtlMinutes
          attemptCount := 0
          lastSentAt := now })])
      (resendTransaction cfg email now codeHash) [] S := by
  refine TxSafe.select fun S₁ hS₁ hW₁ => ?_
  split
  next => exact TxSafe.pure fun _ _ => Or.inl ⟨rfl, Or.inl rfl⟩
  next =>
      refine TxSafe.select fun S₂ hS₂ hW₂ => ?_
      split
      next => exact TxSafe.pure fun _ _ => Or.inl ⟨rfl, Or.inl rfl⟩
      next pending hpending =>
          split
          next =>
              refine TxSafe.deleteSingle (by simp)
                (fun S₃ _ => TxSafe.pure fun _ _ => Or.inl ⟨rfl, Or.inl rfl⟩)
                fun S₃ r hS₃ hW₃ hr hp => TxSafe.pure fun S₄ hS₄ => ?_
              obtain ⟨x, rfl, hx⟩ := exists_onPending hp
              have hid : x.id = pending.id := by simpa [key] using Db.key_of_find? hr
              rw [← hid] at hr hW₃ hS₄ ⊢
              refine Or.inl ⟨rfl, Or.inr ⟨x, Within.pending_eq_of_erase hS₄.within hr, ?_, rfl⟩⟩
              have hclock := (hW₁.trans (hW₂.trans (hW₃.trans hS₄.within))).clock_le
              exact le_trans (by simpa using hx) (le_trans hnow hclock)
          next =>
              simp only
              split
              next => exact TxSafe.throw _
              next havailable =>
                  refine TxSafe.updateRow (fun S₃ _ _ _ => TxSafe.throw _)
                    fun S₃ r hS₃ hW₃ hr hp _ => TxSafe.pure fun S₄ hS₄ => ?_
                  obtain ⟨x, rfl, hx⟩ := exists_onPending hp
                  have hid : x.id = pending.id := by simpa [key] using Db.key_of_find? hr
                  simp only [Bool.and_eq_true, decide_eq_true_eq] at hx
                  refine Or.inr ⟨x, pending.language, by rw [hid], ?_, hx.1.1, ?_, rfl⟩
                  · rw [← hid] at hr
                    exact Within.pending_eq hS₄.within rfl hr
                  · rw [hx.1.2]
                    exact lastSentAt_le_of_available havailable

/-- `resendRegistrationCode` serves its request. -/
theorem Triple.resendRegistrationCode {email : String} :
    Triple (contract cfg start) (At (.resendRegistrationCode email) 0 [] [] [] [])
      (resendRegistrationCode cfg email) (fun _ => Served t (.resendRegistrationCode email))
      (fun _ => Served t (.resendRegistrationCode email)) := by
  refine Triple.bind (Triple.query rfl rfl (fun _ => rfl) fun e S hS => hS.ended trivial) fun user => ?_
  split
  next => exact Triple.pure fun S hS => hS.ended trivial
  next =>
      refine Triple.bind (R := fun now => At _ now [] [] [] _)
        (Triple.reading fun _ _ hS => hS) fun now => ?_
      refine Triple.bind (Triple.generateSixDigitCode fun e S hS => hS.ended trivial) fun code =>
        Triple.hash fun codeSalt => ?_
      refine Triple.attempts (s := .resendRegistrationCode email)
        (fun b => match b with
          | some (id, _) => [Issuing t id ⟨codeSalt, .text code⟩]
          | none => []) rfl rfl
        (fun S hS _ => (TxSafe.resendTransaction hS.clock).mono ?_) (fun b => ?_)
        fun e => Triple.throw fun S hS => hS.ended trivial
      · intro b ws S' hF hS'
        rcases hF with ⟨rfl, hws⟩ | ⟨x, language, rfl, hx, hemail, hcooldown, rfl⟩
        · exact ⟨hws.imp_right Or.inl, by simp⟩
        · refine ⟨Or.inr (Or.inr ⟨x, ⟨codeSalt, .text code⟩, now, hx, hemail, hcooldown,
            hS'.clock, ?_, hS'.marks, rfl⟩), fun i hi => ?_⟩
          · rw [hS'.ids]
            exact List.mem_cons_self
          · cases List.mem_singleton.mp hi
            exact Issuing.of_mem rfl (Or.inr List.mem_cons_self)
      · cases b with
        | none => exact Triple.pure fun S hS => hS.ended trivial
        | some r => exact Triple.sendCode rfl List.mem_cons_self

end FastRep.Auth
