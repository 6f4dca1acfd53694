/-
What verifying a registration, logging in, rotating a refresh token and
logging out commit.

A verification compares the code outside its transaction. Inside it the row
is deleted under the hash that was compared, so a code that was replaced in
between is not accepted; the user and its first token are inserted in the
same commit. A refresh verifies the token's signature, compares its hash
with the stored one, deletes the row and inserts the next in one
transaction: whoever deletes it first has the only new token. Login creates
a token after it compared the password, and logout deletes one.

A wrong code is recorded by a guarded update against the row it was compared
with (`TxSafe.recordRegistration`).
-/
import FastRep.Auth.Proofs.Registering

namespace FastRep.Auth

open FastRep.Txn

variable {cfg : Config} {start : AState} {t : Tid} {s : Site} {q : Req} {now : Time}
  {ns : List Id} {ss es : List Site} {fs : List (AEntry → Prop)} {S S' : AState}

-- ============================================================ wrong codes

/-- A failed attempt counts one attempt of the registration it was made
against, or expires its code. It counts nothing if it finds another code,
another count, or a code that has run out. -/
theorem TxSafe.recordRegistration {pendingId : Id} {codeHash : Hash} {attemptCount : Nat}
    {attemptedAt : Time} :
    TxSafe (contract cfg start) t s (fun _ ws S' => (ws = [] ∧ ∃ newer e older,
      S'.trace = newer ++ e :: older ∧ e.tid = t ∧ S.trace <:+ older ∧
      ∀ x, pending? e.before.db pendingId = some x → x.codeHash = codeHash →
        attemptedAt < x.expiresAt → attemptedAt < x.pendingExpiresAt →
        x.attemptCount ≠ attemptCount) ∨ ∃ x y,
      pending? S'.db pendingId = some x ∧ x.codeHash = codeHash ∧
      x.attemptCount = attemptCount ∧
      (y = { x with attemptCount := x.attemptCount + 1 } ∨ ∃ expiresAt,
        y = { x with attemptCount := x.attemptCount + 1, expiresAt } ∧
          cfg.registration.maxAttempts ≤ x.attemptCount + 1) ∧
      (ws = [.update (.pending y)] ∨
        ws = [.update (.pending { x with attemptCount := x.attemptCount + 1 }),
          .update (.pending y)]))
      (do
        let updated ← updateRow (.pending pendingId)
          (onPending fun r => r.codeHash = codeHash && attemptedAt < r.expiresAt
            && attemptedAt < r.pendingExpiresAt && r.attemptCount = attemptCount)
          (setPending fun r => { r with attemptCount := r.attemptCount + 1 })
        if updated = 1 ∧ cfg.registration.maxAttempts ≤ attemptCount + 1 then do
          let _ ← updateRow (.pending pendingId)
            (onPending fun r => r.codeHash = codeHash
              && cfg.registration.maxAttempts ≤ r.attemptCount)
            (setPending fun r => { r with expiresAt := attemptedAt })
          pure ()
        else
          pure ()) [] S := by
  refine TxSafe.updateRow (fun S₁ hS₁ _ hnone => ?_) fun S₁ r hS₁ hW₁ hr hp _ => ?_
  · rw [if_neg (by simp)]
    refine TxSafe.pure fun S₂ hS₂ => Or.inl ⟨rfl, ?_⟩
    obtain ⟨newer, htr⟩ := hS₂.rely.trace_suffix
    refine ⟨newer, _, S₁.trace, htr.symm, rfl, hS₁.rely.trace_suffix, ?_⟩
    rintro x hx rfl htime hpending rfl
    rw [applyAll_nil, pending?_eq_some.mp hx] at hnone
    simp [onPending, htime, hpending] at hnone
  · obtain ⟨x, rfl, hx⟩ := exists_onPending hp
    have hid : x.id = pendingId := by simpa [key] using Db.key_of_find? hr
    simp only [Bool.and_eq_true, decide_eq_true_eq] at hx
    have hkept : ∀ S', Within (contract cfg start) t s (S₁.ran t s
        (Write.update (.pending { x with attemptCount := x.attemptCount + 1 }) :
          Write Row Key).locks) S' → pending? S'.db pendingId = some x :=
      fun S' hW => Within.pending_eq hW hid hr
    split
    next hmax =>
        refine TxSafe.updateRow
          (fun S₂ hS₂ _ _ => TxSafe.pure fun S₃ hS₃ => Or.inr ⟨x, _, ?_, hx.1.1.1, hx.2,
            Or.inl rfl, Or.inl rfl⟩)
          fun S₂ r₂ hS₂ hW₂ hr₂ _ _ => TxSafe.pure fun S₃ hS₃ => Or.inr ⟨x,
            { x with attemptCount := x.attemptCount + 1, expiresAt := attemptedAt }, ?_,
            hx.1.1.1, hx.2, Or.inr ⟨attemptedAt, rfl, ?_⟩, Or.inr ?_⟩
        · exact hkept S₃ ((hS₂.ran (by simp)).trans hS₃.within)
        · exact hkept S₃ (hW₂.trans hS₃.within)
        · rw [hx.2]
          exact hmax.2
        · -- the second statement sees what the first one wrote
          have hview : r₂ = .pending { x with attemptCount := x.attemptCount + 1 } := by
            rw [← hid] at hr₂
            exact (Option.some.inj ((Db.find?_put_self _ _).symm.trans hr₂)).symm
          subst hview
          rfl
    next => exact TxSafe.pure fun S₂ hS₂ => Or.inr ⟨x, _, hkept S₂ hS₂.within, hx.1.1.1, hx.2,
        Or.inl rfl, Or.inl rfl⟩

/-- Recording a failed attempt is a commit of the thread whose comparison
failed. -/
theorem Triple.recordRegistration {email code : String} {pendingId : Id} {codeHash : Hash}
    {attemptedAt : Time} {E : Error → Knows t} {p : Db Row → Prop} {read : PendingRegistration}
    (htested : Entering t (.testRegistrationCode pendingId codeHash false) ∈ fs)
    (hsaw : Seeing t (.findPending email) p ∈ fs)
    (hread : ∀ d, p d → pending? d pendingId = some read) (hhash : read.codeHash = codeHash)
    (htime : attemptedAt < read.expiresAt) (hpending : attemptedAt < read.pendingExpiresAt)
    (hE : ∀ e S, Standing t (.verifyRegistration email code) now ns ss es fs S →
      (E e).holds S) :
    Triple (contract cfg start) (At (.verifyRegistration email code) now ns ss es fs)
      (recordFailedRegistrationAttempt cfg pendingId codeHash read.attemptCount attemptedAt)
      (fun _ => At (.verifyRegistration email code) now ns ss es fs) E := by
  refine Triple.commits rfl rfl (fun S hS _ => TxSafe.recordRegistration.mono ?_) hE
  intro _ ws S' hF hS'
  refine ⟨hS'.facts _ htested, ?_⟩
  rcases hF with ⟨rfl, newer, e, older, htr, ht, hsuffix, hmiss⟩ | ⟨x, y, hx, hx', hcount, hy, hws⟩
  · obtain ⟨e', he', ht', hev', hd⟩ := hS.looked hsaw hread
    refine Or.inl ⟨rfl, email, read, hhash, newer, e, older, htr, ht, fun x hx hcode hexpires
      hpendingExpires => ?_, e', hsuffix.subset he', ht', hev', hd⟩
    exact hmiss x hx hcode (hexpires ▸ htime) (hpendingExpires ▸ hpending)
  · exact Or.inr ⟨x, y, hx, hx', ⟨email, hS'.looked hsaw fun d hd =>
      ⟨read, hread d hd, hhash, hcount.symm⟩⟩, hy, hws⟩

-- =============================================================== tokens

/-- A token pair takes two ids, one for the token and one for the salt of its
hash. -/
theorem Triple.prepareTokenPair {userId : Id} {E : Error → Knows t} :
    Triple (contract cfg start) (At q now ns ss es fs) (prepareTokenPair userId)
      (fun prepared => At q now (prepared.tokenHash.salt :: prepared.tokenId :: ns) ss es fs)
      E := by
  refine Triple.bind (R := fun n => At q now (n :: ns) ss es fs)
    (Triple.drawn fun _ _ hS => hS) fun tokenId => ?_
  refine Triple.bind (R := fun _ => At q now (tokenId :: ns) ss es fs)
    (Triple.bind Triple.clock fun _ => Triple.bind Triple.clock fun _ =>
      Triple.pure fun _ hS => hS) fun tokens => ?_
  exact Triple.hash fun salt => Triple.bind Triple.clock fun _ => Triple.pure fun _ hS => hS

-- ========================================================= verification

/-- The transaction of a verification replaces the registration by a user and
a token, where its code is still the one that was compared and no user has the
address. -/
theorem TxSafe.verifyTransaction {email : String} {pending : PendingRegistration} {userId : Id}
    {prepared : PreparedTokenPair} :
    TxSafe (contract cfg start) t s (fun _ ws S' => ∃ x createdAt,
      pending? S'.db pending.id = some x ∧ x.codeHash = pending.codeHash ∧ x.email = email ∧
      x.attemptCount < cfg.registration.maxAttempts ∧ (∀ u ∈ users S'.db, u.email ≠ email) ∧
      ws = [.erase (.pending pending.id),
        .insert (.user (verifiedUser userId pending email now createdAt)),
        .insert (.token (newToken prepared.tokenId userId prepared.tokenHash
          prepared.expiresAt))])
      (verifyTransaction cfg email now pending userId prepared) [] S := by
  refine TxSafe.select fun S₁ hS₁ hW₁ => ?_
  split
  next => exact TxSafe.throw _
  next =>
      refine TxSafe.deleteSingle (by simp) (fun S₂ _ => TxSafe.throw _)
        fun S₂ r hS₂ hW₂ hr hp => ?_
      obtain ⟨x, rfl, hx⟩ := exists_onPending hp
      simp only [Bool.and_eq_true, decide_eq_true_eq] at hx
      refine TxSafe.clock fun S₃ hS₃ => ?_
      refine TxSafe.insertRow fun S₄ hS₄ hW₄ hnone hviol => ?_
      refine TxSafe.insertRow fun S₅ hS₅ hW₅ _ _ => TxSafe.pure fun S₆ hS₆ => ?_
      refine ⟨x, S₃.clock, ?_, hx.1.1.1.2, hx.1.1.1.1, hx.2, fun u hu hemail => ?_, rfl⟩
      · exact Within.pending_eq_of_erase
          (hS₃.within.trans (hW₄.trans (hW₅.trans hS₆.within))) hr
      · refine Within.index_free (x := .user u) (i := .userEmail email)
          (hW₅.trans hS₆.within) (fun w hw he => ?_) hnone hviol ?_ (mem_users.mp hu) ?_
        · cases List.mem_singleton.mp hw
          cases he
        · exact List.mem_singleton_self _
        · rw [← hemail]
          exact List.mem_singleton_self _

/-- `verifyRegistration` ends well only with its commit, and otherwise without
one. -/
theorem Triple.verifyRegistration {email code : String} :
    Triple (contract cfg start) (At (.verifyRegistration email code) 0 [] [] [] [])
      (verifyRegistration cfg email code)
      (fun _ => (Ended (.verifyRegistration email code) fun ss => ∃ pendingId codeHash,
        ss = [.verifyRegistration email pendingId codeHash] : Knows t))
      (fun _ => Ended (.verifyRegistration email code) (· = [])) := by
  refine Triple.bind (R := fun now => At _ now [] [] [] _) (Triple.reading fun _ _ hS => hS)
    fun now => ?_
  refine Triple.bind (Triple.query rfl rfl (fun _ => rfl) fun e S hS => hS.ended rfl)
    fun pending => ?_
  split
  next => exact Triple.throw fun S hS => hS.ended rfl
  next pending =>
      -- the row was read under its own key
      have hread : ∀ d, pendingByEmail email d = some pending →
          pending? d pending.id = some pending := fun d hd =>
        pending?_of_mem (mem_of_pendingByEmail hd).1
      split
      next =>
          refine Triple.bind (Triple.commits (s := .dropExpired pending.id) rfl rfl
            (fun S hS _ => ?_) fun e S hS => hS.ended rfl) fun _ =>
              Triple.throw fun S hS => hS.ended rfl
          refine TxSafe.of_bind_pure (TxSafe.deleteSingle (by simp)
            (fun S₁ _ => TxSafe.pure fun _ _ _ => Or.inl rfl)
            fun S₁ r hS₁ hW₁ hr hp => TxSafe.pure fun S₂ hS₂ _ => Or.inr ⟨?_, rfl⟩)
          obtain ⟨x, rfl, hx⟩ := exists_onPending hp
          have hid : x.id = pending.id := by simpa [key] using Db.key_of_find? hr
          rw [← hid] at hr hW₁ hS₂ ⊢
          refine ⟨x, Within.pending_eq_of_erase hS₂.within hr, ?_, rfl⟩
          exact le_trans (by simpa using hx)
            (le_trans hS.clock (hW₁.trans hS₂.within).clock_le)
      next hpending =>
          split
          next => exact Triple.throw fun S hS => hS.ended rfl
          next htime =>
              have hcount : pending.attemptCount < cfg.registration.maxAttempts :=
                not_le.mp fun h => htime (Or.inr h)
              refine Triple.verifyHash rfl (fun S hS => ⟨hS.named, email, code, pending,
                hS.asked, rfl, hS.looked List.mem_cons_self hread, rfl, hcount⟩) ?_
              cases hvalid : pending.codeHash.accepts (.text code) with
              | false =>
                  refine Triple.bind (Triple.recordRegistration List.mem_cons_self
                    (List.mem_cons_of_mem _ List.mem_cons_self)
                    hread rfl (not_le.mp fun h => htime (Or.inl h)) (not_le.mp hpending)
                    fun e S hS => hS.ended rfl) fun _ => Triple.throw fun S hS => hS.ended rfl
              | true =>
                  refine Triple.bind (R := fun n => At _ now [n] [] _ _)
                    (Triple.drawn fun _ _ hS => hS) fun userId => ?_
                  refine Triple.bind Triple.prepareTokenPair fun prepared => ?_
                  refine Triple.attempts (fun _ => []) rfl rfl
                    (fun S hS _ => TxSafe.verifyTransaction.mono ?_)
                    (fun user => Triple.pure fun S hS => hS.ended ⟨_, _, rfl⟩)
                    fun e => Triple.throw fun S hS => hS.ended rfl
                  intro _ ws S' hF hS'
                  obtain ⟨x, createdAt, hx, hhash, hemail, hleft, hfree, rfl⟩ := hF
                  refine ⟨⟨code, x, pending, userId, now, createdAt, prepared.tokenId,
                    prepared.tokenHash, prepared.expiresAt, hS'.asked, hvalid,
                    ⟨hS'.looked (List.mem_cons_of_mem _ List.mem_cons_self)
                      fun d hd => ⟨hread d hd, rfl, hcount⟩, hS'.facts _ List.mem_cons_self⟩,
                    hx, hhash, hemail,
                    hleft, ?_, ?_, hS'.marks, hfree, rfl⟩, by simp⟩
                  · rw [hS'.ids]
                    simp
                  · rw [hS'.ids]
                    simp

-- ================================================================ login

/-- A token pair is created for the user whose password was compared. -/
theorem Triple.createTokenPair {email password : String} {userId : Id} {passwordHash : Hash}
    {p : Db Row → Prop}
    (htested : Entering t (.testPassword userId passwordHash true) ∈ fs)
    (hsaw : Seeing t s p ∈ fs)
    (hread : ∀ d, p d → ∃ u, user? d userId = some u ∧ u.passwordHash = passwordHash) :
    Triple (contract cfg start) (At (.login email password) now ns [] es fs)
      (createTokenPair userId) (fun _ => Served t (.login email password))
      (fun _ => Served t (.login email password)) := by
  refine Triple.bind Triple.prepareTokenPair fun prepared => ?_
  refine Triple.bind (Triple.marks (fun _ => []) rfl rfl (fun S hS _ => ?_)
    fun e S hS => hS.ended trivial) fun _ => Triple.pure fun S hS => hS.ended trivial
  refine TxSafe.of_bind_pure (TxSafe.insertRow fun S₁ hS₁ hW₁ _ _ =>
    TxSafe.pure fun S₂ hS₂ hS => ⟨⟨_, passwordHash, rfl, rfl, rfl, ?_, hS.marks,
      hS.facts _ htested, hS.saw hsaw hread⟩, by simp⟩)
  rw [hS.ids]
  simp

/-- `login` serves its request. -/
theorem Triple.login {email password : String} :
    Triple (contract cfg start) (At (.login email password) 0 [] [] [] [])
      (login email password) (fun _ => Served t (.login email password))
      (fun _ => Served t (.login email password)) := by
  refine Triple.bind (Triple.query rfl rfl (fun _ => rfl) fun e S hS => hS.ended trivial) fun user => ?_
  split
  next => exact Triple.throw fun S hS => hS.ended trivial
  next user =>
      refine Triple.verifyHash rfl (fun _ _ => trivial) ?_
      cases hvalid : user.passwordHash.accepts (.text password) with
      | false => exact Triple.throw fun S hS => hS.ended trivial
      | true =>
          refine Triple.bind (R := fun _ => At (.login email password) 0 [] []
              [.testPassword user.id user.passwordHash true]
              [Entering t (.testPassword user.id user.passwordHash true),
                Seeing t (.findUser email) fun d => userByEmail email d = some user])
            (Triple.bind (Triple.query rfl rfl (fun _ => rfl) fun e S hS => hS.ended trivial)
              fun found => ?_) fun publicUser => ?_
          · split
            next => exact Triple.throw fun S hS => hS.ended trivial
            next => exact Triple.pure fun S hS => hS.subset fun _ hi => List.mem_cons_of_mem _ hi
          · refine Triple.bind (Triple.createTokenPair List.mem_cons_self
              (List.mem_cons_of_mem _ List.mem_cons_self) (fun d hd => ⟨user, ?_, rfl⟩))
              fun _ => Triple.pure fun S hS => hS
            exact user?_of_mem (mem_of_userByEmail hd).1

-- ============================================================== refresh

/-- The transaction of a refresh replaces one token of the user by another. -/
theorem TxSafe.refreshTransaction {userId tokenId nextTokenId : Id} {nextTokenHash : Hash} :
    TxSafe (contract cfg start) t s (fun _ ws S' => ∃ x r,
      token? S'.db tokenId = some x ∧ x.userId = userId ∧ r.id = nextTokenId ∧
      r.userId = userId ∧ ws = [.erase (.token tokenId), .insert (.token r)])
      (refreshTransaction userId tokenId nextTokenId nextTokenHash) [] S := by
  refine TxSafe.deleteSingle (by simp) (fun S₁ _ => TxSafe.throw _) fun S₁ r hS₁ hW₁ hr hp => ?_
  obtain ⟨x, rfl, hx⟩ := exists_onToken hp
  refine TxSafe.clock fun S₂ hS₂ => TxSafe.of_bind_pure (TxSafe.insertRow
    fun S₃ hS₃ hW₃ _ _ => TxSafe.pure fun S₄ hS₄ => ⟨x, _, ?_, by simpa using hx, rfl, rfl, rfl⟩)
  exact Within.token_eq_of_erase (hS₂.within.trans (hW₃.trans hS₄.within)) hr

/-- What a refresh token says is known afterwards. -/
theorem Triple.verifyRefreshToken {token : Jwt} {E : Error → Knows t}
    (hE : ∀ e S, Standing t q now ns ss es fs S → (E e).holds S) :
    Triple (contract cfg start) (At q now ns ss es fs) (verifyRefreshToken token)
      (fun payload => (At q now ns ss es fs).and
        (.prop (∃ exp, token = .refresh payload.1 payload.2 exp))) E := by
  unfold Auth.verifyRefreshToken
  split
  next sub jti exp =>
      refine Triple.bind Triple.clock fun _ => ?_
      split
      next => exact Triple.pure fun _ hS => ⟨hS, exp, rfl⟩
      next => exact Triple.throw fun S hS => hE _ S hS
  next => exact Triple.throw fun S hS => hE _ S hS

/-- `refresh` ends well only with its commit, and otherwise without one. -/
theorem Triple.refresh {refreshToken : Jwt} :
    Triple (contract cfg start) (At (.refresh refreshToken) 0 [] [] [] [])
      (refresh refreshToken)
      (fun _ => (Ended (.refresh refreshToken) fun ss => ∃ sub jti exp nextTokenId,
        refreshToken = .refresh sub jti exp ∧ ss = [.refresh jti nextTokenId] : Knows t))
      (fun _ => Ended (.refresh refreshToken) (· = [])) := by
  refine Triple.bind (Triple.verifyRefreshToken fun e S hS => hS.ended rfl) fun payload => ?_
  refine Triple.of_prop fun ⟨exp, htoken⟩ => ?_
  refine Triple.bind (Triple.query rfl rfl (fun _ => rfl) fun e S hS => hS.ended rfl)
    fun storedToken => ?_
  split
  next => exact Triple.throw fun S hS => hS.ended rfl
  next storedToken =>
      refine Triple.bind Triple.clock fun _ => ?_
      split
      next => exact Triple.throw fun S hS => hS.ended rfl
      next =>
          refine Triple.verifyHash rfl (fun _ _ => trivial) ?_
          cases hvalid : storedToken.tokenHash.accepts (.token refreshToken) with
          | false => exact Triple.throw fun S hS => hS.ended rfl
          | true =>
              refine Triple.bind (R := fun n => At _ 0 [n] [] _ _)
                (Triple.drawn fun _ _ hS => hS) fun nextTokenId => ?_
              refine Triple.bind (R := fun _ => At _ 0 [nextTokenId] [] _ _)
                (Triple.bind Triple.clock fun _ => Triple.bind Triple.clock fun _ =>
                  Triple.pure fun _ hS => hS) fun tokens => ?_
              -- the stored token is the one the request names
              have hid : ∀ S, Saw S t (fun d => token? d payload.2 = some storedToken) →
                  storedToken.id = payload.2 := by
                intro S hS
                obtain ⟨e, -, -, hfind⟩ := hS
                exact token?_id hfind
              refine Triple.hash fun salt => ?_
              refine Triple.bind (Triple.marks (fun _ => []) rfl rfl
                (fun S hS _ => TxSafe.refreshTransaction.mono ?_) fun e S hS => hS.ended rfl)
                fun _ => Triple.pure fun S hS => hS.ended ⟨_, _, exp, nextTokenId, htoken, ?_⟩
              · intro _ ws S' hF hS'
                obtain ⟨x, r, hx, hxuser, hr, hruser, rfl⟩ := hF
                refine ⟨⟨x, r, exp, hx, hr, hruser.trans hxuser.symm, ?_, ?_, hS'.marks, rfl⟩,
                  by simp⟩
                · rw [hS'.asked, htoken, hxuser,
                    hid S' (hS'.saw (List.mem_cons_of_mem _ List.mem_cons_self) fun _ h => h)]
                · rw [hS'.ids]
                  simp
              · rw [hid S (hS.saw (List.mem_cons_of_mem _ List.mem_cons_self) fun _ h => h)]

-- =============================================================== logout

/-- `logout` serves its request. -/
theorem Triple.logout {refreshToken : Jwt} :
    Triple (contract cfg start) (At (.logout refreshToken) 0 [] [] [] [])
      (logout refreshToken) (fun _ => Served t (.logout refreshToken))
      (fun _ => Served t (.logout refreshToken)) := by
  refine Triple.bind (Triple.verifyRefreshToken fun e S hS => hS.ended trivial) fun payload => ?_
  refine Triple.of_prop fun _ => ?_
  refine Triple.bind (Triple.query rfl rfl (fun _ => rfl) fun e S hS => hS.ended trivial)
    fun storedToken => ?_
  split
  next => exact Triple.pure fun S hS => hS.ended trivial
  next storedToken =>
      split
      next => exact Triple.throw fun S hS => hS.ended trivial
      next =>
          refine Triple.verifyHash rfl (fun _ _ => trivial) ?_
          cases hvalid : storedToken.tokenHash.accepts (.token refreshToken) with
          | false => exact Triple.throw fun S hS => hS.ended trivial
          | true =>
              refine Triple.bind (Triple.commits (s := .logout storedToken.id) rfl rfl
                (fun S _ _ => ?_) fun e S hS => hS.ended trivial) fun _ => Triple.pure fun S hS => hS.ended trivial
              exact TxSafe.of_bind_pure (TxSafe.deleteSingle (by simp)
                (fun S₁ _ => TxSafe.pure fun _ _ _ => Or.inl rfl)
                fun S₁ r _ _ hr hp => TxSafe.pure fun S₂ hS₂ _ => Or.inr (by
                  obtain ⟨x, rfl, -⟩ := exists_onToken hp
                  exact ⟨x, Within.token_eq_of_erase hS₂.within hr, rfl⟩))

end FastRep.Auth
