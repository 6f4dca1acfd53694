/-
What requesting and using a password-reset code commit.

`forgotPassword` reads the newest request, updates the unused ones one by
one, and inserts its own, each at a snapshot of its own. What it updated is
locked until the commit (`Within.resets_eq`), so the commit closes every one
of them as it is then; that the newest request is still the newest is not
among what the lemma says.

`resetPassword` tests the code first, outside the transaction, and uses the
request up by a guarded update: the row as the transaction updated it is the
row at the commit (`Within.reset_eq`), unused until now. A wrong code goes
through `recordFailedResetAttempt`, which counts an attempt of an open
request or closes it with the last one.
-/
import FastRep.Auth.Proofs.Sessions
import Mathlib.Data.Set.List

namespace FastRep.Auth

open FastRep.Txn

variable {cfg : Config} {start : AState} {t : Tid} {s : Site} {q : Req} {now : Time}
  {ns : List Id} {ss es : List Site} {fs : List (AEntry → Prop)} {S S' : AState}
  {userId : Id} {d : Db Row}

-- ====================================================== the newest request

/-- No request of a user is newer than the one found. -/
theorem createdAt_le_of_latestReset {r x : PasswordResetRequest}
    (h : latestReset userId d = some r) (hx : x ∈ resets d) (hu : x.userId = userId) :
    x.createdAt ≤ r.createdAt := by
  have : Std.Total fun l r : PasswordResetRequest => r.createdAt ≤ l.createdAt :=
    ⟨fun l r => le_total r.createdAt l.createdAt⟩
  have : IsTrans PasswordResetRequest fun l r => r.createdAt ≤ l.createdAt :=
    ⟨fun _ _ _ h h' => le_trans h' h⟩
  have hsorted := List.pairwise_insertionSort
    (fun l r : PasswordResetRequest => r.createdAt ≤ l.createdAt)
    ((resets d).filter fun r => r.userId = userId)
  have hmem : x ∈ ((resets d).filter fun r => r.userId = userId).insertionSort
      fun l r => r.createdAt ≤ l.createdAt :=
    (List.mem_insertionSort _).mpr (List.mem_filter.mpr ⟨hx, by simpa using hu⟩)
  unfold latestReset at h
  obtain ⟨rest, hrest⟩ := List.head?_eq_some_iff.mp h
  rw [hrest] at hsorted hmem
  rcases List.mem_cons.mp hmem with rfl | hmem
  · exact le_rfl
  · exact List.rel_of_pairwise_cons hsorted hmem

/-- A user with a request has a latest one. -/
theorem exists_latestReset {x : PasswordResetRequest} (hx : x ∈ resets d)
    (hu : x.userId = userId) : ∃ r, latestReset userId d = some r := by
  cases h : latestReset userId d with
  | some r => exact ⟨r, rfl⟩
  | none =>
      have hnil : ((resets d).filter fun r => r.userId = userId).insertionSort
          (fun l r => r.createdAt ≤ l.createdAt) = [] := List.head?_eq_none_iff.mp h
      have hmem : x ∈ ((resets d).filter fun r => r.userId = userId).insertionSort
          fun l r => r.createdAt ≤ l.createdAt :=
        (List.mem_insertionSort _).mpr (List.mem_filter.mpr ⟨hx, by simpa using hu⟩)
      rw [hnil] at hmem
      cases hmem

/-- The latest request is a request of the user. -/
theorem mem_of_latestReset {r : PasswordResetRequest} (h : latestReset userId d = some r) :
    .reset r ∈ d.rows ∧ r.userId = userId := by
  have hmem := (List.mem_insertionSort _).mp (List.mem_of_head? h)
  obtain ⟨hr, hu⟩ := List.mem_filter.mp hmem
  exact ⟨mem_resets.mp hr, by simpa using hu⟩

/-- Outside the cooldown every request of the user is that old. -/
theorem createdAt_add_le {cooldown : Nat} (h : ¬ (latestReset userId d).any fun r =>
      (now : Int) - (cooldown : Nat) * 1000 < r.createdAt) {x : PasswordResetRequest}
    (hx : x ∈ resets d) (hu : x.userId = userId) : x.createdAt + cooldown * 1000 ≤ now := by
  obtain ⟨r, hr⟩ := exists_latestReset hx hu
  have hle := createdAt_le_of_latestReset hr hx hu
  rw [hr, Option.any_some, decide_eq_true_eq, Int.not_lt] at h
  unfold Time at *
  omega

-- ===================================================== rows of a statement

/-- A request that the transaction has updated is the committed one until it
commits. -/
theorem Within.reset_eq {x y : PasswordResetRequest} {i : Id}
    (h : Within (contract cfg start) t s
      (S.ran t s (Write.update (.reset y) : Write Row Key).locks) S')
    (hy : y.id = i) (hx : S.db.find? (.reset i) = some (.reset x)) :
    reset? S'.db i = some x := by
  subst hy
  exact reset?_eq_some.mpr ((Within.find?_of_write h).trans hx)

theorem Within.user_eq {u y : User} {i : Id} {ws : List (Write Row Key)}
    (h : Within (contract cfg start) t s
      (S.ran t s (Write.update (.user y) : Write Row Key).locks) S')
    (hy : y.id = i) (hws : ∀ w ∈ ws, w.target ≠ Key.user i)
    (hu : (applyAll ws S.db).find? (.user i) = some (.user u)) : user? S'.db i = some u := by
  subst hy
  exact user?_eq_some.mpr ((Within.find?_of_view h hws).trans hu)

/-- The rows a statement on reset requests hits. -/
theorem exists_resets {p : PasswordResetRequest → Bool} {hits : List Row}
    (h : ∀ r ∈ hits, onReset p r = true) : ∃ closed : List PasswordResetRequest, hits = closed.map Row.reset := by
  have hrange : hits ∈ Set.range (List.map Row.reset) := by
    rw [Set.range_list_map]
    intro r hr
    obtain ⟨x, rfl, -⟩ := exists_onReset (h r hr)
    exact ⟨x, rfl⟩
  obtain ⟨closed, rfl⟩ := hrange
  exact ⟨closed, rfl⟩

/-- What closing several requests writes stays locked. -/
theorem Within.resets_eq {closed : List PasswordResetRequest} {usedAt : Option Time}
    (h : Within (contract cfg start) t s (S.ran t s ((closed.map fun x =>
      (Write.update (.reset { x with usedAt }) : Write Row Key)).flatMap Write.locks)) S')
    {x : PasswordResetRequest} (hx : x ∈ closed) (hfind : reset? S.db x.id = some x) :
    reset? S'.db x.id = some x := by
  have hmem : (Write.update (.reset { x with usedAt }) : Write Row Key) ∈ closed.map fun x =>
      (Write.update (.reset { x with usedAt }) : Write Row Key) :=
    List.mem_map_of_mem hx
  exact reset?_eq_some.mpr ((Within.find?_of_writes h hmem).trans (reset?_eq_some.mp hfind))

-- ====================================================== a new request

/-- The transaction of `forgotPassword` closes all unused requests of the user
and creates one, after it has seen no request within the cooldown. -/
theorem TxSafe.forgotPasswordTransaction {requestId : Id} {codeHash : Hash}
    (hopen : S.toScene.OpenAt t s 0) (hnow : now ≤ S.clock) :
    TxSafe (contract cfg start) t s (fun _ ws S' => ∃ (closed : List PasswordResetRequest)
      (createdAt : Time),
      (∀ x ∈ closed, reset? S'.db x.id = some x ∧ x.userId = userId ∧ x.usedAt = none) ∧
      (closed.map (·.id)).Nodup ∧
      (∀ x ∈ resets S'.db, x.userId = userId → x.usedAt = none → x ∈ closed) ∧
      now ≤ createdAt ∧ createdAt ≤ S'.clock ∧
      SawInside S' t s (fun d => ∀ x ∈ resets d, x.userId = userId →
        x.createdAt + cfg.passwordReset.resendCooldownSeconds * 1000 ≤ now) ∧
      ws = closed.map (fun x => .update (.reset { x with usedAt := some now }))
        ++ [.insert (.reset (newReset cfg requestId userId codeHash now createdAt))])
      (forgotPasswordTransaction cfg userId requestId codeHash now) [] S := by
  refine TxSafe.select fun S₁ hS₁ hW₁ => ?_
  simp only
  split
  next => exact TxSafe.throw _
  next hcool =>
      refine TxSafe.updateMany fun S₂ S₃ hits hS₂ hW₂ hS₃ hW₃ hhits => ?_
      replace hW₃ := hW₂.trans hW₃
      obtain ⟨closed, rfl⟩ := exists_resets fun r hr => (hhits.found r hr).2
      have hfound : ∀ x ∈ closed, reset? S₃.db x.id = some x ∧ x.userId = userId ∧
          x.usedAt = none := fun x hx => by
        obtain ⟨hfind, hp⟩ := hhits.found _ (List.mem_map_of_mem hx)
        simp only [onReset, Bool.and_eq_true, decide_eq_true_eq, Option.isNone_iff_eq_none] at hp
        exact ⟨reset?_eq_some.mpr hfind, hp⟩
      have hnodup : (closed.map (·.id)).Nodup := by
        have hkeys := hhits.nodup (Db.nodup_selected _ _)
        rw [List.map_map] at hkeys
        exact List.Nodup.of_map Key.reset (by rw [List.map_map]; exact hkeys)
      rw [List.map_map] at hW₃ ⊢
      refine TxSafe.clock fun S₄ hS₄ => TxSafe.of_bind_pure (TxSafe.insertRow
        fun S₅ hS₅ hW₅ hnone hviol => TxSafe.pure fun S₆ hS₆ => ?_)
      have hW : Within (contract cfg start) t s (S₃.ran t s ((closed.map fun x =>
          (Write.update (.reset { x with usedAt := some now }) : Write Row Key)).flatMap
            Write.locks)) S₆ := hS₄.within.trans (hW₅.trans hS₆.within)
      have hkept : ∀ x ∈ closed, reset? S₆.db x.id = some x := fun x hx =>
        Within.resets_eq hW hx (hfound x hx).1
      refine ⟨closed, S₄.clock, fun x hx => ⟨hkept x hx, (hfound x hx).2⟩, hnodup,
        fun x hx hu hunused => ?_, ?_, (hW₅.trans hS₆.within).clock_le, ?_, rfl⟩
      · by_contra hopenReset
        refine Within.index_free (x := .reset x) (i := .activeReset userId) hS₆.within
          (fun w hw he => ?_) hnone hviol ?_ (mem_resets.mp hx) ?_
        · obtain ⟨y, hy, rfl⟩ := List.mem_map.mp hw
          have hid : y.id = x.id := by simpa [Write.target, key, setReset] using he
          have hxy := hkept y hy
          rw [hid, reset?_of_mem (mem_resets.mp hx)] at hxy
          exact hopenReset (Option.some.inj hxy ▸ hy)
        · exact List.mem_singleton_self _
        · simp [Schema.indexes, hu, hunused]
      · exact le_trans hnow (hW₁.trans (hW₃.trans hS₄.within)).clock_le
      · exact SawInside.of_within (hopen.within hS₁.within)
          (fun x hx hu => createdAt_add_le (by simpa using hcool) hx hu) (hW₃.trans hW)

/-- `forgotPassword` serves its request. -/
theorem Triple.forgotPassword {email : String} :
    Triple (contract cfg start) (At (.forgotPassword email) 0 [] [] [] [])
      (forgotPassword cfg email) (fun _ => Served t (.forgotPassword email))
      (fun _ => Served t (.forgotPassword email)) := by
  refine Triple.bind (Triple.query rfl rfl (fun _ => rfl) fun e S hS => hS.ended trivial) fun user => ?_
  split
  next => exact Triple.pure fun S hS => hS.ended trivial
  next user =>
      refine Triple.bind (R := fun now => At _ now [] [] [] _)
        (Triple.reading fun _ _ hS => hS) fun now => ?_
      refine Triple.bind (Triple.generateSixDigitCode fun e S hS => hS.ended trivial) fun code =>
        Triple.hash fun codeSalt => ?_
      refine Triple.bind (R := fun n => At _ now [n, codeSalt] [] [] _)
        (Triple.drawn fun _ _ hS => hS) fun requestId => ?_
      refine Triple.attempts (s := .forgotPassword user.id)
        (fun _ => [IssuingReset t requestId]) rfl rfl
        (fun S hS hopen => (TxSafe.forgotPasswordTransaction hopen hS.clock).mono ?_)
        (fun _ => ?_) fun e => Triple.throw fun S hS => hS.ended trivial
      · intro _ ws S' hF hS'
        obtain ⟨closed, createdAt, hclosed, hnodup, hall, hnow, hclock, hsaw, rfl⟩ := hF
        refine ⟨⟨closed, requestId, ⟨codeSalt, .text code⟩, now, createdAt, hclosed, hnodup,
          hall, hS'.ids, hS'.marks, hnow, hclock, hsaw, rfl⟩, fun i hi => ?_⟩
        cases List.mem_singleton.mp hi
        exact ⟨rfl, user.id, _, _, rfl, List.mem_append_right _ List.mem_cons_self, rfl⟩
      · refine Triple.bind (Triple.attempt (R := fun _ => At (.forgotPassword email) now
          [requestId, codeSalt] [.forgotPassword user.id] [.sendResetCode requestId]
          (Entering t (.sendResetCode requestId) :: IssuingReset t requestId :: _))
          (Triple.names rfl (fun S hS => ⟨hS.named, hS.facts _ List.mem_cons_self⟩)
            (Triple.calls fun _ _ hS => hS))) fun sent => ?_
        cases sent with
        | ok _ => exact Triple.pure fun S hS => hS.ended trivial
        | error e =>
            refine Triple.bind Triple.clock fun usedAt => Triple.bind (Triple.commits rfl rfl
              (fun S _ _ => ?_) fun e S hS => hS.ended trivial) fun _ => Triple.throw fun S hS => hS.ended trivial
            refine TxSafe.of_bind_pure (TxSafe.updateRow
              (fun S₁ _ _ _ => TxSafe.pure fun _ _ hS =>
                ⟨hS.facts _ (List.mem_cons_of_mem _ List.mem_cons_self), Or.inl rfl⟩)
              fun S₁ r _ _ hr hp _ => TxSafe.pure fun S₂ hS₂ hS =>
                ⟨hS.facts _ (List.mem_cons_of_mem _ List.mem_cons_self), Or.inr ?_⟩)
            obtain ⟨x, rfl, hx⟩ := exists_onReset hp
            have hid : x.id = requestId := by simpa [key] using Db.key_of_find? hr
            exact ⟨x, usedAt, Within.reset_eq hS₂.within hid hr,
              Option.isNone_iff_eq_none.mp hx, rfl⟩

-- ============================================================ wrong codes

/-- A failed attempt counts one attempt of an open request, or closes it as
well. It counts nothing if it finds the request used or run out, or another
count. -/
theorem TxSafe.recordReset {requestId : Id} {attemptCount : Nat} {attemptedAt : Time} :
    TxSafe (contract cfg start) t s (fun _ ws S' => (ws = [] ∧ ∃ newer e older,
      S'.trace = newer ++ e :: older ∧ e.tid = t ∧ S.trace <:+ older ∧
      ∀ x, reset? e.before.db requestId = some x → x.usedAt = none →
        attemptedAt < x.expiresAt → x.attemptCount ≠ attemptCount) ∨ ∃ x y,
      reset? S'.db requestId = some x ∧ x.usedAt = none ∧ x.attemptCount = attemptCount ∧
      (y = { x with attemptCount := x.attemptCount + 1 } ∨ ∃ usedAt,
        y = { x with attemptCount := x.attemptCount + 1, usedAt := some usedAt } ∧
          cfg.passwordReset.maxAttempts ≤ x.attemptCount + 1) ∧
      (ws = [.update (.reset y)] ∨
        ws = [.update (.reset { x with attemptCount := x.attemptCount + 1 }),
          .update (.reset y)]))
      (do
        let updated ← updateRow (.reset requestId)
          (onReset fun r => r.usedAt.isNone && attemptedAt < r.expiresAt
            && r.attemptCount = attemptCount)
          (setReset fun r => { r with attemptCount := r.attemptCount + 1 })
        if updated = 1 ∧ cfg.passwordReset.maxAttempts ≤ attemptCount + 1 then do
          let _ ← updateRow (.reset requestId)
            (onReset fun r => r.usedAt.isNone
              && cfg.passwordReset.maxAttempts ≤ r.attemptCount)
            (setReset fun r => { r with usedAt := some attemptedAt })
          pure ()
        else
          pure ()) [] S := by
  refine TxSafe.updateRow (fun S₁ hS₁ _ hnone => ?_) fun S₁ r hS₁ hW₁ hr hp _ => ?_
  · rw [if_neg (by simp)]
    refine TxSafe.pure fun S₂ hS₂ => Or.inl ⟨rfl, ?_⟩
    obtain ⟨newer, htr⟩ := hS₂.rely.trace_suffix
    refine ⟨newer, _, S₁.trace, htr.symm, rfl, hS₁.rely.trace_suffix, ?_⟩
    rintro x hx hunused htime rfl
    rw [applyAll_nil, reset?_eq_some.mp hx] at hnone
    simp [onReset, hunused, htime] at hnone
  · obtain ⟨x, rfl, hx⟩ := exists_onReset hp
    have hid : x.id = requestId := by simpa [key] using Db.key_of_find? hr
    simp only [Bool.and_eq_true, decide_eq_true_eq, Option.isNone_iff_eq_none] at hx
    have hkept : ∀ S', Within (contract cfg start) t s (S₁.ran t s
        (Write.update (.reset { x with attemptCount := x.attemptCount + 1 }) :
          Write Row Key).locks) S' → reset? S'.db requestId = some x :=
      fun S' hW => Within.reset_eq hW hid hr
    split
    next hmax =>
        refine TxSafe.updateRow
          (fun S₂ hS₂ _ _ => TxSafe.pure fun S₃ hS₃ => Or.inr ⟨x, _, ?_, hx.1.1, hx.2,
            Or.inl rfl, Or.inl rfl⟩)
          fun S₂ r₂ hS₂ hW₂ hr₂ _ _ => TxSafe.pure fun S₃ hS₃ => Or.inr ⟨x,
            { x with attemptCount := x.attemptCount + 1, usedAt := some attemptedAt }, ?_,
            hx.1.1, hx.2, Or.inr ⟨attemptedAt, rfl, ?_⟩, Or.inr ?_⟩
        · exact hkept S₃ ((hS₂.ran (by simp)).trans hS₃.within)
        · exact hkept S₃ (hW₂.trans hS₃.within)
        · rw [hx.2]
          exact hmax.2
        · -- the second statement sees what the first one wrote
          have hview : r₂ = .reset { x with attemptCount := x.attemptCount + 1 } := by
            rw [← hid] at hr₂
            exact (Option.some.inj ((Db.find?_put_self _ _).symm.trans hr₂)).symm
          subst hview
          rfl
    next => exact TxSafe.pure fun S₂ hS₂ => Or.inr ⟨x, _, hkept S₂ hS₂.within, hx.1.1, hx.2,
        Or.inl rfl, Or.inl rfl⟩

-- ======================================================== a new password

/-- The rows a deletion of tokens removes. -/
theorem exists_tokens {p : RefreshToken → Bool} {hits : List Row} {v : Db Row}
    (h : ∀ r ∈ hits, onToken p r = true) :
    ∃ gone : List Id, v.deletion (hits.map key) = gone.map (fun i => .erase (.token i)) ∧
      ∀ i, i ∈ gone ↔ (∃ r ∈ v.rows, key r = .token i) ∧ .token i ∈ hits.map key := by
  have hkeys : ∀ k ∈ hits.map key, ∃ i, k = Key.token i := by
    intro k hk
    obtain ⟨r, hr, rfl⟩ := List.mem_map.mp hk
    obtain ⟨x, rfl, -⟩ := exists_onToken (h r hr)
    exact ⟨x.id, rfl⟩
  have hrange : (v.rows.map key).filter (· ∈ hits.map key) ∈
      Set.range (List.map Key.token) := by
    rw [Set.range_list_map]
    intro k hk
    obtain ⟨i, rfl⟩ := hkeys k (by simpa using (List.mem_filter.mp hk).2)
    exact ⟨i, rfl⟩
  obtain ⟨gone, hgone⟩ := hrange
  refine ⟨gone, ?_, fun i => ?_⟩
  · rw [deletion_eq fun u hu => ?_, ← hgone, List.map_map]
    · rfl
    · obtain ⟨i, hi⟩ := hkeys _ hu
      cases hi
  · have hmem : i ∈ gone ↔ Key.token i ∈ gone.map Key.token := by
      simp
    rw [hmem, hgone, List.mem_filter, List.mem_map, decide_eq_true_eq]

/-- The transaction of `resetPassword` uses its request up, closes the others,
changes the password, and deletes the tokens of the user. -/
theorem TxSafe.resetPasswordTransaction {requestId : Id} {passwordHash : Hash}
    (hopen : S.toScene.OpenAt t s 0) :
    TxSafe (contract cfg start) t s (fun _ ws S' => ∃ x u,
      ∃ (closed : List PasswordResetRequest) (gone : List Id),
      reset? S'.db requestId = some x ∧ x.usedAt = none ∧ x.userId = userId ∧
      x.attemptCount < cfg.passwordReset.maxAttempts ∧ user? S'.db userId = some u ∧
      (∀ y ∈ closed, reset? S'.db y.id = some y ∧ y.userId = userId ∧ y.usedAt = none ∧
        y.id ≠ requestId) ∧
      (∀ i ∈ gone, ∃ y, token? S'.db i = some y ∧ y.userId = userId) ∧
      FoundTokens S' t s userId gone ∧
      ws = .update (.reset { x with usedAt := some now })
        :: .update (.user { u with passwordHash })
        :: closed.map (fun y => .update (.reset { y with usedAt := some now }))
        ++ gone.map fun i => .erase (.token i))
      (resetPasswordTransaction cfg userId requestId passwordHash now) [] S := by
  refine TxSafe.updateRow (fun S₁ _ _ _ => TxSafe.throw _) fun S₁ r hS₁ hW₁ hr hp _ => ?_
  obtain ⟨x, rfl, hx⟩ := exists_onReset hp
  have hid : x.id = requestId := by simpa [key] using Db.key_of_find? hr
  simp only [Bool.and_eq_true, decide_eq_true_eq, Option.isNone_iff_eq_none] at hx
  refine TxSafe.updateOrThrow fun S₂ r₂ hS₂ hW₂ hr₂ _ => ?_
  obtain ⟨u, rfl, huid⟩ := find?_user hr₂
  refine TxSafe.updateMany fun S₃ S₄ hits hS₃ hW₃ hS₄ hW₄ hhits => ?_
  replace hW₄ := hW₃.trans hW₄
  obtain ⟨closed, rfl⟩ := exists_resets fun r hr => (hhits.found r hr).2
  rw [List.map_map] at hW₄ ⊢
  refine TxSafe.of_bind_pure (TxSafe.deleteMany fun S₅ S₆ hits' hS₅ hW₅ hS₆ hW₆ hhits' =>
    TxSafe.pure fun S₇ hS₇ => ?_)
  have hfourth : S₅.toScene.OpenAt t s 4 := ((((hopen.within hS₁.within).ran.within
    hS₂.within).ran.within hS₃.within).ran.within hS₄.within).ran.within hS₅.within
  obtain ⟨gone, hdeletion, hgone⟩ := exists_tokens (v := applyAll _ S₆.db)
    fun r hr => (hhits'.found r hr).2
  rw [hdeletion] at hW₆ hS₇ ⊢
  -- no statement before the last one touches a token
  have htoken : ∀ (d : Db Row) i, (applyAll ([] ++ [Write.update (.reset { x with
      usedAt := some now })] ++ [.update (.user { u with passwordHash })] ++ closed.map
        ((fun r => .update (setReset (fun r => { r with usedAt := some now }) r)) ∘ Row.reset))
      d).find? (Key.token i) = d.find? (Key.token i) := fun d i =>
    find?_applyAll_ne (by simp [Write.target, key, setReset]) d
  have hend : Within (contract cfg start) t s (S₅.ran t s []) S₇ := hW₆.trans hS₇.within
  refine ⟨x, u, closed, gone, ?_, hx.1.1.2, hx.1.1.1, hx.2, ?_, fun y hy => ?_, fun i hi => ?_,
    ?_, ?_⟩
  · exact Within.reset_eq (hW₂.trans (hW₄.trans (hW₅.trans hend))) hid hr
  · exact Within.user_eq (hW₄.trans (hW₅.trans hend)) huid
      (by simp [Write.target, key, setReset]) hr₂
  · obtain ⟨hfind, hp⟩ := hhits.found _ (List.mem_map_of_mem hy)
    simp only [onReset, Bool.and_eq_true, decide_eq_true_eq, Option.isNone_iff_eq_none] at hp
    have hother : y.id ≠ requestId := hp.1.2
    rw [find?_applyAll_ne (by
      simp [Write.target, key, setReset, setUser, hid, hother.symm])] at hfind
    exact ⟨Within.resets_eq (hW₅.trans hend) hy (reset?_eq_some.mpr hfind), hp.1.1,
      hp.2, hother⟩
  · obtain ⟨-, hhit⟩ := (hgone i).mp hi
    obtain ⟨r, hr, hkey⟩ := List.mem_map.mp hhit
    obtain ⟨hfind, hp⟩ := hhits'.found r hr
    obtain ⟨y, rfl, hy⟩ := exists_onToken hp
    have hyid : y.id = i := by simpa [key] using hkey
    refine ⟨y, ?_, by simpa using hy⟩
    rw [← hyid] at hi ⊢
    refine token?_eq_some.mpr ((Within.find?_of_writes hS₇.within
      (List.mem_map_of_mem (f := fun i => Write.erase (Key.token i)) hi)).trans ?_)
    exact (htoken _ _).symm.trans hfind
  · obtain ⟨-, newer, htr, hall⟩ := hend.split hfourth.ran
    refine ⟨newer, ⟨t, .statement s, S₅.toScene⟩, S₅.trace, htr, rfl, rfl, hall,
      fun y hy hu => ?_⟩
    by_cases hgo : y.id ∈ gone
    · exact Or.inl hgo
    · refine Or.inr ⟨⟨t, .statement s, S₆.toScene⟩, ?_, fun z hz hzu => hgo ?_⟩
      · -- the last statement comes after the one that looked for the tokens
        obtain ⟨newest, htr₇⟩ := hS₇.rely.trace_suffix
        obtain ⟨between, htr₆⟩ := hS₆.rely.trace_suffix
        have hsplit : (newest ++ ⟨t, .statement s, S₆.toScene⟩ :: between) ++ (S₅.ran t s []).trace
            = newer ++ (S₅.ran t s []).trace := by
          rw [← htr, ← htr₇, List.append_assoc, List.cons_append, htr₆]
          rfl
        rw [← List.append_cancel_right hsplit]
        exact List.mem_append_right _ List.mem_cons_self
      -- a token of the user that is there at both moments is hit
      have hlisted : Key.token y.id ∈ ((applyAll _ S₅.db).rows.filter
          (onToken fun r => r.userId = userId)).map key :=
        List.mem_map.mpr ⟨.token y, List.mem_filter.mpr ⟨Db.mem_of_find?
          ((htoken S₅.db y.id).trans (Db.find?_of_mem (mem_tokens.mp hy))), by
            simpa [onToken] using hu⟩, rfl⟩
      have hview := (htoken S₆.db y.id).trans (token?_eq_some.mp hz)
      have hhit := hhits'.all _ hlisted _ hview (by simpa [onToken] using hzu)
      refine (hgone _).mpr ⟨⟨_, Db.mem_of_find? hview, Db.key_of_find? hview⟩, ?_⟩
      exact List.mem_map.mpr ⟨_, hhit, Db.key_of_find? hview⟩
  · simp [setReset, setUser, Function.comp_def]

/-- `resetPassword` ends well only with its commit, and otherwise without one.
-/
theorem Triple.resetPassword {email code newPassword : String} :
    Triple (contract cfg start) (At (.resetPassword email code newPassword) 0 [] [] [] [])
      (resetPassword cfg email code newPassword)
      (fun _ => (Ended (.resetPassword email code newPassword) fun ss => ∃ userId requestId,
        ss = [.resetPassword userId requestId] : Knows t))
      (fun _ => Ended (.resetPassword email code newPassword) (· = [])) := by
  refine Triple.bind (Triple.query rfl rfl (fun _ => rfl) fun e S hS => hS.ended rfl)
    fun user => ?_
  split
  next => exact Triple.throw fun S hS => hS.ended rfl
  next user =>
      refine Triple.bind (Triple.query rfl rfl (fun _ => rfl) fun e S hS => hS.ended rfl)
        fun request => ?_
      refine Triple.bind Triple.clock fun now => ?_
      split
      next => exact Triple.throw fun S hS => hS.ended rfl
      next request =>
          have hread : ∀ d, latestReset user.id d = some request →
              reset? d request.id = some request := fun d hd =>
            reset?_of_mem (mem_of_latestReset hd).1
          split
          next => exact Triple.throw fun S hS => hS.ended rfl
          next hvalid =>
              simp only [not_or, Bool.not_eq_true, Option.isSome_eq_false_iff,
                Option.isNone_iff_eq_none, not_le] at hvalid
              refine Triple.verifyHash rfl (fun S hS => ⟨hS.named, email, code, newPassword,
                user.id, request, hS.asked, rfl, hS.looked List.mem_cons_self hread, hvalid.1,
                hvalid.2.2⟩) ?_
              cases haccepts : request.codeHash.accepts (.text code) with
              | false =>
                  refine Triple.bind (Triple.commits (s := .recordFailedResetAttempt request.id)
                    rfl rfl (fun S hS _ => TxSafe.recordReset.mono ?_) fun e S hS => hS.ended rfl)
                    fun _ => Triple.throw fun S hS => hS.ended rfl
                  intro _ ws S' hF hS'
                  refine ⟨hS'.facts _ List.mem_cons_self, ?_⟩
                  rcases hF with ⟨rfl, newer, e, older, htr, ht, hsuffix, hmiss⟩ |
                    ⟨x, y, hx, hunused, hcount, hy, hws⟩
                  · obtain ⟨e', he', ht', hev', hd⟩ :=
                      hS.looked (List.mem_cons_of_mem _ List.mem_cons_self) hread
                    exact Or.inl ⟨rfl, user.id, request, hvalid.1, newer, e, older, htr, ht,
                      fun x hx hopen hexpires => hmiss x hx hopen (hexpires ▸ hvalid.2.1), e',
                      hsuffix.subset he', ht', hev', hd⟩
                  · exact Or.inr ⟨x, y, hx, hunused, ⟨user.id, hS'.looked
                      (List.mem_cons_of_mem _ List.mem_cons_self)
                      fun d hd => ⟨request, hread d hd, hvalid.1, hcount.symm⟩⟩, hy, hws⟩
              | true =>
                  refine Triple.hash fun salt => ?_
                  refine (Triple.marks (fun _ => []) rfl rfl (fun S hS hopen =>
                    (TxSafe.resetPasswordTransaction hopen).mono ?_) fun e S hS =>
                    hS.ended (p := (· = [])) rfl).conseq (fun _ h => h)
                    (fun _ S hS => hS.ended ⟨_, _, rfl⟩)
                    fun _ _ h => h
                  intro _ ws S' hF hS'
                  obtain ⟨x, u, closed, gone, hx, hunused, hxuser, hcount, hu, hclosed, hgone,
                    hsaw, rfl⟩ := hF
                  exact ⟨⟨email, code, newPassword, x, request, u, ⟨salt, .text newPassword⟩,
                    now, closed, gone, hS'.asked,
                    ⟨hS'.looked (List.mem_cons_of_mem _ List.mem_cons_self)
                      fun d hd => ⟨hread d hd, hvalid.1, hvalid.2.2⟩,
                      hS'.facts _ List.mem_cons_self⟩, haccepts, hx,
                    hunused, hxuser, hcount, hu, rfl, hS'.marks, hclosed, hgone, hsaw, rfl⟩,
                    by simp⟩

end FastRep.Auth
