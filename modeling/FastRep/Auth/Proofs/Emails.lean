/-
An email that is registered and pending at once.

`register` looks for a user and inserts a pending registration in one
transaction, but the two tables share no constraint: a verification may
commit in between (`emails_disjoint_fails`). While that does not happen to
a registration that inserts, no email is in both tables
(`emails_disjoint`).

# The argument

Two kinds of commits can bring an email into both tables. A verification
inserts a user and removes a pending registration of the same email; there
is no other one of that email (`Runs.onePending`, from the unique index). A
registration inserts a pending row, having found no user. If there is one at
its commit, a verification of the email committed since the search
(`Runs.verified_since`): users come from verifications only, and keep their
email. The condition `notOvertaken` rules this out, for the registrations
that did insert.
-/
import FastRep.Auth.Proofs.Codes

namespace FastRep.Auth

open FastRep.Txn

variable {cfg : Config} {start : AState} {t : Tid} {s : Site} {S S' : AState}
  {ws : List (Write Row Key)} {i j : Id} {email : String} {e : AEntry}

-- ========================================================= the condition

/-- The entry commits a verification of the email while the thread's
registration of it is past its search for a user. -/
def overtakes (t : Tid) (email : String) (e : AEntry) : Bool :=
  match e.event with
  | .commit (.verifyRegistration email' _ _) _ => email' = email &&
      e.before.opens.any fun o => o.tid = t && o.site = .register email && 1 ≤ o.done
  | _ => false

/-- No registration that inserted was overtaken by a verification of its
email. -/
def notOvertaken (tr : List AEntry) : Bool :=
  tr.all fun e => match e.event with
    | .commit (.register email) ws => ws.isEmpty || tr.all fun e' => !overtakes e.tid email e'
    | _ => true

/-- A condition on the whole history holds of its beginning. -/
theorem notOvertaken_of_suffix {tr tr' : List AEntry} (h : notOvertaken tr' = true)
    (htr : tr <:+ tr') : notOvertaken tr = true := by
  simp only [notOvertaken, List.all_eq_true] at h ⊢
  intro e he
  have hall := h e (htr.subset he)
  split
  next email ws hev =>
      simp only [hev, Bool.or_eq_true, List.all_eq_true] at hall ⊢
      exact hall.imp_right fun hnone e' he' => hnone e' (htr.subset he')
  next => rfl

/-- In a history in which no verification overtakes a registration, none
overtook this one. -/
theorem not_overtakes_of_mem {tr : List AEntry} (h : notOvertaken tr = true) (he : e ∈ tr)
    (hev : e.event = .commit (.register email) ws) (hws : ws ≠ []) {e' : AEntry}
    (he' : e' ∈ tr) : overtakes e.tid email e' = false := by
  have hall := List.all_eq_true.mp h e he
  simp only [hev, Bool.or_eq_true, List.isEmpty_iff, hws, false_or, List.all_eq_true,
    Bool.not_eq_eq_eq_not, Bool.not_true] at hall
  exact hall e' he'

-- ============================================================ the emails

/-- A pending registration keeps its email, and a new one has that of the
`register` call. -/
theorem Effect.pending_email (hC : Effect cfg t s ws S) {y : PendingRegistration}
    (hy : pending? (applyAll ws S.db) i = some y) :
    (∃ x, pending? S.db i = some x ∧ x.email = y.email) ∨
      s = .register y.email ∧ .insert (.pending y) ∈ ws := by
  rcases pending_after hC.changes hy with ⟨hold, -⟩ | hnew | ⟨-, x, hx, hsame⟩
  · exact Or.inl ⟨y, hold, rfl⟩
  · cases hC.changes _ hnew with
    | insert _ hs _ _ _ _ =>
        cases s with
        | register email =>
            obtain ⟨dto, -, rfl, -, -, -, hemail⟩ := Registers.inserted hC hnew
            exact Or.inr ⟨by rw [hemail], hnew⟩
        | _ => cases hs
  · exact Or.inl ⟨x, hx, hsame.email.symm⟩

/-- A user keeps its email, and a new one has that of the verification. -/
theorem Effect.user_email (hC : Effect cfg t s ws S) {u : User}
    (hu : user? (applyAll ws S.db) i = some u) :
    (∃ x, user? S.db i = some x ∧ x.email = u.email) ∨
      ∃ pendingId codeHash, s = .verifyRegistration u.email pendingId codeHash := by
  rcases user_after hC.changes hu with ⟨hold, -⟩ | hnew | ⟨-, x, hx, hsame⟩
  · exact Or.inl ⟨u, hold, rfl⟩
  · cases hC.changes _ hnew with
    | insert _ hs _ _ _ _ =>
        cases s with
        | verifyRegistration email pendingId codeHash =>
            obtain ⟨u', r, rfl, hemail, -⟩ := Verifies.writes hC
            have hsame : u = u' := by simpa using hnew
            rw [hsame, hemail]
            exact Or.inr ⟨pendingId, codeHash, rfl⟩
        | _ => cases hs
  · exact Or.inl ⟨x, hx, by rw [hsame]⟩

/-- The pending registrations of an email are one at most. -/
def OnePending (S : AState) : Prop :=
  ∀ i j x y, pending? S.db i = some x → pending? S.db j = some y → x.email = y.email → i = j

/-- The other pending registrations of its email are not there when a
`register` call inserts. -/
theorem Registers.alone (h : Registers cfg t email ws S) {x y : PendingRegistration}
    (hnew : .insert (.pending x) ∈ ws) (hy : .pending y ∈ S.db.rows) (hemail : y.email = email)
    (hkept : ∀ w ∈ ws, w.target ≠ .pending y.id) : False := by
  rcases h with rfl | ⟨dto, _, _, _, _, drop, -, -, -, -, -, -, -, hall, -, rfl⟩
  · cases hnew
  · exact hkept _ (List.mem_append_left _ (hall y (mem_pendings.mpr hy) hemail)) rfl

/-- A commit that inserts one of two pending registrations of an email
inserts both. -/
theorem OnePending.of_insert {x y : PendingRegistration} (hC : Effect cfg t s ws S)
    (hs : s = .register x.email) (hnew : .insert (.pending x) ∈ ws) (hx : x.id = i)
    (hy : pending? (applyAll ws S.db) j = some y) (hemail : x.email = y.email) : i = j := by
  have hyid := pending?_id hy
  subst hs
  rcases pending_after hC.changes hy with ⟨hold, hws⟩ | hins | ⟨hupd, -⟩
  · exact (Registers.alone hC hnew (Db.mem_of_find? (pending?_eq_some.mp hold)) hemail.symm
      (hyid ▸ hws)).elim
  · rcases hC with rfl | ⟨dto, _, _, _, _, drop, -, -, -, -, -, -, hdrop, -, -, rfl⟩
    · cases hnew
    · have hlast : ∀ {z : PendingRegistration}, .insert (.pending z) ∈ drop → False := by
        intro z hz
        rcases hdrop with rfl | ⟨_, -, -, rfl⟩
        · cases hz
        · simp at hz
      rcases List.mem_append.mp hnew with hnew | hnew
      · exact (hlast hnew).elim
      · rcases List.mem_append.mp hins with hins | hins
        · exact (hlast hins).elim
        · cases (List.mem_singleton.mp hins).trans (List.mem_singleton.mp hnew).symm
          exact hx.symm.trans hyid
  · rcases hC with rfl | ⟨dto, _, _, _, _, drop, -, -, -, -, -, -, hdrop, -, -, rfl⟩
    · cases hnew
    · rcases List.mem_append.mp hupd with hupd | hupd
      · rcases hdrop with rfl | ⟨_, -, -, rfl⟩
        · cases hupd
        · simp at hupd
      · simp at hupd

/-- In every state of a run an address has at most one pending registration.
-/
theorem Runs.onePending (hstart : Begins start) (h : Runs (contract cfg start) S) :
    OnePending S := by
  refine h.invariant (I := OnePending) (fun i j x y hx _ _ => ?_) ?_
  · have hnone := pending?_eq_none.mpr (hstart.find?_eq_none (k := .pending i) (by simp))
    cases hnone.symm.trans hx
  · intro t S S' hruns ih hm i j x y hx hy hemail
    rcases hm.commit_or with ⟨s, ws, hC, -, rfl⟩ | ⟨hdb, -⟩
    · rcases hC.1.pending_email hx with ⟨x₀, hx₀, hxe⟩ | ⟨hs, hnew⟩
      · rcases hC.1.pending_email hy with ⟨y₀, hy₀, hye⟩ | ⟨hs, hnew⟩
        · exact ih i j x₀ y₀ hx₀ hy₀ (hxe.trans (hemail.trans hye.symm))
        · exact (OnePending.of_insert hC.1 hs hnew (pending?_id hy) hx hemail.symm).symm
      · exact OnePending.of_insert hC.1 hs hnew (pending?_id hx) hy hemail
    · rw [hdb] at hx hy
      exact ih i j x y hx hy hemail

-- ==================================================== who comes in between

/-- A user that a statement did not find was verified since. -/
theorem Runs.verified_since (hstart : Begins start) (h : Runs (contract cfg start) S)
    {newer older : List AEntry} (htr : S.trace = newer ++ e :: older)
    (hstmt : e.event = .statement s) (hnone : userByEmail email e.before.db = none) {u : User}
    (hu : user? S.db i = some u) (hemail : u.email = email) :
    ∃ e' ∈ newer, ∃ pendingId codeHash ws,
      e'.event = .commit (.verifyRegistration email pendingId codeHash) ws := by
  refine Runs.after (I := fun newer S => ∀ i u, user? S.db i = some u → u.email = email →
    ∃ e' ∈ newer, ∃ pendingId codeHash ws,
      e'.event = .commit (.verifyRegistration email pendingId codeHash) ws)
    hstart.trace h htr ?_ ?_ i u hu hemail
  · intro S₀ S₁ hpast _ i u hu hemail
    rw [hpast.db_eq (by rw [hstmt]; simp)] at hu
    rw [← hpast.scene] at hnone
    exact absurd hemail (userByEmail_eq_none.mp hnone u
      (mem_users.mpr (Db.mem_of_find? (user?_eq_some.mp hu))))
  · intro j S S' newer added hruns _ ih hm hadded i u hu hemail
    have hold : (∃ x, user? S.db i = some x ∧ x.email = u.email) → ∃ e' ∈ added ++ newer,
        ∃ pendingId codeHash ws,
          e'.event = .commit (.verifyRegistration email pendingId codeHash) ws := by
      rintro ⟨x, hx, hxe⟩
      obtain ⟨e', he', hrest⟩ := ih i x hx (hxe.trans hemail)
      exact ⟨e', List.mem_append_right _ he', hrest⟩
    rcases hm.commit_or with ⟨s, ws, hC, -, rfl⟩ | ⟨hdb, -⟩
    · rcases hC.1.user_email hu with hx | ⟨pendingId, codeHash, hs⟩
      · exact hold hx
      · have hcons : ⟨j, .commit s ws, S.toScene⟩ :: S.trace = added ++ S.trace := hadded
        have hmem : ⟨j, .commit s ws, S.toScene⟩ ∈ added := by
          rw [← List.append_cancel_right (show [_] ++ S.trace = _ from hcons)]
          exact List.mem_cons_self
        exact ⟨_, List.mem_append_left _ hmem, pendingId, codeHash, ws, by rw [hs, hemail]⟩
    · exact hold ⟨u, hdb ▸ hu, rfl⟩

-- ============================================================= the claim

/-- No email has a user and a pending registration. -/
def EmailsDisjoint (S : AState) : Prop :=
  ∀ i j u x, user? S.db i = some u → pending? S.db j = some x → u.email ≠ x.email

/-- A commit of a thread that was not overtaken keeps it. -/
theorem EmailsDisjoint.commit (hstart : Begins start) (hruns : Runs (contract cfg start) S)
    (hC : Effect cfg t s ws S) (hdisjoint : EmailsDisjoint S)
    (hquiet : notOvertaken (S.commit t s ws).trace = true) :
    EmailsDisjoint (S.commit t s ws) := by
  intro i j u x hu hx hemail
  rcases hC.user_email hu with ⟨u₀, hu₀, hue⟩ | ⟨pendingId, codeHash, rfl⟩
  · rcases hC.pending_email hx with ⟨x₀, hx₀, hxe⟩ | ⟨rfl, hnew⟩
    · exact hdisjoint i j u₀ x₀ hu₀ hx₀ (hue.trans (hemail.trans hxe.symm))
    · -- the user came in after the registration looked for one
      rcases id hC with rfl | ⟨_, _, _, _, _, _, -, -, -, -, -, -, -, -, hsaw, hws⟩
      · cases hnew
      · obtain ⟨newer, e, older, htr, -, hstmt, hnone, hopen⟩ := hsaw
        obtain ⟨e', he', p, c, ws', hev'⟩ := Runs.verified_since hstart hruns htr hstmt hnone
          hu₀ (hue.trans hemail)
        obtain ⟨o, ho, hot, hos, hdone⟩ := hopen e' he'
        have hmem : e' ∈ S.trace := by
          rw [htr]
          exact List.mem_append_left _ he'
        have hno := not_overtakes_of_mem hquiet List.mem_cons_self rfl
          (List.ne_nil_of_mem hnew) (List.mem_cons_of_mem _ hmem)
        simp only [overtakes, hev', decide_true, Bool.true_and, List.any_eq_false] at hno
        exact hno o ho (by simp [hot, hos, hdone])
  · -- the only pending registration of the email is the one that is verified
    obtain ⟨_, x₀, _, _, _, _, _, _, _, -, -, -, hx₀, -, hx₀e, -⟩ := id hC
    obtain ⟨u', r, rfl, -⟩ := Verifies.writes hC
    rcases pending_after hC.changes hx with ⟨hold, hws⟩ | hnew | ⟨hupd, -⟩
    · have hid := Runs.onePending hstart hruns j pendingId x x₀ hold hx₀
        (hemail.symm.trans hx₀e.symm)
      exact hws _ List.mem_cons_self (by rw [hid]; rfl)
    · simp at hnew
    · simp at hupd

/-- Where no verification overtakes a registration, no address is registered
and pending at once. -/
theorem Runs.emailsDisjoint (hstart : Begins start) (h : Runs (contract cfg start) S)
    (hquiet : notOvertaken S.trace = true) : EmailsDisjoint S := by
  refine h.invariant (I := fun S => notOvertaken S.trace = true → EmailsDisjoint S)
    (fun _ i j u x _ hx => ?_) ?_ hquiet
  · have hnone := pending?_eq_none.mpr (hstart.find?_eq_none (k := .pending j) (by simp))
    cases hnone.symm.trans hx
  · intro t S S' hruns ih hm hquiet
    have hbefore := ih (notOvertaken_of_suffix hquiet hm.trace_suffix)
    rcases hm.commit_or with ⟨s, ws, hC, -, rfl⟩ | ⟨hdb, -⟩
    · exact hbefore.commit hstart hruns hC.1 hquiet
    · intro i j u x hu hx
      rw [hdb] at hu hx
      exact hbefore i j u x hu hx

/-- While no registration that inserts is overtaken, no email has a user
and a pending registration. -/
theorem emails_disjoint {w : AWorld} (h : Reached cfg w)
    (hquiet : notOvertaken w.shared.trace = true) :
    ∀ u ∈ users w.shared.db, ∀ x ∈ pendings w.shared.db, u.email ≠ x.email := by
  obtain ⟨start, hstart, hruns⟩ := h.runs
  intro u hu x hx
  exact Runs.emailsDisjoint hstart hruns hquiet u.id x.id u x
    (user?_of_mem (mem_users.mp hu)) (pending?_of_mem (mem_pendings.mp hx))

/-- One who verified, and another who is pending. -/
theorem emails_disjoint_newcomer : ∃ w, Reached sampleConfig w ∧
    ((users w.shared.db).map (·.email) = ["owner@example.com", "new@example.com"] ∧
      (pendings w.shared.db).map (·.email) = ["next@example.com"]) ∧
    ∀ u ∈ users w.shared.db, ∀ x ∈ pendings w.shared.db, u.email ≠ x.email := by
  have hrun : (sampleWorld.runAll (app sampleConfig) (newcomerVerified
      ++ .spawn 3 (.register { newcomer with email := "next@example.com" }) :: steps 3 5
      ++ .answer 3 (.drawn 8) :: steps 3 8)).any
      (fun w => notOvertaken w.shared.trace = true ∧
        (users w.shared.db).map (·.email) = ["owner@example.com", "new@example.com"] ∧
        (pendings w.shared.db).map (·.email) = ["next@example.com"]) = true := by
    decide +kernel
  obtain ⟨w, hw, hp⟩ := exists_reached hrun
  obtain ⟨hquiet, hemails⟩ := of_decide_eq_true hp
  exact ⟨w, hw, hemails, emails_disjoint hw hquiet⟩

/-- The newcomer registers again. After this registration found no user,
the first one is verified; then the second inserts. -/
def newcomerOvertaken : List (Action Req Choice) :=
  newcomerRegistered ++ .spawn 2 (.register newcomer) :: steps 2 5
    ++ .answer 2 (.drawn 8) :: steps 2 4
    ++ .spawn 3 (.verifyRegistration "new@example.com" "000007") :: steps 3 19
    ++ steps 2 4 ++ .answer 2 .done :: steps 2 1

/-- An email that is registered and pending, with no transaction open. -/
theorem emails_disjoint_fails : ¬ ∀ w, Reached sampleConfig w → w.shared.opens = [] →
    ∀ u ∈ users w.shared.db, ∀ x ∈ pendings w.shared.db, u.email ≠ x.email := by
  intro hclaim
  have hrun : (sampleWorld.runAll (app sampleConfig) newcomerOvertaken).any
      (fun w => w.shared.opens = [] ∧ ∃ u ∈ users w.shared.db, ∃ x ∈ pendings w.shared.db,
        u.email = x.email) = true := by
    decide +kernel
  obtain ⟨w, hw, hp⟩ := exists_reached hrun
  obtain ⟨hopens, u, hu, x, hx, hemail⟩ := of_decide_eq_true hp
  exact hclaim w hw hopens u hu x hx hemail

end FastRep.Auth
