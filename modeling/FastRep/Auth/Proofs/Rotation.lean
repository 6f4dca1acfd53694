/-
Refresh-token rotation is linear.

The tokens of a session are the one it was opened with and those that
replaced it, one after the other (`Descends`). A rotation removes the row
it was given and inserts one under an id that was never used, so the rows
of a session that are still there are one at most, in every state of every
run.

# The steps

A removed token is gone for good (`Runs.removed`), so it is not exchanged
again (`Runs.not_exchanged`), and two rotations of one token are one
(`Runs.exchange_unique`). A new entry of the trace adds to a session only the
token it inserts (`Descends.of_cons`). `OneLive` is the invariant: a commit
that inserts one of two live tokens of a session removes the one it was
given, and by the invariant that is the other (`OneLive.of_insert`).

A refresh that fails threw before its transaction, or inside it, and wrote
nothing (`Runs.failed_refresh`).
-/
import FastRep.Auth.Proofs.Rows

namespace FastRep.Auth

open FastRep.Txn

variable {cfg : Config} {start : AState} {t : Tid} {s : Site} {S S' : AState}
  {ws : List (Write Row Key)} {i j root : Id} {tr : List AEntry} {e : AEntry}

/-- The token replaced the root of its session, by rotations of the
trace. -/
inductive Descends (tr : List AEntry) (root : Id) : Id → Prop
  | root : Descends tr root root
  | rotated {i j : Id} {e : AEntry} {ws : List (Write Row Key)} : Descends tr root i →
      e ∈ tr → e.event = .commit (.refresh i j) ws → Descends tr root j

-- ============================================================ the removal

/-- A removed token is gone for good. -/
theorem Runs.removed (hstart : Begins start) (h : Runs (contract cfg start) S)
    {newer older : List AEntry} (htr : S.trace = newer ++ e :: older)
    (hev : e.event = .commit s ws) (hw : .erase (.token i) ∈ ws) : token? S.db i = none := by
  obtain ⟨S₀, S₁, hpast, -⟩ := h.at hstart.trace htr
  obtain ⟨hC, rfl⟩ := hpast.commit hev
  have hruns := hpast.runs.move hpast.move
  have hx : ∃ x, token? S₀.db i = some x := by
    cases hC.1.changes _ hw with
    | revoke x hx => exact ⟨x, hx⟩
  obtain ⟨x, hx⟩ := hx
  have hused := (Runs.persists (lasting_token hstart i) hpast.runs).created x hx
  refine Steps.stays_gone (lasting_token hstart i) hruns
    (hused.mono hpast.move.trace_suffix) ?_ hpast.steps
  refine token?_eq_none.mpr (find?_applyAll_eq_none (fun w hw' r hr hk => ?_) (Or.inl hw))
  cases hC.1.changes w hw' with
  | insert r' =>
      -- the commit would insert the token a second time
      cases hr
      obtain ⟨e', he', hi'⟩ := hused
      have hi : Uses ⟨e.tid, .commit s ws, S₀.toScene⟩ i := by
        have huses : Uses ⟨e.tid, .commit s ws, S₀.toScene⟩ (key r).id := Uses.of_insert hw'
        rw [hk] at huses
        exact huses
      have htr₁ : (S₀.commit e.tid s ws).trace
          = [] ++ ⟨e.tid, .commit s ws, S₀.toScene⟩ :: S₀.trace := rfl
      exact usedOnce.not_before hstart.trace hruns htr₁ he' hi hi'
  | password => cases hr; cases hk
  | pending => cases hr; cases hk
  | reset => cases hr; cases hk
  | drop => cases hr
  | revoke => cases hr

/-- Nor is it exchanged again. -/
theorem Runs.not_exchanged (hstart : Begins start) (h : Runs (contract cfg start) S)
    {newer older : List AEntry} (htr : S.trace = newer ++ e :: older)
    (hev : e.event = .commit s ws) (hw : .erase (.token i) ∈ ws) {e' : AEntry}
    (he' : e' ∈ newer) {ws' : List (Write Row Key)} : e'.event ≠ .commit (.refresh i j) ws' := by
  intro hev'
  obtain ⟨newest, between, rfl⟩ := List.append_of_mem he'
  rw [List.append_assoc] at htr
  obtain ⟨S₀, S₁, hpast, htr₀⟩ := h.at hstart.trace htr
  obtain ⟨x, r, exp, hx, -⟩ := (hpast.commit hev').1.1
  have hgone := Runs.removed hstart hpast.runs htr₀ hev hw
  cases hgone.symm.trans hx

/-- A rotation removes what it was given. -/
theorem Runs.rotates (hstart : Begins start) (h : Runs (contract cfg start) S)
    (he : e ∈ S.trace) (hev : e.event = .commit (.refresh i j) ws) :
    .erase (.token i) ∈ ws ∧ ∃ r, r.id = j ∧ .insert (.token r) ∈ ws := by
  obtain ⟨S₀, S₁, hpast⟩ := h.since hstart.trace he
  obtain ⟨x, r, exp, -, hr, -, -, -, -, rfl⟩ := (hpast.commit hev).1.1
  exact ⟨List.mem_cons_self, r, hr, List.mem_cons_of_mem _ List.mem_cons_self⟩

/-- Two rotations of one token are one. -/
theorem Runs.exchange_unique (hstart : Begins start) (h : Runs (contract cfg start) S)
    {e' : AEntry} {j' : Id} {ws' : List (Write Row Key)} (he : e ∈ S.trace)
    (he' : e' ∈ S.trace) (hev : e.event = .commit (.refresh i j) ws)
    (hev' : e'.event = .commit (.refresh i j') ws') : e' = e := by
  refine eq_of_never_again (P := fun e => ∃ j ws, e.event = .commit (.refresh i j) ws) ?_ he he'
    ⟨j, ws, hev⟩ ⟨j', ws', hev'⟩
  rintro newer e older htr ⟨j, ws, hev⟩ e' he' ⟨j', ws', hev'⟩
  have hmem : e ∈ S.trace := by
    rw [htr]
    exact List.mem_append_right _ List.mem_cons_self
  exact Runs.not_exchanged hstart h htr hev (Runs.rotates hstart h hmem hev).1 he' hev'

-- ============================================================ the session

/-- A new entry adds to a session only the token it inserts. -/
theorem Descends.of_cons (h : Descends (e :: tr) root i)
    (hnew : ∀ a b ws, e.event = .commit (.refresh a b) ws →
      ∀ e' ∈ e :: tr, ∀ c ws', e'.event ≠ .commit (.refresh b c) ws') :
    Descends tr root i ∨
      ∃ a ws, e.event = .commit (.refresh a i) ws ∧ Descends tr root a := by
  induction h with
  | root => exact Or.inl .root
  | rotated hi he hev ih =>
      rename_i i j e' ws
      rcases ih with hold | ⟨a, ws₀, hev₀, -⟩
      · rcases List.mem_cons.mp he with rfl | he
        · exact Or.inr ⟨i, ws, hev, hold⟩
        · exact Or.inl (hold.rotated he hev)
      · exact absurd hev (hnew a i ws₀ hev₀ e' he j ws)

/-- A token that was not inserted is in no session but its own. -/
theorem Descends.eq_of_unused (h : Descends tr root i)
    (hi : ∀ e ∈ tr, ∀ a ws, e.event ≠ .commit (.refresh a i) ws) : i = root := by
  cases h with
  | root => rfl
  | rotated _ he hev => exact absurd hev (hi _ he _ _)

/-- A token that was never replaced is its whole session. -/
theorem Descends.eq_root (h : Descends tr root i)
    (hroot : ∀ e ∈ tr, ∀ c ws, e.event ≠ .commit (.refresh root c) ws) : i = root := by
  induction h with
  | root => rfl
  | rotated _ he hev ih =>
      rw [ih] at hev
      exact absurd hev (hroot _ he _ _)

/-- What a commit inserts is in no rotation before, and in none as what is
replaced. -/
theorem Runs.inserted (hstart : Begins start) (hruns : Runs (contract cfg start) S)
    (h : Runs (contract cfg start) (S.commit t s ws)) {y : RefreshToken}
    (hy : .insert (.token y) ∈ ws) :
    (¬ S.Used Uses y.id) ∧
    (∀ e ∈ (S.commit t s ws).trace, ∀ c ws', e.event ≠ .commit (.refresh y.id c) ws') ∧
    ∀ e ∈ S.trace, ∀ a ws', e.event ≠ .commit (.refresh a y.id) ws' := by
  have hfresh : ¬ S.Used Uses y.id := by
    rintro ⟨e, he, hi⟩
    have htr : (S.commit t s ws).trace = [] ++ ⟨t, .commit s ws, S.toScene⟩ :: S.trace := rfl
    exact usedOnce.not_before hstart.trace h htr he (Uses.of_insert hy) hi
  refine ⟨hfresh, fun e he c ws' hev => ?_, fun e he a ws' hev => ?_⟩
  · obtain ⟨newer, older, htr⟩ := List.append_of_mem he
    obtain ⟨S₀, S₁, hpast, rfl⟩ := h.at hstart.trace htr
    obtain ⟨x, r, exp, hx, -⟩ := (hpast.commit hev).1.1
    have hused := (Runs.persists (lasting_token hstart y.id) hpast.runs).created x hx
    refine hfresh (hused.mono ?_)
    -- the rotation is the commit itself or older
    cases newer with
    | nil =>
        have hcons : ⟨t, .commit s ws, S.toScene⟩ :: S.trace = e :: S₀.trace := htr
        exact (List.cons.inj hcons).2 ▸ List.suffix_refl _
    | cons e' newer =>
        have hcons : ⟨t, .commit s ws, S.toScene⟩ :: S.trace
            = e' :: (newer ++ e :: S₀.trace) := htr
        rw [(List.cons.inj hcons).2]
        exact ⟨newer ++ [e], by simp⟩
  · obtain ⟨-, r, hr, hmem⟩ := Runs.rotates hstart hruns he hev
    obtain ⟨t', ev, sc⟩ := e
    cases hev
    exact hfresh ⟨_, he, hr ▸ Uses.of_insert hmem⟩

/-- The token a rotation inserts has not been replaced. -/
theorem Runs.rotation_new (hstart : Begins start) (hruns : Runs (contract cfg start) S)
    (h : Runs (contract cfg start) (S.commit t s ws)) (hC : Effect cfg t s ws S) :
    ∀ a b ws', (⟨t, .commit s ws, S.toScene⟩ : AEntry).event = .commit (.refresh a b) ws' →
      ∀ e ∈ (S.commit t s ws).trace, ∀ c ws'', e.event ≠ .commit (.refresh b c) ws'' := by
  intro a b ws' hev
  cases hev
  obtain ⟨_, r, _, -, rfl, -, -, -, -, hws⟩ := hC
  refine (Runs.inserted (y := r) hstart hruns h ?_).2.1
  rw [hws]
  exact List.mem_cons_of_mem _ List.mem_cons_self

/-- The rows of a session that are stored are one at most. -/
def OneLive (S : AState) : Prop :=
  ∀ root i j x y, Descends S.trace root i → Descends S.trace root j →
    token? S.db i = some x → token? S.db j = some y → i = j

/-- A commit keeps it when it inserts one of the two. -/
theorem OneLive.of_insert (hstart : Begins start) (hruns : Runs (contract cfg start) S)
    (h : Runs (contract cfg start) (S.commit t s ws)) (hC : Effect cfg t s ws S)
    (hlive : OneLive S) {x y : RefreshToken}
    (hi : Descends (S.commit t s ws).trace root i) (hj : Descends (S.commit t s ws).trace root j)
    (hx : token? (S.commit t s ws).db i = some x) (hnew : .insert (.token x) ∈ ws)
    (hy : token? (S.commit t s ws).db j = some y) : i = j := by
  obtain ⟨hfresh, hsource, htarget⟩ := Runs.inserted hstart hruns h hnew
  have hxi := token?_id hx
  subst hxi
  have hcons := Runs.rotation_new hstart hruns h hC
  rcases hi.of_cons hcons with hi | ⟨a, ws', hev, ha⟩
  · -- the inserted token opens the session
    have hroot := hi.eq_of_unused htarget
    rw [← hroot] at hj
    exact (hj.eq_root hsource).symm
  · -- the inserted token replaces another
    cases hev
    obtain ⟨z, r, exp, hz, hr, -, -, -, -, hws⟩ := id hC
    rcases token_after hC.changes hy with hold | hinsert
    · rcases hj.of_cons hcons with hj | ⟨a', ws'', hev', -⟩
      · have haj := hlive root a j z y ha hj hz hold
        have htr : (S.commit t (.refresh a x.id) ws).trace
            = [] ++ ⟨t, .commit (.refresh a x.id) ws, S.toScene⟩ :: S.trace := rfl
        have hgone := Runs.removed (i := a) hstart h htr rfl (by
          rw [hws]
          exact List.mem_cons_self)
        subst haj
        cases hgone.symm.trans hy
      · cases hev'
        rfl
    · rw [hws] at hinsert hnew
      simp only [List.mem_cons, List.not_mem_nil, or_false, reduceCtorEq, false_or] at hinsert hnew
      cases hinsert.trans hnew.symm
      exact token?_id hy

/-- In every state of a run a session has at most one live token. -/
theorem Runs.oneLive (hstart : Begins start) (h : Runs (contract cfg start) S) : OneLive S := by
  refine h.invariant (I := OneLive) (fun root i j x y _ _ hx _ => ?_) ?_
  · have hnone := hstart.find?_eq_none (k := .token i) (by simp)
    rw [← token?_eq_none] at hnone
    cases hnone.symm.trans hx
  · intro t S S' hruns hlive hm root i j x y hi hj hx hy
    have hruns' := hruns.move hm
    rcases hm.commit_or with ⟨s, ws, hC, -, rfl⟩ | ⟨hdb, htr⟩
    · rcases token_after hC.1.changes hx with hxold | hxnew
      · rcases token_after hC.1.changes hy with hyold | hynew
        · -- a stored token is not the one a rotation inserts
          have hold : ∀ k z, token? S.db k = some z →
              Descends (S.commit t s ws).trace root k → Descends S.trace root k := by
            intro k z hz hk
            refine (hk.of_cons (Runs.rotation_new hstart hruns hruns' hC.1)).resolve_right ?_
            rintro ⟨a, ws', hev, -⟩
            cases hev
            obtain ⟨_, r, _, -, hr, -, -, -, -, hws⟩ := id hC.1
            refine (Runs.inserted (y := r) hstart hruns hruns' ?_).1 ?_
            · rw [hws]
              exact List.mem_cons_of_mem _ List.mem_cons_self
            · rw [hr]
              exact (Runs.persists (lasting_token hstart k) hruns).created z hz
          exact hlive root i j x y (hold i x hxold hi) (hold j y hyold hj) hxold hyold
        · exact (OneLive.of_insert hstart hruns hruns' hC.1 hlive hj hi hy hynew hx).symm
      · exact OneLive.of_insert hstart hruns hruns' hC.1 hlive hi hj hx hxnew hy
    · rw [hdb] at hx hy
      rcases htr with htr | ⟨ev, hev, htr⟩
      · rw [htr] at hi hj
        exact hlive root i j x y hi hj hx hy
      · rw [htr] at hi hj
        have hold : ∀ k, Descends (⟨t, ev, S.toScene⟩ :: S.trace) root k →
            Descends S.trace root k := fun k hk =>
          (hk.of_cons fun _ _ _ h => absurd h (hev _ _)).resolve_right
            fun ⟨_, _, h, _⟩ => hev _ _ h
        exact hlive root i j x y (hold i hi) (hold j hj) hx hy

-- ============================================================= the claim

/-- A refresh that succeeds exchanged the token it was given. -/
theorem Runs.exchanged (hstart : Begins start) (h : Runs (contract cfg start) S) {sub jti : Id}
    {exp : Nat} {r : Res} (hasked : S.asked t = [.refresh (.refresh sub jti exp)])
    (hend : Ends S t (.ok r)) :
    ∃ e ∈ S.trace, e.tid = t ∧ ∃ nextTokenId ws, e.event = .commit (.refresh jti nextTokenId) ws := by
  obtain ⟨S₀, -, hsuffix, hfinish, hsame, -⟩ := Runs.ended hstart h hend
  simp only [Finishes, hsame, hasked] at hfinish
  obtain ⟨nextTokenId, hmarks⟩ := hfinish
  obtain ⟨e, he, ht, ws, hev⟩ := exists_of_marks hmarks
  exact ⟨e, hsuffix.subset he, ht, nextTokenId, ws, hev⟩

/-- A refresh that fails writes nothing. -/
theorem Runs.failed_refresh (hstart : Begins start) (h : Runs (contract cfg start) S)
    {refreshToken : Jwt} {error : Error} (hasked : S.asked t = [.refresh refreshToken])
    (hend : Ends S t (.error error)) {e : AEntry} (he : e ∈ S.trace) (ht : e.tid = t)
    (hev : e.event = .commit s ws) : ws = [] := by
  obtain ⟨S₀, hruns₀, -, hfinish, hsame, hall⟩ := Runs.ended hstart h hend
  have he₀ := hall e he ht s ws hev
  have hmarks : marks S₀ t = [] := by
    simp only [Finishes, hsame, hasked] at hfinish
    exact hfinish
  have hserved := Runs.servedBy hstart h he hev (q := .refresh refreshToken) (ht ▸ hasked)
  obtain ⟨S₁, S₂, hpast⟩ := hruns₀.since hstart.trace he₀
  have heffect := (hpast.commit hev).1.1
  cases s with
  | findToken tokenId => exact heffect
  | refresh tokenId nextTokenId =>
      -- an exchange is counted, and the thread counted nothing
      exact absurd hev (not_commit_of_marks hmarks he₀ ht rfl)
  | _ => cases hserved

/-- Refresh-token rotation is linear. -/
theorem rotation_linear {w : AWorld} (h : Reached cfg w) :
    (∀ t t' sub sub' jti exp exp' r r',
      w.shared.asked t = [.refresh (.refresh sub jti exp)] →
      w.shared.asked t' = [.refresh (.refresh sub' jti exp')] →
      Ends w.shared t (.ok r) → Ends w.shared t' (.ok r') → t = t') ∧
    (∀ root i j x y, Descends w.shared.trace root i → Descends w.shared.trace root j →
      token? w.shared.db i = some x → token? w.shared.db j = some y → i = j) ∧
    (∀ t refreshToken error, w.shared.asked t = [.refresh refreshToken] →
      Ends w.shared t (.error error) →
      ∀ e ∈ w.shared.trace, e.tid = t → ∀ s ws, e.event = .commit s ws → ws = []) ∧
    ∀ newer e older s ws i, w.shared.trace = newer ++ e :: older → e.event = .commit s ws →
      .erase (.token i) ∈ ws → token? w.shared.db i = none ∧
        ∀ e' ∈ newer, ∀ j ws', e'.event ≠ .commit (.refresh i j) ws' := by
  obtain ⟨start, hstart, hruns⟩ := h.runs
  refine ⟨fun t t' sub sub' jti exp exp' r r' hasked hasked' hend hend' => ?_,
    Runs.oneLive hstart hruns,
    fun t refreshToken error hasked hend e he ht s ws hev =>
      Runs.failed_refresh hstart hruns hasked hend he ht hev,
    fun newer e older s ws i htr hev hw => ⟨Runs.removed hstart hruns htr hev hw,
      fun e' he' j ws' => Runs.not_exchanged hstart hruns htr hev hw he'⟩⟩
  obtain ⟨e, he, rfl, n, ws, hev⟩ := Runs.exchanged hstart hruns hasked hend
  obtain ⟨e', he', rfl, n', ws', hev'⟩ := Runs.exchanged hstart hruns hasked' hend'
  rw [Runs.exchange_unique hstart hruns he he' hev hev']

/-- A session of two tokens, of which one is stored. -/
theorem rotation_linear_two : ∃ w, Reached sampleConfig w ∧
    ((tokens w.shared.db).map (·.id) = [12]) ∧
    ∀ root i j x y, Descends w.shared.trace root i → Descends w.shared.trace root j →
      token? w.shared.db i = some x → token? w.shared.db j = some y → i = j := by
  have hrun : (sampleWorld.runAll (app sampleConfig) tokenRotated).any
      (fun w => (tokens w.shared.db).map (·.id) = [12]) = true := by
    decide +kernel
  obtain ⟨w, hw, hp⟩ := exists_reached hrun
  exact ⟨w, hw, of_decide_eq_true hp, (rotation_linear hw).2.1⟩

end FastRep.Auth
