/-
The rules of safety: consequence, sequencing and catching for programs,
one rule for each statement of a transaction body.

A rule for a statement names the state the statement runs in and the
reply it gets there, so the proof of a transaction reads as a walk
through its statements: every snapshot `S'` stays in scope, and `Within`
carries what was locked at one snapshot to the commit.

The rules have one shape. What the statement may find is a case of the
hypothesis (a guarded update hits its row or not), and the case where it
writes hands on the old version, the condition it satisfied, and that the
new version violates nothing. A statement on many rows has two snapshots:
it lists the rows at the first and visits them at the second
(`TxSafe.updateMany`, `TxSafe.deleteMany`).
-/
import FastRep.Txn.Proofs.Rely
import FastRep.Txn.Proofs.Writes

namespace FastRep.Txn

variable {Row Key Index ε Site Call Choice Env Req Res : Type}
  [DecidableEq Key] [DecidableEq Index] [Schema Row Key Index]
  [Services Call Choice Env]
  {C : Contract Row ε Site Call Req Res} {t : Tid} {s : Site}
  {S S' S'' : Shared Row ε Site Call Req Res}

/-- What is seen after other threads have moved is seen. -/
theorem Rely.sees_trans (h : Rely C t S S') (h' : Sees C t S' S'') :
    Sees C t S S'' :=
  ⟨h.trans h'.rely, h'.runs⟩

/-- What a thread sees next, its transaction is still open in. -/
theorem Sees.within (h : Sees C t S S') : Within C t s S S' :=
  h.rely.within

theorem Sees.refl (hruns : Runs C S) : Sees C t S S :=
  ⟨Rely.refl, hruns⟩

-- ================================================== transaction bodies

section Bodies

variable {β γ : Type}
  {Q : β → List (Write Row Key) → Shared Row ε Site Call Req Res → Prop}
  {ws : List (Write Row Key)}

/-- Safety is a property of what the body finds at its next step. -/
theorem TxSafe.of_sees {body : Tx Row ε β}
    (h : ∀ S', Sees C t S S' → TxSafe C t s Q body ws S') :
    TxSafe C t s Q body ws S := by
  cases body with
  | pure b => exact fun S' hS => h S' hS S' (Sees.refl hS.runs)
  | throw e => trivial
  | now k => exact fun S' hS => h S' hS S' (Sees.refl hS.runs)
  | later _ k => exact fun S' hS => h S' hS S' (Sees.refl hS.runs)
  | stmt f k => exact fun S' hS => h S' hS S' (Sees.refl hS.runs)

/-- Safety is stable under the moves of others. -/
theorem TxSafe.rely {body : Tx Row ε β} (h : TxSafe C t s Q body ws S)
    (hR : Rely C t S S') : TxSafe C t s Q body ws S' := by
  cases body with
  | pure b => exact fun S'' hS => h S'' (hR.sees_trans hS)
  | throw e => trivial
  | now k => exact fun S'' hS => h S'' (hR.sees_trans hS)
  | later _ k => exact fun S'' hS => h S'' (hR.sees_trans hS)
  | stmt f k => exact fun S'' hS => h S'' (hR.sees_trans hS)

theorem TxSafe.mono {Q' : β → List (Write Row Key) →
      Shared Row ε Site Call Req Res → Prop} {body : Tx Row ε β}
    (h : TxSafe C t s Q body ws S) (hQ : ∀ b ws S, Q b ws S → Q' b ws S) :
    TxSafe C t s Q' body ws S := by
  induction body generalizing ws S with
  | pure b => exact fun S' hS => hQ _ _ _ (h S' hS)
  | throw e => trivial
  | now k ih => exact fun S' hS => ih _ (h S' hS)
  | later _ k ih => exact fun S' hS => ih _ (h S' hS)
  | stmt f k ih =>
      exact fun S' hS b ws' ha hw hl => ih _ (h S' hS b ws' ha hw hl)

/-- What a body ends in is part of the transaction it started in. -/
theorem TxSafe.within {body : Tx Row ε β} (h : TxSafe C t s Q body ws S) :
    TxSafe C t s (fun b ws' S' => Within C t s S S' ∧ Q b ws' S') body ws S := by
  suffices hall : ∀ S₀, Within C t s S₀ S →
      TxSafe C t s (fun b ws' S' => Within C t s S₀ S' ∧ Q b ws' S') body ws S from
    hall S Within.refl
  induction body generalizing ws S with
  | pure b => exact fun S₀ hW S' hS => ⟨hW.trans hS.within, h S' hS⟩
  | throw e => exact fun _ _ => trivial
  | now k ih => exact fun S₀ hW S' hS => ih _ (h S' hS) S₀ (hW.trans hS.within)
  | later _ k ih => exact fun S₀ hW S' hS => ih _ (h S' hS) S₀ (hW.trans hS.within)
  | stmt f k ih =>
      intro S₀ hW S' hS b ws' ha hw hl
      exact ih _ (h S' hS b ws' ha hw hl) S₀ (hW.trans (hS.within.trans (Within.ran hl)))

/-- A body in two parts, each proved with what the other promises. -/
theorem TxSafe.bind {R : γ → List (Write Row Key) →
      Shared Row ε Site Call Req Res → Prop} {body : Tx Row ε γ}
    {f : γ → Tx Row ε β} (h : TxSafe C t s R body ws S)
    (hf : ∀ c ws S', Within C t s S S' → R c ws S' → TxSafe C t s Q (f c) ws S') :
    TxSafe C t s Q (body >>= f) ws S := by
  have hall : ∀ {S₁ : Shared Row ε Site Call Req Res}, TxSafe C t s (fun c ws' S' =>
      Within C t s S S' ∧ R c ws' S') body ws S₁ → TxSafe C t s Q (body >>= f) ws S₁ := by
    clear h
    intro S₁ h
    induction body generalizing ws S₁ with
    | pure c => exact TxSafe.of_sees fun S' hS => hf _ _ _ (h S' hS).1 (h S' hS).2
    | throw e => trivial
    | now k ih => exact fun S' hS => ih _ (h S' hS)
    | later _ k ih => exact fun S' hS => ih _ (h S' hS)
    | stmt F k ih =>
        exact fun S' hS b ws' ha hw hl => ih _ (h S' hS b ws' ha hw hl)
  exact hall h.within

/-- A body that ends promises its postcondition in every state the thread may
see then. -/
theorem TxSafe.pure {b : β} (h : ∀ S', Sees C t S S' → Q b ws S') :
    TxSafe C t s Q (Pure.pure b) ws S := h

theorem TxSafe.throw (e : ε) : TxSafe C t s Q (.throw e) ws S := trivial

/-- A clock is read at the time of the statement. -/
theorem TxSafe.clock {g : Nat → Tx Row ε β}
    (h : ∀ S', Sees C t S S' → TxSafe C t s Q (g S'.clock) ws S') :
    TxSafe C t s Q (Tx.clock >>= g) ws S := h

theorem TxSafe.of_bind_pure {body : Tx Row ε β}
    (h : TxSafe C t s Q (body >>= Pure.pure) ws S) : TxSafe C t s Q body ws S := by
  induction body generalizing ws S with
  | pure b => exact h
  | throw e => trivial
  | now k ih => exact fun S' hS => ih _ (h S' hS)
  | later _ k ih => exact fun S' hS => ih _ (h S' hS)
  | stmt f k ih =>
      exact fun S' hS b ws' ha hw hl => ih _ (h S' hS b ws' ha hw hl)

/-- A statement ran: what the thread holds after it is part of its
transaction. -/
theorem Sees.ran {ls : List (Lock Key Index)} (h : Sees C t S S')
    (hfree : ∀ l ∈ ls, S'.free t l = true) : Within C t s S (S'.ran t s ls) :=
  h.within.trans (Within.ran hfree)

/-- A query reads the committed database with the transaction's own writes,
and locks nothing. -/
theorem TxSafe.select {f : Db Row → γ} {g : γ → Tx Row ε β}
    (h : ∀ S', Sees C t S S' → Within C t s S (S'.ran t s []) →
      TxSafe C t s Q (g (f (applyAll ws S'.db))) ws (S'.ran t s [])) :
    TxSafe C t s Q (select f >>= g) ws S := by
  intro S' hS b ws' ha hw hl
  cases ha
  rw [List.append_nil]
  exact h S' hS (hS.ran hl)

/-- A guarded deletion finds the row or not. Where it does, it writes the
deletion with its cascades, and locks what it writes. -/
theorem TxSafe.deleteRow {k : Key} {p : Row → Bool} {g : Nat → Tx Row ε β}
    (h₀ : ∀ S', Sees C t S S' → Within C t s S (S'.ran t s []) →
      ((applyAll ws S'.db).find? k).filter p = none →
      TxSafe C t s Q (g 0) ws (S'.ran t s []))
    (h₁ : ∀ S' r, Sees C t S S' →
      Within C t s S
        (S'.ran t s (((applyAll ws S'.db).deletion [k]).flatMap Write.locks)) →
      (applyAll ws S'.db).find? k = some r → p r = true →
      TxSafe C t s Q (g 1) (ws ++ (applyAll ws S'.db).deletion [k])
        (S'.ran t s (((applyAll ws S'.db).deletion [k]).flatMap Write.locks))) :
    TxSafe C t s Q (deleteRow k p >>= g) ws S := by
  intro S' hS b ws' ha hw hl
  simp only at ha
  split at ha
  next hnone =>
      cases ha
      rw [List.append_nil]
      exact h₀ S' hS (hS.ran hl) hnone
  next r hr =>
      cases ha
      obtain ⟨hfind, hp⟩ := Option.filter_eq_some_iff.mp hr
      exact h₁ S' r hS (hS.ran hl) hfind hp

/-- A statement on all rows that satisfy a condition lists them first and
hits those that still satisfy it at a second moment. -/
theorem TxSafe.deleteMany {p : Row → Bool} {g : Nat → Tx Row ε β}
    (h : ∀ S₁ S₂ hits, Sees C t S S₁ → Within C t s S (S₁.ran t s []) →
      Sees C t (S₁.ran t s []) S₂ → Within C t s (S₁.ran t s [])
        (S₂.ran t s (((applyAll ws S₂.db).deletion (hits.map key)).flatMap Write.locks)) →
      (applyAll ws S₂.db).Hits p (((applyAll ws S₁.db).rows.filter p).map key) hits →
      TxSafe C t s Q (g hits.length) (ws ++ (applyAll ws S₂.db).deletion (hits.map key))
        (S₂.ran t s
          (((applyAll ws S₂.db).deletion (hits.map key)).flatMap Write.locks))) :
    TxSafe C t s Q (deleteMany p >>= g) ws S := by
  refine TxSafe.select fun S₁ hS₁ hW₁ S₂ hS₂ b ws' ha hw hl => ?_
  cases ha
  exact h S₁ S₂ _ hS₁ hW₁ hS₂ (hS₂.ran hl) (Db.hits_filter _ _ _)

variable [DbErrors ε]

/-- A query that throws where it finds nothing goes on only where it does. -/
theorem TxSafe.selectOrThrow {f : Db Row → Option γ} {g : γ → Tx Row ε β}
    (h : ∀ S' c, Sees C t S S' → Within C t s S (S'.ran t s []) →
      f (applyAll ws S'.db) = some c →
      TxSafe C t s Q (g c) ws (S'.ran t s [])) :
    TxSafe C t s Q (selectOrThrow f >>= g) ws S := by
  intro S' hS b ws' ha hw hl
  simp only at ha
  split at ha
  next c hc =>
      cases ha
      rw [List.append_nil]
      exact h S' _ hS (hS.ran hl) hc
  next => cases ha

/-- An insertion goes on only where the key is free and nothing is violated.
-/
theorem TxSafe.insertRow {r : Row} {g : Unit → Tx Row ε β}
    (h : ∀ S', Sees C t S S' →
      Within C t s S (S'.ran t s (Write.insert r).locks) →
      (applyAll ws S'.db).find? (key r) = none →
      (applyAll ws S'.db).violation r = none →
      TxSafe C t s Q (g ()) (ws ++ [.insert r])
        (S'.ran t s (Write.insert r).locks)) :
    TxSafe C t s Q (insertRow r >>= g) ws S := by
  intro S' hS b ws' ha hw hl
  simp only at ha
  split at ha
  next => cases ha
  next hnone =>
      split at ha
      next => cases ha
      next hviol =>
          cases ha
          rw [List.flatMap_singleton] at hl ⊢
          exact h S' hS (hS.ran hl) (by simpa using hnone) hviol

/-- A guarded update finds the row or not. Where it does, it writes the new
version, if that violates nothing. -/
theorem TxSafe.updateRow {k : Key} {p : Row → Bool} {f : Row → Row}
    {g : Nat → Tx Row ε β}
    (h₀ : ∀ S', Sees C t S S' → Within C t s S (S'.ran t s []) →
      ((applyAll ws S'.db).find? k).filter p = none →
      TxSafe C t s Q (g 0) ws (S'.ran t s []))
    (h₁ : ∀ S' r, Sees C t S S' →
      Within C t s S (S'.ran t s (Write.update (f r)).locks) →
      (applyAll ws S'.db).find? k = some r → p r = true →
      (applyAll ws S'.db).violation (f r) = none →
      TxSafe C t s Q (g 1) (ws ++ [.update (f r)])
        (S'.ran t s (Write.update (f r)).locks)) :
    TxSafe C t s Q (updateRow k p f >>= g) ws S := by
  intro S' hS b ws' ha hw hl
  simp only at ha
  split at ha
  next hnone =>
      cases ha
      rw [List.append_nil]
      exact h₀ S' hS (hS.ran hl) hnone
  next r hr =>
      simp only at ha
      split at ha
      next => cases ha
      next hviol =>
          cases ha
          obtain ⟨hfind, hp⟩ := Option.filter_eq_some_iff.mp hr
          rw [List.flatMap_singleton] at hl ⊢
          exact h₁ S' r hS (hS.ran hl) hfind hp hviol

/-- An update that throws where there is no row goes on only where there is
one. -/
theorem TxSafe.updateOrThrow {k : Key} {f : Row → Row} {g : Unit → Tx Row ε β}
    (h : ∀ S' r, Sees C t S S' →
      Within C t s S (S'.ran t s (Write.update (f r)).locks) →
      (applyAll ws S'.db).find? k = some r →
      (applyAll ws S'.db).violation (f r) = none →
      TxSafe C t s Q (g ()) (ws ++ [.update (f r)])
        (S'.ran t s (Write.update (f r)).locks)) :
    TxSafe C t s Q (updateOrThrow k f >>= g) ws S := by
  show TxSafe C t s Q (FastRep.Txn.updateRow k (fun _ => true) f >>= fun count =>
    (if count = 1 then Tx.pure () else .throw (raise .recordNotFound)) >>= g) ws S
  refine TxSafe.updateRow (fun S' _ _ _ => trivial) fun S' r hS hW hfind _ hviol => ?_
  exact h S' r hS hW hfind hviol

/-- A deletion that throws where there is no row goes on only where there is
one. -/
theorem TxSafe.deleteOrThrow {k : Key} {g : Unit → Tx Row ε β}
    (h : ∀ S' r, Sees C t S S' →
      Within C t s S
        (S'.ran t s (((applyAll ws S'.db).deletion [k]).flatMap Write.locks)) →
      (applyAll ws S'.db).find? k = some r →
      TxSafe C t s Q (g ()) (ws ++ (applyAll ws S'.db).deletion [k])
        (S'.ran t s (((applyAll ws S'.db).deletion [k]).flatMap Write.locks))) :
    TxSafe C t s Q (deleteOrThrow k >>= g) ws S := by
  show TxSafe C t s Q (FastRep.Txn.deleteRow k (fun _ => true) >>= fun count =>
    (if count = 1 then Tx.pure () else .throw (raise .recordNotFound)) >>= g) ws S
  refine TxSafe.deleteRow (fun S' _ _ _ => trivial) fun S' r hS hW hfind _ => ?_
  exact h S' r hS hW hfind

/-- An update of many rows selects them first, and writes those that still
satisfy the condition once it has their locks. -/
theorem TxSafe.updateMany {p : Row → Bool} {f : Row → Row} {g : Nat → Tx Row ε β}
    (h : ∀ S₁ S₂ hits, Sees C t S S₁ → Within C t s S (S₁.ran t s []) →
      Sees C t (S₁.ran t s []) S₂ → Within C t s (S₁.ran t s [])
        (S₂.ran t s ((hits.map fun r => Write.update (f r)).flatMap Write.locks)) →
      (applyAll ws S₂.db).Hits p (((applyAll ws S₁.db).rows.filter p).map key) hits →
      TxSafe C t s Q (g hits.length) (ws ++ hits.map fun r => .update (f r))
        (S₂.ran t s ((hits.map fun r => Write.update (f r)).flatMap Write.locks))) :
    TxSafe C t s Q (updateMany p f >>= g) ws S := by
  refine TxSafe.select fun S₁ hS₁ hW₁ S₂ hS₂ b ws' ha hw hl => ?_
  simp only at ha
  split at ha
  next => cases ha
  next =>
      cases ha
      exact h S₁ S₂ _ hS₁ hW₁ hS₂ (hS₂.ran hl) (Db.hits_filter _ _ _)

/-- An upsert inserts a row or updates the one it finds. -/
theorem TxSafe.upsertRow {p : Row → Bool} {r : Row} {f : Row → Row}
    {g : Row → Tx Row ε β}
    (h₀ : ∀ S', Sees C t S S' →
      Within C t s S (S'.ran t s (Write.insert r).locks) →
      (applyAll ws S'.db).rows.find? p = none →
      (applyAll ws S'.db).find? (key r) = none →
      (applyAll ws S'.db).violation r = none →
      TxSafe C t s Q (g r) (ws ++ [.insert r])
        (S'.ran t s (Write.insert r).locks))
    (h₁ : ∀ S' x, Sees C t S S' →
      Within C t s S (S'.ran t s (Write.update (f x)).locks) →
      (applyAll ws S'.db).rows.find? p = some x →
      TxSafe C t s Q (g (f x)) (ws ++ [.update (f x)])
        (S'.ran t s (Write.update (f x)).locks)) :
    TxSafe C t s Q (upsertRow p r f >>= g) ws S := by
  intro S' hS b ws' ha hw hl
  simp only at ha
  split at ha
  next x hx =>
      cases ha
      rw [List.flatMap_singleton] at hl ⊢
      exact h₁ S' x hS (hS.ran hl) hx
  next hfind =>
      simp only at ha
      split at ha
      next => cases ha
      next hnone =>
          split at ha
          next => cases ha
          next hviol =>
              cases ha
              rw [List.flatMap_singleton] at hl ⊢
              exact h₀ S' hS (hS.ran hl) hfind (by simpa using hnone) hviol

end Bodies

-- ============================================================ programs

section Programs

variable {α γ : Type} {Q : α → Shared Row ε Site Call Req Res → Prop}
  {E : ε → Shared Row ε Site Call Req Res → Prop}

/-- It is enough to look at the states the thread may see next. -/
theorem ProgSafe.of_sees {p : Prog Row ε Site Call α}
    (h : ∀ S', Sees C t S S' → ProgSafe C t Q E p S') :
    ProgSafe C t Q E p S := by
  cases p with
  | tx i s body k =>
      cases i with
      | readCommitted => exact fun S' hS => h S' hS S' (Sees.refl hS.runs)
      | serializable => exact fun S' hS => h S' hS S' (Sees.refl hS.runs)
  | _ => exact fun S' hS => h S' hS S' (Sees.refl hS.runs)

/-- Moves of other threads do not make a program unsafe. -/
theorem ProgSafe.rely {p : Prog Row ε Site Call α} (h : ProgSafe C t Q E p S)
    (hR : Rely C t S S') : ProgSafe C t Q E p S' := by
  cases p with
  | tx i s body k =>
      cases i with
      | readCommitted => exact fun S'' hS => h S'' (hR.sees_trans hS)
      | serializable => exact fun S'' hS => h S'' (hR.sees_trans hS)
  | _ => exact fun S'' hS => h S'' (hR.sees_trans hS)

/-- A continuation is safe that is safe wherever the first part may
return or throw. -/
theorem ProgSafe.handle {R : γ → Shared Row ε Site Call Req Res → Prop}
    {E' : ε → Shared Row ε Site Call Req Res → Prop}
    {p : Prog Row ε Site Call γ} {f : γ → Prog Row ε Site Call α}
    {g : ε → Prog Row ε Site Call α} (h : ProgSafe C t R E' p S)
    (hf : ∀ c S, (∀ S', Sees C t S S' → R c S') → ProgSafe C t Q E (f c) S)
    (hg : ∀ e S, (∀ S', Sees C t S S' → E' e S') → ProgSafe C t Q E (g e) S) :
    ProgSafe C t Q E (p.handle f g) S := by
  induction p generalizing S with
  | pure c => exact hf c S h
  | throw e => exact hg e S h
  | now k ih => exact fun S' hS => ih _ (h S' hS)
  | uuid k ih => exact fun S' hS => ih _ (h S' hS)
  | enter s k ih => exact fun S' hS => ⟨(h S' hS).1, ih (h S' hS).2⟩
  | call x k ih =>
      exact fun S' hS c a env hp =>
        ⟨(h S' hS c a env hp).1, ih a (h S' hS c a env hp).2⟩
  | tx i s body k ih =>
      cases i with
      | readCommitted =>
          intro S' hS
          refine ⟨(h S' hS).1.mono fun b ws S hb => ⟨hb.1, ih _ hb.2⟩, ?_⟩
          exact fun e S'' hW => ih _ ((h S' hS).2 e S'' hW)
      | serializable =>
          intro S' hS
          exact ⟨fun b ws hb => ⟨((h S' hS).1 b ws hb).1, ih _ ((h S' hS).1 b ws hb).2⟩,
            fun e => ih _ ((h S' hS).2 e)⟩

theorem ProgSafe.pure {a : α} (h : ∀ S', Sees C t S S' → Q a S') :
    ProgSafe C t Q E (Pure.pure a) S := h

theorem ProgSafe.throw {e : ε} (h : ∀ S', Sees C t S S' → E e S') :
    ProgSafe C t Q E (.throw e) S := h

/-- Sequencing: the rest is safe wherever the first part may return. -/
theorem ProgSafe.bind {R : γ → Shared Row ε Site Call Req Res → Prop}
    {p : Prog Row ε Site Call γ} {f : γ → Prog Row ε Site Call α}
    (h : ProgSafe C t R E p S)
    (hf : ∀ c S, R c S → ProgSafe C t Q E (f c) S) :
    ProgSafe C t Q E (p >>= f) S :=
  h.handle (fun c _ hR => ProgSafe.of_sees fun S' hS => hf c S' (hR S' hS))
    (fun _ _ hE => hE)

/-- Catching: the handler is safe wherever the body may throw. -/
theorem ProgSafe.catch {E' : ε → Shared Row ε Site Call Req Res → Prop}
    {p : Prog Row ε Site Call α} {g : ε → Prog Row ε Site Call α}
    (h : ProgSafe C t Q E' p S)
    (hg : ∀ e S, E' e S → ProgSafe C t Q E (g e) S) :
    ProgSafe C t Q E (p.catch g) S :=
  h.handle (fun _ _ hQ => hQ)
    (fun e _ hE => ProgSafe.of_sees fun S' hS => hg e S' (hE S' hS))

/-- An attempt promises of both results what it was asked to. -/
theorem ProgSafe.attempt {R : Except ε α → Shared Row ε Site Call Req Res → Prop}
    {p : Prog Row ε Site Call α}
    (h : ProgSafe C t (fun a => R (.ok a)) (fun e => R (.error e)) p S) :
    ProgSafe C t R E p.attempt S :=
  h.handle (fun _ _ ha => ha) (fun _ _ he => he)

theorem ProgSafe.mono {Q' : α → Shared Row ε Site Call Req Res → Prop}
    {E' : ε → Shared Row ε Site Call Req Res → Prop}
    {p : Prog Row ε Site Call α} (h : ProgSafe C t Q E p S)
    (hQ : ∀ a S, Q a S → Q' a S) (hE : ∀ e S, E e S → E' e S) :
    ProgSafe C t Q' E' p S := by
  induction p generalizing S with
  | pure c => exact fun S' hS => hQ _ _ (h S' hS)
  | throw e => exact fun S' hS => hE _ _ (h S' hS)
  | now k ih => exact fun S' hS => ih _ (h S' hS)
  | uuid k ih => exact fun S' hS => ih _ (h S' hS)
  | enter s k ih => exact fun S' hS => ⟨(h S' hS).1, ih (h S' hS).2⟩
  | call x k ih =>
      exact fun S' hS c a env hp =>
        ⟨(h S' hS c a env hp).1, ih a (h S' hS c a env hp).2⟩
  | tx i s body k ih =>
      cases i with
      | readCommitted =>
          intro S' hS
          refine ⟨(h S' hS).1.mono fun b ws S hb => ⟨hb.1, ih _ hb.2⟩, ?_⟩
          exact fun e S'' hW => ih _ ((h S' hS).2 e S'' hW)
      | serializable =>
          intro S' hS
          exact ⟨fun b ws hb => ⟨((h S' hS).1 b ws hb).1, ih _ ((h S' hS).1 b ws hb).2⟩,
            fun e => ih _ ((h S' hS).2 e)⟩

/-- A READ COMMITTED transaction whose error the caller does not catch. -/
theorem ProgSafe.transaction {body : Tx Row ε α}
    (hbody : ∀ S', Sees C t S S' → TxSafe C t s (fun b ws S'' =>
      C.commits t s ws S'' ∧ ∀ S₃, Sees C t (S''.commit t s ws) S₃ → Q b S₃)
      body [] (S'.begin t s))
    (hfail : ∀ e S' S'', Sees C t S S' → Within C t s S' S'' →
      ∀ S₃, Sees C t (S''.rollback t s e) S₃ → E e S₃) :
    ProgSafe C t Q E (transaction s body) S :=
  fun S' hS => ⟨hbody S' hS, fun e S'' hW => hfail e S' S'' hS hW⟩

/-- A SERIALIZABLE transaction whose error the caller does not catch. -/
theorem ProgSafe.serializable {body : Tx Row ε α}
    (hbody : ∀ S' b ws, Sees C t S S' → body.Leaves S'.clock S'.db b ws →
      C.commits t s ws S' ∧ ∀ S₃, Sees C t (S'.commit t s ws) S₃ → Q b S₃)
    (hfail : ∀ e S', Sees C t S S' →
      ∀ S₃, Sees C t (S'.rollback t s e) S₃ → E e S₃) :
    ProgSafe C t Q E (serializable s body) S :=
  fun S' hS => ⟨fun b ws hb => hbody S' b ws hS hb, fun e => hfail e S' hS⟩

end Programs

end FastRep.Txn
