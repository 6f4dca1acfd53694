/-
The rules for promises about transactions, and their soundness.

`Prog.Transacts` has one rule for each way to put programs together, and asks
for the promise at each transaction only. A site of which the promise says
nothing is free (`Contract.Honours.of_forall`).

Soundness (`Reachable.keeps`) is an instance of the soundness of contracts:
a program of honest transactions is safe from any state
(`Prog.Transacts.safe`), for the contract that promises this of commits and
nothing else. `Shared.Keeps.of_suffix` takes the result back to earlier
states of the same run.
-/
import FastRep.Txn.Bodies
import FastRep.Txn.Proofs.History
import FastRep.Txn.Proofs.Soundness

namespace FastRep.Txn

variable {Row Key Index ε Site Call Choice Env Req Res α β : Type}
  [Schema Row Key Index] [Services Call Choice Env]

-- ============================================================ the programs

section Programs

variable {P : ∀ β : Type, Isolation → Site → Tx Row ε β → Prop}

/-- The transactions of a program are those of its parts. -/
theorem Prog.Transacts.handle {p : Prog Row ε Site Call α}
    {f : α → Prog Row ε Site Call β} {g : ε → Prog Row ε Site Call β}
    (h : p.Transacts P) (hf : ∀ a, (f a).Transacts P) (hg : ∀ e, (g e).Transacts P) :
    (p.handle f g).Transacts P := by
  induction h with
  | pure => exact hf _
  | throw => exact hg _
  | now h ih => exact .now ih
  | uuid h ih => exact .uuid ih
  | enter h ih => exact .enter ih
  | call h ih => exact .call ih
  | tx hbody h ih => exact .tx hbody ih

theorem Prog.Transacts.bind {p : Prog Row ε Site Call α} {f : α → Prog Row ε Site Call β}
    (h : p.Transacts P) (hf : ∀ a, (f a).Transacts P) : (p >>= f).Transacts P :=
  .handle h hf fun _ => .throw

theorem Prog.Transacts.catch {p : Prog Row ε Site Call α} {g : ε → Prog Row ε Site Call α}
    (h : p.Transacts P) (hg : ∀ e, (g e).Transacts P) : (p.catch g).Transacts P :=
  .handle h (fun _ => .pure) hg

theorem Prog.Transacts.attempt {p : Prog Row ε Site Call α} (h : p.Transacts P) :
    p.attempt.Transacts P :=
  .handle h (fun _ => .pure) fun _ => .pure

theorem Prog.Transacts.clock : (Prog.clock : Prog Row ε Site Call Nat).Transacts P :=
  .now fun _ => .pure

theorem Prog.Transacts.randomUUID :
    (randomUUID : Prog Row ε Site Call Nat).Transacts P :=
  .uuid fun _ => .pure

theorem Prog.Transacts.settle {r : Except ε α} :
    (Prog.settle r : Prog Row ε Site Call α).Transacts P := by
  cases r with
  | ok a => exact .pure
  | error e => exact .throw

theorem Prog.Transacts.await {x : Call} :
    (await x : Prog Row ε Site Call (Services.Answer x)).Transacts P :=
  .call fun _ => .pure

/-- The one transaction of a program that is one. -/
theorem Prog.Transacts.transaction {s : Site} {body : Tx Row ε α}
    (h : P α .readCommitted s body) :
    (transaction s body : Prog Row ε Site Call α).Transacts P :=
  .tx h fun _ => .settle

theorem Prog.Transacts.serializable {s : Site} {body : Tx Row ε α}
    (h : P α .serializable s body) :
    (serializable s body : Prog Row ε Site Call α).Transacts P :=
  .tx h fun _ => .settle

end Programs

-- ======================================================== single bodies

section Bodies

variable [DecidableEq Key]

/-- Where every outcome will do, a body ends in one that does. -/
theorem TxEnds.of_forall {n : Nat} {d : Db Row} {Q : β → List (Write Row Key) → Prop}
    {body : Tx Row ε β} {ws : List (Write Row Key)} (h : ∀ b ws, Q b ws) :
    TxEnds n d Q body ws := by
  induction body generalizing ws with
  | pure b => exact h b ws
  | throw e => trivial
  | now k ih => exact ih n
  | later _ k ih => exact fun m _ _ => ih m
  | stmt f k ih => exact fun b _ _ => ih b

variable [DecidableEq Index] {C : Contract Row ε Site Call Req Res} {i : Isolation} {s : Site}
  {body : Tx Row ε β}

theorem TxSafe.of_forall {t : Tid} {S : Shared Row ε Site Call Req Res}
    {Q : β → List (Write Row Key) → Shared Row ε Site Call Req Res → Prop}
    {ws : List (Write Row Key)} (h : ∀ b ws S, Q b ws S) : TxSafe C t s Q body ws S := by
  induction body generalizing ws S with
  | pure b => exact fun S' _ => h b ws S'
  | throw e => trivial
  | now k ih => exact fun _ _ => ih _
  | later _ k ih => exact fun _ _ => ih _
  | stmt f k ih => exact fun _ _ b _ _ _ _ => ih b

/-- A site of which nothing is promised. -/
theorem Contract.Honours.of_forall (h : ∀ t ws S, C.commits t s ws S) :
    C.Honours β i s body := by
  cases i with
  | readCommitted => exact fun t _ _ => TxSafe.of_forall fun _ ws S => h t ws S
  | serializable => exact fun t S _ => TxEnds.of_forall fun _ ws => h t ws S

end Bodies

-- =============================================================== soundness

variable {F : Promise Row ε Site Call Req Res} {t : Tid}
  {S S' : Shared Row ε Site Call Req Res}

/-- What every commit of a history keeps, every commit of an earlier one does.
-/
theorem Shared.Keeps.of_suffix (h : S'.Keeps F) (htr : S.trace <:+ S'.trace) :
    S.Keeps F := by
  obtain ⟨added, hadded⟩ := htr
  intro newer e older s ws he hev
  apply h (added ++ newer) e older s ws _ hev
  rw [← hadded, he, List.append_assoc]

variable [DecidableEq Key]

/-- The commit just made kept the promise. -/
theorem Shared.Keeps.last {s : Site} {ws : List (Write Row Key)}
    (h : (S.commit t s ws).Keeps F) : F t s ws S := by
  obtain ⟨S₀, hscene, htr, hF⟩ := h [] ⟨t, .commit s ws, S.toScene⟩ S.trace s ws rfl rfl
  have hS : S₀ = S := by
    obtain ⟨sc, tr⟩ := S₀
    obtain ⟨sc', tr'⟩ := S
    cases hscene
    cases htr
    rfl
  rw [← hS]
  exact hF

variable [DecidableEq Index] {app : App Row ε Site Call Req Res}
  {start : Shared Row ε Site Call Req Res}

/-- A program of honest transactions is safe from any state. -/
theorem Prog.Transacts.safe {p : Prog Row ε Site Call α}
    (h : p.Transacts (app.promising F start).Honours) :
    ProgSafe (app.promising F start) t (fun _ _ => True) (fun _ _ => True) p S := by
  induction h generalizing S with
  | pure => exact fun _ _ => trivial
  | throw => exact fun _ _ => trivial
  | now _ ih => exact fun _ _ => ih _
  | uuid _ ih => exact fun _ _ => ih _
  | enter _ ih => exact fun _ _ => ⟨trivial, ih⟩
  | call _ ih => exact fun _ _ _ _ _ _ => ⟨trivial, ih _⟩
  | @tx β i s body k hbody _ ih =>
      cases i with
      | readCommitted =>
          intro S' hS'
          refine ⟨?_, fun e S'' _ => ih (.error e)⟩
          have hrun := hbody t _ (hS'.runs.move (Move.began (t := t) s))
          exact hrun.mono fun b ws S'' hF => ⟨hF, ih (.ok b)⟩
      | serializable =>
          intro S' hS'
          refine ⟨fun b ws hb => ⟨?_, ih (.ok b)⟩, fun e => ih (.error e)⟩
          exact (hbody t S' hS'.runs).leaves hb

variable [DbErrors ε]

/-- Where every transaction is honest, every commit of a run is. -/
theorem Reachable.keeps {db : Db Row} {env : Env} {clock nextId : Nat}
    {w : World Row ε Site Call Req Res}
    (h : ∀ q, (app.main q).Transacts
      (app.promising F (World.init db env clock nextId).shared).Honours)
    (hw : Reachable app (World.init db env clock nextId) w) : w.shared.Keeps F := by
  have hsafe : app.Safe (app.promising F (World.init db env clock nextId).shared) :=
    fun t q S _ hready _ _ => ⟨hready, (h q).safe⟩
  have hruns := hsafe.runs rfl hw
  intro newer e older s ws htr hev
  obtain ⟨S₀, S₁, hpast, holder⟩ := hruns.at rfl htr
  exact ⟨S₀, hpast.scene, holder, (hpast.commit hev).1⟩

-- ========================================================== single steps

/-- A step of the machine changes the database only by a commit. -/
theorem World.apply_commit_or {w w' : World Row ε Site Call Req Res} {a : Action Req Choice}
    (h : w.apply app a = some w') :
    w'.shared.db = w.shared.db ∨ ∃ t s ws, w'.shared = w.shared.commit t s ws := by
  have hatOnce : ∀ {β : Type} {t : Tid} {s : Site} {body : Tx Row ε β}
      {k : Except ε β → Prog Row ε Site Call Res}, w.atOnce t s body k = some w' →
      w'.shared.db = w.shared.db ∨ ∃ t s ws, w'.shared = w.shared.commit t s ws := by
    intro β t s body k h
    simp only [World.atOnce] at h
    split at h
    next =>
        split at h
        next => cases h; exact Or.inr ⟨t, s, _, rfl⟩
        next => cases h; exact Or.inl rfl
    next => cases h
  have hstep : ∀ t, w.step t = some w' →
      w'.shared.db = w.shared.db ∨ ∃ t s ws, w'.shared = w.shared.commit t s ws := by
    intro t h
    unfold World.step at h
    split at h
    next => cases h
    next => cases h
    next => cases h; exact Or.inl rfl
    next => cases h; exact Or.inl rfl
    next => cases h; exact Or.inl rfl
    next => cases h; exact Or.inl rfl
    next => cases h; exact Or.inl rfl
    next => cases h
    next => cases h; exact Or.inl rfl
    next s body k _ => exact hatOnce h
    next s _ ws _ _ => cases h; exact Or.inr ⟨t, s, ws, rfl⟩
    next => cases h; exact Or.inl rfl
    next => cases h; exact Or.inl rfl
    next => cases h; exact Or.inl rfl
    next =>
        simp only at h
        split at h
        next =>
            split at h
            next => cases h; exact Or.inl rfl
            next => cases h
        next =>
            split at h
            next => cases h; exact Or.inl rfl
            next => cases h
  cases a with
  | spawn t q =>
      simp only [World.apply] at h
      split at h
      next =>
          split at h
          next => cases h; exact Or.inl rfl
          next => cases h
      next => cases h
  | step t => exact hstep t h
  | stepLate t ms =>
      simp only [World.apply, World.stepLate] at h
      split at h
      next => exact hatOnce h
      next => cases h
  | answer t c =>
      simp only [World.apply, World.answer] at h
      split at h
      next =>
          split at h
          next => cases h; exact Or.inl rfl
          next => cases h
      next => cases h
  | abort t e =>
      simp only [World.apply, World.abort] at h
      split at h
      next => cases h; exact Or.inl rfl
      next => cases h; exact Or.inl rfl
      next => cases h
  | tick n => cases h; exact Or.inl rfl
  | ambient c =>
      simp only [World.apply] at h
      split at h
      next => cases h; exact Or.inl rfl
      next => cases h

end FastRep.Txn
