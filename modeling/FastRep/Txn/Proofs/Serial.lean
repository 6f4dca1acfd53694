/-
The rules for a transaction body that runs at one moment, as SERIALIZABLE
transactions do: `TxEnds` walks the body over a fixed database and asks
that its result and writes satisfy a condition wherever it succeeds.

The rules have the shape of the ones for `TxSafe`, without the moves of
others between two statements. `TxThrows` is the other half: what the body
throws.

One moment is meant of the rows, not of the clock. A body may wait before a
late reading of the clock (`Tx.later`), and `TxEnds` asks for the condition
whatever this reading shows; `TxEnds.leaves` says that a body which waits
leaves nothing else.
-/
import FastRep.Txn.Proofs.Safe

namespace FastRep.Txn

variable {Row Key Index ε : Type} [DecidableEq Key] [Schema Row Key Index]

-- ================================================= bodies at one moment

/-- Wherever a body run at one moment succeeds, its result and writes
satisfy `Q`. -/
def TxEnds {β : Type} (n : Nat) (d : Db Row)
    (Q : β → List (Write Row Key) → Prop) : Tx Row ε β → List (Write Row Key) → Prop
  | .pure b, ws => Q b ws
  | .throw _, _ => True
  | .now k, ws => TxEnds n d Q (k n) ws
  | .later since k, ws => ∀ m, n ≤ m → since ≤ m → TxEnds n d Q (k m) ws
  | .stmt f k, ws => ∀ b ws', (f (applyAll ws d)).answer = .ok (b, ws') →
      TxEnds n d Q (k b) (ws ++ ws')

variable {β γ : Type} {n : Nat} {d : Db Row} {ws : List (Write Row Key)}
  {Q : β → List (Write Row Key) → Prop}

/-- What a body promises holds of the writes it runs to, behind those before
it. -/
theorem TxEnds.run_append {body : Tx Row ε β} (h : TxEnds n d Q body ws) {b : β}
    (hb : (body.run n (applyAll ws d)).result = .ok b) :
    Q b (ws ++ (body.run n (applyAll ws d)).writes) := by
  induction body generalizing ws with
  | pure c =>
      cases hb
      show Q _ (ws ++ [])
      rw [List.append_nil]
      exact h
  | throw e => cases hb
  | now k ih => exact ih n h hb
  | later since k ih => exact ih _ (h _ (Nat.le_max_left ..) (Nat.le_max_right ..)) hb
  | stmt f k ih =>
      simp only [Tx.run] at hb ⊢
      split at hb
      next => cases hb
      next c ws' hans =>
          have hrest := h c ws' hans
          rw [← applyAll_append] at hb ⊢
          rw [← List.append_assoc]
          exact ih c hrest hb

/-- The result and writes of a run satisfy what the body ends in. -/
theorem TxEnds.run {body : Tx Row ε β} (h : TxEnds n d Q body []) {b : β}
    (hb : (body.run n d).result = .ok b) : Q b (body.run n d).writes :=
  h.run_append hb

/-- Waiting runs the body at later times only. -/
theorem TxEnds.waiting {body : Tx Row ε β} {ms : List Nat} (h : TxEnds n d Q body ws) :
    TxEnds n d Q (body.waiting ms) ws := by
  induction body generalizing ms ws with
  | pure b => exact h
  | throw e => trivial
  | now k ih => exact ih _ h
  | later since k ih =>
      refine ih _ (h _ ?_ ?_)
      · exact Nat.le_add_right_of_le (Nat.le_max_left ..)
      · exact Nat.le_add_right_of_le (Nat.le_max_right ..)
  | stmt f k ih => exact fun b ws' ha => ih b (h b ws' ha)

/-- However long a body waits, what it leaves satisfies what it ends in. -/
theorem TxEnds.leaves {body : Tx Row ε β} (h : TxEnds n d Q body []) {b : β}
    (hb : body.Leaves n d b ws) : Q b ws := by
  obtain ⟨ms, hb, rfl⟩ := hb
  exact TxEnds.run h.waiting hb

theorem TxEnds.mono {Q' : β → List (Write Row Key) → Prop} {body : Tx Row ε β}
    (h : TxEnds n d Q body ws) (hQ : ∀ b ws, Q b ws → Q' b ws) :
    TxEnds n d Q' body ws := by
  induction body generalizing ws with
  | pure b => exact hQ _ _ h
  | throw e => trivial
  | now k ih => exact ih n h
  | later since k ih => exact fun m hn hm => ih m (h m hn hm)
  | stmt f k ih => exact fun b ws' ha => ih b (h b ws' ha)

/-- A body in two parts, each proved with what the other promises. -/
theorem TxEnds.bind {R : γ → List (Write Row Key) → Prop} {body : Tx Row ε γ}
    {f : γ → Tx Row ε β} (h : TxEnds n d R body ws)
    (hf : ∀ c ws, R c ws → TxEnds n d Q (f c) ws) :
    TxEnds n d Q (body >>= f) ws := by
  induction body generalizing ws with
  | pure c => exact hf c ws h
  | throw e => trivial
  | now k ih => exact ih n h
  | later since k ih => exact fun m hn hm => ih m (h m hn hm)
  | stmt F k ih => exact fun b ws' ha => ih b (h b ws' ha)

/-- A last statement is a statement with nothing after it. -/
theorem TxEnds.of_bind_pure {body : Tx Row ε β}
    (h : TxEnds n d Q (body >>= Pure.pure) ws) : TxEnds n d Q body ws := by
  induction body generalizing ws with
  | pure b => exact h
  | throw e => trivial
  | now k ih => exact ih _ h
  | later since k ih => exact fun m hn hm => ih m (h m hn hm)
  | stmt f k ih => exact fun b ws' ha => ih _ (h b ws' ha)

theorem TxEnds.pure {b : β} (h : Q b ws) :
    TxEnds n d Q (Pure.pure b : Tx Row ε β) ws := h

theorem TxEnds.throw (e : ε) : TxEnds n d Q (.throw e) ws := trivial

theorem TxEnds.clock {g : Nat → Tx Row ε β} (h : TxEnds n d Q (g n) ws) :
    TxEnds n d Q (Tx.clock >>= g) ws := h

/-- A late reading is not before the transaction's own time, nor before the
one it follows. -/
theorem TxEnds.lateClock {since : Nat} {g : Nat → Tx Row ε β}
    (h : ∀ m, n ≤ m → since ≤ m → TxEnds n d Q (g m) ws) :
    TxEnds n d Q (Tx.lateClock since >>= g) ws := h

theorem TxEnds.select {f : Db Row → γ} {g : γ → Tx Row ε β}
    (h : TxEnds n d Q (g (f (applyAll ws d))) ws) :
    TxEnds n d Q (select f >>= g) ws := by
  intro b ws' ha
  cases ha
  rw [List.append_nil]
  exact h

/-- A guarded deletion finds the row or not. -/
theorem TxEnds.deleteRow {k : Key} {p : Row → Bool} {g : Nat → Tx Row ε β}
    (h₀ : TxEnds n d Q (g 0) ws)
    (h₁ : TxEnds n d Q (g 1) (ws ++ (applyAll ws d).deletion [k])) :
    TxEnds n d Q (deleteRow k p >>= g) ws := by
  intro count ws' ha
  dsimp only at ha
  split at ha
  next =>
      cases ha
      rw [List.append_nil]
      exact h₀
  next =>
      cases ha
      exact h₁

section Statements

variable [DbErrors ε]

/-- A query that throws where it finds nothing goes on only where it does. -/
theorem TxEnds.selectOrThrow {f : Db Row → Option γ} {g : γ → Tx Row ε β}
    (h : ∀ c, f (applyAll ws d) = some c → TxEnds n d Q (g c) ws) :
    TxEnds n d Q (selectOrThrow f >>= g) ws := by
  intro b ws' ha
  simp only at ha
  split at ha
  next c hc =>
      cases ha
      rw [List.append_nil]
      exact h _ hc
  next => cases ha

/-- A deletion that throws where there is no row goes on only where there is
one. -/
theorem TxEnds.deleteOrThrow {k : Key} {g : Unit → Tx Row ε β}
    (h : ∀ r, (applyAll ws d).find? k = some r →
      TxEnds n d Q (g ()) (ws ++ (applyAll ws d).deletion [k])) :
    TxEnds n d Q (deleteOrThrow k >>= g) ws := by
  intro b ws' ha
  simp only at ha
  split at ha
  next hnone =>
      cases ha
      trivial
  next r hr =>
      cases ha
      exact h r (Option.filter_eq_some_iff.mp hr).1

variable [DecidableEq Index]

/-- An insertion goes on only where the key is free and nothing is violated.
-/
theorem TxEnds.insertRow {r : Row} {g : Unit → Tx Row ε β}
    (h : (applyAll ws d).find? (key r) = none → (applyAll ws d).violation r = none →
      TxEnds n d Q (g ()) (ws ++ [.insert r])) :
    TxEnds n d Q (insertRow r >>= g) ws := by
  intro b ws' ha
  simp only at ha
  split at ha
  next => cases ha
  next hnone =>
      split at ha
      next => cases ha
      next hviol =>
          cases ha
          exact h (by simpa using hnone) hviol

/-- A guarded update finds the row or not. -/
theorem TxEnds.updateRow {k : Key} {p : Row → Bool} {f : Row → Row}
    {g : Nat → Tx Row ε β}
    (h₀ : ((applyAll ws d).find? k).filter p = none → TxEnds n d Q (g 0) ws)
    (h₁ : ∀ r, (applyAll ws d).find? k = some r → p r = true →
      (applyAll ws d).violation (f r) = none →
      TxEnds n d Q (g 1) (ws ++ [.update (f r)])) :
    TxEnds n d Q (updateRow k p f >>= g) ws := by
  intro b ws' ha
  simp only at ha
  split at ha
  next hnone =>
      cases ha
      rw [List.append_nil]
      exact h₀ hnone
  next r hr =>
      simp only at ha
      split at ha
      next => cases ha
      next hviol =>
          cases ha
          obtain ⟨hfind, hp⟩ := Option.filter_eq_some_iff.mp hr
          exact h₁ r hfind hp hviol

/-- An update that throws where there is no row goes on only where there is
one. -/
theorem TxEnds.updateOrThrow {k : Key} {f : Row → Row} {g : Unit → Tx Row ε β}
    (h : ∀ r, (applyAll ws d).find? k = some r →
      (applyAll ws d).violation (f r) = none →
      TxEnds n d Q (g ()) (ws ++ [.update (f r)])) :
    TxEnds n d Q (updateOrThrow k f >>= g) ws := by
  show TxEnds n d Q (FastRep.Txn.updateRow k (fun _ => true) f >>= fun count =>
    (if count = 1 then Tx.pure () else .throw (raise .recordNotFound)) >>= g) ws
  refine TxEnds.updateRow (fun _ => trivial) fun r hfind _ hviol => ?_
  exact h r hfind hviol

/-- An upsert inserts a row or updates the one it finds. -/
theorem TxEnds.upsertRow {p : Row → Bool} {r : Row} {f : Row → Row}
    {g : Row → Tx Row ε β}
    (h₀ : (applyAll ws d).rows.find? p = none →
      TxEnds n d Q (g r) (ws ++ [.insert r]))
    (h₁ : ∀ x, (applyAll ws d).rows.find? p = some x →
      TxEnds n d Q (g (f x)) (ws ++ [.update (f x)])) :
    TxEnds n d Q (upsertRow p r f >>= g) ws := by
  intro b ws' ha
  simp only at ha
  split at ha
  next x hx =>
      cases ha
      exact h₁ x hx
  next hfind =>
      simp only at ha
      split at ha
      next => cases ha
      next =>
          split at ha
          next => cases ha
          next =>
              cases ha
              exact h₀ hfind

end Statements

-- ================================================ what such bodies throw

/-- Wherever a body run at one moment throws, the error satisfies `E`. -/
def TxThrows {β : Type} (n : Nat) (d : Db Row) (E : ε → Prop) :
    Tx Row ε β → List (Write Row Key) → Prop
  | .pure _, _ => True
  | .throw e, _ => E e
  | .now k, ws => TxThrows n d E (k n) ws
  | .later since k, ws => ∀ m, n ≤ m → since ≤ m → TxThrows n d E (k m) ws
  | .stmt f k, ws => match (f (applyAll ws d)).answer with
    | .error e => E e
    | .ok (b, ws') => TxThrows n d E (k b) (ws ++ ws')

variable {E : ε → Prop}

/-- What holds of every error a body may throw holds of the one it throws. -/
theorem TxThrows.run_append {body : Tx Row ε β} (h : TxThrows n d E body ws) {e : ε}
    (he : (body.run n (applyAll ws d)).result = .error e) : E e := by
  induction body generalizing ws with
  | pure c => cases he
  | throw e' => cases he; exact h
  | now k ih => exact ih n h he
  | later since k ih => exact ih _ (h _ (Nat.le_max_left ..) (Nat.le_max_right ..)) he
  | stmt f k ih =>
      simp only [Tx.run] at he
      simp only [TxThrows] at h
      split at he
      next e' hans =>
          cases he
          rwa [hans] at h
      next c ws' hans =>
          rw [hans] at h
          rw [← applyAll_append] at he
          exact ih c h he

/-- The error of a run is one the body throws. -/
theorem TxThrows.run {body : Tx Row ε β} (h : TxThrows n d E body []) {e : ε}
    (he : (body.run n d).result = .error e) : E e :=
  h.run_append he

/-- A body throws what one of its parts throws. -/
theorem TxThrows.bind {body : Tx Row ε γ} {f : γ → Tx Row ε β} (h : TxThrows n d E body ws)
    (hf : ∀ c ws, TxThrows n d E (f c) ws) : TxThrows n d E (body >>= f) ws := by
  induction body generalizing ws with
  | pure c => exact hf c ws
  | throw e => exact h
  | now k ih => exact ih n h
  | later since k ih => exact fun m hn hm => ih m (h m hn hm)
  | stmt F k ih =>
      show TxThrows n d E (.stmt F fun b => k b >>= f) ws
      simp only [TxThrows] at h ⊢
      cases hans : (F (applyAll ws d)).answer with
      | error e => rwa [hans] at h
      | ok c =>
          rw [hans] at h
          exact ih c.1 h

theorem TxThrows.pure {b : β} : TxThrows n d E (Pure.pure b : Tx Row ε β) ws := trivial

theorem TxThrows.throw {e : ε} (h : E e) : TxThrows n d E (.throw e : Tx Row ε β) ws := h

theorem TxThrows.clock {g : Nat → Tx Row ε β} (h : TxThrows n d E (g n) ws) :
    TxThrows n d E (Tx.clock >>= g) ws := h

theorem TxThrows.select {f : Db Row → γ} {g : γ → Tx Row ε β}
    (h : TxThrows n d E (g (f (applyAll ws d))) ws) :
    TxThrows n d E (select f >>= g) ws := by
  show TxThrows n d E (g _) (ws ++ [])
  rwa [List.append_nil]

section Statements

variable [DbErrors ε] [DecidableEq Index]

/-- An insertion throws what the database raises, or goes on. -/
theorem TxThrows.insertRow {r : Row} {g : Unit → Tx Row ε β} (hE : ∀ x, E (raise x))
    (h : ∀ ws, TxThrows n d E (g ()) ws) : TxThrows n d E (insertRow r >>= g) ws := by
  refine TxThrows.bind ?_ fun _ ws => h ws
  simp only [FastRep.Txn.insertRow, TxThrows]
  split
  next heq =>
      split at heq
      next => cases heq; exact hE _
      next =>
          split at heq
          next => cases heq; exact hE _
          next => cases heq
  next => trivial

theorem TxThrows.updateRow {k : Key} {p : Row → Bool} {f : Row → Row}
    {g : Nat → Tx Row ε β} (hE : ∀ x, E (raise x))
    (h : ∀ count ws, TxThrows n d E (g count) ws) :
    TxThrows n d E (updateRow k p f >>= g) ws := by
  refine TxThrows.bind ?_ h
  simp only [FastRep.Txn.updateRow, TxThrows]
  split
  next heq =>
      split at heq
      next => cases heq
      next =>
          simp only at heq
          split at heq
          next => cases heq; exact hE _
          next => cases heq
  next => trivial

end Statements

end FastRep.Txn
