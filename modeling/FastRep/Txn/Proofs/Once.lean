/-
Ids that are used up.

A commit uses up an id when its thread drew it and had committed nothing
counted before (`UsedOnce`). Ids are drawn once, so no other entry of a run
uses the same one. A row that is created only by using up the id in its key
is then created once: what its versions have in common lasts
(`Runs.persists`), and once it is removed it is gone (`Steps.stays_gone`).

# Lasting relations

`Lasting` describes how commits treat the rows some lookup finds: they keep
what the versions of a row have in common, and create a row only by using up
its id. `Persists` is the invariant. It speaks of two moments of a run at
once: a row that is seen at both was created before both, and not again in
between, so the later version has what the earlier one had.
-/
import FastRep.Txn.Triple
import FastRep.Txn.Proofs.History

namespace FastRep.Txn

variable {Row Key Index ε Site Call Choice Env Req Res : Type}
  [DecidableEq Key] [DecidableEq Index] [Schema Row Key Index]
  [Services Call Choice Env]
  {C : Contract Row ε Site Call Req Res} {mark : Marking Site} {t : Tid}
  {S S' : Shared Row ε Site Call Req Res}
  {uses : Entry Row ε Site Call Req Res → Nat → Prop}

-- ============================================================ the counts

omit [DecidableEq Key] [DecidableEq Index] in
/-- A marked commit is among the marks of its thread. -/
theorem Shared.mem_marks {e : Entry Row ε Site Call Req Res} (he : e ∈ S.trace) {s : Site}
    {ws : List (Write Row Key)} (hev : e.event = .commit s ws) (hs : mark.commits s = true) :
    s ∈ S.marks mark e.tid := by
  refine List.mem_filter.mpr ⟨List.mem_filterMap.mpr ⟨e, he, ?_⟩, hs⟩
  rw [hev]
  simp

omit [DecidableEq Key] [DecidableEq Index] in
/-- A marked function a thread entered is among those it entered. -/
theorem Shared.mem_entered {e : Entry Row ε Site Call Req Res} (he : e ∈ S.trace) {s : Site}
    (hev : e.event = .enter s) (hs : mark.enters s = true) : s ∈ S.entered mark e.tid := by
  refine List.mem_filter.mpr ⟨List.mem_filterMap.mpr ⟨e, he, ?_⟩, hs⟩
  rw [hev]
  simp

omit [DecidableEq Key] [DecidableEq Index] in
/-- The marks of a thread are entries of the trace. -/
theorem Shared.exists_of_mem_marks {s : Site} (h : s ∈ S.marks mark t) :
    ∃ e ∈ S.trace, e.tid = t ∧ ∃ ws, e.event = .commit s ws := by
  obtain ⟨hs, -⟩ := List.mem_filter.mp h
  obtain ⟨e, he, hes⟩ := List.mem_filterMap.mp hs
  split at hes
  next s' ws hev =>
      split at hes
      next ht =>
          cases hes
          exact ⟨e, he, ht, ws, hev⟩
      next => cases hes
  next => cases hes

omit [DecidableEq Key] [DecidableEq Index] in
/-- The only mark of a thread is one entry of the trace. -/
theorem Shared.marks_unique {s s₁ s₂ : Site} {e₁ e₂ : Entry Row ε Site Call Req Res}
    {ws₁ ws₂ : List (Write Row Key)} (h : S.marks mark t = [s]) (h₁ : e₁ ∈ S.trace)
    (h₂ : e₂ ∈ S.trace) (ht₁ : e₁.tid = t) (ht₂ : e₂.tid = t)
    (hev₁ : e₁.event = .commit s₁ ws₁) (hev₂ : e₂.event = .commit s₂ ws₂)
    (hs₁ : mark.commits s₁ = true) (hs₂ : mark.commits s₂ = true) : e₁ = e₂ := by
  by_contra hne
  obtain ⟨newer, older, htr⟩ := List.append_of_mem h₁
  -- the mark of the other entry stands beside that of the first one
  have hother : ∀ l : List (Entry Row ε Site Call Req Res), e₂ ∈ l →
      s₂ ∈ (({ S with trace := l } : Shared Row ε Site Call Req Res)).marks mark t :=
    fun l hl => ht₂ ▸ Shared.mem_marks (S := { S with trace := l }) hl hev₂ hs₂
  have hsplit : S.marks mark t
      = (({ S with trace := newer } : Shared Row ε Site Call Req Res)).marks mark t
        ++ s₁ :: (({ S with trace := older } : Shared Row ε Site Call Req Res)).marks mark t := by
    simp [Shared.marks, Shared.committedBy, htr, hev₁, ht₁, hs₁]
  rw [h] at hsplit
  have hmem : e₂ ∈ newer ∨ e₂ ∈ older := by
    rw [htr] at h₂
    rcases List.mem_append.mp h₂ with h₂ | h₂
    · exact Or.inl h₂
    · exact Or.inr ((List.mem_cons.mp h₂).resolve_left fun heq => hne heq.symm)
  have hlength := congrArg List.length hsplit
  simp only [List.length_cons, List.length_nil, List.length_append] at hlength
  rcases hmem with hmem | hmem
  · have hpos := List.length_pos_of_mem (hother newer hmem)
    omega
  · have hpos := List.length_pos_of_mem (hother older hmem)
    omega

omit [DecidableEq Key] [DecidableEq Index] in
/-- Drawn ids are remembered. -/
theorem Shared.mem_ids_of_suffix {n : Nat} (h : S.trace <:+ S'.trace) (hn : n ∈ S.ids t) :
    n ∈ S'.ids t := by
  obtain ⟨e, he, hid⟩ := List.mem_filterMap.mp hn
  exact List.mem_filterMap.mpr ⟨e, h.subset he, hid⟩

-- ============================================================== used once

/-- What never happens again once it happened happens once. -/
theorem eq_of_never_again {β : Type} {P : β → Prop} {l : List β} {x y : β}
    (h : ∀ newer x older, l = newer ++ x :: older → P x → ∀ y ∈ newer, ¬ P y)
    (hx : x ∈ l) (hy : y ∈ l) (hPx : P x) (hPy : P y) : y = x := by
  obtain ⟨newer, older, htr⟩ := List.append_of_mem hx
  rw [htr] at hy
  rcases List.mem_append.mp hy with hnewer | hy
  · exact absurd hPy (h newer x older htr hPx y hnewer)
  · rcases List.mem_cons.mp hy with rfl | holder
    · rfl
    · obtain ⟨between, oldest, rfl⟩ := List.append_of_mem holder
      rw [← List.cons_append, ← List.append_assoc] at htr
      exact absurd hPx (h _ y oldest htr hPy x (by simp))

/-- Which entries use up which ids. -/
structure UsedOnce (C : Contract Row ε Site Call Req Res) (mark : Marking Site)
    (uses : Entry Row ε Site Call Req Res → Nat → Prop) : Prop where
  drawn : ∀ {e S₀ S₁ S i}, Past C e S₀ S₁ S → uses e i → i ∈ S₀.ids e.tid
  first : ∀ {e S₀ S₁ S i}, Past C e S₀ S₁ S → uses e i → S₀.marks mark e.tid = []
  marked : ∀ {e S₀ S₁ S i}, Past C e S₀ S₁ S → uses e i →
    ∃ s ws, e.event = .commit s ws ∧ mark.commits s = true

/-- An id is used up once. -/
theorem UsedOnce.not_before (hU : UsedOnce C mark uses) (hstart : C.start.trace = [])
    (h : Runs C S) {newer older : List (Entry Row ε Site Call Req Res)}
    {e e' : Entry Row ε Site Call Req Res} {i : Nat} (htr : S.trace = newer ++ e :: older)
    (he' : e' ∈ older) (hi : uses e i) : ¬ uses e' i := by
  intro hi'
  obtain ⟨S₀, S₁, hpast, rfl⟩ := Runs.at hstart h htr
  obtain ⟨S₀', S₁', hpast'⟩ := Runs.since hstart hpast.runs he'
  obtain ⟨s, ws, hev, hmarked⟩ := hU.marked hpast' hi'
  have hold : i ∈ S₀.ids e'.tid :=
    Shared.mem_ids_of_suffix ((List.suffix_cons _ _).trans hpast'.suffix) (hU.drawn hpast' hi')
  have htid := (Runs.idsDistinct hstart hpast.runs).unique hold (hU.drawn hpast hi)
  have hmark := Shared.mem_marks he' hev hmarked
  rw [htid, hU.first hpast hi] at hmark
  cases hmark

/-- Two entries that use up one id are one. -/
theorem UsedOnce.eq_of_mem (hU : UsedOnce C mark uses) (hstart : C.start.trace = [])
    (h : Runs C S) {e e' : Entry Row ε Site Call Req Res} {i : Nat} (he : e ∈ S.trace)
    (he' : e' ∈ S.trace) (hi : uses e i) (hi' : uses e' i) : e' = e :=
  eq_of_never_again (P := fun e => uses e i) (fun _ _ _ htr hi _ he hi' => by
    obtain ⟨newest, between, rfl⟩ := List.append_of_mem he
    rw [List.append_assoc] at htr
    exact hU.not_before hstart h htr (List.mem_append_right _ List.mem_cons_self) hi' hi)
    he he' hi hi'

-- ============================================================ rows that last

section Persists

variable {α : Type} {look : Db Row → Option α} {R : α → α → Prop} {i : Nat}

/-- An entry used the id up. -/
def Shared.Used (uses : Entry Row ε Site Call Req Res → Nat → Prop) (i : Nat)
    (S : Shared Row ε Site Call Req Res) : Prop :=
  ∃ e ∈ S.trace, uses e i

omit [DecidableEq Key] [DecidableEq Index] in
/-- What an id was used for once, it was used for in every later state. -/
theorem Shared.Used.mono (h : S.Used uses i) (htr : S.trace <:+ S'.trace) : S'.Used uses i := by
  obtain ⟨e, he, hi⟩ := h
  exact ⟨e, htr.subset he, hi⟩

/-- How commits treat the rows a lookup finds: they keep what the versions
of a row have in common, and create one only by using up its id. -/
structure Lasting (C : Contract Row ε Site Call Req Res) (mark : Marking Site)
    (uses : Entry Row ε Site Call Req Res → Nat → Prop) (look : Db Row → Option α)
    (R : α → α → Prop) (i : Nat) : Prop where
  used : UsedOnce C mark uses
  trace : C.start.trace = []
  none : look C.start.db = none
  refl : ∀ x, R x x
  trans : ∀ {x y z}, R x y → R y z → R x z
  same : ∀ {t s ws S x y}, C.commits t s ws S → ¬ uses ⟨t, .commit s ws, S.toScene⟩ i →
    look S.db = some x → look (applyAll ws S.db) = some y → R x y
  new : ∀ {t s ws S y}, C.commits t s ws S → look S.db = .none →
    look (applyAll ws S.db) = some y → uses ⟨t, .commit s ws, S.toScene⟩ i

/-- A row that is seen at two moments of a run was created before both, and
not again in between. -/
structure Persists (uses : Entry Row ε Site Call Req Res → Nat → Prop)
    (look : Db Row → Option α) (R : α → α → Prop) (i : Nat)
    (S : Shared Row ε Site Call Req Res) : Prop where
  created : ∀ x, look S.db = some x → S.Used uses i
  seen : ∀ e ∈ S.trace, ∀ x, look e.before.db = some x → S.Used uses i
  same : ∀ e ∈ S.trace, ∀ x y, look e.before.db = some x → look S.db = some y → R x y

/-- A lasting relation holds in every state of a run. -/
theorem Runs.persists (hL : Lasting C mark uses look R i) (h : Runs C S) :
    Persists uses look R i S := by
  refine h.invariant (I := Persists uses look R i) ⟨fun x hx => ?_, ?_, ?_⟩ ?_
  · rw [hL.none] at hx
    cases hx
  · intro e he
    rw [hL.trace] at he
    cases he
  · intro e he
    rw [hL.trace] at he
    cases he
  · intro j S S' hruns ih hm
    rcases hm.commit_or with ⟨s, ws, hC, -, rfl⟩ | ⟨hdb, -⟩
    · have hsuffix : S.trace <:+ (S.commit j s ws).trace := List.suffix_cons _ _
      -- the commit does not create the row a second time
      have honce : S.Used uses i → ¬ uses ⟨j, .commit s ws, S.toScene⟩ i := by
        rintro ⟨e, he, hi⟩ hu
        have htr : (S.commit j s ws).trace
            = [] ++ ⟨j, .commit s ws, S.toScene⟩ :: S.trace := rfl
        exact hL.used.not_before hL.trace (hruns.move hm) htr he hu hi
      have hseen : ∀ e ∈ (S.commit j s ws).trace, ∀ x, look e.before.db = some x →
          S.Used uses i := by
        intro e he x hx
        rcases List.mem_cons.mp he with rfl | he
        · exact ih.created x hx
        · exact ih.seen e he x hx
      refine ⟨fun y hy => ?_, fun e he x hx => (hseen e he x hx).mono hsuffix,
        fun e he x y hx hy => ?_⟩
      · cases hbefore : look S.db with
        | some x => exact (ih.created x hbefore).mono hsuffix
        | none => exact ⟨_, List.mem_cons_self, hL.new hC hbefore hy⟩
      · cases hbefore : look S.db with
        | some z =>
            have hzy : R z y := hL.same hC (honce (ih.created z hbefore)) hbefore hy
            rcases List.mem_cons.mp he with rfl | he
            · cases hbefore.symm.trans hx
              exact hzy
            · exact hL.trans (ih.same e he x z hx hbefore) hzy
        | none => exact absurd (hL.new hC hbefore hy) (honce (hseen e he x hx))
    · refine ⟨fun x hx => (ih.created x (hdb ▸ hx)).mono hm.trace_suffix, fun e he x hx => ?_,
        fun e he x y hx hy => ?_⟩
      · rcases hm.mem_trace he with he | he
        · exact (ih.seen e he x hx).mono hm.trace_suffix
        · exact (ih.created x (by rw [he] at hx; exact hx)).mono hm.trace_suffix
      · rw [hdb] at hy
        rcases hm.mem_trace he with he | he
        · exact ih.same e he x y hx hy
        · rw [he] at hx
          cases hx.symm.trans hy
          exact hL.refl x

/-- A row that was there and is not is gone. -/
theorem Steps.stays_gone (hL : Lasting C mark uses look R i) (hruns : Runs C S)
    (hused : S.Used uses i) (hgone : look S.db = none) (h : Steps C S S') :
    look S'.db = none := by
  refine (h.lift (I := fun S => S.Used uses i ∧ look S.db = none) hruns ⟨hused, hgone⟩ ?_).2
  rintro j S S' hruns ⟨hused, hgone⟩ hm
  refine ⟨hused.mono hm.trace_suffix, ?_⟩
  rcases hm.commit_or with ⟨s, ws, hC, -, rfl⟩ | ⟨hdb, -⟩
  · cases hafter : look (S.commit j s ws).db with
    | none => rfl
    | some y =>
        obtain ⟨e, he, hi⟩ := hused
        have htr : (S.commit j s ws).trace
            = [] ++ ⟨j, .commit s ws, S.toScene⟩ :: S.trace := rfl
        exact absurd hi (hL.used.not_before hL.trace (hruns.move hm) htr he
          (hL.new hC hgone hafter))
  · rw [hdb]
    exact hgone

/-- Two versions of a row, one after the other. -/
theorem Steps.same (hL : Lasting C mark uses look R i) (hruns : Runs C S)
    (h : Steps C S S') {x y : α} (hx : look S.db = some x) (hy : look S'.db = some y) :
    R x y := by
  have hboth := h.lift
    (I := fun S => S.Used uses i ∧ ∀ y, look S.db = some y → R x y) hruns
    ⟨(hruns.persists hL).created x hx, fun y hy => by
      cases hx.symm.trans hy
      exact hL.refl x⟩ ?_
  · exact hboth.2 y hy
  · rintro j S S' hruns ⟨hused, hsame⟩ hm
    refine ⟨hused.mono hm.trace_suffix, fun z hz => ?_⟩
    rcases hm.commit_or with ⟨s, ws, hC, -, rfl⟩ | ⟨hdb, -⟩
    · have hfresh : ¬ uses ⟨j, .commit s ws, S.toScene⟩ i := by
        obtain ⟨e, he, hi⟩ := hused
        intro hu
        have htr : (S.commit j s ws).trace
            = [] ++ ⟨j, .commit s ws, S.toScene⟩ :: S.trace := rfl
        exact hL.used.not_before hL.trace (hruns.move hm) htr he hu hi
      cases hbefore : look S.db with
      | some y => exact hL.trans (hsame y hbefore) (hL.same hC hfresh hbefore hz)
      | none => exact absurd (hL.new hC hbefore hz) hfresh
    · rw [hdb] at hz
      exact hsame z hz

end Persists

end FastRep.Txn
