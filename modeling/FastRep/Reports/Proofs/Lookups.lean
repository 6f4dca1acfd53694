/-
Lookups of the report tables and how writes move them.

A lookup by id finds exactly the row stored under the key of that table,
and a write of one table leaves the lookups of the others alone. The
`put` and `erase` lemmas are simp lemmas, so a lookup after an explicit
list of writes computes.

Each table has the same few lemmas: what a lookup finds and when it finds
nothing, that it depends on the row under its key alone, that the list of
the table's rows is what the lookups find, and what it finds after a `put`
of the same table and of another one. A table that is added needs its own
copy of them, and nothing else changes.
-/
import FastRep.Reports.Effects
import FastRep.Txn.Proofs.Writes

namespace FastRep.Reports

open FastRep.Txn

variable {d : Db Row} {k : Key} {r : Row}

-- ============================================================ by the key

theorem report?_eq_some {i : Id} {x : Report} :
    report? d i = some x ↔ d.find? (.report i) = some (.report x) := by
  unfold report?
  constructor
  · intro h
    split at h
    next y hy => cases h; exact hy
    next => cases h
  · intro h
    rw [h]

theorem generation?_eq_some {i : Id} {x : ReportGeneration} :
    generation? d i = some x ↔ d.find? (.generation i) = some (.generation x) := by
  unfold generation?
  constructor
  · intro h
    split at h
    next y hy => cases h; exact hy
    next => cases h
  · intro h
    rw [h]

theorem output?_eq_some {i : Id} {x : ReportOutput} :
    output? d i = some x ↔ d.find? (.output i) = some (.output x) := by
  unfold output?
  constructor
  · intro h
    split at h
    next y hy => cases h; exact hy
    next => cases h
  · intro h
    rw [h]

theorem grant?_eq_some {i : Id} {x : GenerationCreditGrant} :
    grant? d i = some x ↔ d.find? (.grant i) = some (.grant x) := by
  unfold grant?
  constructor
  · intro h
    split at h
    next y hy => cases h; exact hy
    next => cases h
  · intro h
    rw [h]

theorem ledger?_eq_some {i : LedgerKey} {x : GenerationCreditTransaction} :
    ledger? d i = some x ↔ d.find? (.ledger i) = some (.ledger x) := by
  unfold ledger?
  constructor
  · intro h
    split at h
    next y hy => cases h; exact hy
    next => cases h
  · intro h
    rw [h]

theorem asset?_eq_some {i : Id} {x : ReportAsset} :
    asset? d i = some x ↔ d.find? (.asset i) = some (.asset x) := by
  unfold asset?
  split <;> simp_all

theorem attempt?_eq_some {i : AttemptKey} {x : GenerationProviderAttempt} :
    attempt? d i = some x ↔ d.find? (.attempt i) = some (.attempt x) := by
  unfold attempt?
  split <;> simp_all

theorem transcription?_eq_some {i : Id} {x : ReportAssetTranscription} :
    transcription? d i = some x ↔ d.find? (.transcription i) = some (.transcription x) := by
  unfold transcription?
  split <;> simp_all

/-- The row under the key of a table is a row of that table. -/
theorem find?_report {i : Id} (h : d.find? (.report i) = some r) :
    ∃ x, r = .report x ∧ x.id = i := by
  have hk := Db.key_of_find? h
  cases r <;> simp_all [key]

theorem find?_generation {i : Id} (h : d.find? (.generation i) = some r) :
    ∃ x, r = .generation x ∧ x.id = i := by
  have hk := Db.key_of_find? h
  cases r <;> simp_all [key]

theorem find?_output {i : Id} (h : d.find? (.output i) = some r) :
    ∃ x, r = .output x ∧ x.generationId = i := by
  have hk := Db.key_of_find? h
  cases r <;> simp_all [key]

theorem find?_grant {i : Id} (h : d.find? (.grant i) = some r) :
    ∃ x, r = .grant x ∧ x.id = i := by
  have hk := Db.key_of_find? h
  cases r <;> simp_all [key]

theorem find?_ledger {i : LedgerKey} (h : d.find? (.ledger i) = some r) :
    ∃ x, r = .ledger x ∧ x.idempotencyKey = i := by
  have hk := Db.key_of_find? h
  cases r <;> simp_all [key]

theorem find?_asset {i : Id} (h : d.find? (.asset i) = some r) :
    ∃ x, r = .asset x ∧ x.id = i := by
  have hk := Db.key_of_find? h
  cases r <;> simp_all [key]

theorem find?_attempt {i : AttemptKey} (h : d.find? (.attempt i) = some r) :
    ∃ x, r = .attempt x ∧ x.id = i := by
  have hk := Db.key_of_find? h
  cases r <;> simp_all [key]

theorem find?_transcription {i : Id} (h : d.find? (.transcription i) = some r) :
    ∃ x, r = .transcription x ∧ x.assetId = i := by
  have hk := Db.key_of_find? h
  cases r <;> simp_all [key]

theorem report?_id {i : Id} {x : Report} (h : report? d i = some x) : x.id = i := by
  obtain ⟨y, hy, hi⟩ := find?_report (report?_eq_some.mp h)
  cases hy
  exact hi

theorem generation?_id {i : Id} {x : ReportGeneration}
    (h : generation? d i = some x) : x.id = i := by
  obtain ⟨y, hy, hi⟩ := find?_generation (generation?_eq_some.mp h)
  cases hy
  exact hi

theorem output?_generationId {i : Id} {x : ReportOutput}
    (h : output? d i = some x) : x.generationId = i := by
  obtain ⟨y, hy, hi⟩ := find?_output (output?_eq_some.mp h)
  cases hy
  exact hi

theorem grant?_id {i : Id} {x : GenerationCreditGrant} (h : grant? d i = some x) :
    x.id = i := by
  obtain ⟨y, hy, hi⟩ := find?_grant (grant?_eq_some.mp h)
  cases hy
  exact hi

theorem ledger?_key {i : LedgerKey} {x : GenerationCreditTransaction}
    (h : ledger? d i = some x) : x.idempotencyKey = i := by
  obtain ⟨y, hy, hi⟩ := find?_ledger (ledger?_eq_some.mp h)
  cases hy
  exact hi

theorem asset?_id {i : Id} {x : ReportAsset} (h : asset? d i = some x) : x.id = i := by
  obtain ⟨y, hy, hi⟩ := find?_asset (asset?_eq_some.mp h)
  cases hy
  exact hi

theorem attempt?_id {i : AttemptKey} {x : GenerationProviderAttempt}
    (h : attempt? d i = some x) : x.id = i := by
  obtain ⟨y, hy, hi⟩ := find?_attempt (attempt?_eq_some.mp h)
  cases hy
  exact hi

theorem report?_eq_none {i : Id} : report? d i = none ↔ d.find? (.report i) = none := by
  cases hf : d.find? (.report i) with
  | none => simp [report?, hf]
  | some r =>
      obtain ⟨x, rfl, -⟩ := find?_report hf
      simp [report?, hf]

theorem generation?_eq_none {i : Id} :
    generation? d i = none ↔ d.find? (.generation i) = none := by
  cases hf : d.find? (.generation i) with
  | none => simp [generation?, hf]
  | some r =>
      obtain ⟨x, rfl, -⟩ := find?_generation hf
      simp [generation?, hf]

theorem output?_eq_none {i : Id} : output? d i = none ↔ d.find? (.output i) = none := by
  cases hf : d.find? (.output i) with
  | none => simp [output?, hf]
  | some r =>
      obtain ⟨x, rfl, -⟩ := find?_output hf
      simp [output?, hf]

theorem grant?_eq_none {i : Id} : grant? d i = none ↔ d.find? (.grant i) = none := by
  cases hf : d.find? (.grant i) with
  | none => simp [grant?, hf]
  | some r =>
      obtain ⟨x, rfl, -⟩ := find?_grant hf
      simp [grant?, hf]

theorem ledger?_eq_none {i : LedgerKey} :
    ledger? d i = none ↔ d.find? (.ledger i) = none := by
  cases hf : d.find? (.ledger i) with
  | none => simp [ledger?, hf]
  | some r =>
      obtain ⟨x, rfl, -⟩ := find?_ledger hf
      simp [ledger?, hf]

/-- A lookup depends on the row under its key alone. -/
theorem asset?_eq_none {i : Id} : asset? d i = none ↔ d.find? (.asset i) = none := by
  cases hf : d.find? (.asset i) with
  | none => simp [asset?, hf]
  | some r =>
      obtain ⟨x, rfl, -⟩ := find?_asset hf
      simp [asset?, hf]

theorem attempt?_eq_none {i : AttemptKey} :
    attempt? d i = none ↔ d.find? (.attempt i) = none := by
  cases hf : d.find? (.attempt i) with
  | none => simp [attempt?, hf]
  | some r =>
      obtain ⟨x, rfl, -⟩ := find?_attempt hf
      simp [attempt?, hf]

theorem transcription?_eq_none {i : Id} :
    transcription? d i = none ↔ d.find? (.transcription i) = none := by
  cases hf : d.find? (.transcription i) with
  | none => simp [transcription?, hf]
  | some r =>
      obtain ⟨x, rfl, -⟩ := find?_transcription hf
      simp [transcription?, hf]

theorem asset?_congr {d' : Db Row} {i : Id}
    (h : d'.find? (.asset i) = d.find? (.asset i)) : asset? d' i = asset? d i := by
  unfold asset?
  rw [h]

theorem attempt?_congr {d' : Db Row} {i : AttemptKey}
    (h : d'.find? (.attempt i) = d.find? (.attempt i)) : attempt? d' i = attempt? d i := by
  unfold attempt?
  rw [h]

theorem transcription?_congr {d' : Db Row} {i : Id}
    (h : d'.find? (.transcription i) = d.find? (.transcription i)) :
    transcription? d' i = transcription? d i := by
  unfold transcription?
  rw [h]

theorem report?_congr {d' : Db Row} {i : Id}
    (h : d'.find? (.report i) = d.find? (.report i)) : report? d' i = report? d i := by
  unfold report?
  rw [h]

/-- A lookup depends on the row under its key only. -/
theorem generation?_congr {d' : Db Row} {i : Id}
    (h : d'.find? (.generation i) = d.find? (.generation i)) :
    generation? d' i = generation? d i := by
  unfold generation?
  rw [h]

theorem output?_congr {d' : Db Row} {i : Id}
    (h : d'.find? (.output i) = d.find? (.output i)) : output? d' i = output? d i := by
  unfold output?
  rw [h]

theorem grant?_congr {d' : Db Row} {i : Id}
    (h : d'.find? (.grant i) = d.find? (.grant i)) : grant? d' i = grant? d i := by
  unfold grant?
  rw [h]

theorem ledger?_congr {d' : Db Row} {i : LedgerKey}
    (h : d'.find? (.ledger i) = d.find? (.ledger i)) : ledger? d' i = ledger? d i := by
  unfold ledger?
  rw [h]

-- ============================================================ as members

/-- The rows of one table have distinct keys. -/
theorem nodup_table {α κ : Type} {f : Row → Option α} {g : α → κ} {k : κ → Key}
    (hf : ∀ r x, f r = some x → key r = k (g x)) (d : Db Row) :
    ((d.rows.filterMap f).map g).Nodup := by
  refine List.Nodup.of_map k (List.Nodup.sublist ?_ d.nodup)
  rw [List.map_map]
  induction d.rows with
  | nil => exact List.Sublist.refl _
  | cons r rows ih =>
      cases hr : f r with
      | none =>
          rw [List.filterMap_cons_none hr, List.map_cons]
          exact ih.cons _
      | some x =>
          rw [List.filterMap_cons_some hr, List.map_cons, List.map_cons, hf r x hr]
          exact ih.cons_cons _

/-- A table has the rows that are found under their keys. -/
theorem mem_generations {x : ReportGeneration} :
    x ∈ generations d ↔ generation? d x.id = some x := by
  rw [generation?_eq_some, Db.find?_eq_some_iff]
  simp only [generations, List.mem_filterMap]
  constructor
  · rintro ⟨r, hr, hx⟩
    split at hx
    next => cases hx; exact ⟨hr, rfl⟩
    next => cases hx
  · rintro ⟨hr, -⟩
    exact ⟨_, hr, rfl⟩

theorem mem_assets {x : ReportAsset} : x ∈ assets d ↔ asset? d x.id = some x := by
  rw [asset?_eq_some, Db.find?_eq_some_iff]
  simp only [assets, List.mem_filterMap]
  constructor
  · rintro ⟨r, hr, hx⟩
    split at hx
    next => cases hx; exact ⟨hr, rfl⟩
    next => cases hx
  · rintro ⟨hr, -⟩
    exact ⟨_, hr, rfl⟩

theorem mem_attempts {x : GenerationProviderAttempt} :
    x ∈ attempts d ↔ attempt? d x.id = some x := by
  rw [attempt?_eq_some, Db.find?_eq_some_iff]
  simp only [attempts, List.mem_filterMap]
  constructor
  · rintro ⟨r, hr, hx⟩
    split at hx
    next => cases hx; exact ⟨hr, rfl⟩
    next => cases hx
  · rintro ⟨hr, -⟩
    exact ⟨_, hr, rfl⟩

theorem nodup_attempts : ((attempts d).map (·.id)).Nodup := by
  refine nodup_table (k := Key.attempt) (fun r x h => ?_) d
  split at h
  next => cases h; rfl
  next => cases h

theorem mem_outputs {x : ReportOutput} :
    x ∈ outputs d ↔ output? d x.generationId = some x := by
  rw [output?_eq_some, Db.find?_eq_some_iff]
  simp only [outputs, List.mem_filterMap]
  constructor
  · rintro ⟨r, hr, hx⟩
    split at hx
    next => cases hx; exact ⟨hr, rfl⟩
    next => cases hx
  · rintro ⟨hr, -⟩
    exact ⟨_, hr, rfl⟩

theorem mem_grants {x : GenerationCreditGrant} :
    x ∈ grants d ↔ grant? d x.id = some x := by
  rw [grant?_eq_some, Db.find?_eq_some_iff]
  simp only [grants, List.mem_filterMap]
  constructor
  · rintro ⟨r, hr, hx⟩
    split at hx
    next => cases hx; exact ⟨hr, rfl⟩
    next => cases hx
  · rintro ⟨hr, -⟩
    exact ⟨_, hr, rfl⟩

theorem mem_ledger {x : GenerationCreditTransaction} :
    x ∈ ledger d ↔ ledger? d x.idempotencyKey = some x := by
  rw [ledger?_eq_some, Db.find?_eq_some_iff]
  simp only [ledger, List.mem_filterMap]
  constructor
  · rintro ⟨r, hr, hx⟩
    split at hx
    next => cases hx; exact ⟨hr, rfl⟩
    next => cases hx
  · rintro ⟨hr, -⟩
    exact ⟨_, hr, rfl⟩

-- ========================================================== after a write

section Put

variable {i : Id}

@[simp] theorem report?_put_report (x : Report) :
    report? (d.put (.report x)) i = if x.id = i then some x else report? d i := by
  unfold report?
  rw [Db.find?_put]
  by_cases h : x.id = i <;> simp [key, h]

/-- A row that was put is found, and nothing else changes. -/
@[simp] theorem generation?_put_generation (x : ReportGeneration) :
    generation? (d.put (.generation x)) i
      = if x.id = i then some x else generation? d i := by
  unfold generation?
  rw [Db.find?_put]
  by_cases h : x.id = i <;> simp [key, h]

@[simp] theorem output?_put_output (x : ReportOutput) :
    output? (d.put (.output x)) i
      = if x.generationId = i then some x else output? d i := by
  unfold output?
  rw [Db.find?_put]
  by_cases h : x.generationId = i <;> simp [key, h]

@[simp] theorem grant?_put_grant (x : GenerationCreditGrant) :
    grant? (d.put (.grant x)) i = if x.id = i then some x else grant? d i := by
  unfold grant?
  rw [Db.find?_put]
  by_cases h : x.id = i <;> simp [key, h]

@[simp] theorem ledger?_put_ledger (x : GenerationCreditTransaction) {k : LedgerKey} :
    ledger? (d.put (.ledger x)) k
      = if x.idempotencyKey = k then some x else ledger? d k := by
  unfold ledger?
  rw [Db.find?_put]
  by_cases h : x.idempotencyKey = k <;> simp [key, h]

/-- A row of another table leaves a lookup alone. -/
@[simp] theorem report?_put_of_ne (h : ∀ x, r ≠ .report x) :
    report? (d.put r) i = report? d i :=
  report?_congr (Db.find?_put_ne fun hk => by cases r <;> simp_all [key])

/-- A row of another table changes nothing. -/
@[simp] theorem generation?_put_of_ne (h : ∀ x, r ≠ .generation x) :
    generation? (d.put r) i = generation? d i :=
  generation?_congr (Db.find?_put_ne fun hk => by cases r <;> simp_all [key])

@[simp] theorem output?_put_of_ne (h : ∀ x, r ≠ .output x) :
    output? (d.put r) i = output? d i :=
  output?_congr (Db.find?_put_ne fun hk => by cases r <;> simp_all [key])

@[simp] theorem grant?_put_of_ne (h : ∀ x, r ≠ .grant x) :
    grant? (d.put r) i = grant? d i :=
  grant?_congr (Db.find?_put_ne fun hk => by cases r <;> simp_all [key])

@[simp] theorem ledger?_put_of_ne {i : LedgerKey} (h : ∀ x, r ≠ .ledger x) :
    ledger? (d.put r) i = ledger? d i :=
  ledger?_congr (Db.find?_put_ne fun hk => by cases r <;> simp_all [key])

end Put

end FastRep.Reports
