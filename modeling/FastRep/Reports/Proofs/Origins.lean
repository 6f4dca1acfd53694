/-
Starts and the generations they created.

An id is drawn once, by one thread, and a thread starts at most one
generation. So the start of a generation is one entry of the trace, and
its row is what that start stored for as long as it is stored.

# The creation of rows

`creates` reads off an entry which generation, report or asset it created. A
creation uses up the id of its row (`creates_once`), so a row is created once
(`Runs.create_unique`), and the lasting relations of generations and assets
follow: a row that is seen at two moments is the same one (`lasting_generation`,
`lasting_asset`).

# What stays

`Runs.kept` says what has become of a started generation: its row is there,
with the report, the user and the key it was started with, or it was
compensated, or its report was deleted. Its snapshot is the one the start took
(`Runs.snapshot_kept`), and the assets in it are or were assets of its report.
-/
import FastRep.Reports.Proofs.AssetChanges
import FastRep.Txn.Proofs.Once

namespace FastRep.Reports

open FastRep.Txn

variable {cfg : Config} {start S S' : RState} {t : Tid} {g : Id}

/-- The user and the generation of a start that created one. -/
def startOf (e : REntry) : Option (Id × Id) :=
  match e.event with
  | .commit (.start userId _ _ generationId) (_ :: _) => some (userId, generationId)
  | _ => none

/-- The report of a start that created a generation. -/
def startedOn (e : REntry) : Option Id :=
  match e.event with
  | .commit (.start _ reportId _ _) (_ :: _) => some reportId
  | _ => none

/-- A start is a commit that created its generation. -/
theorem startOf_eq_some {e : REntry} {u : Id} (h : startOf e = some (u, g)) :
    ∃ r k ws, e.event = .commit (.start u r k g) ws ∧ ws ≠ [] := by
  unfold startOf at h
  split at h
  next r k w ws hev =>
      cases h
      exact ⟨_, _, _, hev, by simp⟩
  next => cases h

-- ============================================================ the counts

/-- What a start that created a generation committed. -/
theorem starts_of_past {e : REntry} {S₀ S₁ : RState} (h : Past (contract cfg start) e S₀ S₁ S)
    {u : Id} (hstart : startOf e = some (u, g)) :
    ∃ r k ws, e.event = .commit (.start u r k g) ws ∧ ws ≠ [] ∧
      Starts cfg e.tid u r k g ws S₀ ∧ S₁ = S₀.commit e.tid (.start u r k g) ws := by
  obtain ⟨r, k, ws, hev, hne⟩ := startOf_eq_some hstart
  obtain ⟨hcommit, hS₁⟩ := h.commit hev
  exact ⟨r, k, ws, hev, hne, hcommit.1, hS₁⟩

/-- The asset a write inserts. -/
def insertedAsset : Write Row Key → Option Id
  | .insert (.asset x) => some x.id
  | _ => none

/-- The ids of the generation, the report and the assets an entry created. -/
def creates (e : REntry) : List Id :=
  match e.event with
  | .commit (.start _ _ _ generationId) (_ :: _) => [generationId]
  | .commit (.createReport reportId) _ => [reportId]
  | .commit (.createPendingAsset assetId) _ => [assetId]
  | .commit (.duplicateReport reportId) ws => reportId :: ws.filterMap insertedAsset
  | _ => []

theorem creates_of_start {e : REntry} {u : Id} (h : startOf e = some (u, g)) :
    g ∈ creates e := by
  unfold startOf at h
  split at h
  next hev =>
      cases h
      rw [creates, hev]
      exact List.mem_singleton_self _
  next => cases h

/-- The assets a duplication inserts are its copies. -/
theorem mem_copied {i a : Id} {createdAt : Time} {r : Report} {copies : List AssetCopy} :
    a ∈ (Write.insert (Row.report r) :: copies.map fun c =>
      Write.insert (Row.asset (c.row i createdAt))).filterMap insertedAsset ↔
      ∃ c ∈ copies, c.id = a := by
  rw [List.filterMap_cons_none rfl, List.filterMap_map]
  constructor
  · intro h
    obtain ⟨c, hc, hid⟩ := List.mem_filterMap.mp h
    exact ⟨c, hc, Option.some.inj hid⟩
  · rintro ⟨c, hc, rfl⟩
    exact List.mem_filterMap.mpr ⟨c, hc, rfl⟩

/-- A thread that creates a row drew its id and has created none before. -/
theorem creates_of_past {e : REntry} {S₀ S₁ : RState} (h : Past (contract cfg start) e S₀ S₁ S)
    {i : Id} (hi : i ∈ creates e) : i ∈ S₀.ids e.tid ∧ marks S₀ e.tid = [] ∧
      ∃ s ws, e.event = .commit s ws ∧ s.marked = true := by
  unfold creates at hi
  split at hi
  next hev =>
      cases List.mem_singleton.mp hi
      obtain ⟨hcommit, -⟩ := h.commit hev
      obtain ⟨hnil, -⟩ | ⟨_, _, _, -, -, -, -, -, -, -, -, hids, hmarks, -⟩ := hcommit.1
      · cases hnil
      · exact ⟨by rw [hids]; exact List.mem_singleton_self _, hmarks, _, _, hev, rfl⟩
  next hev =>
      cases List.mem_singleton.mp hi
      obtain ⟨⟨⟨_, _, _, _, -, -, hids, hmarks⟩, -⟩, -⟩ := h.commit hev
      exact ⟨by rw [hids]; exact List.mem_singleton_self _, hmarks, _, _, hev, rfl⟩
  next hev =>
      cases List.mem_singleton.mp hi
      obtain ⟨⟨⟨_, _, _, _, _, -, -, -, -, -, -, -, -, hids, hmarks, -⟩, -⟩, -⟩ := h.commit hev
      exact ⟨by rw [hids]; simp, hmarks, _, _, hev, rfl⟩
  next hev =>
      obtain ⟨⟨⟨_, _, _, _, _, _, rfl, -, hid, hmarks, -, hcopies, -⟩, -⟩, -⟩ := h.commit hev
      rcases List.mem_cons.mp hi with rfl | hi
      · exact ⟨hid, hmarks, _, _, hev, rfl⟩
      · obtain ⟨c, hc, rfl⟩ := mem_copied.mp hi
        exact ⟨(hcopies c hc).2.1, hmarks, _, _, hev, rfl⟩
  next => cases hi

/-- An id is used up by the creation of its row. -/
theorem creates_once : UsedOnce (contract cfg start) marking fun e i => i ∈ creates e where
  drawn hpast hi := (creates_of_past hpast hi).1
  first hpast hi := (creates_of_past hpast hi).2.1
  marked hpast hi := (creates_of_past hpast hi).2.2

/-- A row is created once. -/
theorem Runs.create_unique (hstart : Begins start) (h : Runs (contract cfg start) S)
    {newer older : List REntry} {e e' : REntry} {i : Id} (htr : S.trace = newer ++ e :: older)
    (he' : e' ∈ older) (hi : i ∈ creates e) : i ∉ creates e' :=
  creates_once.not_before hstart.trace h htr he' hi

/-- A commit does not create a row a second time. -/
theorem Runs.not_created_again (hstart : Begins start) (h : Runs (contract cfg start) S)
    {s : Site} {ws : List (Write Row Key)} (hm : Move (contract cfg start) t S (S.commit t s ws))
    {e : REntry} {i : Id} (he : e ∈ S.trace) (hi : i ∈ creates e) :
    i ∉ creates ⟨t, .commit s ws, S.toScene⟩ := by
  intro hi'
  have htr : (S.commit t s ws).trace = [] ++ ⟨t, .commit s ws, S.toScene⟩ :: S.trace := rfl
  exact Runs.create_unique hstart (h.move hm) htr he hi' hi

/-- A generation is started once. -/
theorem Runs.start_unique (hstart : Begins start) (h : Runs (contract cfg start) S)
    {newer older : List REntry} {e e' : REntry} {u u' : Id} (htr : S.trace = newer ++ e :: older)
    (he' : e' ∈ older) (hs : startOf e = some (u, g)) : startOf e' ≠ some (u', g) := by
  intro hs'
  exact Runs.create_unique hstart h htr he' (creates_of_start hs) (creates_of_start hs')

/-- Starts create distinct generations. -/
theorem Runs.starts_nodup (hstart : Begins start) (h : Runs (contract cfg start) S) :
    ((S.trace.filterMap startOf).map (·.2)).Nodup := by
  suffices hall : ∀ l, l <:+ S.trace → ((l.filterMap startOf).map (·.2)).Nodup from
    hall _ (List.suffix_refl _)
  intro l
  induction l with
  | nil => exact fun _ => List.nodup_nil
  | cons e l ih =>
      intro hl
      have hrest := ih ((List.suffix_cons e l).trans hl)
      cases hs : startOf e with
      | none => rwa [List.filterMap_cons_none hs]
      | some p =>
          rw [List.filterMap_cons_some hs, List.map_cons, List.nodup_cons]
          refine ⟨fun hmem => ?_, hrest⟩
          obtain ⟨⟨u', g'⟩, hp', hg⟩ := List.mem_map.mp hmem
          obtain ⟨e', he', hs'⟩ := List.mem_filterMap.mp hp'
          obtain ⟨newer, htr⟩ := hl
          cases hg
          exact Runs.start_unique hstart h htr.symm he' hs hs'

-- ================================================================= identity

/-- Some entry created the row. -/
def Created (S : RState) (i : Id) : Prop := ∃ e ∈ S.trace, i ∈ creates e

theorem Created.mono {i : Id} (h : Created S i) (htr : S.trace <:+ S'.trace) : Created S' i := by
  obtain ⟨e, he, hi⟩ := h
  exact ⟨e, htr.subset he, hi⟩

/-- Nothing else is in an unused database. -/
theorem Unused.find?_eq_none {d : Db Row} (h : Unused d) {k : Key} (huser : k.table ≠ .user)
    (hsubscription : k.table ≠ .subscription) : d.find? k = none := by
  rw [Db.find?_eq_none_iff]
  rintro r hr rfl
  rcases h r hr with ⟨u, rfl⟩ | ⟨x, rfl⟩
  · exact huser rfl
  · exact hsubscription rfl

/-- The rows of one id that a lookup finds, created by the commits that use
the id up. -/
abbrev Lasts {α : Type} (cfg : Config) (start : RState) (look : Db Row → Option α)
    (R : α → α → Prop) (i : Id) : Prop :=
  Lasting (contract cfg start) marking (fun e i => i ∈ creates e) look R i

/-- Two sightings of a row agree on what its versions have in common. -/
theorem Runs.sightings {α β : Type} {look : Db Row → Option α} {R : α → α → Prop} {i : Id}
    (hstart : Begins start) (h : Runs (contract cfg start) S)
    (hlasts : Lasts cfg start look R i) {f : α → β} (hf : ∀ x y, R x y → f y = f x)
    {e e' : REntry} (he : e ∈ S.trace) (he' : e' ∈ S.trace) {x y : α}
    (hx : look e.before.db = some x) (hy : look e'.before.db = some y) : f x = f y := by
  have hordered : ∀ {e e' : REntry} {x y : α} {newer older : List REntry},
      S.trace = newer ++ e :: older → e' ∈ older → look e.before.db = some x →
      look e'.before.db = some y → f x = f y := by
    intro e e' x y newer older htr he' hx hy
    obtain ⟨S₀, S₁, hpast, rfl⟩ := h.at hstart.trace htr
    rw [← hpast.scene] at hx
    exact hf y x ((hpast.runs.persists hlasts).same e' he' y x hy hx)
  obtain ⟨newer, older, htr⟩ := List.append_of_mem he
  rw [htr] at he'
  rcases List.mem_append.mp he' with he' | he'
  · obtain ⟨newer', between, rfl⟩ := List.append_of_mem he'
    rw [List.append_assoc] at htr
    exact (hordered htr (List.mem_append_right _ List.mem_cons_self) hy hx).symm
  · rcases List.mem_cons.mp he' with rfl | he'
    · cases hx.symm.trans hy
      rfl
    · exact hordered htr he' hx hy

/-- The row a start stores. -/
theorem Starts.row {u r : Id} {k : String} {ws : List (Write Row Key)}
    (h : Starts cfg t u r k g ws S) (hne : ws ≠ []) : ∃ report user, report? S.db r = some report ∧
      generation? (applyAll ws S.db) g = some (newGeneration g r u k
        (inputSnapshot report user (assetsOf r S.db) S.clock) report.status S.clock) := by
  obtain ⟨rfl, -⟩ | ⟨report, user, credit, rfl, hcred, -, -, hreport, -⟩ := h
  · exact absurd rfl hne
  · refine ⟨report, user, hreport, ?_⟩
    refine (generation?_applyAll (l := []) (by simp) rfl fun w hw he => ?_).trans (if_pos rfl)
    rcases List.mem_append.mp hw with hw | hw
    · have hmem := hcred.tables w hw
      rw [he] at hmem
      simp at hmem
    · cases List.mem_singleton.mp hw
      cases he

/-- A generation that appears with a commit is created by it. -/
theorem Effect.creates_generation {s : Site} {ws : List (Write Row Key)}
    (h : Effect cfg t s ws S) (hnone : generation? S.db g = none) {y : ReportGeneration}
    (hy : generation? (applyAll ws S.db) g = some y) (sc : Scene Row Site Req Env) :
    g ∈ creates ⟨t, .commit s ws, sc⟩ := by
  rcases h.generation g with hsame | hchange
  · rw [hsame, hnone] at hy
    cases hy
  · cases ws with
    | nil => exact absurd (hnone.symm.trans hy) (by simp)
    | cons w ws =>
        rw [hnone, hy] at hchange
        cases hchange
        exact List.mem_singleton_self g

/-- An asset that appears with a commit is created by it. -/
theorem Effect.creates_asset {s : Site} {ws : List (Write Row Key)} {a : Id}
    (h : Effect cfg t s ws S) (hnone : asset? S.db a = none) {y : ReportAsset}
    (hy : asset? (applyAll ws S.db) a = some y) (sc : Scene Row Site Req Env) :
    a ∈ creates ⟨t, .commit s ws, sc⟩ := by
  rcases h.asset a with hsame | hchange
  · rw [hsame, hnone] at hy
    cases hy
  · rw [hnone, hy] at hchange
    cases hchange with
    | created => exact List.mem_singleton_self a
    | copied i =>
        obtain ⟨u, source, title, notes, createdAt, copies, rfl, -, -, -, hnodup, -⟩ := h
        rcases asset?_duplicate (newReport i u title notes createdAt) i createdAt hnodup S.db a
          with hsame | ⟨c, hc, hid, -⟩
        · rw [hsame, hnone] at hy
          cases hy
        · exact List.mem_cons_of_mem _ (mem_copied.mpr ⟨c, hc, hid⟩)

/-- A generation seen at two moments is the same one. -/
theorem lasting_generation (hstart : Begins start) (g : Id) :
    Lasts cfg start (fun d => generation? d g) SameOrigin g where
  used := creates_once
  trace := hstart.trace
  none := generation?_eq_none.mpr (hstart.unused.find?_eq_none (by simp [Key.table])
    (by simp [Key.table]))
  refl := SameOrigin.refl
  trans := SameOrigin.trans
  same hC _ hx hy := hC.1.origin hx hy
  new hC hnone hy := hC.1.creates_generation hnone hy _

/-- An asset seen at two moments is the same upload. -/
theorem lasting_asset (hstart : Begins start) (a : Id) :
    Lasts cfg start (fun d => asset? d a) SameUpload a where
  used := creates_once
  trace := hstart.trace
  none := asset?_eq_none.mpr (hstart.unused.find?_eq_none (by simp [Key.table])
    (by simp [Key.table]))
  refl := SameUpload.refl
  trans := SameUpload.trans
  same hC _ hx hy := hC.1.upload hx hy
  new hC hnone hy := hC.1.creates_asset hnone hy _

-- ============================================================== snapshots

/-- The assets of a stored snapshot are, or were, assets of the report. -/
def SnapshotKept (S : RState) (g : Id) : Prop :=
  ∀ x snapshot, generation? S.db g = some x → x.inputSnapshot = some snapshot →
    ∀ b ∈ snapshot.assets, Created S b.id ∧
      ∀ z, asset? S.db b.id = some z → z.reportId = x.reportId

/-- The assets of a report, as rows. -/
theorem mem_assetsOf {r : Id} {d : Db Row} {z : ReportAsset} :
    z ∈ assetsOf r d ↔ asset? d z.id = some z ∧ z.reportId = r := by
  rw [assetsOf, List.mem_insertionSort, List.mem_filter, mem_assets, decide_eq_true_eq]

/-- An asset of a started generation's snapshot was a ready asset of its
report. -/
theorem Starts.snapshot {report : Report} {user : User} {r : Id} {b : GenerationSnapshotAsset}
    {now : Time} (hb : b ∈ (inputSnapshot report user (assetsOf r S.db) now).assets) :
    ∃ z, asset? S.db b.id = some z ∧ z.reportId = r ∧ z.status = .ready ∧ b = snapshotAsset z := by
  obtain ⟨z, hz, rfl⟩ := List.mem_map.mp hb
  obtain ⟨hz, hready⟩ := List.mem_filter.mp hz
  obtain ⟨hstored, hr⟩ := mem_assetsOf.mp hz
  exact ⟨z, hstored, hr, of_decide_eq_true hready, rfl⟩

/-- In every state of a run a generation has the snapshot it was started with.
-/
theorem Runs.snapshot_kept (hstart : Begins start) (h : Runs (contract cfg start) S) (g : Id) :
    SnapshotKept S g := by
  refine h.invariant (I := (SnapshotKept · g)) ?_ ?_
  · intro x snapshot hx
    have hnone := generation?_eq_none.mpr (hstart.unused.find?_eq_none (k := .generation g)
      (by simp [Key.table]) (by simp [Key.table]))
    exact absurd (hx.symm.trans hnone) (by simp)
  · intro j S S' hruns ih hm x snapshot hx hsnapshot b hb
    rcases hm.commit_or with ⟨s, ws, hC, -, rfl⟩ | ⟨hdb, -⟩
    · have hafter : generation? (applyAll ws S.db) g = some x := hx
      have hkept : ∀ {i : Id} {y : ReportAsset}, Created S b.id → x.reportId = i →
          (∀ z, asset? S.db b.id = some z → z.reportId = i) →
          asset? (applyAll ws S.db) b.id = some y → y.reportId = x.reportId := by
        intro i y hcreated hi hold hy
        cases hbefore : asset? S.db b.id with
        | some z => rw [(hC.1.upload hbefore hy).reportId, hold z hbefore, hi]
        | none =>
            -- the asset would be created a second time
            obtain ⟨e, he, hid⟩ := hcreated
            exact absurd (hC.1.creates_asset hbefore hy _)
              (Runs.not_created_again hstart hruns hm he hid)
      cases hbefore : generation? S.db g with
      | some x₀ =>
          have horigin := hC.1.origin hbefore hafter
          obtain ⟨hcreated, hold⟩ := ih x₀ snapshot hbefore
            (horigin.inputSnapshot.symm.trans hsnapshot) b hb
          exact ⟨hcreated.mono hm.trace_suffix,
            fun z hz => hkept hcreated horigin.reportId hold hz⟩
      | none =>
          rcases hC.1.generation g with hsame | hchange
          · rw [hsame, hbefore] at hafter
            cases hafter
          · rw [hbefore, hafter] at hchange
            cases hchange with
            | started u r k =>
                have hne : ws ≠ [] := by
                  rintro rfl
                  cases hbefore.symm.trans hafter
                obtain ⟨report, user, -, hrow⟩ := Starts.row hC.1 hne
                cases hafter.symm.trans hrow
                cases hsnapshot
                obtain ⟨z, hz, hzr, -, -⟩ := Starts.snapshot hb
                have hcreated := (hruns.persists (lasting_asset hstart b.id)).created z hz
                refine ⟨hcreated.mono hm.trace_suffix, fun y hy => hkept hcreated rfl ?_ hy⟩
                intro z' hz'
                cases hz.symm.trans hz'
                exact hzr
    · rw [hdb] at hx
      obtain ⟨hcreated, hold⟩ := ih x snapshot hx hsnapshot b hb
      exact ⟨hcreated.mono hm.trace_suffix, fun z hz => hold z (hdb ▸ hz)⟩

/-- The assets of a snapshot were seen with the report of the generation. -/
theorem Runs.snapshot_seen (hstart : Begins start) (h : Runs (contract cfg start) S) :
    ∀ x snapshot, generation? S.db g = some x → x.inputSnapshot = some snapshot →
      ∀ b ∈ snapshot.assets, ∃ e ∈ S.trace, ∃ z, asset? e.before.db b.id = some z ∧
        z.reportId = x.reportId := by
  refine h.invariant (I := fun S => ∀ x snapshot, generation? S.db g = some x →
    x.inputSnapshot = some snapshot → ∀ b ∈ snapshot.assets, ∃ e ∈ S.trace, ∃ z,
      asset? e.before.db b.id = some z ∧ z.reportId = x.reportId) ?_ ?_
  · intro x snapshot hx
    have hnone := generation?_eq_none.mpr (hstart.unused.find?_eq_none (k := .generation g)
      (by simp [Key.table]) (by simp [Key.table]))
    exact absurd (hx.symm.trans hnone) (by simp)
  · intro j S S' _ ih hm x snapshot hx hsnapshot b hb
    have hold : ∀ y, generation? S.db g = some y → SameOrigin y x →
        ∃ e ∈ S'.trace, ∃ z, asset? e.before.db b.id = some z ∧ z.reportId = x.reportId := by
      intro y hy hsame
      obtain ⟨e, he, z, hz, hzr⟩ := ih y snapshot hy (hsame.inputSnapshot.symm.trans hsnapshot) b hb
      exact ⟨e, hm.trace_suffix.subset he, z, hz, hzr.trans hsame.reportId.symm⟩
    rcases hm.commit_or with ⟨s, ws, hC, -, rfl⟩ | ⟨hdb, -⟩
    · have hafter : generation? (applyAll ws S.db) g = some x := hx
      cases hbefore : generation? S.db g with
      | some y => exact hold y hbefore (hC.1.origin hbefore hafter)
      | none =>
          rcases hC.1.generation g with hsame | hchange
          · rw [hsame, hbefore] at hafter
            cases hafter
          · rw [hbefore, hafter] at hchange
            cases hchange with
            | started u r k =>
                have hne : ws ≠ [] := by
                  rintro rfl
                  cases hbefore.symm.trans hafter
                obtain ⟨report, user, -, hrow⟩ := Starts.row hC.1 hne
                cases hafter.symm.trans hrow
                cases hsnapshot
                obtain ⟨z, hz, hzr, -, -⟩ := Starts.snapshot hb
                exact ⟨_, List.mem_cons_self, z, hz, hzr⟩
    · exact hold x (hdb ▸ hx) (SameOrigin.refl x)

-- ============================================================== the rows

/-- Why the row of a started generation is gone, or the row. -/
def Kept (S : RState) (e : REntry) (u g : Id) : Prop :=
  (∃ e' ∈ S.trace, ∃ ws, e'.event = .commit (.compensateQueueFailure g) ws ∧ ws ≠ []) ∨
  (∃ e' ∈ S.trace, ∃ i ws x, e'.event = .commit (.deleteReport i) ws ∧
    .erase (.generation g) ∈ ws ∧ generation? e'.before.db g = some x ∧
    x.createdAt = e.before.clock) ∨
  ∃ x, generation? S.db g = some x ∧ x.userId = u ∧ x.createdAt = e.before.clock

/-- What is kept of an event is kept while the generation does not change. -/
theorem Kept.mono {e : REntry} {u : Id} (h : Kept S e u g) (htr : S.trace <:+ S'.trace)
    (hdb : generation? S'.db g = generation? S.db g) : Kept S' e u g := by
  rcases h with ⟨e', he', h⟩ | ⟨e', he', h⟩ | h
  · exact Or.inl ⟨e', htr.subset he', h⟩
  · exact Or.inr (Or.inl ⟨e', htr.subset he', h⟩)
  · rw [← hdb] at h
    exact Or.inr (Or.inr h)

/-- A commit keeps the row of a generation, or is why it is gone. -/
theorem Kept.commit {e : REntry} {u : Id} {s : Site} {ws : List (Write Row Key)}
    (h : Kept S e u g) (heff : Effect cfg t s ws S) : Kept (S.commit t s ws) e u g := by
  have hsuffix : S.trace <:+ (S.commit t s ws).trace := List.suffix_cons _ _
  let entry : REntry := ⟨t, .commit s ws, S.toScene⟩
  have hentry : entry ∈ (S.commit t s ws).trace := List.mem_cons_self
  rcases h with ⟨e', he', h⟩ | ⟨e', he', h⟩ | ⟨x, hx, hu, hcreated⟩
  · exact Or.inl ⟨e', hsuffix.subset he', h⟩
  · exact Or.inr (Or.inl ⟨e', hsuffix.subset he', h⟩)
  · cases hy : generation? (applyAll ws S.db) g with
    | some y =>
        have horigin := heff.origin hx hy
        exact Or.inr (Or.inr ⟨y, hy, horigin.userId.trans hu, horigin.createdAt.trans hcreated⟩)
    | none =>
        obtain ⟨herase, rfl | rfl⟩ := heff.generation_gone hx hy
        · exact Or.inl ⟨entry, hentry, ws, rfl, List.ne_nil_of_mem herase⟩
        · exact Or.inr (Or.inl ⟨entry, hentry, _, ws, x, rfl, herase, hx, hcreated⟩)

/-- The row of a started generation stays until it is compensated or
deleted with its report. -/
theorem Runs.kept (hstart : Begins start) (h : Runs (contract cfg start) S) {e : REntry}
    (he : e ∈ S.trace) {u : Id} (hs : startOf e = some (u, g)) : Kept S e u g := by
  revert e
  refine h.invariant (I := fun S => ∀ {e}, e ∈ S.trace → startOf e = some (u, g) → Kept S e u g)
    ?_ ?_
  · intro e he
    rw [show (contract cfg start).start.trace = [] from hstart.trace] at he
    cases he
  · intro j S S' _ ih hm e he hs
    rcases hm.commit_or with ⟨s, ws, hC, -, rfl⟩ | ⟨hdb, htr | ⟨ev, hev, htr⟩⟩
    · rcases List.mem_cons.mp he with rfl | he
      · obtain ⟨r, k, ws', hevent, hne⟩ := startOf_eq_some hs
        cases hevent
        obtain ⟨report, user, -, hrow⟩ := Starts.row hC.1 hne
        exact Or.inr (Or.inr ⟨_, hrow, rfl, rfl⟩)
      · exact (ih he hs).commit hC.1
    · rw [htr] at he
      exact (ih he hs).mono hm.trace_suffix (by rw [hdb])
    · rw [htr] at he
      rcases List.mem_cons.mp he with rfl | he
      · obtain ⟨_, _, _, hevent, -⟩ := startOf_eq_some hs
        exact absurd hevent (hev _ _)
      · exact (ih he hs).mono hm.trace_suffix (by rw [hdb])

end FastRep.Reports
