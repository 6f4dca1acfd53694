/-
The asset limits of a report: when the READY assets of a report stay within
the configured limits (`within_asset_limits`).

`createPendingAsset` reserves a slot: on the rows of its first query it
counts the assets that are READY or pending and not before its cutoff, and
it reads the clock for the cutoff some time after that query. An asset keeps
its slot when it becomes READY, its type, its position and its size included
(`slot_verified`).

# What is kept

An upload loses its slot when some reservation leaves it out as expired. The
slots that count are those of the assets that are READY, and of the pending
ones that had not expired when the last asset was reserved
(`reservedUntil`). These fit (`Runs.slots_fit`):

- a reservation counts at least them, since its cutoff is not after the
  creation of its own asset, and adds one slot that fits beside what it
  counted (`Reserving.fits`);
- a confirmation turns one of them READY, if it is in time
  (`confirmsInTime`): the upload has not expired for any asset of the report
  that was reserved until then;
- every other commit leaves them or takes one away.

A duplicate of a report starts with copies of the READY assets that were found
with the source, so it is within the limits where the source was
(`Duplicates.fits`). `CopiedFrom` follows the duplicates back, and
`ConfirmedInTime` is the condition on all the reports it finds.

An upload that expires while a confirmation is looking at its object loses
its slot and becomes READY all the same (`asset_limit_exceeded`), also where
it is confirmed before it expires, but after the snapshot of a reservation
that reads the clock later (`confirmedAfterSnapshot`).
-/
import FastRep.Reports.Proofs.Lifecycle
import FastRep.Reports.Proofs.Reached
import Mathlib.Algebra.GroupWithZero.Nat
import Mathlib.Algebra.Order.BigOperators.Group.List
import Mathlib.Algebra.Order.Group.Nat
import Mathlib.Data.List.Perm.Subperm

namespace FastRep.Reports

open FastRep.Txn

variable {cfg : Config} {start S S' : RState} {t : Tid} {s : Site} {ws : List (Write Row Key)}
  {w : RWorld} {r : Id}

-- ================================================================ slots

/-- What an asset takes up in its report. -/
structure Slot where
  id : Id
  type : ReportAssetType
  position : Nat
  bytes : Nat

def ReportAsset.slot (a : ReportAsset) : Slot :=
  ⟨a.id, a.type, a.position, a.verifiedSize.getD a.declaredSize⟩

/-- The slots of a report, for a time that decides which uploads have
expired. -/
def slots (cfg : Config) (reportId : Id) (now : Time) (d : Db Row) : List Slot :=
  (activeAssets cfg reportId now d).map ReportAsset.slot

/-- Slots within the limits. -/
structure Fits (cfg : Config) (l : List Slot) : Prop where
  count : ∀ type, (l.filter fun x => x.type = type).length ≤ cfg.maximumCount type
  bytes : (l.map (·.bytes)).sum ≤ cfg.reportMaxTotalAssetBytes
  positions : (l.map (·.position)).Nodup

/-- Fewer slots hold fewer bytes. -/
theorem sum_bytes_le {l l' : List Slot} (hsub : l.Subperm l') :
    (l.map (·.bytes)).sum ≤ (l'.map (·.bytes)).sum := by
  obtain ⟨l₀, hperm, hsub⟩ := hsub
  rw [← List.Perm.sum_nat (hperm.map _)]
  exact (hsub.map _).sum_le_sum fun _ _ => Nat.zero_le _

/-- Fewer slots fit as well. -/
theorem Fits.subperm {l l' : List Slot} (h : Fits cfg l') (hsub : l.Subperm l') : Fits cfg l := by
  have hbytes := sum_bytes_le hsub
  obtain ⟨l₀, hperm, hsub⟩ := hsub
  constructor
  · intro type
    rw [← (hperm.filter _).length_eq]
    exact Nat.le_trans (hsub.filter _).length_le (h.count type)
  · exact Nat.le_trans hbytes h.bytes
  · rw [← (hperm.map _).nodup_iff]
    exact h.positions.sublist (hsub.map _)

/-- The assets that count: the READY ones, and the pending ones that were
created after the cutoff. -/
theorem mem_activeAssets {now : Time} {d : Db Row} {x : ReportAsset} :
    x ∈ activeAssets cfg r now d ↔ asset? d x.id = some x ∧ x.reportId = r ∧
      (x.status = .ready ∨ (x.status = .pendingUpload ∧ cfg.pendingCutoff now ≤ x.createdAt)) := by
  rw [activeAssets, List.mem_filter, mem_assets]
  simp only [Bool.and_eq_true, Bool.or_eq_true, decide_eq_true_eq]

theorem nodup_assets {d : Db Row} : ((assets d).map (·.id)).Nodup :=
  nodup_table (k := Key.asset) (fun r x h => by cases r <;> simp_all [key]) d

/-- No two slots belong to one asset. -/
theorem nodup_slots {d : Db Row} {p : ReportAsset → Bool} :
    (((assets d).filter p).map ReportAsset.slot).Nodup := by
  refine List.Nodup.of_map Slot.id ?_
  rw [List.map_map]
  exact nodup_assets.sublist (List.filter_sublist.map _)

-- ============================================================ one commit

/-- The creation time of the asset of the report that a step reserves. -/
def reservedAt (reportId : Id) (e : REntry) : Time :=
  match e.event with
  | .commit (.createPendingAsset _) [.insert (.asset x)] =>
      if x.reportId = reportId then x.createdAt else 0
  | _ => 0

/-- The last creation time of an asset that was reserved in the report. -/
def reservedUntil (reportId : Id) : List REntry → Time
  | [] => 0
  | e :: past => max (reservedAt reportId e) (reservedUntil reportId past)

/-- A step that makes an asset of the report READY finds an upload that has
not expired at the creation of any asset reserved until then. -/
def inTime (cfg : Config) (reportId : Id) (e : REntry) (past : List REntry) : Bool :=
  match e.event with
  | .commit (.markReady a) (_ :: _) => (asset? e.before.db a).all fun x =>
      x.reportId ≠ reportId || cfg.pendingCutoff (reservedUntil reportId past) ≤ x.createdAt
  | _ => true

/-- All confirmations of a report are in time. -/
def confirmsInTime (cfg : Config) (reportId : Id) : List REntry → Bool
  | [] => true
  | e :: past => inTime cfg reportId e past && confirmsInTime cfg reportId past

/-- A condition on the whole history holds of its beginning. -/
theorem confirmsInTime_of_suffix {l l' : List REntry} (hl : l <:+ l')
    (h : confirmsInTime cfg r l' = true) : confirmsInTime cfg r l = true := by
  induction l' with
  | nil =>
      rw [List.suffix_nil.mp hl]
      rfl
  | cons e past ih =>
      rcases List.suffix_cons_iff.mp hl with rfl | hl
      · exact h
      · exact ih hl ((Bool.and_eq_true _ _).mp h).2

/-- The time of the last reservation does not go back. -/
theorem reservedUntil_of_suffix {l l' : List REntry} (hl : l <:+ l') :
    reservedUntil r l ≤ reservedUntil r l' := by
  induction l' with
  | nil =>
      rw [List.suffix_nil.mp hl]
  | cons e past ih =>
      rcases List.suffix_cons_iff.mp hl with rfl | hl
      · exact Nat.le_refl _
      · exact Nat.le_trans (ih hl) (Nat.le_max_right ..)

/-- Fewer uploads are unexpired at a later time. -/
theorem mem_activeAssets_of_le {now later : Time} {d : Db Row} {x : ReportAsset}
    (hle : now ≤ later) (hx : x ∈ activeAssets cfg r later d) : x ∈ activeAssets cfg r now d := by
  obtain ⟨hstored, hr, hactive⟩ := mem_activeAssets.mp hx
  exact mem_activeAssets.mpr ⟨hstored, hr, hactive.imp_right fun h =>
    ⟨h.1, Nat.le_trans (Nat.sub_le_sub_right hle _) h.2⟩⟩

/-- As time passes, assets only stop counting. -/
theorem subperm_slots {now later : Time} {d : Db Row} (hle : now ≤ later) :
    (slots cfg r later d).Subperm (slots cfg r now d) := by
  refine List.Nodup.subperm nodup_slots fun y hy => ?_
  obtain ⟨z, hz, rfl⟩ := List.mem_map.mp hy
  exact List.mem_map_of_mem (mem_activeAssets_of_le hle hz)

/-- The assets a duplication finds with its source. -/
theorem mem_sourceAssets {d : Db Row} {x : ReportAsset} :
    x ∈ sourceAssets r d ↔ asset? d x.id = some x ∧ x.reportId = r ∧ x.status = .ready := by
  rw [sourceAssets, List.mem_insertionSort, List.mem_filter, mem_assets]
  simp only [Bool.and_eq_true, decide_eq_true_eq]

/-- The size of a stored asset is verified with its status. -/
def Sized (S : RState) (a : Id) : Prop :=
  ∀ x, asset? S.db a = some x → (x.status = .pendingUpload → x.verifiedSize = none) ∧
    (x.status = .ready → x.verifiedSize.isSome = true)

/-- In every state of a run an asset has a verified size exactly once it is
READY: a copy has that of its source, which was READY. -/
theorem Runs.sized (hstart : Begins start) (h : Runs (contract cfg start) S) (a : Id) :
    Sized S a := by
  revert a
  refine h.invariant_of_past (I := fun S => ∀ a, Sized S a) ?_ ?_
  · intro a x hx
    have hnone := asset?_eq_none.mpr (hstart.unused.find?_eq_none (k := .asset a)
      (by simp [Key.table]) (by simp [Key.table]))
    exact absurd (hx.symm.trans hnone) (by simp)
  · intro j S S' hruns ih hpast hm a x hx
    rcases hm.commit_or with ⟨s, ws, hC, -, rfl⟩ | ⟨hdb, -⟩
    · rcases hC.1.asset a with hsame | hchange
      · exact ih a x (hsame ▸ hx)
      · rw [show asset? (applyAll ws S.db) a = some x from hx] at hchange
        cases hbefore : asset? S.db a with
        | none =>
            rw [hbefore] at hchange
            cases hchange with
            | created _ hreserving =>
                obtain ⟨y, _, _, _, _, hws, -, hpending, hsize, -⟩ := hreserving
                cases hws
                exact ⟨fun _ => hsize, fun hready => by rw [hpending] at hready; cases hready⟩
            | copied i u source createdAt c _ _ _ honce =>
                obtain ⟨e, he, hsource⟩ := honce
                obtain ⟨S₀, S₁, hfound⟩ := Runs.since hstart.trace hruns he
                rw [← hfound.scene] at hsource
                obtain ⟨hstored, -, hready⟩ := mem_sourceAssets.mp hsource
                exact ⟨fun h => (by cases h),
                  fun _ => (hpast e S₀ S₁ hfound c.source.id c.source hstored).2 hready⟩
        | some y =>
            rw [hbefore] at hchange
            cases hchange with
            | verified => exact ⟨fun h => (by cases h), fun _ => rfl⟩
            | rejected => exact ⟨fun h => (by cases h), fun h => (by cases h)⟩
    · exact ih a x (hdb ▸ hx)

/-- A confirmed asset keeps its slot: the object had the declared size. -/
theorem slot_verified (hstart : Begins start) (h : Runs (contract cfg start) S)
    {x y : ReportAsset} {inspection : AssetInspection} {size : Nat}
    (hx : asset? S.db x.id = some x) (hpending : x.status = .pendingUpload) (hid : y.id = x.id)
    (hinspected : Inspected cfg S t y inspection size) :
    (x.verified inspection size).slot = x.slot := by
  have hsize := ((Runs.sized hstart h x.id) x hx).1 hpending
  obtain ⟨e, he, hy⟩ := hinspected.read
  have hsame := (h.persists (lasting_asset hstart y.id)).same e he y x hy (by rw [hid]; exact hx)
  have hdeclared : size = y.declaredSize := by
    have hok := hinspected.size_ok
    unfold sizeRejection at hok
    split at hok
    next => cases hok
    next =>
        split at hok
        next => cases hok
        next hne => exact not_not.mp (not_or.mp hne).2
  unfold ReportAsset.slot ReportAsset.verified
  rw [hsize, hdeclared, ← hsame.declaredSize]
  rfl

/-- An asset with a slot after a commit had it before, or the commit reserved
it, or created its report as a duplicate. -/
theorem Effect.slot_kept (hstart : Begins start) (h : Runs (contract cfg start) S)
    (heff : Effect cfg t s ws S) {now : Time}
    (htime : ∀ a x, s = .markReady a → ws ≠ [] → asset? S.db a = some x → x.reportId = r →
      cfg.pendingCutoff now ≤ x.createdAt) {x : ReportAsset}
    (hx : x ∈ activeAssets cfg r now (applyAll ws S.db)) :
    x.slot ∈ slots cfg r now S.db ∨
      (s = .createPendingAsset x.id ∧ Reserving cfg t x.id [.insert (.asset x)] S) ∨
      s = .duplicateReport r := by
  obtain ⟨hafter, hr, hactive⟩ := mem_activeAssets.mp hx
  rcases heff.asset x.id with hsame | hchange
  · refine Or.inl (List.mem_map_of_mem (mem_activeAssets.mpr ⟨?_, hr, hactive⟩))
    rw [← hsame]
    exact hafter
  · rw [hafter] at hchange
    cases hbefore : asset? S.db x.id with
    | none =>
        rw [hbefore] at hchange
        cases hchange with
        | created _ hreserving => exact Or.inr (Or.inl ⟨rfl, hreserving⟩)
        | copied i => exact Or.inr (Or.inr (congrArg Site.duplicateReport hr))
    | some y =>
        have hid : y.id = x.id := asset?_id hbefore
        rw [hbefore] at hchange
        generalize hx₀ : some x = o at hchange
        cases hchange with
        | verified _ y' inspection size hpending hid' hinspected =>
            cases hx₀
            have hne : ws ≠ [] := by
              rintro rfl
              have hstatus := congrArg (Option.map ReportAsset.status) (hbefore.symm.trans hafter)
              simp [hpending, ReportAsset.verified] at hstatus
            have hy : asset? S.db y.id = some y := hbefore
            have hslot := slot_verified hstart h hy hpending hid' hinspected
            refine Or.inl ?_
            rw [hslot]
            exact List.mem_map_of_mem (mem_activeAssets.mpr
              ⟨hy, hr, Or.inr ⟨hpending, htime _ y rfl hne hy hr⟩⟩)
        | rejected =>
            cases hx₀
            simp [ReportAsset.rejected] at hactive
        | _ => cases hx₀

/-- A reservation writes the asset it leaves. -/
theorem Reserving.writes {x : ReportAsset} (h : Reserving cfg t x.id ws S)
    (hx : asset? (applyAll ws S.db) x.id = some x) : ws = [.insert (.asset x)] := by
  obtain ⟨y, _, _, _, _, rfl, hid, -⟩ := h
  rw [asset?_of_write rfl, if_pos hid] at hx
  cases hx
  rfl

/-- A reserved slot fits beside those that count until its creation: all of
them were counted. -/
theorem Reserving.fits {x : ReportAsset} {last : Time}
    (h : Reserving cfg t x.id [.insert (.asset x)] S) (huntil : x.createdAt ≤ last)
    (hfits : Fits cfg (slots cfg x.reportId last S.db)) :
    Fits cfg (x.slot :: slots cfg x.reportId last S.db) := by
  obtain ⟨y, _, _, _, now, hws, -, -, hsize, -, hnow, -, -, -, -, -, -, hcount, hbytes,
    hposition⟩ := h
  cases hws
  have hslot : x.slot = ⟨x.id, x.type, x.position, x.declaredSize⟩ := by
    rw [ReportAsset.slot, hsize]
    rfl
  have hcounted := @subperm_slots cfg x.reportId _ _ S.db
    (Nat.le_trans hnow huntil)
  have hlen : ((slots cfg x.reportId now S.db).filter fun y => y.type = x.type).length
      = ((activeAssets cfg x.reportId now S.db).filter fun y => y.type = x.type).length := by
    rw [slots, List.filter_map, List.length_map]
    rfl
  constructor
  · intro type
    by_cases htype : x.type = type
    · subst htype
      rw [hslot, List.filter_cons_of_pos (by simp), List.length_cons]
      have hle := (hcounted.filter fun y => decide (y.type = x.type)).length_le
      omega
    · rw [hslot, List.filter_cons_of_neg (by simpa using htype)]
      exact hfits.count type
  · have hsum : ((slots cfg x.reportId now S.db).map (·.bytes)).sum
        = reservedBytes (activeAssets cfg x.reportId now S.db) := by
      rw [slots, List.map_map]
      rfl
    have hle := sum_bytes_le hcounted
    rw [List.map_cons, List.sum_cons, hslot]
    show x.declaredSize + _ ≤ _
    omega
  · rw [List.map_cons, List.nodup_cons, hslot]
    refine ⟨fun hmem => ?_, hfits.positions⟩
    rw [slots, List.map_map] at hmem
    obtain ⟨y, hy, hyx⟩ := List.mem_map.mp hmem
    have hlt := hposition y (mem_activeAssets_of_le (Nat.le_trans hnow huntil) hy)
    rw [show y.position = x.position from hyx] at hlt
    exact Nat.lt_irrefl _ hlt

-- =========================================================== duplications

/-- What the limits look at in a slot: its type, its position and its bytes. -/
def Slot.load (x : Slot) : ReportAssetType × Nat × Nat := (x.type, x.position, x.bytes)

/-- Slots of other assets with the same loads fit as well. -/
theorem Fits.of_loads {l l' : List Slot} (h : Fits cfg l)
    (hloads : l'.map Slot.load = l.map Slot.load) : Fits cfg l' := by
  have hpart : ∀ {β : Type} (f : ReportAssetType × Nat × Nat → β),
      l'.map (fun x => f x.load) = l.map (fun x => f x.load) := by
    intro β f
    have hf := congrArg (List.map f) hloads
    rwa [List.map_map, List.map_map] at hf
  constructor
  · intro type
    have hcount := congrArg (List.countP fun x => decide (x = type)) (hpart (·.1))
    rw [List.countP_map, List.countP_map] at hcount
    rw [← List.countP_eq_length_filter]
    refine Nat.le_trans (Nat.le_of_eq hcount) ?_
    rw [List.countP_eq_length_filter]
    exact h.count type
  · rw [show l'.map (·.bytes) = l.map (·.bytes) from hpart (·.2.2)]
    exact h.bytes
  · rw [show l'.map (·.position) = l.map (·.position) from hpart (·.2.1)]
    exact h.positions

/-- The assets a duplication finds take up slots at any time. -/
theorem subperm_sourceAssets {now : Time} {d : Db Row} :
    ((sourceAssets r d).map ReportAsset.slot).Subperm (slots cfg r now d) := by
  refine List.Nodup.subperm ?_ fun y hy => ?_
  · exact ((List.perm_insertionSort _ _).map _).nodup_iff.mpr nodup_slots
  · obtain ⟨x, hx, rfl⟩ := List.mem_map.mp hy
    obtain ⟨hstored, hr, hready⟩ := mem_sourceAssets.mp hx
    exact List.mem_map_of_mem (mem_activeAssets.mpr ⟨hstored, hr, Or.inl hready⟩)

/-- A new report has the slots of its source, as they were found. -/
theorem Duplicates.fits (h : Duplicates t r ws S)
    (hnew : ∀ x, asset? S.db x.id = some x → x.reportId ≠ r) {now : Time}
    (hsource : ∀ u source, (t, Req.duplicateReport u source) ∈ S.live → ∀ e ∈ S.trace,
      Fits cfg ((sourceAssets source e.before.db).map ReportAsset.slot)) :
    Fits cfg (slots cfg r now (applyAll ws S.db)) := by
  obtain ⟨u, source, title, notes, createdAt, copies, rfl, -, -, -, hnodup, -, hlive, e, he,
    hcopies⟩ := h
  have hcopied : Fits cfg (copies.map fun c => (c.row r createdAt).slot) := by
    refine (hsource u source hlive e he).of_loads ?_
    rw [← hcopies, List.map_map, List.map_map, List.map_map]
    rfl
  refine hcopied.subperm (List.Nodup.subperm nodup_slots fun y hy => ?_)
  obtain ⟨x, hx, rfl⟩ := List.mem_map.mp hy
  obtain ⟨hstored, hr, -⟩ := mem_activeAssets.mp hx
  rcases asset?_duplicate (newReport r u title notes createdAt) r createdAt hnodup S.db x.id with
    hsame | ⟨c, hc, -, hrow⟩
  · exact absurd hr (hnew x (hsame ▸ hstored))
  · cases hstored.symm.trans hrow
    exact List.mem_map.mpr ⟨c, hc, rfl⟩

/-- The report of a stored asset was created. -/
theorem Runs.report_of_asset (hstart : Begins start) (h : Runs (contract cfg start) S) :
    ∀ a x, asset? S.db a = some x → Created S x.reportId := by
  refine h.invariant (I := fun S => ∀ a x, asset? S.db a = some x → Created S x.reportId) ?_ ?_
  · intro a x hx
    have hnone := asset?_eq_none.mpr (hstart.unused.find?_eq_none (k := .asset a)
      (by simp [Key.table]) (by simp [Key.table]))
    exact absurd (hx.symm.trans hnone) (by simp)
  · intro j S S' hruns ih hm a x hx
    rcases hm.commit_or with ⟨s, ws, hC, -, rfl⟩ | ⟨hdb, -⟩
    · cases hbefore : asset? S.db a with
      | some y =>
          rw [(hC.1.upload hbefore hx).reportId]
          exact (ih a y hbefore).mono hm.trace_suffix
      | none =>
          rcases hC.1.asset a with hsame | hchange
          · exact absurd (hsame.symm.trans hx) (by simp [hbefore])
          · rw [hbefore, show asset? (applyAll ws S.db) a = some x from hx] at hchange
            cases hchange with
            | created _ hreserving =>
                obtain ⟨y, z, _, _, _, hws, -, -, -, -, -, -, -, -, -, hz, -⟩ := hreserving
                cases hws
                exact Created.mono ((hruns.persists (lasting_report hstart _)).created z hz)
                  hm.trace_suffix
            | copied i => exact ⟨_, List.mem_cons_self, List.mem_cons_self⟩
    · exact (ih a x (hdb ▸ hx)).mono hm.trace_suffix

/-- The assets of the first report go back to the second one: it is the same
report, or a duplicate of one whose assets do. -/
inductive CopiedFrom (l : List REntry) : Id → Id → Prop
  | refl (r : Id) : CopiedFrom l r r
  | step {r u source origin : Id} {e : REntry} {ws : List (Write Row Key)} : e ∈ l →
      e.event = .commit (.duplicateReport r) ws →
      (e.tid, Req.duplicateReport u source) ∈ e.before.live →
      CopiedFrom l source origin → CopiedFrom l r origin

/-- What a duplicate goes back to, it goes back to in any longer history. -/
theorem CopiedFrom.mono {l l' : List REntry} {origin : Id} (h : CopiedFrom l r origin)
    (hl : l ⊆ l') : CopiedFrom l' r origin := by
  induction h with
  | refl => exact .refl _
  | step he hev hlive _ ih => exact .step (hl he) hev hlive ih

/-- The confirmations that count for a report are in time: its own, and those
of the reports its assets go back to. -/
def ConfirmedInTime (cfg : Config) (reportId : Id) (l : List REntry) : Prop :=
  ∀ origin, CopiedFrom l reportId origin → confirmsInTime cfg origin l = true

/-- They were in time for the beginning of the history. -/
theorem ConfirmedInTime.of_suffix {l l' : List REntry} (h : ConfirmedInTime cfg r l')
    (hl : l <:+ l') : ConfirmedInTime cfg r l :=
  fun origin hfrom => confirmsInTime_of_suffix hl (h origin (hfrom.mono hl.subset))

/-- The entry creates the report as a duplicate. -/
def duplicates (reportId : Id) (e : REntry) : Bool :=
  match e.event with
  | .commit (.duplicateReport i) _ => i = reportId
  | _ => false

/-- For a report that is no duplicate only its own confirmations count. -/
theorem ConfirmedInTime.of_original {l : List REntry} (h : l.all (fun e => !duplicates r e) = true)
    (htime : confirmsInTime cfg r l = true) : ConfirmedInTime cfg r l := by
  intro origin hfrom
  cases hfrom with
  | refl => exact htime
  | step he hev =>
      have hnot := List.all_eq_true.mp h _ he
      simp [duplicates, hev] at hnot

/-- A step that creates the report as a duplicate does so for a request that
names this source. -/
def duplicatesFrom (reportId sourceId : Id) (e : REntry) : Bool :=
  !duplicates reportId e || e.before.live.all fun l => match l.2 with
    | .duplicateReport _ source => l.1 ≠ e.tid || source = sourceId
    | _ => true

/-- For a duplicate those of its source count as well. -/
theorem ConfirmedInTime.of_duplicate {l : List REntry} {source : Id}
    (hsource : ConfirmedInTime cfg source l) (h : l.all (duplicatesFrom r source) = true)
    (htime : confirmsInTime cfg r l = true) : ConfirmedInTime cfg r l := by
  intro origin hfrom
  cases hfrom with
  | refl => exact htime
  | step he hev hlive hfrom =>
      have hnamed := List.all_eq_true.mp h _ he
      simp only [duplicatesFrom, duplicates, hev, decide_true, Bool.not_true, Bool.false_or,
        List.all_eq_true] at hnamed
      have hsame := hnamed _ hlive
      simp only [ne_eq, not_true_eq_false, decide_false, Bool.false_or, decide_eq_true_eq] at hsame
      exact hsource origin (hsame ▸ hfrom)

-- ================================================================= the run

/-- The slots that count until the last reservation are within the limits,
as long as the confirmations are in time. -/
theorem Runs.slots_fit (hstart : Begins start) (h : Runs (contract cfg start) S) :
    ∀ r, ConfirmedInTime cfg r S.trace → Fits cfg (slots cfg r (reservedUntil r S.trace) S.db) := by
  refine h.invariant_of_past (I := fun S => ∀ r, ConfirmedInTime cfg r S.trace →
    Fits cfg (slots cfg r (reservedUntil r S.trace) S.db)) ?_ ?_
  · intro r _
    have hempty : ∀ now, slots cfg r now (contract cfg start).start.db = [] := by
      refine fun now => List.map_eq_nil_iff.mpr (List.eq_nil_iff_forall_not_mem.mpr fun x hx => ?_)
      have hnone := asset?_eq_none.mpr (hstart.unused.find?_eq_none (k := .asset x.id)
        (by simp [Key.table]) (by simp [Key.table]))
      exact absurd ((mem_activeAssets.mp hx).1.symm.trans hnone) (by simp)
    rw [hempty]
    exact ⟨fun type => Nat.zero_le _, Nat.zero_le _, List.nodup_nil⟩
  · intro j S S' hruns ih hpast hm r htime
    -- a later time leaves fewer slots to count
    have hfits : Fits cfg (slots cfg r (reservedUntil r S'.trace) S.db) :=
      (ih r (htime.of_suffix hm.trace_suffix)).subperm
        (subperm_slots (reservedUntil_of_suffix hm.trace_suffix))
    rcases hm.commit_or with ⟨s, ws, hC, -, rfl⟩ | ⟨hdb, -⟩
    · by_cases hdup : s = .duplicateReport r
      · subst hdup
        refine Duplicates.fits (t := j) hC.1 (fun x hx hr => ?_) fun u source hlive e he => ?_
        · -- no asset is older than its report
          obtain ⟨e, he, hi⟩ := Runs.report_of_asset hstart hruns x.id x hx
          rw [hr] at hi
          exact Runs.not_created_again hstart hruns hm he hi List.mem_cons_self
        · obtain ⟨S₀, S₁, hfound⟩ := Runs.since hstart.trace hruns he
          rw [← hfound.scene]
          have hsuffix : S₀.trace <:+ (S.commit j (.duplicateReport r) ws).trace :=
            ((List.suffix_cons _ _).trans hfound.suffix).trans hm.trace_suffix
          refine (hpast e S₀ S₁ hfound source fun origin hfrom => ?_).subperm subperm_sourceAssets
          exact confirmsInTime_of_suffix hsuffix (htime origin
            (.step List.mem_cons_self rfl hlive (hfrom.mono hsuffix.subset)))
      have hmark : ∀ a x, s = .markReady a → ws ≠ [] → asset? S.db a = some x →
          x.reportId = r →
          cfg.pendingCutoff (reservedUntil r (S.commit j s ws).trace) ≤ x.createdAt := by
        rintro a x rfl hne hx hr
        have hentry := ((Bool.and_eq_true _ _).mp (htime r (.refl r))).1
        have huntil : reservedUntil r (S.commit j (.markReady a) ws).trace
            = reservedUntil r S.trace := Nat.max_eq_right (Nat.zero_le _)
        rw [huntil]
        cases ws with
        | nil => exact absurd rfl hne
        | cons w ws => simpa [inTime, hx, hr] using hentry
      have hslot := fun {x} hx => hC.1.slot_kept (x := x) hstart hruns hmark hx
      by_cases hnew : ∃ x ∈ activeAssets cfg r (reservedUntil r (S.commit j s ws).trace)
          (applyAll ws S.db), s = .createPendingAsset x.id ∧
            Reserving cfg j x.id [.insert (.asset x)] S
      · obtain ⟨x, hx, rfl, hreserving⟩ := hnew
        obtain ⟨hstored, rfl, -⟩ := mem_activeAssets.mp hx
        have huntil : x.createdAt ≤ reservedUntil x.reportId
            (S.commit j (.createPendingAsset x.id) ws).trace := by
          obtain rfl := Reserving.writes hC.1 hstored
          refine Nat.le_trans (Nat.le_of_eq ?_) (Nat.le_max_left ..)
          exact (if_pos rfl).symm
        refine (hreserving.fits huntil hfits).subperm
          (List.Nodup.subperm nodup_slots fun y hy => ?_)
        obtain ⟨z, hz, rfl⟩ := List.mem_map.mp hy
        rcases hslot hz with hold | ⟨hsite, -⟩ | hsite
        · exact List.mem_cons_of_mem _ hold
        · -- a reservation creates one asset
          have hxz := (mem_activeAssets.mp hz).1
          rw [← Site.createPendingAsset.inj hsite] at hxz
          cases hstored.symm.trans hxz
          exact List.mem_cons_self
        · cases hsite
      · refine hfits.subperm (List.Nodup.subperm nodup_slots fun y hy => ?_)
        obtain ⟨z, hz, rfl⟩ := List.mem_map.mp hy
        rcases hslot hz with hold | hreserving | hsite
        · exact hold
        · exact absurd ⟨z, hz, hreserving⟩ hnew
        · exact absurd hsite hdup
    · rw [hdb]
      exact hfits

/-- The READY assets of a report. -/
def readyAssets (reportId : Id) (d : Db Row) : List ReportAsset :=
  (assets d).filter fun a => a.reportId = reportId && a.status = .ready

/-- What a report finally contains is within the limits. -/
structure WithinAssetLimits (cfg : Config) (reportId : Id) (d : Db Row) : Prop where
  count : ∀ type, ((readyAssets reportId d).filter fun a => a.type = type).length
    ≤ cfg.maximumCount type
  verified : ∀ a ∈ readyAssets reportId d, a.verifiedSize.isSome = true
  bytes : ((readyAssets reportId d).map fun a => a.verifiedSize.getD 0).sum
    ≤ cfg.reportMaxTotalAssetBytes
  positions : ((readyAssets reportId d).map (·.position)).Nodup

/-- In every run whose confirmations are in time, the READY assets of a
report are within the limits. -/
theorem within_asset_limits (h : Reached cfg w) (htime : ConfirmedInTime cfg r w.shared.trace) :
    WithinAssetLimits cfg r w.shared.db := by
  obtain ⟨start, hstart, hruns⟩ := h.runs
  have hmem : ∀ a ∈ readyAssets r w.shared.db,
      asset? w.shared.db a.id = some a ∧ a.reportId = r ∧ a.status = .ready := by
    intro a ha
    simpa only [readyAssets, List.mem_filter, mem_assets, Bool.and_eq_true, decide_eq_true_eq]
      using ha
  have hverified : ∀ a ∈ readyAssets r w.shared.db, a.verifiedSize.isSome = true :=
    fun a ha => (Runs.sized hstart hruns a.id a (hmem a ha).1).2 (hmem a ha).2.2
  have hfits : Fits cfg ((readyAssets r w.shared.db).map ReportAsset.slot) := by
    refine (Runs.slots_fit hstart hruns r htime).subperm
      (List.Nodup.subperm nodup_slots fun y hy => ?_)
    obtain ⟨a, ha, rfl⟩ := List.mem_map.mp hy
    obtain ⟨hstored, hr, hready⟩ := hmem a ha
    exact List.mem_map_of_mem (mem_activeAssets.mpr ⟨hstored, hr, Or.inl hready⟩)
  constructor
  · intro type
    have hcount := hfits.count type
    rw [List.filter_map, List.length_map] at hcount
    exact hcount
  · exact hverified
  · have hbytes := hfits.bytes
    rw [List.map_map] at hbytes
    rw [List.map_congr_left (g := fun a => a.slot.bytes)]
    · exact hbytes
    · intro a ha
      obtain ⟨size, hsize⟩ := Option.isSome_iff_exists.mp (hverified a ha)
      simp [ReportAsset.slot, hsize]
  · have hpositions := hfits.positions
    rw [List.map_map] at hpositions
    exact hpositions

-- ================================================================ two runs

/-- One audio file for each report, and a minute to upload it. -/
def oneAudioFile : Config :=
  { defaults with reportMaxAudioFiles := 1, pendingUploadTtlMinutes := 1 }

/-- The upload of asset 12 has expired when a minute has passed after the
snapshot of the second request; asset 14 is reserved in its place and
confirmed. -/
def confirmedInPlace : List (Action Req Choice) :=
  reportCreated ++ .spawn 3 (.requestUpload 1 10 .audio "audio/mpeg" 2 "a") :: steps 3 13
    ++ .answer 3 .done :: .step 3
    :: .spawn 5 (.requestUpload 1 10 .audio "audio/mpeg" 2 "a") :: steps 5 12
    ++ .stepLate 5 [60001, 1] :: .tick 60002 :: .answer 5 .done :: .step 5
    :: .ambient (.post (.asset 1 10 14 15) [0xff, 0xfb])
    :: .spawn 6 (.confirmUpload 1 10 14) :: steps 6 7
    ++ .answer 6 .done :: .answer 6 .done :: steps 6 7

/-- A file that is confirmed in time counts as one, and one whose upload has
expired does not; the duplicate of a report has a copy of its one file. -/
theorem within_asset_limits_confirmed :
    (∃ w, Reached oneAudioFile w ∧ (assets w.shared.db).length = 2 ∧
      (readyAssets 10 w.shared.db).length = 1 ∧ WithinAssetLimits oneAudioFile 10 w.shared.db) ∧
    ∃ w, Reached oneAudioFile w ∧ (readyAssets 16 w.shared.db).length = 1 ∧
      WithinAssetLimits oneAudioFile 16 w.shared.db := by
  have hplace : (sampleWorld.runAll (app oneAudioFile) confirmedInPlace).any (fun w =>
      w.shared.trace.all (fun e => !duplicates 10 e) &&
        confirmsInTime oneAudioFile 10 w.shared.trace && (assets w.shared.db).length = 2 &&
        (readyAssets 10 w.shared.db).length = 1) = true := by
    decide +kernel
  have hduplicate : (sampleWorld.runAll (app oneAudioFile) reportDuplicated).any (fun w =>
      w.shared.trace.all (duplicatesFrom 16 10) &&
        confirmsInTime oneAudioFile 16 w.shared.trace &&
        w.shared.trace.all (fun e => !duplicates 10 e) &&
        confirmsInTime oneAudioFile 10 w.shared.trace &&
        (readyAssets 16 w.shared.db).length = 1) = true := by
    decide +kernel
  constructor
  · obtain ⟨w, hw, hp⟩ := exists_reached hplace
    simp only [Bool.and_eq_true, decide_eq_true_eq] at hp
    exact ⟨w, hw, hp.1.2, hp.2,
      within_asset_limits hw (ConfirmedInTime.of_original hp.1.1.1 hp.1.1.2)⟩
  · obtain ⟨w, hw, hp⟩ := exists_reached hduplicate
    simp only [Bool.and_eq_true, decide_eq_true_eq] at hp
    obtain ⟨⟨⟨⟨hfrom, htime⟩, horiginal⟩, htime'⟩, hready⟩ := hp
    exact ⟨w, hw, hready, within_asset_limits hw
      ((ConfirmedInTime.of_original horiginal htime').of_duplicate hfrom htime)⟩

/-- A confirmation of asset 12 has looked at its object when the upload
expires; asset 14 is reserved in its place, and both are confirmed. -/
def confirmedLate : List (Action Req Choice) :=
  reportCreated ++ .spawn 3 (.requestUpload 1 10 .audio "audio/mpeg" 2 "a") :: steps 3 13
    ++ .answer 3 .done :: .step 3 :: .ambient (.post audioKey [0xff, 0xfb])
    :: .spawn 4 (.confirmUpload 1 10 12) :: steps 4 7 ++ .answer 4 .done :: .answer 4 .done
    :: .spawn 5 (.requestUpload 1 10 .audio "audio/mpeg" 2 "a") :: steps 5 12
    ++ .tick 60001 :: .step 5 :: .answer 5 .done :: .step 5 :: steps 4 7
    ++ .ambient (.post (.asset 1 10 14 15) [0xff, 0xfb])
    :: .spawn 6 (.confirmUpload 1 10 14) :: steps 6 7
    ++ .answer 6 .done :: .answer 6 .done :: steps 6 7

/-- The report contains two audio files, at one position. -/
theorem asset_limit_exceeded : ∃ cfg w, cfg.accepted = true ∧ Reached cfg w ∧
    ¬ WithinAssetLimits cfg 10 w.shared.db := by
  have hrun : (sampleWorld.runAll (app oneAudioFile) confirmedLate).any (fun w =>
      ((readyAssets 10 w.shared.db).filter fun a => a.type = .audio).length = 2) = true := by
    decide +kernel
  obtain ⟨w, hw, hp⟩ := exists_reached hrun
  refine ⟨oneAudioFile, w, by decide +kernel, hw, fun hlimits => ?_⟩
  have hle := hlimits.count .audio
  rw [of_decide_eq_true hp] at hle
  exact absurd hle (by decide)

/-- Asset 12 is confirmed a minute before it expires, but after the snapshot
of the request that reserves asset 14 in its place. -/
def confirmedAfterSnapshot : List (Action Req Choice) :=
  reportCreated ++ .spawn 3 (.requestUpload 1 10 .audio "audio/mpeg" 2 "a") :: steps 3 13
    ++ .answer 3 .done :: .step 3 :: .ambient (.post audioKey [0xff, 0xfb])
    :: .spawn 4 (.confirmUpload 1 10 12) :: steps 4 7 ++ .answer 4 .done :: .answer 4 .done
    :: .spawn 5 (.requestUpload 1 10 .audio "audio/mpeg" 2 "a") :: steps 5 12
    ++ .stepLate 5 [60001, 1] :: steps 4 7 ++ .tick 60002 :: .answer 5 .done :: .step 5
    :: .ambient (.post (.asset 1 10 14 15) [0xff, 0xfb])
    :: .spawn 6 (.confirmUpload 1 10 14) :: steps 6 7
    ++ .answer 6 .done :: .answer 6 .done :: steps 6 7

example : (sampleWorld.runAll (app oneAudioFile) confirmedAfterSnapshot).any (fun w =>
    ((readyAssets 10 w.shared.db).filter fun a => a.type = .audio).length = 2) = true := by
  decide +kernel

end FastRep.Reports
