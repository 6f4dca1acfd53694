/-
Uploads that are given up while another call confirms them.

A rejection and the expiry of an upload delete the object first and look at the
status afterwards: the guarded update to REJECTED fails where a confirmation
was faster, and by then the object of a READY asset is gone. A confirmation in
turn decides from what it has read before the object went. Where no upload is
both given up and confirmed (`undisputed`), the object of a READY asset stays.

# Why it stays

A task for the key of a stored asset is written for an upload that was given up
or with the deletion of the row (`Runs.unspoiled`). A row that is stored was
not deleted (`Runs.not_deleted`). And an asset that is READY now was READY when
its upload was given up, or a confirmation made it READY since
(`Runs.ready_since`): both are disputes.
-/
import FastRep.Reports.Proofs.AssetObjects

namespace FastRep.Reports

open FastRep.Txn

variable {cfg : Config} {start S S' : RState} {t : Tid} {s : Site} {ws : List (Write Row Key)}
  {a : Id} {x : ReportAsset} {e : REntry}

-- ============================================================ the condition

/-- The entry gives the upload of the asset up. -/
def givesUp (a : Id) (e : REntry) : Bool :=
  match e.event with
  | .enter (.rejectUpload i) | .enter (.expireUpload i) => i = a
  | _ => false

/-- The asset is stored as READY. -/
def isReady (a : Id) (d : Db Row) : Bool := (asset? d a).any (·.status = .ready)

/-- The upload is not given up when the asset is READY, and the asset does not
become READY once its upload was given up. -/
def undisputed (a : Id) : List REntry → Bool
  | [] => true
  | e :: past => !(givesUp a e && isReady a e.before.db) &&
      !(readies a e && past.any (givesUp a)) && undisputed a past

theorem givesUp_iff : givesUp a e = true ↔ GivesUp e a := by
  unfold givesUp GivesUp
  split <;> simp_all

/-- What the condition says of an entry. -/
theorem undisputed_of_split {l newer older : List REntry} (h : undisputed a l = true)
    (hl : l = newer ++ e :: older) :
    (givesUp a e = true → isReady a e.before.db = false) ∧
      (readies a e = true → older.any (givesUp a) = false) := by
  subst hl
  induction newer with
  | nil =>
      have hhead := ((Bool.and_eq_true _ _).mp h).1
      simpa [Bool.not_and, imp_iff_not_or] using hhead
  | cons e' newer ih => exact ih ((Bool.and_eq_true _ _).mp h).2

-- ============================================================ what is stored

/-- A row that was found is not inserted a second time. -/
theorem Runs.asset_stored (hstart : Begins start) (h : Runs (contract cfg start) S)
    {newer older : List REntry} (htr : S.trace = newer ++ e :: older) {e' : REntry}
    (he' : e' ∈ older) {y : ReportAsset} (hy : asset? e'.before.db a = some y)
    (hx : asset? S.db a = some x) : ∃ z, asset? e.before.db a = some z ∧ SameUpload z x := by
  obtain ⟨S₀, S₁, hpast, rfl⟩ := h.at hstart.trace htr
  have hpersists := hpast.runs.persists (lasting_asset hstart a)
  have hsteps : Steps (contract cfg start) S₀ S :=
    Relation.ReflTransGen.head ⟨_, hpast.move⟩ hpast.steps
  rw [← hpast.scene]
  cases hz : asset? S₀.db a with
  | none =>
      have hgone := Steps.stays_gone (lasting_asset hstart a) hpast.runs
        (hpersists.seen e' he' y hy) hz hsteps
      cases hgone.symm.trans hx
  | some z => exact ⟨z, rfl, Steps.same (lasting_asset hstart a) hpast.runs hsteps hz hx⟩

/-- No deletion of a stored asset was committed. -/
theorem Runs.not_deleted (hstart : Begins start) (h : Runs (contract cfg start) S)
    (hx : asset? S.db a = some x) (he : e ∈ S.trace) : e.event ≠ .commit (.deleteAsset a) ws := by
  intro hev
  obtain ⟨S₀, S₁, hpast⟩ := Runs.since hstart.trace h he
  obtain ⟨hC, rfl⟩ := hpast.commit hev
  obtain ⟨y, w, removal, ⟨e₀, he₀, hy⟩, -, rfl, -, -, hremoval⟩ := id hC.1
  have hid := asset?_id hy
  subst hid
  rcases hremoval with ⟨rfl, newer, d, older, htr, hmissed, e', he', hread⟩ | ⟨z, hz, -, hdiscards⟩
  · -- it was read before it was missing
    obtain ⟨newest, hnewest⟩ := (List.suffix_cons _ _).trans hpast.suffix
    have htr' : S.trace = (newest ++ newer) ++ d :: older := by
      rw [← hnewest, htr, List.append_assoc]
    obtain ⟨z, hz, hzx⟩ := Runs.asset_stored hstart h htr' he' hread hx
    have hmem : e' ∈ S.trace := by
      rw [htr']
      exact List.mem_append_right _ (List.mem_cons_of_mem _ he')
    have hyx := (h.persists (lasting_asset hstart y.id)).same e' hmem y x hread hx
    exact hmissed z hz (hzx.reportId.symm.trans hyx.reportId)
  · -- what was deleted does not come back
    have hruns := hpast.runs.move hpast.move
    have hused := (hpast.runs.persists (lasting_asset hstart y.id)).created z hz
    have hdiscarded : asset? (applyAll (w :: removal) S₀.db) y.id = none := by
      rw [applyAll_cons]
      rcases hdiscards.asset (d := w.apply S₀.db) y.id with ⟨-, hnone⟩ | ⟨hne, -⟩
      · exact hnone
      · exact absurd rfl hne
    have hgone := Steps.stays_gone (lasting_asset hstart y.id) hruns
      (hused.mono hpast.move.trace_suffix) hdiscarded hpast.steps
    cases hgone.symm.trans hx

/-- An asset that is READY was so when something was done, or a confirmation
made it READY since. -/
theorem Runs.ready_since (hstart : Begins start) (h : Runs (contract cfg start) S)
    {newer older : List REntry} (htr : S.trace = newer ++ e :: older)
    (hev : ∀ s ws, e.event ≠ .commit s ws) {y : ReportAsset} {e' : REntry} (he' : e' ∈ older)
    (hy : asset? e'.before.db a = some y) (hx : asset? S.db a = some x)
    (hready : x.status = .ready) :
    isReady a e.before.db = true ∨ ∃ e' ∈ newer, readies a e' = true := by
  refine Runs.after (I := fun newer S => ∀ x, asset? S.db a = some x → x.status = .ready →
    isReady a e.before.db = true ∨ ∃ e' ∈ newer, readies a e' = true) hstart.trace h htr ?_ ?_
    x hx hready
  · intro S₀ S₁ hpast _ x hx hready
    rw [hpast.db_eq hev, hpast.scene] at hx
    exact Or.inl (by simp [isReady, hx, hready])
  · intro j S S' newer added hruns htr ih hm hadded x hx hready
    have hold : asset? S.db a = some x → isReady a e.before.db = true ∨
        ∃ e' ∈ added ++ newer, readies a e' = true := by
      intro hx
      rcases ih x hx hready with hfirst | ⟨e', he', hr⟩
      · exact Or.inl hfirst
      · exact Or.inr ⟨e', List.mem_append_right _ he', hr⟩
    rcases hm.commit_or with ⟨s, ws, hC, -, rfl⟩ | ⟨hdb, -⟩
    · have hafter : asset? (applyAll ws S.db) a = some x := hx
      rcases hC.1.asset a with hsame | hchange
      · exact hold (hsame ▸ hafter)
      · cases hbefore : asset? S.db a with
        | none =>
            -- it was found before, so it is not created now
            have hmem : e' ∈ S.trace := by
              rw [htr]
              exact List.mem_append_right _ (List.mem_cons_of_mem _ he')
            have hused := (hruns.persists (lasting_asset hstart a)).seen e' hmem y hy
            have hgone := Steps.stays_gone (lasting_asset hstart a) hruns hused hbefore
              (Relation.ReflTransGen.single ⟨j, hm⟩)
            cases hgone.symm.trans hx
        | some z =>
            rw [hbefore, hafter] at hchange
            cases hchange with
            | verified _ _ _ _ hpending =>
                have hcons : [⟨j, .commit (.markReady a) ws, S.toScene⟩] ++ S.trace
                    = added ++ S.trace := hadded
                refine Or.inr ⟨⟨j, .commit (.markReady a) ws, S.toScene⟩,
                  List.mem_append_left _ ?_, readies_of_change hbefore hafter hpending hready⟩
                rw [← List.append_cancel_right hcons]
                exact List.mem_cons_self
            | rejected => cases hready
    · exact hold (hdb ▸ hx)

-- ============================================================ the claim

/-- An asset with an undisputed upload was spared, if it is READY. -/
theorem Runs.retained (hstart : Begins start) (h : Runs (contract cfg start) S)
    (hundisputed : undisputed a S.trace = true) (hx : asset? S.db a = some x)
    (hready : x.status = .ready) : Retained S a := by
  refine fun e he => ⟨fun hgives => ?_, fun ws => Runs.not_deleted hstart h hx he⟩
  obtain ⟨newer, older, htr⟩ := List.append_of_mem he
  obtain ⟨S₀, S₁, hpast, rfl⟩ := h.at hstart.trace htr
  have hgiven := givesUp_iff.mpr hgives
  have hev : ∀ s ws, e.event ≠ .commit s ws := by
    rcases hgives with hev | hev <;> simp [hev]
  obtain ⟨e', he', hsome⟩ : Once S₀ fun d => (asset? d a).isSome = true := by
    have hpromise := hpast.promised
    rcases hgives with hev | hev <;> (rw [hev] at hpromise; exact hpromise)
  obtain ⟨y, hy⟩ := Option.isSome_iff_exists.mp hsome
  rcases Runs.ready_since hstart h htr hev he' hy hx hready with hwas | ⟨e₁, he₁, hreadied⟩
  · exact absurd hwas (by simp [(undisputed_of_split hundisputed htr).1 hgiven])
  · obtain ⟨newest, between, rfl⟩ := List.append_of_mem he₁
    rw [List.append_assoc] at htr
    have hnone := (undisputed_of_split hundisputed htr).2 hreadied
    exact absurd hgiven (by simpa using List.any_eq_false.mp hnone e (by simp))

end FastRep.Reports
