/-
What a duplication commits.

`duplicate` reads the source report and its READY assets, draws an id for the
duplicate and for every copy, and copies the objects one after the other. Then
one transaction creates the report with all of its assets. If a copy or the
transaction fails, cleanup tasks are written for the keys copied so far, and
the objects are deleted behind them.

# What the thread knows

`Copying` is the one fact that is carried through. The thread serves the
duplication and has committed nothing counted; the assets of the source were
found as some earlier database had them; each copy has an id the thread drew,
and no two copies have the same (`Triple.assetCopies`). Drawing an id is the
only step that changes it (`Copying.drawn`). Calls keep it, so it is there
when the report is created and also when the copies are given up.

# Two endings

The creation and the rollback are both counted, and the rollback is reached
only when the creation has not committed: a thread has one of them in its
history at most. The rows of the copies come from the source as it was read.
By the time they are inserted the source may have changed, and nothing looks
at it again.
-/
import FastRep.Reports.Proofs.Reporting
import FastRep.Txn.Proofs.Once

namespace FastRep.Reports

open FastRep.Txn

variable {cfg : Config} {start : RState} {t : Tid} {s : Site} {S S' : RState} {P : Knows t}
  {q : Req} {C : RContract} {ws : List (Write Row Key)}

-- ======================================================== the transactions

/-- A key that is free after insertions was free before them. -/
theorem find?_eq_none_of_inserts {d : Db Row} {k : Key} (hws : ∀ w ∈ ws, ∀ k, w ≠ .erase k)
    (h : (applyAll ws d).find? k = none) : d.find? k = none := by
  cases hbefore : d.find? k with
  | none => rfl
  | some r =>
      have hsome := isSome_find?_applyAll (d := d) (k := k) (fun w hw => hws w hw k)
        (by rw [hbefore]; rfl)
      rw [h] at hsome
      cases hsome

/-- The nested creation of assets finds all of their keys free. -/
theorem TxSafe.insertAssets {β : Type} {F : β → List (Write Row Key) → RState → Prop}
    {l : List ReportAsset} {g : Unit → InTransaction β} (hws : ∀ w ∈ ws, ∀ k, w ≠ .erase k)
    (h : ∀ S', Within C t s S S' →
      (∀ S'', Within C t s S' S'' → ∀ x ∈ l, asset? S''.db x.id = none) →
      TxSafe C t s F (g ()) (ws ++ l.map fun x => .insert (.asset x)) S') :
    TxSafe C t s F (Reports.insertAssets l >>= g) ws S := by
  induction l generalizing ws S with
  | nil =>
      have hnil := h S Within.refl fun _ _ _ hx => by cases hx
      rwa [List.map_nil, List.append_nil] at hnil
  | cons x rest ih =>
      refine TxSafe.insertRow fun S₁ _ hW₁ hnone _ => ih ?_ fun S₂ hW₂ hrest => ?_
      · intro w hw k
        rcases List.mem_append.mp hw with hw | hw
        · exact hws w hw k
        · cases List.mem_singleton.mp hw
          simp
      · have hall := h S₂ (hW₁.trans hW₂) fun S₃ hW₃ y hy => ?_
        · rwa [List.map_cons, List.append_cons] at hall
        · rcases List.mem_cons.mp hy with rfl | hy
          · rw [asset?_eq_none]
            exact (Within.find?_of_write (w := .insert (Row.asset y)) (hW₂.trans hW₃)).trans
              (find?_eq_none_of_inserts hws hnone)
          · exact hrest S₃ hW₃ y hy

/-- A duplicate is inserted with its copies, under free keys. -/
theorem TxSafe.createDuplicate {reportId userId : Id} {title : String} {notes : Option String}
    {copies : List AssetCopy} :
    TxSafe C t s (fun _ ws S' => ∃ createdAt,
        ws = .insert (.report (newReport reportId userId title notes createdAt)) ::
          copies.map (fun c => .insert (.asset (c.row reportId createdAt))) ∧
        report? S'.db reportId = none ∧ ∀ c ∈ copies, asset? S'.db c.id = none)
      (createDuplicate reportId userId title notes copies) [] S := by
  refine TxSafe.clock fun S₁ _ => TxSafe.insertRow fun S₂ _ _ hnone _ =>
    TxSafe.insertAssets (by simp) fun S₃ hW₃ hassets => TxSafe.pure fun S₄ hS₄ => ?_
  refine ⟨S₁.clock, ?_, ?_, fun c hc => ?_⟩
  · rw [List.map_map]
    rfl
  · rw [report?_eq_none]
    exact (Within.find?_of_write (w := .insert (Row.report _)) (hW₃.trans hS₄.within)).trans hnone
  · exact hassets S₄ hS₄.within _ (List.mem_map_of_mem hc)

/-- Tasks are written for exactly the listed keys. -/
theorem TxSafe.createCleanupTasks {reason : StorageCleanupReason} (keys : List StorageKey) :
    TxSafe C t s (fun _ ws' _ => ∃ side, ws' = ws ++ side ∧
      (∀ w ∈ side, ∃ k ∈ keys, TaskWrite k w) ∧ ∀ k ∈ keys, ∃ w ∈ side, TaskWrite k w)
      (Reports.createCleanupTasks reason keys) ws S := by
  induction keys generalizing ws S with
  | nil => exact TxSafe.pure fun _ _ => ⟨[], by simp, by simp, by simp⟩
  | cons k ks ih =>
      have hnext : ∀ w S', TaskWrite k w → TxSafe C t s (fun _ ws' _ => ∃ side, ws' = ws ++ side ∧
          (∀ w ∈ side, ∃ k' ∈ k :: ks, TaskWrite k' w) ∧
          ∀ k' ∈ k :: ks, ∃ w ∈ side, TaskWrite k' w)
          (Reports.createCleanupTasks reason ks) (ws ++ [w]) S' := by
        intro w S' hw
        refine ih.mono fun _ ws' S'' ⟨side, hws, hall, hevery⟩ =>
          ⟨w :: side, ?_, tasks_cons hw hall hevery⟩
        rw [hws, List.append_assoc]
        rfl
      refine TxSafe.clock fun S₁ _ => TxSafe.upsertRow
        (fun S₂ _ _ _ _ _ => hnext _ _ ⟨_, rfl, Or.inl rfl⟩) fun S₂ x _ _ hx => hnext _ _ ?_
      have hkey := List.find?_some hx
      simp only [decide_eq_true_eq] at hkey
      cases x with
      | cleanupTask r =>
          cases hkey
          exact TaskWrite.update rfl
      | _ => cases hkey

-- ============================================================== the copies

/-- The thread is copying: nothing counted is committed, the source was found
as it is, and the copies have distinct ids of the thread that are not among
some older ones. -/
def Copying (q : Req) (found : Db Row → Prop) (userId reportId : Id) (old : List Id)
    (copies : List AssetCopy) : Knows t where
  holds := fun S => (S.asked t = [q] ∧ (t, q) ∈ S.live) ∧ marks S t = [] ∧ Once S found ∧
    (∀ i ∈ old, i ∈ S.ids t) ∧ (copies.map (·.id)).Nodup ∧
    ∀ c ∈ copies, c.id ∈ S.ids t ∧ c.id ∉ old ∧ ∃ n, c.storageKey = .asset userId reportId c.id n
  lasts := by
    rintro S S' h ⟨⟨hask, hlive⟩, hmarks, hfound, hold, hnodup, hcopies⟩
    refine ⟨⟨h.asked.trans hask, h.live q hlive⟩, h.marks.trans hmarks, hfound.mono h.trace, ?_,
      hnodup, ?_⟩
    · rwa [h.ids]
    · rwa [h.ids]

section Copies

variable {found : Db Row → Prop} {userId reportId : Id} {old : List Id} {copies : List AssetCopy}

/-- The thread draws an id before it has a copy. -/
theorem Copying.drawn (h : (Copying (t := t) q found userId reportId old []).holds S) :
    (Copying (t := t) q found userId reportId (S.nextId :: old) []).holds (S.drawn t) := by
  obtain ⟨hserving, hmarks, hfound, hold, -⟩ := h
  have hids : (S.drawn t).ids t = S.nextId :: S.ids t := by
    simp [Shared.ids, Shared.drawn, Shared.log]
  refine ⟨hserving, hmarks, hfound.mono (List.suffix_cons _ _), fun i hi => ?_, List.nodup_nil,
    fun _ h => by cases h⟩
  rw [hids]
  rcases List.mem_cons.mp hi with rfl | hi
  · exact List.mem_cons_self
  · exact List.mem_cons_of_mem _ (hold i hi)

/-- An id that is not needed any more may be forgotten. -/
theorem Copying.forget {i : Id}
    (h : (Copying (t := t) q found userId reportId (i :: old) copies).holds S) :
    (Copying (t := t) q found userId reportId old copies).holds S :=
  let ⟨hserving, hmarks, hfound, hold, hnodup, hcopies⟩ := h
  ⟨hserving, hmarks, hfound, fun j hj => hold j (List.mem_cons_of_mem _ hj), hnodup,
    fun c hc => (hcopies c hc).imp_right fun h => h.imp_left fun hi hmem =>
      hi (List.mem_cons_of_mem _ hmem)⟩

/-- One more copy, under the id that was drawn last. -/
theorem Copying.cons {id nonce : Id} {asset : ReportAsset} (hid : id ∉ old)
    (h : (Copying (t := t) q found userId reportId (id :: old) copies).holds S) :
    (Copying (t := t) q found userId reportId old
      (⟨asset, id, .asset userId reportId id nonce⟩ :: copies)).holds S := by
  obtain ⟨hserving, hmarks, hfound, hold, hnodup, hcopies⟩ := h
  refine ⟨hserving, hmarks, hfound, fun j hj => hold j (List.mem_cons_of_mem _ hj), ?_,
    fun c hc => ?_⟩
  · rw [List.map_cons, List.nodup_cons]
    refine ⟨fun hmem => ?_, hnodup⟩
    obtain ⟨c, hc, hcid⟩ := List.mem_map.mp hmem
    refine (hcopies c hc).2.1 ?_
    rw [hcid]
    exact List.mem_cons_self
  · rcases List.mem_cons.mp hc with rfl | hc
    · exact ⟨hold _ List.mem_cons_self, hid, nonce, rfl⟩
    · obtain ⟨hdrawn, hne, hkey⟩ := hcopies c hc
      exact ⟨hdrawn, fun hmem => hne (List.mem_cons_of_mem _ hmem), hkey⟩

/-- Every asset of the source has a copy, in its place. -/
theorem Triple.assetCopies {E : Error → Knows t} (hstart : Begins start)
    (sources : List ReportAsset) :
    Triple (contract cfg start) (Copying q found userId reportId old [] : Knows t)
      (Reports.assetCopies userId reportId sources)
      (fun copies => (Copying q found userId reportId old copies).and
        (.prop (copies.map (·.source) = sources))) E := by
  induction sources generalizing old with
  | nil => exact Triple.pure fun S hS => ⟨hS, rfl⟩
  | cons asset rest ih =>
      refine Triple.bind (R := fun id => (Copying q found userId reportId (id :: old) []).and
        (.prop (id ∉ old))) (Triple.randomUUID fun S hruns hS => ⟨Copying.drawn hS, fun hmem => ?_⟩)
        fun id => Triple.of_prop fun hid => ?_
      · exact Nat.lt_irrefl _ (hruns.ids_lt hstart.trace (hS.2.2.2.1 _ hmem))
      refine Triple.bind (R := fun _ => Copying q found userId reportId (id :: old) [])
        (Triple.randomUUID fun S _ hS => Copying.forget (Copying.drawn hS)) fun nonce => ?_
      refine Triple.bind ih fun others => Triple.pure fun S hS => ⟨Copying.cons hid hS.1, ?_⟩
      exact congrArg (asset :: ·) hS.2

/-- The copies that were made are among those that were planned. -/
theorem Triple.copyAssets (copies : List AssetCopy) :
    Triple (contract cfg start) P (Reports.copyAssets copies)
      (fun r => P.and (.prop (∀ k ∈ r.1, ∃ c ∈ copies, k = c.storageKey))) (fun _ => P) := by
  have hcopy : ∀ k k' : StorageKey, Keeps (contract cfg start) P (Reports.copyObject k k') := by
    intro k k'
    refine Keeps.bind (Keeps.call fun _ _ => trivial) fun _ => ?_
    refine Keeps.bind (Keeps.call fun _ _ => trivial) fun size => ?_
    split
    next => exact Keeps.throw
    next => exact Keeps.pure
  induction copies with
  | nil => exact Triple.pure fun S hS => ⟨hS, fun _ hk => by cases hk⟩
  | cons asset rest ih =>
      refine Triple.bind (Keeps.attempt (hcopy _ _)) fun metadata => ?_
      cases metadata with
      | error e => exact Triple.pure fun S hS => ⟨hS, fun _ hk => by cases hk⟩
      | ok size =>
          dsimp only
          split
          next =>
              refine Triple.pure fun S hS => ⟨hS, fun k hk => ?_⟩
              exact ⟨asset, List.mem_cons_self, List.mem_singleton.mp hk⟩
          next =>
              refine Triple.bind ih fun others => Triple.pure fun S hS => ⟨hS.1, fun k hk => ?_⟩
              rcases List.mem_cons.mp hk with rfl | hk
              · exact ⟨asset, List.mem_cons_self, rfl⟩
              · obtain ⟨c, hc, hkc⟩ := hS.2 k hk
                exact ⟨c, List.mem_cons_of_mem _ hc, hkc⟩

-- ============================================================= the endings

/-- The copies of a duplication that failed are scheduled and deleted. -/
theorem Triple.rollbackDuplicateCopies {keys : List StorageKey} (hq : q.ofClient = true)
    (hkeys : ∀ k ∈ keys, ∃ c ∈ copies, k = c.storageKey) :
    Triple (contract cfg start) (Copying q found userId reportId old copies : Knows t)
      (Reports.rollbackDuplicateCopies reportId keys) (fun _ => Known.serving q)
      (fun _ => Known.serving q) := by
  unfold Reports.rollbackDuplicateCopies
  split
  next => exact Triple.pure fun S hS => hS.1
  refine Triple.catch (F := fun _ => Known.serving q) (Triple.bind (R := fun _ =>
    (Known.serving q).and (Traced (fun S => ∀ k ∈ keys, Tasked S k)
      fun _ _ htr h k hk => (h k hk).mono htr)) ?_ fun _ => ?_)
    fun _ => Triple.pure fun _ hS => hS
  · refine Triple.transaction (fun S _ _ => TxSafe.createCleanupTasks keys)
      (fun _ ws S hS hF => ?_) fun _ S hS => (Known.serving q).lasts Later.rollback hS.1
    obtain ⟨side, rfl, hall, hevery⟩ := hF
    refine ⟨⟨⟨hS.2.1, fun w hw => ?_⟩, Allows.serving (q := q) rfl hq S hS.1⟩,
      Known.serving_commit hS.1, fun k hk => ?_⟩
    · obtain ⟨k, hk, htask⟩ := hall w hw
      obtain ⟨c, hc, rfl⟩ := hkeys k hk
      obtain ⟨hdrawn, -, n, hkey⟩ := hS.2.2.2.2.2 c hc
      exact ⟨userId, c.id, n, hdrawn, hkey ▸ htask⟩
    · obtain ⟨w, hw, htask⟩ := hevery k hk
      exact ⟨⟨t, .commit _ _, S.toScene⟩, List.mem_cons_self, _, _, rfl, w, hw, htask⟩
  · have hcleanup : Keeps (contract cfg start) ((Known.serving q : Knows t).and
        (Traced (fun S => ∀ k ∈ keys, Tasked S k) fun _ _ htr h k hk => (h k hk).mono htr))
        (Reports.attemptMany keys) :=
      Keeps.attemptMany (fun k => ⟨Allows.and (Allows.serving rfl hq),
        Allows.and (Allows.serving rfl hq)⟩) fun k hk S hS => hS.2 k hk
    exact hcleanup.conseq (fun _ h => h) (fun _ _ h => h.1) fun _ _ h => h.1

end Copies

/-- A duplication commits the duplicate with all of its copies, or the tasks
for those that were made. -/
theorem Triple.duplicate {userId source : Id} (hstart : Begins start)
    (hq : q = .duplicateReport userId source) :
    Triple (contract cfg start) (Fresh q : Knows t) (duplicate userId source)
      (fun _ => Known.serving q) (fun _ => Known.serving q) := by
  have hclient : q.ofClient = true := by rw [hq]; rfl
  refine Triple.bind (Triple.read rfl (Allows.drew rfl hclient) (fun _ => rfl)
    fun _ S hS => (Known.serving q).lasts Later.rollback hS.1) fun found => ?_
  cases found with
  | none => exact Triple.throw fun S hS => hS.1.1
  | some found =>
      obtain ⟨report, language, ready⟩ := found
      dsimp only
      split
      next => exact Triple.throw fun S hS => hS.1.1
      refine Triple.bind (R := fun i => Copying q (fun d => ready = sourceAssets source d) userId i
        [i] []) (Triple.randomUUID fun S _ hS => Copying.drawn ?_) fun reportId => ?_
      · obtain ⟨⟨hserving, -, hmarks⟩, e, he, -, -, hread, -⟩ := hS
        refine ⟨hserving, hmarks, ⟨e, he, ?_⟩, by simp, List.nodup_nil, by simp⟩
        unfold duplicationSource at hread
        obtain ⟨r, -, hread⟩ := Option.bind_eq_some_iff.mp hread
        obtain ⟨u, -, hread⟩ := Option.bind_eq_some_iff.mp hread
        cases hread
        rfl
      refine Triple.bind (Triple.assetCopies hstart ready) fun copies =>
        Triple.of_prop fun hsources => ?_
      refine Triple.bind ((Triple.copyAssets copies).conseq (fun _ h => h) (fun _ _ h => h)
        fun _ _ h => h.1) fun copied => Triple.of_prop fun hkeys => ?_
      let K : Knows t := Copying q (fun d => ready = sourceAssets source d) userId reportId
        [reportId] copies
      let R : Except Error Report → Knows t := fun r =>
        r.toOption.elim K fun _ => Known.serving q
      refine Triple.bind (R := R) (Triple.attempt (Triple.bind (R := fun _ => K)
        (Triple.settle (fun _ _ _ h => h) fun _ _ _ h => h) fun _ => ?_)) fun created => ?_
      · refine Triple.transaction (fun S _ _ => TxSafe.createDuplicate) (fun _ ws S hS hF => ?_)
          fun _ S hS => K.lasts Later.rollback hS
        obtain ⟨createdAt, hws, hreport, hassets⟩ := hF
        obtain ⟨hserving, hmarks, ⟨e, he, hready⟩, hold, hnodup, hcopies⟩ := hS
        refine ⟨⟨?_, Allows.serving (q := q) rfl hclient S hserving⟩,
          Known.serving_commit hserving⟩
        refine ⟨userId, source, _, _, createdAt, copies, hws, hreport,
          hold _ List.mem_cons_self, hmarks, hnodup, fun c hc => ?_, hq ▸ hserving.2, e, he,
          hsources.trans hready⟩
        exact ⟨hassets c hc, (hcopies c hc).1, (hcopies c hc).2.2⟩
      · cases created with
        | ok duplicate => exact Triple.pure fun _ hS => hS
        | error e =>
            exact Triple.bind (Triple.rollbackDuplicateCopies hclient hkeys) fun _ =>
              Triple.throw fun _ hS => hS

end FastRep.Reports
