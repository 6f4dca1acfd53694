/-
What happens to the object of an asset.

# Deletions

Deletions go through cleanup tasks. A task for the key of a stored asset is
written by whoever gives its upload up or deletes it, and by nothing else
(`Effect.asset_task`): a key names its asset, and an asset is created once.
So an asset that was spared both keeps its object (`Runs.unspoiled`,
`retained_asset_untouched`).

# Posts

What a confirmation inspected is another matter, since the client may post
again while its contract lasts. `WrittenOnce` is the invariant: an object of
a key that was written at most once and never deleted was not there before
the write, and has not changed since. With one post, the object of a READY
asset is therefore the one that was inspected, and its row tells what that
object is (`ready_object_verified`).

Nobody inspects a copy. `duplicate` compares the size of the object it has
copied with the size the row of the source shows, and the client may have
posted other bytes of that size to the source's key since its confirmation. So
`ready_object_verified` is about assets that were requested for an upload
(`Requested`), while what is spared is spared for copies too. A copy that is
given up was never created; its id is used up all the same (`spends_once`).
-/
import FastRep.Reports.Proofs.Calls
import FastRep.Reports.Proofs.Publication

namespace FastRep.Reports

open FastRep.Txn

variable {cfg : Config} {start S S' : RState} {t : Tid} {s : Site} {ws : List (Write Row Key)}
  {a u r n : Id} {k : StorageKey} {x : ReportAsset}

/-- Nobody gave the upload of the asset up, and no deletion of it was
committed. -/
def Retained (S : RState) (a : Id) : Prop :=
  ∀ e ∈ S.trace, ¬ GivesUp e a ∧ ∀ ws, e.event ≠ .commit (.deleteAsset a) ws

/-- What is retained now was retained all along. -/
theorem Retained.of_suffix (h : Retained S' a) (htr : S.trace <:+ S'.trace) : Retained S a :=
  fun e he => h e (htr.subset he)

-- ================================================================== keys

/-- Assets with one key are one. -/
theorem Runs.asset_of_key (hstart : Begins start) (h : Runs (contract cfg start) S)
    (honce : Once S fun d => asset? d x.id = some x) (hkey : x.storageKey = .asset u r a n) :
    x.id = a := by
  obtain ⟨S₀, hruns, -, hx⟩ := Runs.once hstart h honce
  obtain ⟨u', n', hkey'⟩ := Runs.asset_key hstart hruns x.id x hx
  rw [hkey', StorageKey.asset.injEq] at hkey
  exact hkey.2.2.1

/-- The keys of a report that name an asset are those of its assets. -/
theorem Runs.asset_of_keys (hstart : Begins start) (h : Runs (contract cfg start) S) {i : Id}
    (hk : .asset u r a n ∈ storageKeysOf i S.db) :
    ∃ x, asset? S.db a = some x ∧ x.reportId = i := by
  rcases List.mem_append.mp hk with hk | hk
  · obtain ⟨x, hx, hkey⟩ := List.mem_map.mp hk
    obtain ⟨hx, hr⟩ := List.mem_filter.mp hx
    have hstored := mem_assets.mp hx
    obtain ⟨u', n', hkey'⟩ := Runs.asset_key hstart h x.id x hstored
    rw [hkey', StorageKey.asset.injEq] at hkey
    rw [hkey.2.2.1] at hstored
    exact ⟨x, hstored, of_decide_eq_true hr⟩
  · obtain ⟨o, ho, hkey⟩ := List.mem_map.mp hk
    obtain ⟨e, -, tok, ws, u', -, -, hkey', -⟩ :=
      Runs.published hstart h o (List.mem_filter.mp ho).1
    rw [hkey'] at hkey
    cases hkey

/-- The asset whose key a cleanup task is written for. -/
def taskedAsset : Write Row Key → Option Id
  | .insert (.cleanupTask ⟨.asset _ _ a _, _, _, _, _⟩)
  | .update (.cleanupTask ⟨.asset _ _ a _, _, _, _, _⟩) => some a
  | _ => none

/-- A task for the key of an asset names it. -/
theorem taskedAsset_eq {w : Write Row Key} (h : TaskWrite (.asset u r a n) w) :
    taskedAsset w = some a := by
  obtain ⟨⟨key, _, _, _, _⟩, rfl, rfl | rfl⟩ := h <;> rfl

/-- The ids an entry uses up: those of the rows it created, and those of the
copies a rollback gave up. -/
def spends (e : REntry) : List Id :=
  match e.event with
  | .commit (.rollbackDuplicateCopies _) ws => ws.filterMap taskedAsset
  | _ => creates e

/-- A row that was created has used up its id. -/
theorem spends_of_creates {e : REntry} {i : Id} (h : i ∈ creates e) : i ∈ spends e := by
  unfold spends
  split
  next hev => rw [creates, hev] at h; cases h
  next => exact h

/-- An id is used up once, by a creation or by a rollback. -/
theorem spends_once : UsedOnce (contract cfg start) marking fun e i => i ∈ spends e := by
  have hcases : ∀ {e : REntry} {S₀ S₁ S : RState}, Past (contract cfg start) e S₀ S₁ S →
      ∀ {i : Id}, i ∈ spends e → i ∈ S₀.ids e.tid ∧ marks S₀ e.tid = [] ∧
        ∃ s ws, e.event = .commit s ws ∧ s.marked = true := by
    intro e S₀ S₁ S hpast i hi
    unfold spends at hi
    split at hi
    next hev =>
        obtain ⟨⟨⟨hmarks, hall⟩, -⟩, -⟩ := hpast.commit hev
        obtain ⟨w, hw, hwi⟩ := List.mem_filterMap.mp hi
        obtain ⟨u, a, n, hdrawn, htask⟩ := hall w hw
        cases (taskedAsset_eq htask).symm.trans hwi
        exact ⟨hdrawn, hmarks, _, _, hev, rfl⟩
    next => exact creates_of_past hpast hi
  exact {
    drawn := fun hpast hi => (hcases hpast hi).1
    first := fun hpast hi => (hcases hpast hi).2.1
    marked := fun hpast hi => (hcases hpast hi).2.2 }

/-- Some entry used the id up. -/
def Spent (S : RState) (i : Id) : Prop := ∃ e ∈ S.trace, i ∈ spends e

theorem Spent.mono {i : Id} (h : Spent S i) (htr : S.trace <:+ S'.trace) : Spent S' i := by
  obtain ⟨e, he, hi⟩ := h
  exact ⟨e, htr.subset he, hi⟩

/-- A row that was created is one of them. -/
theorem Created.spent {i : Id} (h : Created S i) : Spent S i := by
  obtain ⟨e, he, hi⟩ := h
  exact ⟨e, he, spends_of_creates hi⟩

/-- A task for the key of an asset is written only when its id is used up: the
asset was created, or the copy it was drawn for was given up. -/
theorem Runs.spent_of_tasked (hstart : Begins start) (h : Runs (contract cfg start) S)
    (htask : Tasked S (.asset u r a n)) : Spent S a := by
  refine h.invariant (I := fun S => Tasked S (.asset u r a n) → Spent S a) ?_ ?_ htask
  · rintro ⟨e, he, -⟩
    rw [show (contract cfg start).start.trace = [] from hstart.trace] at he
    cases he
  · rintro j S S' hruns ih hm ⟨e, he, s, ws, hev, w, hw, hwrite⟩
    have hold : e ∈ S.trace → Spent S' a := fun he =>
      (ih ⟨e, he, s, ws, hev, w, hw, hwrite⟩).mono hm.trace_suffix
    rcases hm.commit_or with ⟨s', ws', hC, -, rfl⟩ | ⟨-, htr | ⟨ev, hne, htr⟩⟩
    · rcases List.mem_cons.mp he with rfl | he
      · cases hev
        have hpersists := hruns.persists (lasting_asset hstart a)
        rcases hC.1.task hw hwrite with ⟨x, honce, hkey⟩ | ⟨-, _, _, _, _, hk, -⟩ |
          ⟨-, hbefore⟩ | ⟨i, -, hk⟩ | ⟨_, _, _, _, rfl, -, -⟩
        · have hid := Runs.asset_of_key hstart hruns honce hkey
          obtain ⟨e, he, hx⟩ := honce
          exact (Created.spent (hpersists.seen e he x (hid ▸ hx))).mono hm.trace_suffix
        · cases hk
        · exact (ih hbefore).mono hm.trace_suffix
        · obtain ⟨x, hx, -⟩ := Runs.asset_of_keys hstart hruns hk
          exact (Created.spent (hpersists.created x hx)).mono hm.trace_suffix
        · exact ⟨_, List.mem_cons_self, List.mem_filterMap.mpr ⟨w, hw, taskedAsset_eq hwrite⟩⟩
      · exact hold he
    · exact hold (htr ▸ he)
    · rw [htr] at he
      rcases List.mem_cons.mp he with rfl | he
      · exact absurd hev (hne s ws)
      · exact hold he

-- ============================================================ given up or kept

/-- The commits that write a task for the key of a stored asset. -/
theorem Effect.asset_task (hstart : Begins start) (hruns : Runs (contract cfg start) S)
    (h : Effect cfg t s ws S) (hx : asset? S.db a = some x) {w : Write Row Key} (hw : w ∈ ws)
    (htask : TaskWrite x.storageKey w) :
    (∃ e ∈ S.trace, GivesUp e a) ∨ s = .deleteAsset a ∨ Tasked S x.storageKey ∨
      asset? (applyAll ws S.db) a = none := by
  have hid := asset?_id hx
  obtain ⟨u, n, hkey⟩ := Runs.asset_key hstart hruns a x hx
  rw [hid] at hkey
  have hsame : ∀ {k' : StorageKey}, TaskWrite k' w → k' = x.storageKey := fun htask' => by
    have htarget := htask'.target.symm.trans htask.target
    exact Key.cleanupTask.inj htarget
  have htable := h.tables w hw
  rw [htask.table] at htable
  cases s with
  | enqueueCleanup k' =>
      obtain ⟨w', y, rfl, htask', honce, hy, e, he, hgives⟩ := h
      cases List.mem_singleton.mp hw
      have hya := Runs.asset_of_key hstart hruns honce (hy.trans ((hsame htask').trans hkey))
      exact Or.inl ⟨e, he, hya ▸ hgives⟩
  | scheduleOrphanCleanup k' =>
      obtain ⟨w', _, _, _, _, rfl, htask', hk, -⟩ := h
      cases List.mem_singleton.mp hw
      rw [hsame htask', hkey] at hk
      cases hk
  | finishCleanup k' =>
      obtain ⟨z, -, rfl | rfl⟩ := htask <;> cases h.1 _ hw
  | deferCleanup k' =>
      obtain rfl := hsame (h.2 w hw)
      exact Or.inr (Or.inr (Or.inl h.1))
  | deleteReport i =>
      obtain ⟨z, side, removal, -, -, -, hside, -, rfl, -, -, hassets, hremoves⟩ := h
      rcases List.mem_append.mp hw with hw | hw
      · obtain ⟨k', hk', htask'⟩ := hside w hw
        rw [hsame htask', hkey] at hk'
        obtain ⟨y, hy, hyi⟩ := Runs.asset_of_keys hstart hruns hk'
        rw [hx] at hy
        cases hy
        refine Or.inr (Or.inr (Or.inr ?_))
        rw [applyAll_append, asset?_eq_none, ← hid]
        exact find?_applyAll_of_mem hremoves.nodup
          (hassets x (mem_assets.mpr (hid.symm ▸ hx)) hyi)
      · have hremoved := hremoves.tables w hw
        rw [htask.table] at hremoved
        simp at hremoved
  | deleteAsset a' =>
      obtain ⟨y, w', removal, honce, htask', rfl, -, -, hremoval⟩ := h
      rcases List.mem_cons.mp hw with rfl | hw
      · obtain ⟨e, he, hy⟩ := honce
        have hya' : y.id = a' := asset?_id hy
        have hya := Runs.asset_of_key hstart hruns ⟨e, he, by rw [hya']; exact hy⟩
          ((hsame htask').trans hkey)
        rw [← hya, hya']
        exact Or.inr (Or.inl rfl)
      · rcases hremoval with ⟨rfl, -⟩ | ⟨z, -, -, hdiscards⟩
        · cases hw
        · have hdiscarded := hdiscards.tables w hw
          rw [htask.table] at hdiscarded
          simp at hdiscarded
  | rollbackDuplicateCopies i =>
      -- the thread would have created the asset before it gives it up
      obtain ⟨hmarks, hall⟩ := h
      obtain ⟨u', a', n', hdrawn, htask'⟩ := hall w hw
      have hk := hsame htask'
      rw [hkey, StorageKey.asset.injEq] at hk
      obtain rfl := hk.2.2.1
      obtain ⟨e, he, hi⟩ := (hruns.persists (lasting_asset hstart a')).created x hx
      obtain ⟨S₀, S₁, hpast⟩ := Runs.since hstart.trace hruns he
      have hcreated := creates_of_past hpast hi
      obtain ⟨s, ws', hev, hmarked⟩ := hcreated.2.2
      have ht : e.tid = t := (hruns.idsDistinct hstart.trace).unique
        (Shared.mem_ids_of_suffix ((List.suffix_cons _ _).trans hpast.suffix) hcreated.1) hdrawn
      have hmem : s ∈ marks S t := ht ▸ Shared.mem_marks he hev hmarked
      rw [hmarks] at hmem
      cases hmem
  | _ => simp [Site.tables] at htable

/-- No cleanup task was ever written for the key of an asset that was
spared. -/
theorem Runs.unspoiled (hstart : Begins start) (h : Runs (contract cfg start) S) :
    ∀ a x, asset? S.db a = some x → Retained S a → ¬ Tasked S x.storageKey := by
  refine h.invariant (I := fun S => ∀ a x, asset? S.db a = some x → Retained S a →
    ¬ Tasked S x.storageKey) ?_ ?_
  · rintro a x - - ⟨e, he, -⟩
    rw [show (contract cfg start).start.trace = [] from hstart.trace] at he
    cases he
  · rintro j S S' hruns ih hm a y hy hretained ⟨e, he, s, ws, hev, w, hw, hwrite⟩
    have hretained₀ := hretained.of_suffix hm.trace_suffix
    rcases hm.commit_or with ⟨s', ws', hC, -, rfl⟩ | ⟨hdb, htr | ⟨ev, hne, htr⟩⟩
    · have hafter : asset? (applyAll ws' S.db) a = some y := hy
      cases hx : asset? S.db a with
      | some x =>
          have hkey := (hC.1.upload hx hafter).storageKey
          rw [hkey] at hwrite
          have hbefore := ih a x hx hretained₀
          rcases List.mem_cons.mp he with rfl | he
          · cases hev
            rcases hC.1.asset_task hstart hruns hx hw hwrite with ⟨e, he, hgives⟩ | rfl | htask |
              hgone
            · exact (hretained₀ e he).1 hgives
            · exact (hretained _ List.mem_cons_self).2 ws rfl
            · exact hbefore htask
            · rw [hgone] at hafter
              cases hafter
          · exact hbefore ⟨e, he, s, ws, hev, w, hw, hwrite⟩
      | none =>
          -- a new asset has a key of its own
          have hcreates := hC.1.creates_asset hx hafter S.toScene
          have hruns' := hruns.move hm
          obtain ⟨u, n, hkey⟩ := Runs.asset_key hstart hruns' a y hy
          rw [asset?_id hafter] at hkey
          rw [hkey] at hwrite
          rcases List.mem_cons.mp he with rfl | he
          · cases hev
            have htable := hC.1.tables w hw
            rw [hwrite.table] at htable
            rcases hC.1.asset a with hsame | hchange
            · rw [hsame, hx] at hafter
              cases hafter
            · rw [hx, hafter] at hchange
              cases hchange with
              | created => simp [Site.tables] at htable
              | copied => simp [Site.tables] at htable
          · obtain ⟨e', he', hspent⟩ :=
              Runs.spent_of_tasked hstart hruns ⟨e, he, s, ws, hev, w, hw, hwrite⟩
            have htr : (S.commit j s' ws').trace
                = [] ++ ⟨j, .commit s' ws', S.toScene⟩ :: S.trace := rfl
            exact spends_once.not_before hstart.trace hruns' htr he' (spends_of_creates hcreates)
              hspent
    · exact ih a y (hdb ▸ hy) hretained₀ ⟨e, htr ▸ he, s, ws, hev, w, hw, hwrite⟩
    · rw [htr] at he
      rcases List.mem_cons.mp he with rfl | he
      · exact hne s ws hev
      · exact ih a y (hdb ▸ hy) hretained₀ ⟨e, he, s, ws, hev, w, hw, hwrite⟩

-- ============================================================= the object

/-- The entry puts an object under the key of an asset: a post of the client,
or a copy. -/
def rewrites (k : StorageKey) (e : REntry) : Bool :=
  match e.event with
  | .ambient (.post k' _) | .call (.copyObject _ k') _ => k' = k
  | _ => false

/-- The object of a key that is written at most once, and never deleted, was
not there before and has not changed since. -/
structure WrittenOnce (S : RState) (k : StorageKey) : Prop where
  absent : S.trace.countP (rewrites k) = 0 → S.env.object? k = none
  same : ∀ e ∈ S.trace, e.before.env.object? k = none ∨
    e.before.env.object? k = S.env.object? k

/-- A move that rewrites nothing keeps it. -/
theorem WrittenOnce.quiet (h : WrittenOnce S k) (henv : S'.env.object? k = S.env.object? k)
    (htr : S'.trace = S.trace ∨ ∃ e, S'.trace = e :: S.trace ∧ e.before = S.toScene) :
    WrittenOnce S' k where
  absent hcount := by
    rw [henv]
    apply h.absent
    rcases htr with htr | ⟨e, htr, -⟩
    · rw [← htr]
      exact hcount
    · rw [htr, List.countP_cons] at hcount
      omega
  same := by
    intro e he
    rw [henv]
    rcases htr with htr | ⟨e', htr, hbefore⟩
    · exact h.same e (htr ▸ he)
    · rw [htr] at he
      rcases List.mem_cons.mp he with rfl | he
      · rw [hbefore]
        exact Or.inr rfl
      · exact h.same e he

/-- The first move that writes the key establishes it. -/
theorem WrittenOnce.first (h : WrittenOnce S k) {e : REntry} (htr : S'.trace = e :: S.trace)
    (hbefore : e.before = S.toScene) (hrewrites : rewrites k e = true)
    (honce : S'.trace.countP (rewrites k) ≤ 1) : WrittenOnce S' k := by
  rw [htr, List.countP_cons_of_pos hrewrites] at honce
  have hnone := h.absent (by omega)
  constructor
  · intro hcount
    rw [htr, List.countP_cons_of_pos hrewrites] at hcount
    omega
  · intro e' he'
    rw [htr] at he'
    rcases List.mem_cons.mp he' with rfl | he'
    · rw [hbefore]
      exact Or.inl hnone
    · rcases h.same e' he' with hold | hold
      · exact Or.inl hold
      · exact Or.inl (hold.trans hnone)

/-- What a move does to the object of an asset: nothing, or it is a post to its
key, a copy to it, or a call for its deletion. -/
theorem Move.object?_asset {j : Tid} (hm : Move (contract cfg start) j S S')
    (hkey : k = .asset u r a n) : S'.env.object? k = S.env.object? k ∨
      ∃ e, S'.trace = e :: S.trace ∧ e.before = S.toScene ∧
        ((∃ bytes, e.event = .ambient (.post k bytes) ∧ S'.env.object? k = some bytes) ∨
          (∃ k' c, e.event = .call (.copyObject k' k) c) ∨
          ∃ c, e.event = .call (.deleteObject k) c) := by
  cases hm with
  | answered x c answer env hperform hcall =>
      rcases object?_of_perform hperform k with hsame | htouches
      · exact Or.inl hsame
      · cases x with
        | putObject k' bytes =>
            obtain ⟨_, _, _, _, hk'⟩ := hcall
            simp only [Call.touches, decide_eq_true_eq] at htouches
            rw [hk', hkey] at htouches
            cases htouches
        | deleteObject k' =>
            obtain rfl : k' = k := by simpa [Call.touches] using htouches
            exact Or.inr ⟨_, rfl, rfl, Or.inr (Or.inr ⟨c, rfl⟩)⟩
        | copyObject source k' =>
            obtain rfl : k' = k := by simpa [Call.touches] using htouches
            exact Or.inr ⟨_, rfl, rfl, Or.inr (Or.inl ⟨source, c, rfl⟩)⟩
        | _ => cases htouches
  | ambient c env hambient =>
      obtain ⟨k', bytes, rfl, rfl, -⟩ := ambient_cases hambient
      by_cases hk : k' = k
      · subst hk
        refine Or.inr ⟨_, rfl, rfl, Or.inl ⟨bytes, rfl, ?_⟩⟩
        show (S.env.putObject k' bytes).object? k' = some bytes
        rw [Env.object?_putObject, if_pos rfl]
      · refine Or.inl ?_
        show (S.env.putObject k' bytes).object? k = S.env.object? k
        rw [Env.object?_putObject, if_neg fun heq => hk heq.symm]
  | _ => exact Or.inl rfl

/-- An object whose key was written once, and never deleted, is as it was
written. -/
theorem Runs.written_once (hstart : Begins start) (h : Runs (contract cfg start) S)
    (hkey : k = .asset u r a n) (honce : S.trace.countP (rewrites k) ≤ 1)
    (hkept : ∀ e ∈ S.trace, ∀ c, e.event ≠ .call (.deleteObject k) c) : WrittenOnce S k := by
  refine h.invariant (I := fun S => S.trace.countP (rewrites k) ≤ 1 →
    (∀ e ∈ S.trace, ∀ c, e.event ≠ .call (.deleteObject k) c) → WrittenOnce S k) ?_ ?_ honce hkept
  · intro _ _
    constructor
    · intro _
      rw [show (contract cfg start).start.env = ⟨[], [], []⟩ from hstart.env]
      rfl
    · intro e he
      rw [show (contract cfg start).start.trace = [] from hstart.trace] at he
      cases he
  · intro j S S' _ ih hm honce hkept
    have hbefore : WrittenOnce S k :=
      ih (Nat.le_trans (hm.trace_suffix.sublist.countP_le) honce)
        fun e he => hkept e (hm.trace_suffix.subset he)
    rcases Move.object?_asset hm hkey with hsame | ⟨e, htr, hscene, hpost | hcopy | ⟨c, hdelete⟩⟩
    · refine hbefore.quiet hsame ?_
      rcases hm.trace_eq with htr | ⟨ev, htr⟩
      · exact Or.inl htr
      · exact Or.inr ⟨_, htr, rfl⟩
    · obtain ⟨bytes, hev, -⟩ := hpost
      exact hbefore.first htr hscene (by simp [rewrites, hev]) honce
    · obtain ⟨k', c, hev⟩ := hcopy
      exact hbefore.first htr hscene (by simp [rewrites, hev]) honce
    · have hmem : e ∈ S'.trace := by
        rw [htr]
        exact List.mem_cons_self
      exact absurd hdelete (hkept e hmem c)

-- ========================================================= what was verified

theorem Inspected.mono {y : ReportAsset} {inspection : AssetInspection} {size : Nat}
    (h : Inspected cfg S t y inspection size) (htr : S.trace <:+ S'.trace) :
    Inspected cfg S' t y inspection size := by
  obtain ⟨hread, ⟨e, he, hhead⟩, ⟨e', he', hbytes⟩, hsize, haccepted⟩ := h
  exact ⟨hread.mono htr, ⟨e, htr.subset he, hhead⟩, ⟨e', htr.subset he', hbytes⟩, hsize, haccepted⟩

/-- The asset was requested for an upload of the client. -/
def Requested (S : RState) (a : Id) : Prop :=
  ∃ e ∈ S.trace, ∃ ws, e.event = .commit (.createPendingAsset a) ws

/-- The asset came with a duplicate of a report. -/
def FromDuplicate (S : RState) (a : Id) : Prop :=
  ∃ e ∈ S.trace, ∃ i ws, e.event = .commit (.duplicateReport i) ws ∧ a ∈ creates e

theorem FromDuplicate.mono (h : FromDuplicate S a) (htr : S.trace <:+ S'.trace) :
    FromDuplicate S' a := by
  obtain ⟨e, he, hcopied⟩ := h
  exact ⟨e, htr.subset he, hcopied⟩

/-- No requested asset is a copy: it would have been created twice. -/
theorem Requested.not_fromDuplicate (hstart : Begins start) (hruns : Runs (contract cfg start) S)
    (h : Requested S a) : ¬ FromDuplicate S a := by
  obtain ⟨e, he, ws, hev⟩ := h
  rintro ⟨e', he', i, ws', hev', hi'⟩
  have hi : a ∈ creates e := by
    rw [creates, hev]
    exact List.mem_singleton_self a
  obtain rfl := creates_once.eq_of_mem hstart.trace hruns he he' hi hi'
  cases hev.symm.trans hev'

/-- The entry is a confirmation that makes the asset READY. -/
def readies (a : Id) (e : REntry) : Bool :=
  match e.event with
  | .commit (.markReady i) ws => i = a && !ws.isEmpty
  | _ => false

/-- A confirmation that changes the status of the row does so. -/
theorem readies_of_change {y : ReportAsset} {sc : Scene Row Site Req Env}
    (hbefore : asset? S.db a = some y) (hafter : asset? (applyAll ws S.db) a = some x)
    (hpending : y.status = .pendingUpload) (hready : x.status = .ready) :
    readies a ⟨t, .commit (.markReady a) ws, sc⟩ = true := by
  have hne : ws ≠ [] := by
    rintro rfl
    rw [applyAll_nil, hbefore] at hafter
    cases hafter
    rw [hpending] at hready
    cases hready
  simpa [readies] using hne

/-- What a confirmation by the thread has left of the asset. -/
def VerifiedBy (cfg : Config) (S : RState) (t : Tid) (a : Id) (x : ReportAsset) : Prop :=
  (∃ e ∈ S.trace, e.tid = t ∧ readies a e = true) ∧
    ∃ y inspection size z, y.id = a ∧ Inspected cfg S t y inspection size ∧
      x = ReportAsset.verified inspection size z

theorem VerifiedBy.mono (h : VerifiedBy cfg S t a x) (htr : S.trace <:+ S'.trace) :
    VerifiedBy cfg S' t a x := by
  obtain ⟨⟨e, he, hreadied⟩, y, inspection, size, z, hy, hinspected, hz⟩ := h
  exact ⟨⟨e, htr.subset he, hreadied⟩, y, inspection, size, z, hy, hinspected.mono htr, hz⟩

/-- A ready asset is as a confirmation of it left it, or a copy. -/
theorem Runs.verified (hstart : Begins start) (h : Runs (contract cfg start) S) :
    ∀ a x, asset? S.db a = some x → x.status = .ready →
      FromDuplicate S a ∨ ∃ t, VerifiedBy cfg S t a x := by
  refine h.invariant (I := fun S => ∀ a x, asset? S.db a = some x → x.status = .ready →
    FromDuplicate S a ∨ ∃ t, VerifiedBy cfg S t a x) ?_ ?_
  · intro a x hx
    have hnone : asset? start.db a = none := asset?_eq_none.mpr
      (hstart.unused.find?_eq_none (k := .asset a) (by simp [Key.table]) (by simp [Key.table]))
    exact absurd (hx.symm.trans hnone) (by simp)
  · intro j S S' _ ih hm a x hx hready
    have hold : asset? S.db a = some x →
        FromDuplicate S' a ∨ ∃ t, VerifiedBy cfg S' t a x := by
      intro hx
      rcases ih a x hx hready with hcopied | ⟨t, hverified⟩
      · exact Or.inl (hcopied.mono hm.trace_suffix)
      · exact Or.inr ⟨t, hverified.mono hm.trace_suffix⟩
    rcases hm.commit_or with ⟨s, ws, hC, -, rfl⟩ | ⟨hdb, -⟩
    · have hafter : asset? (applyAll ws S.db) a = some x := hx
      rcases hC.1.asset a with hsame | hchange
      · exact hold (hsame ▸ hafter)
      · cases hbefore : asset? S.db a with
        | none =>
            have hcreates := hC.1.creates_asset hbefore hafter S.toScene
            rw [hbefore, hafter] at hchange
            cases hchange with
            | created _ hreserving =>
                obtain ⟨y, _, _, _, _, hws, -, hpending, -⟩ := hreserving
                cases hws
                rw [hpending] at hready
                cases hready
            | copied i => exact Or.inl ⟨_, List.mem_cons_self, i, ws, rfl, hcreates⟩
        | some y =>
            rw [hbefore, hafter] at hchange
            cases hchange with
            | verified z y inspection size hpending hy hinspected _ =>
                have hreadied : readies a ⟨j, .commit _ ws, S.toScene⟩ = true :=
                  readies_of_change hbefore hafter hpending hready
                exact Or.inr ⟨j, ⟨_, List.mem_cons_self, rfl, hreadied⟩, _, inspection, size, _, hy,
                  hinspected.mono hm.trace_suffix, rfl⟩
            | rejected => cases hready
    · exact hold (hdb ▸ hx)

/-- What an object was at a moment, it still is. -/
theorem WrittenOnce.object {e : REntry} (h : WrittenOnce S k) (he : e ∈ S.trace) {bytes : Bytes}
    (hbytes : e.before.env.object? k = some bytes) : S.env.object? k = some bytes := by
  rcases h.same e he with hnone | hsame
  · rw [hnone] at hbytes
    cases hbytes
  · rw [← hsame]
    exact hbytes

-- ============================================================== all runs

/-- The object of a stored asset is never deleted, nor is its deletion ever
scheduled, unless its upload was given up or a deletion of it committed. -/
theorem retained_asset_untouched (cfg : Config) (w : RWorld) (h : Reached cfg w) (a : Id)
    (x : ReportAsset) (hx : asset? w.shared.db a = some x) (hretained : Retained w.shared a) :
    Untouched w.shared x.storageKey := by
  obtain ⟨start, hstart, hruns⟩ := h.runs
  exact Untouched.of_not_tasked hstart hruns (Runs.unspoiled hstart hruns a x hx hretained)

/-- If the client posts to its key at most once, a ready asset of an upload
that was spared has an object, and its row tells what the inspection of
exactly this object found: its size, its type and its dimensions, within the
limits. -/
theorem ready_object_verified (cfg : Config) (w : RWorld) (h : Reached cfg w) (a : Id)
    (x : ReportAsset) (hx : asset? w.shared.db a = some x) (hready : x.status = .ready)
    (hrequested : Requested w.shared a) (hretained : Retained w.shared a)
    (honce : w.shared.trace.countP (rewrites x.storageKey) ≤ 1) :
    ∃ bytes inspection y z, w.shared.env.object? x.storageKey = some bytes ∧
      x = ReportAsset.verified inspection bytes.length z ∧
      inspectAssetBytes (bytes.take inspectionRangeBytes) bytes.length = some inspection ∧
      SameUpload y x ∧ sizeRejection cfg y bytes.length = none ∧
      inspectionRejection cfg y (some inspection) = .ok inspection := by
  obtain ⟨start, hstart, hruns⟩ := h.runs
  have huntouched := Untouched.of_not_tasked hstart hruns
    (Runs.unspoiled hstart hruns a x hx hretained)
  obtain ⟨u, n, hkey⟩ := Runs.asset_key hstart hruns a x hx
  have hwritten := Runs.written_once hstart hruns hkey honce huntouched.undeleted
  obtain ⟨t, -, y, inspection, size, z, hya, hinspected, hz⟩ :=
    (Runs.verified hstart hruns a x hx hready).resolve_left
      (Requested.not_fromDuplicate hstart hruns hrequested)
  obtain ⟨⟨e₀, he₀, hy⟩, ⟨e, he, -, -, hhead⟩, ⟨e', he', -, -, bytes, hbytes, hinspect⟩, hsize, hok⟩ :=
    hinspected
  have hsame : SameUpload y x :=
    (hruns.persists (lasting_asset hstart a)).same e₀ he₀ y x (hya ▸ hy) hx
  rw [← hsame.storageKey] at hhead hbytes
  have hobject := hwritten.object he' hbytes
  -- the head request saw the same object
  obtain ⟨bytes', hbytes', rfl⟩ := Option.map_eq_some_iff.mp hhead
  rw [hwritten.object he hbytes'] at hobject
  cases hobject
  exact ⟨bytes, inspection, y, z, hwritten.object he' hbytes, hz, hinspect, hsame, hsize, hok⟩

-- ========================================================= a concrete world

/-- The entry does not give the upload of the asset up, nor delete it. -/
def retains (a : Id) (e : REntry) : Bool :=
  match e.event with
  | .enter (.rejectUpload i) | .enter (.expireUpload i) | .commit (.deleteAsset i) _ => i ≠ a
  | _ => true

/-- An asset is retained where no event of the history gives it up. -/
theorem retained_of_all (h : S.trace.all (retains a) = true) : Retained S a := by
  intro e he
  have hretains := List.all_eq_true.mp h e he
  constructor
  · rintro (hev | hev) <;> simp [retains, hev] at hretains
  · intro ws hev
    simp [retains, hev] at hretains

/-- The object of a confirmed upload is not touched, nor that of its copy in a
duplicate of the report. -/
theorem retained_asset_untouched_confirmed : ∃ w x y, Reached defaults w ∧
    asset? w.shared.db 12 = some x ∧ asset? w.shared.db 17 = some y ∧ x.reportId ≠ y.reportId ∧
    Untouched w.shared x.storageKey ∧ Untouched w.shared y.storageKey := by
  have hrun : (sampleWorld.runAll (app defaults) reportDuplicated).any (fun w =>
      (asset? w.shared.db 12).any (fun x => x.reportId = 10)
        && (asset? w.shared.db 17).any (fun y => y.reportId = 16)
        && w.shared.trace.all (retains 12) && w.shared.trace.all (retains 17)) = true := by
    decide +kernel
  obtain ⟨w, hw, hp⟩ := exists_reached hrun
  simp only [Bool.and_eq_true, Option.any_eq_true, decide_eq_true_eq] at hp
  obtain ⟨⟨⟨⟨x, hx, hxr⟩, y, hy, hyr⟩, hretains⟩, hretains'⟩ := hp
  refine ⟨w, x, y, hw, hx, hy, by rw [hxr, hyr]; decide, ?_, ?_⟩
  · exact retained_asset_untouched defaults w hw 12 x hx (retained_of_all hretains)
  · exact retained_asset_untouched defaults w hw 17 y hy (retained_of_all hretains')

/-- The entry requests the asset. -/
def requestsAsset (a : Id) (e : REntry) : Bool :=
  match e.event with
  | .commit (.createPendingAsset i) _ => i = a
  | _ => false

/-- An asset was requested where an event of the history did so. -/
theorem requested_of_any (h : S.trace.any (requestsAsset a) = true) : Requested S a := by
  obtain ⟨e, he, hrequested⟩ := List.any_eq_true.mp h
  unfold requestsAsset at hrequested
  split at hrequested
  next i ws hev =>
      obtain rfl := of_decide_eq_true hrequested
      exact ⟨e, he, ws, hev⟩
  next => cases hrequested

/-- The row of a confirmed upload tells what its object is. -/
theorem ready_object_verified_confirmed : ∃ w x bytes, Reached defaults w ∧
    asset? w.shared.db 12 = some x ∧ w.shared.env.object? x.storageKey = some bytes ∧
    ∃ inspection z, x = ReportAsset.verified inspection bytes.length z := by
  have hrun : (sampleWorld.runAll (app defaults) audioConfirmed).any (fun w =>
      (asset? w.shared.db 12).any (fun x => x.status = .ready
          && w.shared.trace.countP (rewrites x.storageKey) ≤ 1)
        && w.shared.trace.any (requestsAsset 12) && w.shared.trace.all (retains 12)) = true := by
    decide +kernel
  obtain ⟨w, hw, hp⟩ := exists_reached hrun
  simp only [Bool.and_eq_true, Option.any_eq_true, decide_eq_true_eq] at hp
  obtain ⟨⟨⟨x, hx, hready, honce⟩, hrequested⟩, hretains⟩ := hp
  obtain ⟨bytes, inspection, y, z, hobject, hz, -⟩ :=
    ready_object_verified defaults w hw 12 x hx hready (requested_of_any hrequested)
      (retained_of_all hretains) honce
  exact ⟨w, x, bytes, hw, hx, hobject, inspection, z, hz⟩

end FastRep.Reports
