/-
Objects that the client changes after they were inspected.

A confirmation asks for the size of the object, reads its leading bytes, and
makes the asset READY. The client may post to the key for as long as its
contract lasts, before that, in between and afterwards, and nobody looks again.
A READY asset holds what was verified as long as no post after the look at the
size brings another size, and none after the reading of the bytes brings other
bytes (`unaltered`).

# The object since

`Runs.object_since` follows the object from an entry on: what neither a write
nor a deletion changes stays. For the size this starts at the head request, and
for the bytes at the reading. The object is not deleted, by the condition on
rejections (`Runs.retained`).
-/
import FastRep.Reports.Proofs.Rejections

namespace FastRep.Reports

open FastRep.Txn

variable {cfg : Config} {start S : RState} {t : Tid} {a u r n : Id} {k : StorageKey}
  {x : ReportAsset} {e : REntry} {β : Type}

-- ============================================================ the condition

/-- The entry writes the object of the key, and changes what `look` sees of it. -/
def alters [DecidableEq β] (look : Option Bytes → β) (k : StorageKey) (e : REntry) : Bool :=
  match e.event with
  | .ambient (.post k' bytes) => k' = k && look (some bytes) ≠ look (e.before.env.object? k)
  | .call (.copyObject _ k') _ => k' = k
  | _ => false

/-- The size of an object. -/
def size? (object : Option Bytes) : Option Nat := object.map List.length

/-- The thread asks for the size of the object. -/
def heads (t : Tid) (k : StorageKey) (e : REntry) : Bool :=
  match e.event with
  | .call (.headObject k') _ => e.tid = t && k' = k
  | _ => false

/-- The thread reads the leading bytes of the object. -/
def fetches (t : Tid) (k : StorageKey) (e : REntry) : Bool :=
  match e.event with
  | .call (.getObject k' _) _ => e.tid = t && k' = k
  | _ => false

/-- No entry of the second kind comes after one of the first kind. -/
def noneAfter (first second : REntry → Bool) : List REntry → Bool
  | [] => true
  | e :: past => !(second e && past.any first) && noneAfter first second past

/-- After a confirmation that makes the asset READY has asked for the size, no
write brings another size; and after it has read the bytes, none brings other
bytes. -/
def unaltered (a : Id) (k : StorageKey) (tr : List REntry) : Bool :=
  tr.all fun e => !readies a e || (noneAfter (heads e.tid k) (alters size? k) tr &&
    noneAfter (fetches e.tid k) (alters id k) tr)

theorem noneAfter_of_split {first second : REntry → Bool} {l newer older : List REntry}
    (h : noneAfter first second l = true) (hl : l = newer ++ e :: older)
    (hfirst : first e = true) : ∀ e' ∈ newer, second e' = false := by
  subst hl
  induction newer with
  | nil => exact fun e' he' => absurd he' List.not_mem_nil
  | cons e₀ newer ih =>
      obtain ⟨hhead, htail⟩ := (Bool.and_eq_true _ _).mp h
      intro e' he'
      rcases List.mem_cons.mp he' with rfl | he'
      · cases hsecond : second e' with
        | false => rfl
        | true => simp [hsecond, hfirst] at hhead
      · exact ih htail e' he'

-- ============================================================= the object

/-- What no write and no deletion since an entry has changed of an object is as it
was. -/
theorem Runs.object_since [DecidableEq β] (look : Option Bytes → β) (hstart : Begins start)
    (h : Runs (contract cfg start) S) (hkey : k = .asset u r a n) {newer older : List REntry}
    (htr : S.trace = newer ++ e :: older) (hquiet : ∀ e' ∈ newer ++ [e], alters look k e' = false)
    (hkept : ∀ e' ∈ newer ++ [e], ∀ c, e'.event ≠ .call (.deleteObject k) c) :
    look (S.env.object? k) = look (e.before.env.object? k) := by
  have hmove : ∀ {j : Tid} {S S' : RState}, Move (contract cfg start) j S S' →
      (∀ e', S'.trace = e' :: S.trace → alters look k e' = false) →
      (∀ e', S'.trace = e' :: S.trace → ∀ c, e'.event ≠ .call (.deleteObject k) c) →
      look (S'.env.object? k) = look (S.env.object? k) := by
    intro j S S' hm hquiet hkept
    rcases Move.object?_asset hm hkey with hsame | ⟨e', htr, hscene, ⟨bytes, hev, hobject⟩ |
      ⟨k', c, hev⟩ | ⟨c, hev⟩⟩
    · rw [hsame]
    · have hsame := hquiet e' htr
      simp only [alters, hev, decide_true, Bool.true_and, hscene, decide_eq_false_iff_not,
        not_not] at hsame
      rw [hobject]
      exact hsame
    · have hcopy := hquiet e' htr
      simp [alters, hev] at hcopy
    · exact absurd hev (hkept e' htr c)
  refine Runs.after (I := fun newer S => (∀ e' ∈ newer ++ [e], alters look k e' = false) →
    (∀ e' ∈ newer ++ [e], ∀ c, e'.event ≠ .call (.deleteObject k) c) →
    look (S.env.object? k) = look (e.before.env.object? k)) hstart.trace h htr ?_ ?_ hquiet hkept
  · intro S₀ S₁ hpast _ hquiet hkept
    rw [← hpast.scene]
    have hentry : ∀ e', S₁.trace = e' :: S₀.trace → e' ∈ [] ++ [e] := fun e' htr => by
      rw [hpast.trace] at htr
      rw [(List.cons.inj htr).1]
      exact List.mem_singleton_self _
    exact hmove hpast.move (fun e' htr => hquiet e' (hentry e' htr))
      fun e' htr => hkept e' (hentry e' htr)
  · intro j S S' newer added hruns _ ih hm hadded hquiet hkept
    have hold : ∀ e' ∈ newer ++ [e], e' ∈ added ++ newer ++ [e] := fun e' he' => by
      rw [List.append_assoc]
      exact List.mem_append_right _ he'
    have hnew : ∀ e', S'.trace = e' :: S.trace → e' ∈ added ++ newer ++ [e] := fun e' htr => by
      have hcons : [e'] ++ S.trace = added ++ S.trace := htr.symm.trans hadded
      rw [← List.append_cancel_right hcons]
      exact List.mem_cons_self
    rw [hmove hm (fun e' htr => hquiet e' (hnew e' htr)) fun e' htr => hkept e' (hnew e' htr)]
    exact ih (fun e' he' => hquiet e' (hold e' he')) fun e' he' => hkept e' (hold e' he')

-- ============================================================== the claim

/-- The object of the asset is the one whose bytes a confirmation read, and its
row tells what they are: the size and the type, within what was declared. -/
def HoldsVerified (cfg : Config) (S : RState) (x : ReportAsset) : Prop :=
  ∃ bytes inspection, S.env.object? x.storageKey = some bytes ∧
    x.verifiedSize = some bytes.length ∧ x.verifiedMimeType = some inspection.mimeType ∧
    (∃ e ∈ S.trace, (∃ t, Confirming e t x.id ∧ fetches t x.storageKey e = true) ∧
      e.before.env.object? x.storageKey = some bytes) ∧
    inspectAssetBytes (bytes.take inspectionRangeBytes) bytes.length = some inspection ∧
    sizeRejection cfg x bytes.length = none ∧
    inspectionRejection cfg x (some inspection) = .ok inspection

/-- What a confirmation compares is the same for every version of an upload. -/
theorem SameUpload.rejections {x y : ReportAsset} (h : SameUpload x y) (cfg : Config) (size : Nat)
    (inspection : Option AssetInspection) :
    sizeRejection cfg y size = sizeRejection cfg x size ∧
      inspectionRejection cfg y inspection = inspectionRejection cfg x inspection := by
  unfold sizeRejection inspectionRejection
  rw [h.type, h.declaredSize, h.declaredMimeType]
  exact ⟨rfl, rfl⟩

/-- A READY asset of an upload holds what was verified, as long as its upload is
not given up by another call and its object is not altered. -/
theorem ready_object_unaltered (cfg : Config) (w : RWorld) (h : Reached cfg w) (a : Id)
    (x : ReportAsset) (hx : asset? w.shared.db a = some x) (hready : x.status = .ready)
    (hrequested : Requested w.shared a) (hundisputed : undisputed a w.shared.trace = true)
    (hunaltered : unaltered a x.storageKey w.shared.trace = true) :
    HoldsVerified cfg w.shared x := by
  obtain ⟨start, hstart, hruns⟩ := h.runs
  have huntouched := Untouched.of_not_tasked hstart hruns (Runs.unspoiled hstart hruns a x hx
    (Runs.retained hstart hruns hundisputed hx hready))
  obtain ⟨u, n, hkey⟩ := Runs.asset_key hstart hruns a x hx
  obtain ⟨t, ⟨e₀, he₀, rfl, hreadied⟩, y, inspection, size, z, hya, hinspected, hz⟩ :=
    (Runs.verified hstart hruns a x hx hready).resolve_left
      (Requested.not_fromDuplicate hstart hruns hrequested)
  obtain ⟨⟨e₁, he₁, hy⟩, ⟨e, he, hconfirming, ⟨c, hhead⟩, hlength⟩,
    ⟨e', he', hconfirming', ⟨c', hget⟩, bytes, hbytes, hinspect⟩, hsize, hok⟩ := hinspected
  have hsame : SameUpload y x :=
    (hruns.persists (lasting_asset hstart a)).same e₁ he₁ y x (hya ▸ hy) hx
  have hxid : x.id = a := asset?_id hx
  rw [← hsame.storageKey] at hhead hlength hget hbytes
  have hquiet := List.all_eq_true.mp hunaltered e₀ he₀
  simp only [hreadied, Bool.not_true, Bool.false_or, Bool.and_eq_true] at hquiet
  -- nothing was written since that the confirmation would have seen
  have hsince : ∀ {β : Type} [DecidableEq β] (look : Option Bytes → β) {first : REntry → Bool}
      {e : REntry}, noneAfter first (alters look x.storageKey) w.shared.trace = true →
      e ∈ w.shared.trace → first e = true → alters look x.storageKey e = false →
      look (w.shared.env.object? x.storageKey) = look (e.before.env.object? x.storageKey) := by
    intro β _ look first e hnone he hfirst hown
    obtain ⟨newer, older, htr⟩ := List.append_of_mem he
    refine Runs.object_since look hstart hruns hkey htr (fun e' he' => ?_) fun e' he' => ?_
    · rcases List.mem_append.mp he' with he' | he'
      · exact noneAfter_of_split hnone htr hfirst e' he'
      · rw [List.mem_singleton.mp he']
        exact hown
    · refine huntouched.undeleted e' ?_
      rw [htr]
      rcases List.mem_append.mp he' with he' | he'
      · exact List.mem_append_left _ he'
      · rw [List.mem_singleton.mp he']
        exact List.mem_append_right _ List.mem_cons_self
  have hobject : w.shared.env.object? x.storageKey = some bytes :=
    (hsince id hquiet.2 he' (by simp [fetches, hget, hconfirming'.1])
      (by simp [alters, hget])).trans hbytes
  have hlengths : (some bytes).map List.length = some size := by
    rw [← hlength, ← hobject]
    exact hsince size? hquiet.1 he (by simp [heads, hhead, hconfirming.1]) (by simp [alters, hhead])
  obtain rfl : bytes.length = size := Option.some.inj hlengths
  obtain ⟨hsizes, haccepts⟩ := hsame.rejections cfg bytes.length (some inspection)
  refine ⟨bytes, inspection, hobject, by rw [hz]; rfl, by rw [hz]; rfl,
    ⟨e', he', ⟨e₀.tid, ?_, by simp [fetches, hget, hconfirming'.1]⟩, hbytes⟩, hinspect,
    hsizes.trans hsize, haccepts.trans hok⟩
  rw [hxid, ← hya]
  exact hconfirming'

/-- The client posts twice, and the asset holds the second object, which is the
one that was inspected. -/
theorem ready_object_unaltered_posted : ∃ w x, Reached defaults w ∧
    asset? w.shared.db 12 = some x ∧ w.shared.trace.countP (rewrites x.storageKey) = 2 ∧
    HoldsVerified defaults w.shared x := by
  have hrun : (sampleWorld.runAll (app defaults) (reportCreated
      ++ .spawn 3 (.requestUpload 1 10 .audio "audio/mpeg" 2 "a") :: steps 3 13
      ++ .answer 3 .done :: .step 3 :: .ambient (.post audioKey [1])
      :: .ambient (.post audioKey [0xff, 0xfb]) :: .spawn 4 (.confirmUpload 1 10 12) :: steps 4 7
      ++ .answer 4 .done :: .answer 4 .done :: steps 4 7)).any (fun w =>
      (asset? w.shared.db 12).any (fun x => x.status = .ready
          && w.shared.trace.countP (rewrites x.storageKey) = 2
          && unaltered 12 x.storageKey w.shared.trace)
        && w.shared.trace.any (requestsAsset 12) && undisputed 12 w.shared.trace) = true := by
    decide +kernel
  obtain ⟨w, hw, hp⟩ := exists_reached hrun
  simp only [Bool.and_eq_true, Option.any_eq_true, decide_eq_true_eq] at hp
  obtain ⟨⟨⟨x, hx, ⟨hready, htwice⟩, hunaltered⟩, hrequested⟩, hundisputed⟩ := hp
  exact ⟨w, x, hw, hx, htwice, ready_object_unaltered defaults w hw 12 x hx hready
    (requested_of_any hrequested) hundisputed hunaltered⟩

/-- The client posts other bytes after the asset was confirmed. -/
theorem ready_object_altered : ∃ cfg w x, Reached cfg w ∧
    asset? w.shared.db x.id = some x ∧ x.status = .ready ∧ Requested w.shared x.id ∧
    ¬ HoldsVerified cfg w.shared x := by
  have hrun : (sampleWorld.runAll (app defaults)
      (audioConfirmed ++ [.ambient (.post audioKey [1, 2])])).any (fun w =>
      (asset? w.shared.db 12).any (fun x => x.status = .ready
          && w.shared.env.object? x.storageKey = some [1, 2])
        && w.shared.trace.any (requestsAsset 12)) = true := by
    decide +kernel
  obtain ⟨w, hw, hp⟩ := exists_reached hrun
  simp only [Bool.and_eq_true, Option.any_eq_true, decide_eq_true_eq] at hp
  obtain ⟨⟨x, hx, hready, hobject⟩, hrequested⟩ := hp
  have hid := asset?_id hx
  refine ⟨defaults, w, x, hw, hid.symm ▸ hx, hready, hid.symm ▸ requested_of_any hrequested, ?_⟩
  rintro ⟨bytes, inspection, hbytes, -, -, -, hinspect, -⟩
  rw [hobject] at hbytes
  cases hbytes
  have hnone : inspectAssetBytes ([1, 2].take inspectionRangeBytes) 2 = none := by decide +kernel
  cases hnone.symm.trans hinspect

end FastRep.Reports
