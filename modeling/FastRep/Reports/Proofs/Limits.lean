/-
The start limits over whole runs.

`enforceStartLimits` counts rows, so a limit is a statement about rows at
the moment of a start. Over a run the limits are about starts: how many
committed in a window and were not undone. The two agree for a run in
which every generation that leaves the database within the window leaves
by compensation: then each counted start still has its row when the last
one counts (`startsWithin_le`).

A report deletion removes its generations whatever their age, and with
them what the next start counts (`limits_exceeded`).

# The windows

Three limits have one form: so many starts of some users in a window of a
length. `startsWithin` counts the starts of the history that committed in the
window and were not undone, for any set of users, so a user's hour, a user's
day and everybody's day are three uses of one lemma. The users may have
generations of any number of reports under way, and starts overlap as they
like: each counts the rows of one moment.
-/
import FastRep.Reports.Proofs.Origins
import FastRep.Reports.Proofs.Reached

namespace FastRep.Reports

open FastRep.Txn

variable {cfg : Config} {start S : RState} {w : RWorld}

-- ================================================================ starts

/-- Some compensation removed the generation. -/
def undone (S : RState) (generationId : Id) : Bool :=
  S.trace.any fun e => match e.event with
    | .commit (.compensateQueueFailure g) (_ :: _) => g = generationId
    | _ => false

/-- The starts of some users that committed in the window of a length that
ends at `t`, and were not undone. -/
def startsWithin (S : RState) (users : Id → Bool) (length t : Time) : List REntry :=
  S.trace.filter fun e => t < e.before.clock + length && e.before.clock ≤ t
    && (startOf e).any fun p => users p.1 && !undone S p.2

/-- Every window of a run is within its limit. -/
def WithinLimits (cfg : Config) (S : RState) : Prop :=
  ∀ t, (∀ u, (startsWithin S (· = u) (cfg.generationStartRateWindowSeconds * 1000) t).length
        ≤ cfg.generationStartRateLimit ∧
      (startsWithin S (· = u) 86400000 t).length ≤ cfg.generationDailySafetyLimit) ∧
    (startsWithin S (fun _ => true) 86400000 t).length ≤ cfg.aiGlobalDailyGenerationLimit

/-- The longest window of the limits. -/
def Config.longestWindow (cfg : Config) : Time :=
  max (cfg.generationStartRateWindowSeconds * 1000) 86400000

/-- No report deletion of the run removed a generation younger than that. -/
def keepsRecent (cfg : Config) (S : RState) : Bool :=
  S.trace.all fun e => match e.event with
    | .commit (.deleteReport _) ws => (generations e.before.db).all fun x =>
        .erase (.generation x.id) ∉ ws || x.createdAt + cfg.longestWindow ≤ e.before.clock
    | _ => true

-- ============================================================= the count

/-- A compensation in the history has undone its generation. -/
theorem undone_of_mem {e : REntry} (he : e ∈ S.trace) {g : Id} {ws : List (Write Row Key)}
    (hev : e.event = .commit (.compensateQueueFailure g) ws) (hne : ws ≠ []) :
    undone S g = true := by
  refine List.any_eq_true.mpr ⟨e, he, ?_⟩
  rw [hev]
  cases ws with
  | nil => exact absurd rfl hne
  | cons => simp

/-- Where recent generations are kept, a deleted one is older than the longest
window. -/
theorem age_of_keepsRecent (h : keepsRecent cfg S = true) {e : REntry} (he : e ∈ S.trace)
    {i g : Id} {ws : List (Write Row Key)} {x : ReportGeneration}
    (hev : e.event = .commit (.deleteReport i) ws) (herase : .erase (.generation g) ∈ ws)
    (hx : generation? e.before.db g = some x) :
    x.createdAt + cfg.longestWindow ≤ e.before.clock := by
  have hid := generation?_id hx
  have hall := List.all_eq_true.mp h e he
  rw [hev] at hall
  have hage := List.all_eq_true.mp hall x (mem_generations.mpr (by rw [hid]; exact hx))
  simpa [hid, herase] using hage

/-- The starts of a window are at most as many as the limit the last of
them found unmet. -/
theorem startsWithin_le (hstart : Begins start) (h : Runs (contract cfg start) S)
    (hkeeps : keepsRecent cfg S = true) {users : Id → Bool} {length limit : Nat}
    (hlength : length ≤ cfg.longestWindow)
    (hlimit : ∀ (S₀ : RState) t u r k g ws, Starts cfg t u r k g ws S₀ → ws ≠ [] →
      users u = true →
      createdSince (fun x => users x.userId) (S₀.clock - length) S₀.db < limit) (t : Time) :
    (startsWithin S users length t).length ≤ limit := by
  cases hl : startsWithin S users length t with
  | nil => exact Nat.zero_le _
  | cons e rest =>
      obtain ⟨newer, older, htr, -, he, hrest⟩ := List.filter_eq_cons_iff.mp hl
      simp only [Bool.and_eq_true, decide_eq_true_eq, Option.any_eq_true] at he
      obtain ⟨⟨hafter, hbefore⟩, ⟨u, g⟩, hs, husers, -⟩ := he
      obtain ⟨S₀, S₁, hpast, rfl⟩ := Runs.at hstart.trace h htr
      obtain ⟨r, k, ws, -, hne, hstarts, -⟩ := starts_of_past hpast hs
      refine Nat.lt_of_le_of_lt ?_ (hlimit S₀ _ u r k g ws hstarts hne husers)
      have hclock : S₀.clock = e.before.clock := congrArg Scene.clock hpast.scene
      have hrest' : ∀ e' ∈ rest, ∃ u' g', startOf e' = some (u', g') ∧ users u' = true ∧
          undone S g' = false ∧ t < e'.before.clock + length ∧ e' ∈ S₀.trace := by
        intro e' he'
        obtain ⟨hmem, hp⟩ := List.mem_filter.mp (hrest ▸ he')
        simp only [Bool.and_eq_true, decide_eq_true_eq, Option.any_eq_true,
          Bool.not_eq_true'] at hp
        obtain ⟨⟨hafter', -⟩, ⟨u', g'⟩, hs', husers', hundone⟩ := hp
        exact ⟨u', g', hs', husers', hundone, hafter', hmem⟩
      -- each older start of the window has its row, under its own id
      have hsubset : ∀ g' ∈ (rest.filterMap startOf).map (·.2), g' ∈
          ((generations S₀.db).filter fun x => users x.userId
            && S₀.clock - length ≤ x.createdAt).map (·.id) := by
        intro g' hg'
        obtain ⟨⟨u', g₁⟩, hp, rfl⟩ := List.mem_map.mp hg'
        obtain ⟨e', he', hs'⟩ := List.mem_filterMap.mp hp
        obtain ⟨_, _, hs₁, husers', hundone, hafter', hmem⟩ := hrest' e' he'
        rw [hs'] at hs₁
        cases hs₁
        have hsuffix : S₀.trace <:+ S.trace := (List.suffix_cons _ _).trans hpast.suffix
        rcases Runs.kept hstart hpast.runs hmem hs' with ⟨e₂, he₂, ws₂, hev, hne₂⟩ |
          ⟨e₂, he₂, i, ws₂, x, hev, herase, hx, hcreated⟩ | ⟨x, hx, hu, hcreated⟩
        · rw [undone_of_mem (hsuffix.subset he₂) hev hne₂] at hundone
          cases hundone
        · have hage := age_of_keepsRecent hkeeps (hsuffix.subset he₂) hev herase hx
          have hle := Runs.clock_le hstart.trace hpast.runs he₂
          rw [hcreated] at hage
          change @LE.le Nat _ _ _ at hage
          change @LT.lt Nat _ _ _ at hafter'
          omega
        · refine List.mem_map.mpr ⟨x, List.mem_filter.mpr ⟨?_, ?_⟩, generation?_id hx⟩
          · exact mem_generations.mpr (by rw [generation?_id hx]; exact hx)
          · rw [hu, husers', hcreated]
            change @LT.lt Nat _ _ _ at hafter'
            simp only [Bool.true_and, decide_eq_true_eq]
            omega
      have hinj : ((rest.filterMap startOf).map (·.2)).Nodup := by
        refine (Runs.starts_nodup hstart hpast.runs).sublist ?_
        rw [← hrest]
        exact (List.filter_sublist.filterMap _).map _
      have hlen : ((rest.filterMap startOf).map (·.2)).length = rest.length := by
        rw [List.length_map, List.length_filterMap_eq_countP, List.countP_eq_length]
        intro e' he'
        obtain ⟨u', g', hs', -⟩ := hrest' e' he'
        rw [hs']
        rfl
      rw [← hlen, createdSince, ← List.length_map (f := fun x : ReportGeneration => x.id)]
      exact hinj.length_le_of_subset hsubset

/-- In a run whose report deletions remove no recent generation, every
window is within its limit. -/
theorem within_limits (h : Reached cfg w) (hkeeps : keepsRecent cfg w.shared = true) :
    WithinLimits cfg w.shared := by
  obtain ⟨start, hstart, hruns⟩ := h.runs
  have hlimits : ∀ {S₀ : RState} {t u r k g ws}, Starts cfg t u r k g ws S₀ → ws ≠ [] →
      createdSince (fun x => x.userId = u)
        (S₀.clock - cfg.generationStartRateWindowSeconds * 1000) S₀.db
        < cfg.generationStartRateLimit ∧
      createdSince (fun x => x.userId = u) (S₀.clock - 86400000) S₀.db
        < cfg.generationDailySafetyLimit ∧
      createdSince (fun _ => true) (S₀.clock - 86400000) S₀.db
        < cfg.aiGlobalDailyGenerationLimit := by
    intro S₀ t u r k g ws hstarts hne
    obtain ⟨rfl, -⟩ | ⟨_, _, _, -, -, -, -, -, -, -, -, -, -, -, -, hlimits⟩ := hstarts
    · exact absurd rfl hne
    · exact hlimits
  refine fun t => ⟨fun u => ⟨?_, ?_⟩, ?_⟩
  · refine startsWithin_le hstart hruns hkeeps (Nat.le_max_left _ _)
      (fun S₀ _ u' _ _ _ _ hstarts hne hu => ?_) t
    rw [← of_decide_eq_true hu]
    exact (hlimits hstarts hne).1
  · refine startsWithin_le hstart hruns hkeeps (Nat.le_max_right _ _)
      (fun S₀ _ u' _ _ _ _ hstarts hne hu => ?_) t
    rw [← of_decide_eq_true hu]
    exact (hlimits hstarts hne).2.1
  · refine startsWithin_le hstart hruns hkeeps (Nat.le_max_right _ _)
      (fun S₀ _ u' _ _ _ _ hstarts hne _ => ?_) t
    exact (hlimits hstarts hne).2.2

-- ============================================================== two runs

/-- One start for each user an hour. -/
def oneStart : Config := { defaults with generationStartRateLimit := 1 }

/-- A report with notes, credits, and a start that is cancelled: generation
12 of report 10. -/
def cancelledStart : List (Action Req Choice) :=
  .spawn 1 (.createReport 1 "t" (some "n")) :: steps 1 6
    ++ .spawn 2 (.allocateMonthly 1 "p" 5 0 1000000000) :: steps 2 9
    ++ .spawn 3 (.createGeneration 1 10 "k") :: steps 3 5 ++ .answer 3 .done :: steps 3 5
    ++ .spawn 4 (.cancelGeneration 1 10 12) :: steps 4 3 ++ .answer 4 .done :: steps 4 13

/-- The report is deleted, and a generation of a new one started. -/
def startedAgain : List (Action Req Choice) :=
  .spawn 5 (.deleteReport 1 10) :: steps 5 2
    ++ .spawn 6 (.createReport 1 "t" (some "n")) :: steps 6 6
    ++ .spawn 7 (.createGeneration 1 13 "k") :: steps 7 5

/-- A day before the deletion is enough. -/
theorem within_limits_day_later : ∃ w, Reached oneStart w ∧
    (w.shared.trace.filterMap startOf).length = 2 ∧ WithinLimits oneStart w.shared := by
  have hrun : (sampleWorld.runAll (app oneStart)
      (cancelledStart ++ .tick 86400000 :: startedAgain)).any (fun w =>
        keepsRecent oneStart w.shared && (w.shared.trace.filterMap startOf).length = 2) = true := by
    decide +kernel
  obtain ⟨w, hw, hp⟩ := exists_reached hrun
  simp only [Bool.and_eq_true, decide_eq_true_eq] at hp
  exact ⟨w, hw, hp.2, within_limits hw hp.1⟩

/-- At once, the deletion lets a second start in. -/
theorem limits_exceeded : ∃ cfg w, cfg.accepted = true ∧ Reached cfg w ∧
    ¬ WithinLimits cfg w.shared := by
  have hrun : (sampleWorld.runAll (app oneStart) (cancelledStart ++ startedAgain)).any
      (fun w => (startsWithin w.shared (· = 1) 3600000 0).length = 2) = true := by
    decide +kernel
  obtain ⟨w, hw, hp⟩ := exists_reached hrun
  refine ⟨oneStart, w, by decide +kernel, hw, fun hlimits => ?_⟩
  have hle := ((hlimits 0).1 1).1
  have htwo : (startsWithin w.shared (· = 1) 3600000 0).length = 2 := of_decide_eq_true hp
  exact absurd (htwo ▸ hle : 2 ≤ 1) (by decide)

end FastRep.Reports
