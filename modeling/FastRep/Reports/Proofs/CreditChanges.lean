/-
The credit part of a commit.

Every commit is its credit part and writes that leave the credits alone:
writes to other tables, or a deletion, which clears the name of what it
deleted from the entries that are kept.

`Effect.creditMove` says so for every site, with the credit part as one of the
moves of `CreditMove`. The sites that move no credits are done at once by
their tables (`Site.tables_of_movesCredits`). Writes before the credit part
and behind it are `Idle` in a lemma each (`Idle.of_off`, `Idle.of_off_end`), so
the order in which a transaction writes does not matter.
-/
import FastRep.Reports.Proofs.Changes
import FastRep.Reports.Proofs.CreditBodies

namespace FastRep.Reports

open FastRep.Txn

variable {cfg : Config} {t : Tid} {s : Site} {S : RState} {ws : List (Write Row Key)}
  {d d' d₁ : Db Row} {g : Id}

-- ================================================================== idle

theorem Idle.refl : Idle d d where
  grant := fun _ => rfl
  entry := fun _ => Or.inl rfl

/-- Writes around the credit part leave the credits alone. -/
theorem Idle.of_off {pre credit post : List (Write Row Key)} (hpre : OffLedger pre)
    (hpost : OffLedger post) :
    Idle (applyAll credit d) (applyAll (pre ++ credit ++ post) d) := by
  constructor
  · intro i
    apply grant?_congr
    rw [applyAll_append, hpost.find?_grant, applyAll_append]
    exact find?_applyAll_congr (hpre.find?_grant i) credit
  · intro k
    apply Or.inl
    apply ledger?_congr
    rw [applyAll_append, hpost.find?_ledger, applyAll_append]
    exact find?_applyAll_congr (hpre.find?_ledger k) credit

/-- Writes off the ledger after others are idle. -/
theorem Idle.of_off_end {pre credit : List (Write Row Key)} (hpre : OffLedger pre) :
    Idle (applyAll credit d) (applyAll (pre ++ credit) d) := by
  simpa using Idle.of_off hpre OffLedger.nil

/-- What is idle from a database is idle from one with the same credits. -/
theorem Idle.of_same (h : Idle d₁ d') (hgrant : ∀ i, grant? d₁ i = grant? d i)
    (hentry : ∀ k, ledger? d₁ k = ledger? d k) : Idle d d' := by
  constructor
  · intro i
    rw [h.grant, hgrant]
  · intro k
    rw [← hentry]
    exact h.entry k

/-- Writes to other tables are off the ledger. -/
theorem OffLedger.of_tables (h : ∀ w ∈ ws, w.target.table ≠ .grant ∧ w.target.table ≠ .ledger) :
    OffLedger ws := by
  intro w hw
  obtain ⟨hgrant, hledger⟩ := h w hw
  constructor
  · intro i hi
    apply hgrant
    rw [hi]
    rfl
  · intro k hk
    apply hledger
    rw [hk]
    rfl

/-- A deletion removes no entry, and changes only those of what is gone. -/
theorem Removes.idle {gone reports : Id → Prop} (h : Removes gone reports d' ws)
    (hsame : ∀ k, ledger? d k = ledger? d' k) : Idle d (applyAll ws d) := by
  constructor
  · intro i
    apply grant?_congr
    apply find?_applyAll_of_table
    intro w hw
    rcases h.tables w hw with htable | ⟨htable, -⟩
    · intro heq
      rw [heq] at htable
      simp [Key.table] at htable
    · intro heq
      rw [heq] at htable
      simp [Key.table] at htable
  · intro k
    rcases find?_applyAll_cases (d := d) h.nodup (.ledger k) with ⟨w, hw, htarget, hrow⟩ | hkeep
    · obtain ⟨x, -, -, rfl⟩ | ⟨x, -, -, rfl⟩ | ⟨a, -, rfl⟩ | ⟨r, -, rfl⟩ | ⟨i, -, rfl⟩ |
        ⟨o, -, -, rfl⟩ | ⟨l, i, hgone, hname, hl, rfl⟩ := h.writes w hw
      any_goals cases htarget
      refine Or.inr ⟨l, i, (hsame _).trans hl, hname, h.generation?_of_gone hgone, ?_⟩
      exact ledger?_eq_some.mpr hrow
    · exact Or.inl (ledger?_congr hkeep)

theorem Removes.noEntry {gone reports : Id → Prop} (h : Removes gone reports d' ws) :
    NoEntry ws := by
  intro l hl
  obtain ⟨x, -, -, h⟩ | ⟨x, -, -, h⟩ | ⟨a, -, h⟩ | ⟨r, -, h⟩ | ⟨i, -, h⟩ | ⟨o, -, -, h⟩ |
    ⟨l, i, -, -, -, h⟩ := h.writes _ hl <;> cases h

-- ============================================================ credit parts

/-- A release in a commit moves a credit back, once. -/
theorem Releases.creditMove {pre credit post : List (Write Row Key)} (h : Releases g credit S)
    (hs : s.givesBack g = true) (hgen : (generation? S.db g).isSome = true)
    (hgives : GivesBack g (pre ++ credit ++ post) S) (hne : pre ++ credit ++ post ≠ [])
    (hpre : NoEntry pre) (hpost : NoEntry post) :
    CreditMove S s (pre ++ credit ++ post) credit := by
  rcases h with ⟨rfl, -⟩ | ⟨x, l, rfl, hx, hle, hentry, hgrant, hfree, hterm⟩
  · apply CreditMove.settled hs hgen
    apply hgives.2 hne
    intro l hl
    rw [List.append_nil, List.mem_append] at hl
    exact hl.elim (hpre l) (hpost l)
  · exact .released hs hne hgen hx hle hentry hgrant (hgives.1 l (by simp)) hfree hterm

theorem Releases.creditMove_end {pre credit : List (Write Row Key)} (h : Releases g credit S)
    (hs : s.givesBack g = true) (hgen : (generation? S.db g).isSome = true)
    (hgives : GivesBack g (pre ++ credit) S) (hne : pre ++ credit ≠ []) (hpre : NoEntry pre) :
    CreditMove S s (pre ++ credit) credit := by
  rw [← List.append_nil (pre ++ credit)] at hgives hne ⊢
  exact h.creditMove hs hgen hgives hne hpre NoEntry.nil

/-- A grant in a commit moves credits in, once for its key. -/
theorem Grants.creditMove {k : LedgerKey} {p : GenerationCreditGrant → Prop}
    (h : Grants k p ws S)
    (hs : (∃ u k, s = .allocateMonthly u k) ∨ ∃ k, s = .grantGenerationCredits k)
    (hk : ∀ g a, k ≠ .generation g a)
    (hperiod : ∀ x i, p x → x.subscriptionPeriodKey = some i → k = .subscriptionPeriod x.userId i)
    (huser : ∀ l x, .insert (.ledger l) ∈ ws → .insert (.grant x) ∈ ws → p x →
      l.userId = x.userId)
    (hupdate : ∀ x l, p x → grant? S.db x.id = some x → l.type = .grant →
      l.generationId = none → l.grantId = some x.id → l.idempotencyKey = k →
      ledger? S.db k = none →
      CreditMove S s [.update (.grant x), .insert (.ledger l)]
        [.update (.grant x), .insert (.ledger l)]) :
    CreditMove S s ws ws := by
  rcases h with rfl | ⟨x, l, hp, rfl, hgen, htype, hgrant, hnone,
    ⟨rfl, hfree, hpos, hrem, hamount⟩ | ⟨rfl, hx⟩⟩
  · exact .idle (Or.inr rfl)
  · exact .granted hs hfree hpos hrem htype hgen hgrant hamount
      (huser l x (by simp) (by simp) hp) hk (fun i hi => hperiod x i hp hi) hnone
  · exact hupdate x l hp hx htype hgen hgrant rfl hnone

/-- Sites that move no credits write neither grants nor entries, but for the
deletion of a report. -/
theorem Site.tables_of_movesCredits (h : s.movesCredits = false) :
    (∃ r, s = .deleteReport r) ∨ (Table.grant ∉ s.tables ∧ Table.ledger ∉ s.tables) := by
  cases s <;> simp [Site.movesCredits, Site.tables] at h ⊢

/-- The credit part of a commit, and that the rest is idle. -/
theorem Effect.creditMove (h : Effect cfg t s ws S) (hc : Credited t s ws S) :
    ∃ credit, CreditMove S s ws credit ∧ Idle (applyAll credit S.db) (applyAll ws S.db) := by
  have hnil : ws = [] → ∃ credit, CreditMove S s ws credit ∧
      Idle (applyAll credit S.db) (applyAll ws S.db) := by
    rintro rfl
    exact ⟨[], .idle (Or.inr rfl), Idle.refl⟩
  cases hmoves : s.movesCredits with
  | false =>
      refine ⟨[], .idle (Or.inl hmoves), ?_⟩
      rcases Site.tables_of_movesCredits hmoves with ⟨r, rfl⟩ | ⟨hgrant, hledger⟩
      · obtain ⟨_, side, removal, -, -, -, hside, -, rfl, -, -, -, hremoves⟩ := h
        have hoff : OffLedger side := by
          apply OffLedger.of_tables
          intro w hw
          obtain ⟨k, -, htask⟩ := hside w hw
          rw [htask.table]
          exact ⟨by simp, by simp⟩
        have hsame : ∀ k, ledger? (applyAll side S.db) k = ledger? S.db k := by
          intro k
          exact ledger?_congr (hoff.find?_ledger k)
        rw [applyAll_append]
        exact (hremoves.idle hsame).of_same (fun i => grant?_congr (hoff.find?_grant i)) hsame
      · have hoff : OffLedger ws := by
          apply OffLedger.of_tables
          intro w hw
          have htable := h.tables w hw
          constructor
          · intro heq
            exact hgrant (heq ▸ htable)
          · intro heq
            exact hledger (heq ▸ htable)
        rw [← List.append_nil ws]
        exact Idle.of_off_end hoff
  | true =>
      cases s with
      | start userId reportId k g =>
          rcases h with ⟨rfl, -⟩ | ⟨r, user, credit, rfl, hreserves, -⟩
          · exact hnil rfl
          refine ⟨credit, ?_, ?_⟩
          · rcases hreserves with ⟨rfl, hsome⟩ | ⟨x, l, rfl, hx, hpos, hentry, hgrant, hnone⟩
            · exact .unspent (by simp) hsome
            · obtain ⟨x', hx', hgrant', huser, husable⟩ := hc l (by simp)
              have hid : x'.id = x.id := by
                rw [hgrant] at hgrant'
                exact (Option.some.inj hgrant').symm
              rw [hid, hx] at hx'
              cases hx'
              exact .reserved (by simp) hx hpos husable hentry hgrant huser hnone
          · have hpre : ∀ x, OffLedger [.insert (.generation x)] := by
              simp [OffLedger, Write.target, key]
            have hpost : ∀ x, OffLedger [.update (.report x)] := by
              simp [OffLedger, Write.target, key]
            exact Idle.of_off (hpre _) (hpost _)
      | compensateQueueFailure g =>
          rcases h with rfl | ⟨newer, older, read, x, y, credit, follow, removal, -, -, -, -, -, -,
            rfl, hrel, hfollow, hy, hremoves⟩
          · exact hnil rfl
          have hfollow' : ∀ w ∈ follow, ∃ r : Report, w = .update (.report r) := by
            intro w hw
            rcases hfollow with ⟨r, -, -, rfl⟩ | ⟨rfl, -⟩
            · exact ⟨_, List.mem_singleton.mp hw⟩
            · cases hw
          have hoff : OffLedger follow := by
            intro w hw
            obtain ⟨r, rfl⟩ := hfollow' w hw
            simp [Write.target, key]
          have hentry : NoEntry (follow ++ removal) := by
            intro l hl
            rcases List.mem_append.mp hl with hl | hl
            · obtain ⟨r, hr⟩ := hfollow' _ hl
              cases hr
            · exact hremoves.noEntry l hl
          have hne : credit ++ (follow ++ removal) ≠ [] := by
            intro hnil
            have hmem := hremoves.complete g rfl
            rw [List.append_eq_nil_iff, List.append_eq_nil_iff] at hnil
            rw [hnil.2.2] at hmem
            cases hmem
          refine ⟨credit, ?_, ?_⟩
          · rw [List.append_assoc] at hc ⊢
            rw [← List.nil_append credit] at hc hne ⊢
            exact Releases.creditMove hrel (by simp [Site.givesBack]) (by rw [hy]; rfl) hc hne
              NoEntry.nil hentry
          · rw [applyAll_append, applyAll_append]
            refine Idle.of_same (hremoves.idle fun k => ?_) (fun i => ?_) fun k => ?_
            · rw [applyAll_append]
            · exact grant?_congr (hoff.find?_grant i)
            · exact ledger?_congr (hoff.find?_ledger k)
      | cancel g =>
          obtain ⟨x, r, now, prior, credit, hx, -, -, -, rfl, hrel⟩ := h
          refine ⟨credit, ?_, ?_⟩
          · have hgives : GivesBack g ([_, _] ++ credit) S := hc
            exact hrel.creditMove_end (by simp [Site.givesBack]) (by rw [hx]; rfl) hgives
              (by simp) (NoEntry.generation_report _ _)
          · exact Idle.of_off_end (OffLedger.generation_report _ _)
      | failGeneration g tok =>
          rcases h with rfl | ⟨x, r, errorCode, message, now, read, hasOutput, credit, hx, -, -,
            -, -, -, rfl, hrel⟩
          · exact hnil rfl
          refine ⟨credit, ?_, ?_⟩
          · have hgives : GivesBack g ([_, _] ++ credit) S := hc
            exact hrel.creditMove_end (by simp [Site.givesBack]) (by rw [hx]; rfl) hgives
              (by simp) (NoEntry.generation_report _ _)
          · exact Idle.of_off_end (OffLedger.generation_report _ _)
      | finalizeSuccess g tok =>
          obtain ⟨x, r, o, now, credit, hx, -, -, -, -, -, -, -, -, rfl, hconsumes⟩ := h
          have hgen : (generation? S.db g).isSome = true := by
            rw [hx]
            rfl
          refine ⟨credit, ?_, ?_⟩
          · rcases hconsumes with ⟨rfl, honce⟩ | ⟨l, rfl, hentry, -, hnone, hterm⟩
            · exact .spent hgen honce
            · exact .consumed hgen hentry (hc l (by simp)) hnone hterm
          · have hoff : OffLedger [.insert (.output o), .update (.generation (x.completed now)),
                .update (.report r.published)] := by
              simp [OffLedger, Write.target, key]
            exact Idle.of_off_end hoff
      | allocateMonthly userId k =>
          refine ⟨ws, ?_, Idle.refl⟩
          refine Grants.creditMove h (Or.inl ⟨_, _, rfl⟩) (by simp) ?_ ?_ ?_
          · intro x i hp hi
            rw [hp.2] at hi
            cases hi
            rw [hp.1]
          · intro l x hl _ hp
            rw [hc l hl, hp.1]
          · intro x l hp hx htype hgen hgrant hkey hnone
            exact .entered hx htype hgen hgrant hp.1 hp.2 hkey (hkey ▸ hnone)
      | grantGenerationCredits k =>
          refine ⟨ws, ?_, Idle.refl⟩
          refine Grants.creditMove h (Or.inr ⟨_, rfl⟩) (by simp) ?_ ?_ ?_
          · intro x i hp hi
            rw [hp.1] at hi
            cases hi
          · intro l x hl hx _
            exact hc l x hl hx
          · intro x l hp hx _ _ _ _ _
            exact absurd hx (by simp [hp.2])
      | _ => cases hmoves

end FastRep.Reports
