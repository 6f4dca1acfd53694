/-
From reachable states of the machine to runs of the contract, and the
concrete world the examples of this development start in.

Every law of the report side is proved over `Runs (contract cfg start)`;
`Reached.runs` carries it to the states of the machine.

The world of the examples has one verified user and nothing else. Its runs
are lists of actions for the machine, each a continuation of another one: a
report with credits, a start, a cancellation, a run up to its publication, an
upload and its confirmation, a transcription, a duplicate of the report.
-/
import FastRep.Reports.Environment
import FastRep.Reports.Proofs.Requests

namespace FastRep.Reports

open FastRep.Txn

variable {cfg : Config} {w : RWorld}

/-- A world that has served no request begins a run. -/
theorem begins_init {db : Db Row} (clock nextId : Nat) (h : Unused db) :
    Begins (World.init db ⟨[], [], []⟩ clock nextId : RWorld).shared where
  unused := h
  env := rfl
  locks := rfl
  opens := rfl
  live := rfl
  trace := rfl

/-- A reached state ends a run of the contract. -/
theorem Reached.runs (h : Reached cfg w) :
    ∃ start, Begins start ∧ Runs (contract cfg start) w.shared := by
  obtain ⟨db, clock, nextId, hunused, hreach⟩ := h
  have hbegins := begins_init clock nextId hunused
  exact ⟨_, hbegins, (app_safe hbegins).runs rfl hreach⟩

/-- A step from a reached state reaches another. -/
theorem Reached.next {w' : RWorld} {a : Action Req Choice} (h : Reached cfg w)
    (hstep : w.apply (app cfg) a = some w') : Reached cfg w' := by
  obtain ⟨db, clock, nextId, hunused, hreach⟩ := h
  exact ⟨db, clock, nextId, hunused, hreach.step a hstep⟩

-- ======================================================= a concrete world

/-- A verified user. -/
def sampleUser : User where
  id := 1
  email := "owner@example.com"
  language := "en"
  timezone := none
  emailVerifiedAt := some 0

/-- A database of one user, who has not used the report side. -/
def sampleDb : Db Row where
  rows := [.user sampleUser]
  nodup := List.nodup_singleton _

/-- The world that starts with it. -/
def sampleWorld : RWorld := World.init sampleDb ⟨[], [], []⟩ 0 10

/-- What a list of actions reaches from it. -/
theorem Reached.sample {as : List (Action Req Choice)}
    (h : sampleWorld.runAll (app cfg) as = some w) : Reached cfg w := by
  refine ⟨sampleDb, 0, 10, fun r hr => ?_, Reachable.init.runAll as h⟩
  cases List.mem_singleton.mp hr
  exact Or.inl ⟨_, rfl⟩

/-- A list of actions that can be taken leads to a reached state with what
holds at its end. -/
theorem exists_reached {as : List (Action Req Choice)} {p : RWorld → Bool}
    (h : (sampleWorld.runAll (app cfg) as).any p = true) : ∃ w, Reached cfg w ∧ p w = true := by
  obtain ⟨w, hw, hp⟩ := (Option.any_eq_true _ _).mp h
  exact ⟨w, Reached.sample hw, hp⟩

/-- So many steps of a thread. -/
def steps (t n : Nat) : List (Action Req Choice) := List.replicate n (.step t)

/-- Report 10 with notes, and five credits. -/
def reportCreated : List (Action Req Choice) :=
  .spawn 1 (.createReport 1 "t" (some "n")) :: steps 1 6
    ++ .spawn 2 (.allocateMonthly 1 "p" 5 0 1000000000) :: steps 2 9

/-- Its generation 12 is started and in the queue. -/
def generationStarted : List (Action Req Choice) :=
  reportCreated ++ .spawn 3 (.createGeneration 1 10 "k") :: steps 3 5
    ++ .answer 3 .done :: steps 3 5

/-- Its generation is then cancelled. -/
def generationCancelled : List (Action Req Choice) :=
  generationStarted ++ .spawn 4 (.cancelGeneration 1 10 12) :: steps 4 3
    ++ .answer 4 .done :: steps 4 13

/-- What the provider writes about it. -/
def sampleResult : ReportResult where
  title := "t"
  subtitle := none
  summary := "s"
  sections := [⟨"h", [.paragraph "b"], []⟩]
  conclusion := none
  recommendations := []

/-- Its run has stored the file and is about to publish it. -/
def outputStored : List (Action Req Choice) :=
  generationStarted ++ .spawn 4 (.process 12 1 1) :: steps 4 28
    ++ .answer 4 (.moderated false none) :: steps 4 15
    ++ .answer 4 (.reported ⟨sampleResult, none, none, none⟩) :: steps 4 16
    ++ .answer 4 (.rendered [1]) :: steps 4 12 ++ [.answer 4 .done, .answer 4 .done]

/-- The key of its audio asset 12. -/
def audioKey : StorageKey := .asset 1 10 12 13

/-- The two bytes of an MP3 frame sync are uploaded to it and confirmed. -/
def audioConfirmed : List (Action Req Choice) :=
  reportCreated ++ .spawn 3 (.requestUpload 1 10 .audio "audio/mpeg" 2 "a") :: steps 3 13
    ++ .answer 3 .done :: .step 3 :: .ambient (.post audioKey [0xff, 0xfb])
    :: .spawn 4 (.confirmUpload 1 10 12) :: steps 4 7
    ++ .answer 4 .done :: .answer 4 .done :: steps 4 7

/-- Generation 14 of its report is started, and the run transcribes the
asset as one letter. -/
def audioTranscribed : List (Action Req Choice) :=
  audioConfirmed ++ .spawn 5 (.createGeneration 1 10 "k") :: steps 5 5
    ++ .answer 5 .done :: steps 5 5
    ++ .spawn 6 (.process 14 1 1) :: steps 6 24 ++ .answer 6 .done :: .step 6
    :: .answer 6 (.transcribed ⟨⟨"x", none, none⟩, none, none, none⟩) :: steps 6 25

/-- The run publishes the report, which is then duplicated: asset 17 of report
16 is a copy of asset 12. -/
def reportDuplicated : List (Action Req Choice) :=
  audioTranscribed ++ .answer 6 (.moderated false none) :: steps 6 15
    ++ .answer 6 (.reported ⟨sampleResult, none, none, none⟩) :: steps 6 16
    ++ .answer 6 (.rendered [1]) :: steps 6 12 ++ .answer 6 .done :: .answer 6 .done :: steps 6 14
    ++ .spawn 7 (.duplicateReport 1 10) :: steps 7 6 ++ .answer 7 .done :: .answer 7 .done
    :: steps 7 6

end FastRep.Reports
