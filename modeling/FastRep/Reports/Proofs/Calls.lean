/-
How a call changes the outside world.

Whatever a call answers, and also where it takes effect without an answer,
it either leaves the world as it is or does what it serves
(`perform_cases`). Jobs are only added by `enqueue`, and the object under a
key is only touched by the calls that name the key (`Call.touches`) and by
what clients post to it.
-/
import FastRep.Reports.Proofs.Duplication

namespace FastRep.Reports

open FastRep.Txn

variable {x : Call} {c : Choice} {n : Nat} {v env : Env} {g : Id} {k : StorageKey}

/-- The calls that touch the object of a key. -/
def Call.touches (k : StorageKey) : Call → Bool
  | .putObject k' _ | .deleteObject k' | .copyObject _ k' => k' = k
  | _ => false

/-- A step of the outside is an answer of the service, or leaves it as it was.
-/
theorem perform_cases {answer : Services.Answer x}
    (h : Services.perform x c n v = some (answer, env)) :
    env = v ∨ ∃ c' a, x.serve n v c' = some (a, env) := by
  have hserved : ∀ {c' : Choice} {f : x.Value × Env → Services.Answer x},
      ((x.serve n v c').map fun r => (f r, r.2)) = some (answer, env) →
      ∃ c' a, x.serve n v c' = some (a, env) := by
    intro c' f hmap
    obtain ⟨⟨a, env'⟩, hserve, heq⟩ := Option.map_eq_some_iff.mp hmap
    cases heq
    exact ⟨c', a, hserve⟩
  cases c with
  | failed e =>
      simp only [Services.perform] at h
      split at h
      · cases h
        exact Or.inl rfl
      · cases h
  | lost e =>
      simp only [Services.perform] at h
      split at h
      · exact Or.inr (hserved h)
      · cases h
  | _ => exact Or.inr (hserved h)

/-- What a served call leaves of the world. -/
theorem serve_cases {a : x.Value} (h : x.serve n v c = some (a, env)) :
    (env.jobs = v.jobs ∨ (∃ g, x = .enqueue g ∧ env.jobs = g :: v.jobs) ∨
      ∃ g, x = .removeJob g ∧ env.jobs = v.jobs.filter (· ≠ g)) ∧
    ∀ k, env.object? k = v.object? k ∨ x.touches k = true := by
  have hsame : env = v → (env.jobs = v.jobs ∨ (∃ g, x = .enqueue g ∧ env.jobs = g :: v.jobs) ∨
      ∃ g, x = .removeJob g ∧ env.jobs = v.jobs.filter (· ≠ g)) ∧
      ∀ k, env.object? k = v.object? k ∨ x.touches k = true := by
    rintro rfl
    exact ⟨Or.inl rfl, fun _ => Or.inl rfl⟩
  cases x with
  | enqueue g =>
      cases c with
      | done =>
          cases h
          exact ⟨Or.inr (Or.inl ⟨g, rfl, rfl⟩), fun _ => Or.inl rfl⟩
      | _ => cases h
  | removeJob g =>
      cases c with
      | done =>
          cases h
          exact ⟨Or.inr (Or.inr ⟨g, rfl, rfl⟩), fun _ => Or.inl rfl⟩
      | _ => cases h
  | putObject k₀ bytes =>
      cases c with
      | done =>
          cases h
          refine ⟨Or.inl rfl, fun k => ?_⟩
          rw [Env.object?_putObject]
          by_cases hk : k = k₀
          · exact Or.inr (by simp [Call.touches, hk])
          · exact Or.inl (if_neg hk)
      | _ => cases h
  | deleteObject k₀ =>
      cases c with
      | done =>
          cases h
          refine ⟨Or.inl rfl, fun k => ?_⟩
          rw [Env.object?_deleteObject]
          by_cases hk : k = k₀
          · exact Or.inr (by simp [Call.touches, hk])
          · exact Or.inl (if_neg hk)
      | _ => cases h
  | copyObject source k₀ =>
      cases c with
      | done =>
          obtain ⟨bytes, -, heq⟩ := Option.map_eq_some_iff.mp h
          cases heq
          refine ⟨Or.inl rfl, fun k => ?_⟩
          rw [Env.object?_putObject]
          by_cases hk : k = k₀
          · exact Or.inr (by simp [Call.touches, hk])
          · exact Or.inl (if_neg hk)
      | _ => cases h
  | getObject k₀ range =>
      cases c with
      | done =>
          simp only [Call.serve] at h
          split at h
          · cases h
            exact hsame rfl
          · cases h
      | _ => cases h
  | createPresignedPost k₀ mimeType maximumBytes ttlSeconds =>
      cases c with
      | done =>
          cases h
          exact ⟨Or.inl rfl, fun _ => Or.inl rfl⟩
      | _ => cases h
  | _ =>
      apply hsame
      cases c <;> first | (cases h; rfl) | cases h

/-- A call adds no job but the one it enqueues. -/
theorem job_of_perform {answer : Services.Answer x}
    (h : Services.perform x c n v = some (answer, env)) (hjob : g ∈ env.jobs) :
    g ∈ v.jobs ∨ x = .enqueue g := by
  rcases perform_cases h with rfl | ⟨c', a, hserve⟩
  · exact Or.inl hjob
  rcases (serve_cases hserve).1 with hsame | ⟨i, rfl, hadded⟩ | ⟨i, -, hremoved⟩
  · exact Or.inl (hsame ▸ hjob)
  · rw [hadded] at hjob
    rcases List.mem_cons.mp hjob with rfl | hjob
    · exact Or.inr rfl
    · exact Or.inl hjob
  · rw [hremoved] at hjob
    exact Or.inl (List.mem_of_mem_filter hjob)

/-- A call changes no object but of the key it names. -/
theorem object?_of_perform {answer : Services.Answer x}
    (h : Services.perform x c n v = some (answer, env)) (k : StorageKey) :
    env.object? k = v.object? k ∨ x.touches k = true := by
  rcases perform_cases h with rfl | ⟨c', a, hserve⟩
  · exact Or.inl rfl
  · exact (serve_cases hserve).2 k

/-- A client changes no object but the one it posts, and no job. -/
theorem ambient_cases (h : @Services.ambient Call Choice Env _ c n v = some env) :
    ∃ k bytes, c = .post k bytes ∧ env = v.putObject k bytes ∧
      ∃ u ∈ v.contracts, u.storageKey = k ∧ n ≤ u.expiresAt ∧ 1 ≤ bytes.length ∧
        bytes.length ≤ u.maximumBytes := by
  cases c with
  | post k bytes =>
      simp only [Services.ambient] at h
      split at h
      next hany =>
          obtain ⟨u, hu, hok⟩ := List.any_eq_true.mp hany
          simp only [Bool.and_eq_true, decide_eq_true_eq] at hok
          cases h
          exact ⟨k, bytes, rfl, rfl, u, hu, hok.1.1.1, hok.1.1.2, hok.1.2, hok.2⟩
      next => cases h
  | _ => cases h

end FastRep.Reports
