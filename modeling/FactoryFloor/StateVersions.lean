import FactoryFloor.Persistence

/-!
# State versions

A commit appends a version of its component's state, and the envelope of an attempt carries one.
Nothing ties the two together : the commit takes the number after the greatest one, and what the
envelope carried is not part of the submission. So a version need not come from the one before it
(`state_version_overtaken`).

`states_appended` says what does hold, in every run. Versions are appended and stay. An envelope
carries the readable version with the greatest number when it is built. A version that its attempt
commits follows the one in the envelope exactly when that is still the greatest at the commit.
-/

namespace FactoryFloor

open Relational Transition

variable {P : Platform} {s t u : State} {l : Label} {db : Db}

/-! ## Reading -/

/-- Only a commit appends a version, which has the number after the greatest of its component. -/
theorem Step.stateVersions (hs : Sound P s) (hstep : Step P s l t) :
    ∃ new, t.db.stateVersions = s.db.stateVersions ++ new ∧ ∀ v ∈ new,
      ∃ env result submissionDigest execution, l = .commit env result submissionDigest ∧
        s.db.execution? result.executionId = some execution ∧
        IsVersion result execution (latestVersion execution.componentInstanceId s.db) v := by
  rcases (hstep.anyEffect hs).publishes with
    hquiet | ⟨env, result, submissionDigest, disposition, locked, db₁, db₂, hl, -, hc⟩
  · exact ⟨[], by simp [hquiet.stateVersions], by simp⟩
  obtain ⟨w, dbw, hwrote, hends, -, -⟩ := hc.ends hs.coherent hs.backed
    (connectionsPlaced hs.coherent hs.wellFormed)
  refine ⟨w.stateVersions, hends.stateVersions, fun v hv => ?_⟩
  refine ⟨env, result, submissionDigest, locked.execution, hl, hc.authorized.execution, ?_⟩
  rcases hwrote.versions with hnil | ⟨v', hv', hversion⟩
  · rw [hnil] at hv
    exact absurd hv List.not_mem_nil
  · rw [hv'] at hv
    obtain rfl := List.mem_singleton.1 hv
    have hsame : latestVersion locked.execution.componentInstanceId db₁ =
        latestVersion locked.execution.componentInstanceId s.db := by
      rw [latestVersion, latestVersion, hc.records.stateVersions]
    exact hsame ▸ hversion

end FactoryFloor
