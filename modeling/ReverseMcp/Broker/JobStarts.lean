import ReverseMcp.Broker.JobRuns

/-!
# What a start registers

`JobManager::start` shortens the text of the parameters to its first 200 bytes.  The cut does not
look where characters end, as `preview_of` does, so a long text with a character across byte 200
ends the call in a panic.  `registers_iff` is the exact condition under which a start refuses or
registers as it should; its other half is that the next handle is new, which holds as long as the
counter of handles has not wrapped.
-/

namespace ReverseMcp

open Rust

/-- A summary shows the parameters: all of their text, or a beginning of at most 200 bytes. -/
def JobManager.SummaryOf [Host] (params : Json) (summary : String) : Prop :=
  summary.toList = params.compact ∨
    ∃ cs, cs <+: params.compact ∧ byteLen cs ≤ 200 ∧ summary.toList = cs ++ ['…']

/-- The text of the parameters can be cut: it is short, or a character ends at byte 200. -/
def JobManager.Cuttable [Host] (params : Json) : Prop :=
  byteLen params.compact ≤ 200 ∨ ∃ cs, cs <+: params.compact ∧ byteLen cs = 200

/-- A start refuses at the bound of running jobs and leaves the registry as it is, or it returns a
new id with one more job under it, which is running. -/
def JobSystem.Registers [Host] (s : JobSystem) (db method : String) (params : Json) : Prop :=
  match s.act (.start db method params) with
  | some (.err _, s') => s.manager.max_running ≤ s.manager.running ∧ s'.manager = s.manager
  | some (.ok v, s') =>
    s.manager.running < s.manager.max_running ∧
      ∃ (id : String) (job : Job), v = .string id ∧ id ∉ s.manager.jobs ∧
        s'.manager = { s.manager with jobs := s.manager.jobs.insert id job } ∧
        job.db = db ∧ job.method = method ∧ job.state = .running ∧
        JobManager.SummaryOf params job.summary
  | _ => False

section Host

variable [Host] {s : JobSystem} {params : Json}

/-- What is cut off fits the bound. -/
lemma JobManager.summary_of_cuttable (h : JobManager.Cuttable params) :
    ∃ text, JobManager.summary params = .ok text ∧ JobManager.SummaryOf params text := by
  by_cases hlen : byteLen params.compact ≤ 200
  · refine ⟨String.ofList params.compact, ?_, .inl String.toList_ofList⟩
    rw [summary, if_neg (not_lt.mpr hlen)]
  · obtain ⟨cs, hpre, hcs⟩ := h.resolve_left hlen
    have hcut : sliceTo 200 params.compact = some cs := sliceTo_eq_some_iff.mpr ⟨hpre, hcs⟩
    refine ⟨String.ofList cs ++ "…", ?_, .inr ⟨cs, hpre, hcs.le, ?_⟩⟩
    · rw [summary, if_pos (not_le.mp hlen), hcut]
    · rw [String.toList_append, String.toList_ofList]
      rfl

/-- Byte 200 is inside a character. -/
lemma JobManager.summary_of_not_cuttable (h : ¬ JobManager.Cuttable params) :
    JobManager.summary params = .panic .boundary := by
  obtain ⟨hlen, hnone⟩ := not_or.mp h
  have hcut : sliceTo 200 params.compact = none := by
    cases hcut : sliceTo 200 params.compact with
    | none => rfl
    | some cs => exact absurd ⟨cs, sliceTo_eq_some_iff.mp hcut⟩ hnone
  rw [summary, if_pos (not_le.mp hlen), hcut]

/-- At the bound, a start is refused before anything else happens. -/
lemma JobSystem.act_start_full (h : s.manager.max_running ≤ s.manager.running) (db method : String)
    (params : Json) :
    ∃ e, s.act (.start db method params) = some (.err e, s) := by
  have hstart : ∃ e, s.manager.start s.next_id s.now db method params = .err e := by
    rw [JobManager.start, failIf, Outcome.errIf, if_pos h]
    exact ⟨_, rfl⟩
  obtain ⟨e, hstart⟩ := hstart
  exact ⟨e, by rw [act]; simp only [hstart]⟩

/-- Below the bound, the start ends as the summary does. -/
lemma JobSystem.start_eq (h : s.manager.running < s.manager.max_running) (db method : String)
    (params : Json) :
    s.manager.start s.next_id s.now db method params = (do
      let summary ← JobManager.summary params
      let id := (Handle.mk "job" s.next_id).text
      let job : Job :=
        { db, method, summary, state := .running, started := s.now, finished := none }
      return (id, { s.manager with jobs := s.manager.jobs.insert id job }, s.next_id + 1)) := by
  rw [JobManager.start, failIf, Outcome.errIf, if_neg (not_le.mpr h)]
  rfl

/-- A start does what it should iff it is refused, or the text of its parameters can be cut and the
next handle is not registered yet. -/
theorem registers_iff (s : JobSystem) (db method : String) (params : Json) :
    s.Registers db method params ↔
      s.manager.max_running ≤ s.manager.running ∨
        JobManager.Cuttable params ∧ (Handle.mk "job" s.next_id).text ∉ s.manager.jobs := by
  rw [JobSystem.Registers]
  by_cases hfull : s.manager.max_running ≤ s.manager.running
  · obtain ⟨e, hact⟩ := JobSystem.act_start_full hfull db method params
    rw [hact]
    exact iff_of_true ⟨hfull, rfl⟩ (.inl hfull)
  · have hrun : s.manager.running < s.manager.max_running := not_le.mp hfull
    have hstart := JobSystem.start_eq hrun db method params
    rw [or_iff_right hfull]
    by_cases hcut : JobManager.Cuttable params
    · obtain ⟨text, htext, hof⟩ := JobManager.summary_of_cuttable hcut
      rw [htext, Outcome.ok_bind] at hstart
      simp only [JobSystem.act, hstart]
      constructor
      · rintro ⟨-, id, job, hid, hnew, -⟩
        cases hid
        exact ⟨hcut, hnew⟩
      · rintro ⟨-, hnew⟩
        exact ⟨hrun, _, _, rfl, hnew, rfl, rfl, rfl, rfl, hof⟩
    · rw [JobManager.summary_of_not_cuttable hcut, Outcome.panic_bind] at hstart
      simp only [JobSystem.act, hstart]
      exact iff_of_false id fun h => hcut h.1

end Host

/-- Parameters whose 200th byte is the first of two. -/
def wideParams : Json :=
  .object [("pattern", .string (String.ofList (List.replicate 187 'a' ++ ['é', 'é'])))]

/-- The first job of a process panics: the text of its parameters cannot be cut. -/
theorem start_panics :
    letI : Host := Host.ascii true
    (JobSystem.new 4 3600).act (.start "db1" "strings" wideParams) =
        some (.panic .boundary, JobSystem.new 4 3600) ∧
      ¬ (JobSystem.new 4 3600).Registers "db1" "strings" wideParams := by
  let _ : Host := Host.ascii true
  have hsummary : JobManager.summary wideParams = .panic .boundary := by decide +kernel
  have hrun : (JobSystem.new 4 3600).manager.running <
      (JobSystem.new 4 3600).manager.max_running := by
    decide
  have hact : (JobSystem.new 4 3600).act (.start "db1" "strings" wideParams) =
      some (.panic .boundary, JobSystem.new 4 3600) := by
    rw [JobSystem.act, JobSystem.start_eq hrun, hsummary]
    rfl
  refine ⟨hact, ?_⟩
  rw [JobSystem.Registers, hact]
  exact id

end ReverseMcp
