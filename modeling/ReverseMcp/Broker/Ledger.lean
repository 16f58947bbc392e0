import Mathlib.Data.List.Perm.Subperm
import ReverseMcp.Broker.FrameReads

/-!
# The calls at the pump

The pump as its callers see it: the ids in the channel, the ids that wait for a response, and what
went into the reply channels.  `PumpStep.books` says once what a step does to these three; from it
follow the two invariants of the pump that need no assumption about the worker: an id is answered
at most once (`Books.known_subperm`), and what it is answered with is the pump's own error or the
result of a response that carries the id (`Sound`).
-/

namespace ReverseMcp

open Rust Protocol
open scoped List

/-- An id that is taken from the front of the channel is put before those that wait. -/
lemma subperm_taken (pending rest' : List U64) (id : U64) (rest : List U64) (h : rest' <+ rest) :
    id :: pending.filter (· ≠ id) ++ rest' <+~ pending ++ id :: rest := by
  have hfilter : pending.filter (· ≠ id) ++ rest' <+ pending ++ rest :=
    List.Sublist.append List.filter_sublist h
  exact (hfilter.cons_cons id).subperm.trans List.perm_middle.symm.subperm

/-- The id of a response is taken from those that wait. -/
lemma subperm_answered {pending : List U64} {id : U64} (h : id ∈ pending) :
    id :: pending.filter (· ≠ id) <+~ pending := by
  have hperm := List.perm_cons_erase h
  have hfilter : pending.filter (· ≠ id) ~ (pending.erase id).filter (· ≠ id) := by
    have hp := hperm.filter (· ≠ id)
    rwa [List.filter_cons_of_neg (by simp)] at hp
  have herase : pending.filter (· ≠ id) <+~ pending.erase id :=
    hfilter.subperm.trans List.filter_sublist.subperm
  exact ((List.subperm_cons id).mpr herase).trans hperm.symm.subperm

namespace PumpState

/-- What a step does to the ids in the channel and to the ids that wait, and what it answers. -/
inductive Books (s s' : PumpState) : PumpEvent → Prop
  /-- The books stay as they are. -/
  | same {e : PumpEvent} (hcall : ∀ id, e ≠ .call id) (hreceive : ∀ w, e ≠ .receive w)
      (hhangup : e ≠ .hangup) (hqueue : s'.queue = s.queue) (hpending : s'.pending = s.pending)
      (hanswered : s'.answered = s.answered) (hseen : s'.seen = s.seen)
      (hended : s'.ended = s.ended) : Books s s' e
  | called (id : U64) (hrun : s.ended = none) (hqueue : s'.queue = s.queue ++ [id])
      (hpending : s'.pending = s.pending) (hanswered : s'.answered = s.answered)
      (hseen : s'.seen = s.seen) (hended : s'.ended = none) : Books s s' (.call id)
  | received {id : U64} {rest : List U64} (hrun : s.ended = none) (hqueue : s.queue = id :: rest)
      (hqueue' : s'.queue = rest) (hpending : s'.pending = id :: s.pending.filter (· ≠ id))
      (hanswered : s'.answered = s.answered) (hseen : s'.seen = s.seen)
      (hended : s'.ended = none) : Books s s' (.receive true)
  /-- A response is read. -/
  | delivered {n : ℕ} (r : Protocol.WorkerResponse) (hrun : s.ended = none)
      (hqueue : s'.queue = s.queue) (hseen : s'.seen = s.seen ++ [r])
      (hpending : s'.pending = s.pending.filter (· ≠ r.id))
      (hanswered : s'.answered = s.answered ++
        if r.id ∈ s.pending then [(r.id, response_result r)] else [])
      (hended : s'.ended = none) : Books s s' (.poll n)
  /-- The pump ends, and those that wait get an error, if they get anything. -/
  | halted {e : PumpEvent} (hcall : ∀ id, e ≠ .call id) (hreceive : e ≠ .receive true)
      (failed : List U64) (why : String) (hrun : s.ended = none)
      (hfailed : failed <+~ s.pending ++ s.queue) (hqueue : s'.queue = [])
      (hpending : s'.pending = [])
      (hanswered : s'.answered = s.answered ++ failed.map fun id => (id, fail why))
      (hseen : s'.seen = s.seen) (hended : s'.ended ≠ none) : Books s s' e

variable [Serde] {s s' : PumpState}

omit [Serde] in
lemma deliver_queue (r : Protocol.WorkerResponse) : (s.deliver r).queue = s.queue := by
  rw [deliver]
  split <;> rfl

omit [Serde] in
lemma deliver_pending (r : Protocol.WorkerResponse) :
    (s.deliver r).pending = s.pending.filter (· ≠ r.id) := by
  rw [deliver]
  split
  · rfl
  · rename_i hr
    refine (List.filter_eq_self.mpr fun id hid => ?_).symm
    simpa using fun heq : id = r.id => hr (heq ▸ hid)

omit [Serde] in
lemma deliver_answered (r : Protocol.WorkerResponse) :
    (s.deliver r).answered = s.answered ++
      if r.id ∈ s.pending then [(r.id, response_result r)] else [] := by
  rw [deliver]
  split <;> simp

/-- What the pump does with a line that it has read. -/
lemma complete_books (hrun : s.ended = none) (n : ℕ) : Books s s.complete (.poll n) := by
  rw [complete]
  split
  · rename_i r _
    exact .delivered r hrun (deliver_queue r) (deliver_seen _ r) (deliver_pending r)
      (deliver_answered r) (by simpa using hrun)
  · exact .halted (by simp) (by simp) s.pending "worker exited unexpectedly" hrun
      (List.sublist_append_left _ _).subperm rfl rfl rfl rfl (by simp [failAll, finish])
  · exact .halted (by simp) (by simp) s.pending _ hrun
      (List.sublist_append_left _ _).subperm rfl rfl rfl rfl (by simp [failAll, finish])
  · exact .same (by simp) (by simp) (by simp) rfl rfl rfl rfl rfl

omit [Serde] in
/-- The books do not see the bytes. -/
lemma Books.of_bytes {s₁ : PumpState} {e : PumpEvent} (h : Books s₁ s' e)
    (hqueue : s₁.queue = s.queue) (hpending : s₁.pending = s.pending)
    (hanswered : s₁.answered = s.answered) (hseen : s₁.seen = s.seen)
    (hended : s₁.ended = s.ended) : Books s s' e := by
  cases h with
  | same hc hr hh hq hp ha hs he =>
    exact .same hc hr hh (hq.trans hqueue) (hp.trans hpending) (ha.trans hanswered)
      (hs.trans hseen) (he.trans hended)
  | called id hrun hq hp ha hs he =>
    exact .called id (hended ▸ hrun) (hqueue ▸ hq) (hp.trans hpending) (ha.trans hanswered)
      (hs.trans hseen) he
  | received hrun hq hq' hp ha hs he =>
    exact .received (hended ▸ hrun) (hqueue ▸ hq) hq' (hpending ▸ hp) (ha.trans hanswered)
      (hs.trans hseen) he
  | delivered r hrun hq hs hp ha he =>
    exact .delivered r (hended ▸ hrun) (hq.trans hqueue) (hseen ▸ hs) (hpending ▸ hp)
      (hpending ▸ hanswered ▸ ha) he
  | halted hc hr failed why hrun hf hq hp ha hs he =>
    exact .halted hc hr failed why (hended ▸ hrun) (hqueue ▸ hpending ▸ hf) hq hp (hanswered ▸ ha)
      (hs.trans hseen) he

lemma consume_books (hrun : s.ended = none) (n : ℕ) : Books s s.consume (.poll n) := by
  simp only [consume]
  split
  · exact (complete_books (by exact hrun) n).of_bytes rfl rfl rfl rfl rfl
  · exact .same (by simp) (by simp) (by simp) rfl rfl rfl rfl rfl

lemma poll_books (hrun : s.ended = none) {n : ℕ} (h : s.poll n = some s') :
    Books s s' (.poll n) := by
  rw [poll] at h
  split at h
  · cases h
    exact consume_books hrun n
  · split at h
    · cases h
      exact (consume_books (by exact hrun) n).of_bytes rfl rfl rfl rfl rfl
    · cases h
  · split at h
    · cases h
      exact complete_books hrun n
    · cases h

omit [Serde] in
lemma receive_books (hrun : s.ended = none) {written : Bool} (h : s.receive written = some s') :
    Books s s' (.receive written) := by
  rw [receive] at h
  split at h
  · cases h
  · rename_i id rest hqueue
    cases written with
    | true =>
      cases h
      exact .received hrun hqueue rfl rfl rfl rfl hrun
    | false =>
      cases h
      have hfailed : id :: s.pending.filter (· ≠ id) <+~ s.pending ++ s.queue := by
        rw [hqueue]
        simpa using subperm_taken s.pending [] id rest (List.nil_sublist rest)
      exact .halted (by simp) (by simp) _ "worker stdin write failed" hrun hfailed rfl rfl rfl rfl
        (by simp [failAll, finish])

end PumpState

open PumpState

variable [Serde] {s s' : PumpState} {e : PumpEvent}

/-- What a step of the pump does to its books. -/
lemma PumpStep.books (h : PumpStep s e s') : Books s s' e := by
  cases e with
  | write bs =>
    simp only [PumpStep, act] at h
    split at h <;> cases h
    exact .same (by simp) (by simp) (by simp) rfl rfl rfl rfl rfl
  | exit =>
    simp only [PumpStep, act] at h
    split at h <;> cases h
    exact .same (by simp) (by simp) (by simp) rfl rfl rfl rfl rfl
  | timeout =>
    cases h
    exact .same (by simp) (by simp) (by simp) rfl rfl rfl rfl rfl
  | call id =>
    simp only [PumpStep, act] at h
    split at h
    · rename_i hopen
      cases h
      exact .called id hopen.1 rfl rfl rfl rfl hopen.1
    · cases h
  | receive written =>
    simp only [PumpStep, act] at h
    split at h
    · rename_i hrun
      exact receive_books hrun h
    · cases h
  | hangup =>
    simp only [PumpStep, act] at h
    split at h
    · rename_i hopen
      cases h
      exact .halted (by simp) (by simp) [] "" hopen.1 List.nil_subperm rfl rfl
        (by simp [finish]) rfl (by simp [finish])
    · cases h
  | poll n =>
    simp only [PumpStep, act] at h
    split at h
    · rename_i hrun
      exact poll_books hrun h
    · cases h

namespace PumpState

/-- What the worker has written, and whether it is there. -/
def output (s : PumpState) : List U8 × Bool := (s.written, s.exited)

lemma complete_output (s : PumpState) : s.complete.output = s.output := by
  rw [complete]
  split
  · simp [output]
  · rfl
  · rfl
  · rfl

lemma consume_output (s : PumpState) : s.consume.output = s.output := by
  simp only [consume]
  split
  · exact complete_output _
  · rfl

lemma poll_output {n : ℕ} (h : s.poll n = some s') : s'.output = s.output := by
  rw [poll] at h
  split at h
  · cases h
    exact consume_output s
  · split at h
    · cases h
      exact consume_output _
    · cases h
  · split at h
    · cases h
      exact complete_output s
    · cases h

omit [Serde] in
lemma receive_output {written : Bool} (h : s.receive written = some s') :
    s'.output = s.output := by
  rw [receive] at h
  split at h
  · cases h
  · split at h
    · cases h
      rfl
    · cases h
      rfl

/-- The pump neither writes to the worker's stdout nor ends the worker. -/
lemma output_of_step (h : PumpStep s e s') (hwrite : ∀ bs, e ≠ .write bs) (hexit : e ≠ .exit) :
    s'.output = s.output := by
  cases e with
  | write bs => exact absurd rfl (hwrite bs)
  | exit => exact absurd rfl hexit
  | timeout =>
    cases h
    rfl
  | call id =>
    simp only [PumpStep, act] at h
    split at h <;> cases h
    rfl
  | receive written =>
    simp only [PumpStep, act] at h
    split at h
    · exact receive_output h
    · cases h
  | hangup =>
    simp only [PumpStep, act] at h
    split at h <;> cases h
    rfl
  | poll n =>
    simp only [PumpStep, act] at h
    split at h
    · exact poll_output h
    · cases h

/-- The ids that the pump knows: those it has answered, those that wait, and those in the
channel. -/
def known (s : PumpState) : List U64 := s.answered.map Prod.fst ++ (s.pending ++ s.queue)

/-- What goes into a reply channel is the pump's own error or the result of a response that carries
the id of the call. -/
def Sound (s : PumpState) : Prop :=
  ∀ p ∈ s.answered, (∃ why, p.2 = fail why) ∨
    ∃ r ∈ s.seen, r.id = p.1 ∧ p.2 = response_result r

omit [Serde] in
lemma Books.sound (h : Books s s' e) (hs : s.Sound) : s'.Sound := by
  cases h with
  | same _ _ _ _ _ ha hseen _ => intro p hp; rw [ha] at hp; rw [hseen]; exact hs p hp
  | called _ _ _ _ ha hseen _ => intro p hp; rw [ha] at hp; rw [hseen]; exact hs p hp
  | received _ _ _ _ ha hseen _ => intro p hp; rw [ha] at hp; rw [hseen]; exact hs p hp
  | delivered r _ _ hseen _ ha _ =>
    intro p hp
    rw [ha] at hp
    rw [hseen]
    rcases List.mem_append.mp hp with hp | hp
    · refine (hs p hp).imp id ?_
      rintro ⟨r', hr', hid, hres⟩
      exact ⟨r', List.mem_append_left _ hr', hid, hres⟩
    · split at hp
      · obtain rfl := List.mem_singleton.mp hp
        exact .inr ⟨r, by simp, rfl, rfl⟩
      · cases hp
  | halted _ _ failed why _ _ _ _ ha hseen _ =>
    intro p hp
    rw [ha] at hp
    rw [hseen]
    rcases List.mem_append.mp hp with hp | hp
    · exact hs p hp
    · obtain ⟨id, -, rfl⟩ := List.mem_map.mp hp
      exact .inl ⟨why, rfl⟩

omit [Serde] in
/-- A step that is no call brings no new id, and none a second time. -/
lemma Books.known_subperm (h : Books s s' e) (hcall : ∀ id, e ≠ .call id) :
    s'.known <+~ s.known := by
  cases h with
  | same _ _ _ hq hp ha _ _ => rw [known, known, hq, hp, ha]
  | called id => exact absurd rfl (hcall id)
  | received _ hq hq' hp ha _ _ =>
    rw [known, known, hq, hq', hp, ha]
    exact (List.subperm_append_left _).mpr (subperm_taken _ _ _ _ (List.Sublist.refl _))
  | delivered r _ hq _ hp ha _ =>
    rw [known, known, hq, hp, ha, List.map_append, List.append_assoc]
    refine (List.subperm_append_left _).mpr ?_
    rw [← List.append_assoc]
    refine (List.subperm_append_right _).mpr ?_
    split
    · rename_i hr
      exact subperm_answered hr
    · exact List.filter_sublist.subperm
  | halted _ _ failed _ _ hf hq hp ha _ _ =>
    rw [known, known, hq, hp, ha, List.map_append, List.map_map, List.append_assoc]
    refine (List.subperm_append_left _).mpr ?_
    simpa [Function.comp_def] using hf

omit [Serde] in
/-- A call brings its id. -/
lemma Books.known_call {id : U64} (h : Books s s' (.call id)) : s'.known = s.known ++ [id] := by
  cases h with
  | same hc => exact absurd rfl (hc id)
  | called _ _ hq hp ha _ _ => simp [known, hq, hp, ha]
  | halted hc => exact absurd rfl (hc id)

end PumpState

end ReverseMcp
