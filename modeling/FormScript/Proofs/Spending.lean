import FormScript.Proofs.Plan

/-!
# Looks at the limits

What a run does where its limits come in. A look outside changes neither the limit nor the count,
and where there is no clock and no signal it changes nothing (`Budget.Unwatched`). What a look finds
it finds at every later one too, so a run that may still go on could have gone on before
(`Budget.Later.verdict`). A loop pass that is counted is one more than before, and all that can come
of it is said once, by `Run.Ticks`.
-/

namespace FormScript

namespace Budget

variable {b b' b'' : Budget}

/-- Neither a clock nor a signal can stop the run. -/
def Unwatched (b : Budget) : Prop :=
  b.timeLeft = none ∧ b.cancellation = none

@[simp] theorem limit_look (b : Budget) : b.look.limit = b.limit := by
  unfold look
  split <;> rfl

@[simp] theorem iterations_look (b : Budget) : b.look.iterations = b.iterations := by
  unfold look
  split <;> rfl

/-- Where there is nothing to look for, a look changes nothing. -/
theorem Unwatched.look_eq (h : b.Unwatched) : b.look = b :=
  if_pos h

/-- Where there is something to look for, a look takes the time that has passed and the signal from
outside. -/
theorem look_of_watched (h : ¬b.Unwatched) :
    b.look = { b with
      timeLeft := b.timeLeft.map (· - (b.outside b.looks).elapsed)
      cancellation := b.cancellation.map (· || (b.outside b.looks).signalled)
      looks := b.looks + 1 } :=
  if_neg h

/-- Where there is nothing to look for, a run may always go on. -/
theorem Unwatched.verdict_eq (h : b.Unwatched) : b.verdict = .ok () := by
  rw [verdict, h.1, h.2]
  rfl

/-- A run may go on where no signal was seen and some time is left. -/
theorem verdict_eq_ok_iff :
    b.verdict = .ok () ↔ b.cancellation ≠ some true ∧ b.timeLeft ≠ some 0 := by
  unfold verdict
  split
  next hsignal => simp [hsignal]
  next hsignal =>
    split
    next htime => simp [htime]
    next htime => simp [hsignal, htime]

/-- The signal and the end of the time do not go away. -/
theorem verdict_of_look (h : b.look.verdict = .ok ()) : b.verdict = .ok () := by
  by_cases hunwatched : b.Unwatched
  · exact hunwatched.verdict_eq
  · rw [look_of_watched hunwatched, verdict_eq_ok_iff] at h
    obtain ⟨hsignal, htime⟩ := h
    refine verdict_eq_ok_iff.2 ⟨fun hgiven => hsignal ?_, fun hover => htime ?_⟩
    · simp [hgiven]
    · simp [hover]

/-- What a look sees does not depend on the count. -/
theorem look_withIterations (b : Budget) (n : UInt64) :
    { b with iterations := n }.look = { b.look with iterations := n } := by
  have hcount : { b with iterations := n }.Unwatched ↔ b.Unwatched := .rfl
  by_cases hunwatched : b.Unwatched
  · rw [hunwatched.look_eq, (hcount.2 hunwatched).look_eq]
  · rw [look_of_watched hunwatched, look_of_watched (mt hcount.1 hunwatched)]

/-- What has become of a budget after some looks and counts. -/
inductive Later (b : Budget) : Budget → Prop where
  | refl : Later b b
  | count {b' : Budget} (n : UInt64) (h : Later b b') : Later b { b' with iterations := n }
  | look {b' : Budget} (h : Later b b') : Later b b'.look

/-- What comes later than something later is later. -/
theorem Later.trans (h : b.Later b') (h' : b'.Later b'') : b.Later b'' := by
  induction h' with
  | refl => exact h
  | count n _ ih => exact ih.count n
  | look _ ih => exact ih.look

/-- Two budgets of which one is later stay so if both take a look. -/
theorem Later.look_look (h : b.Later b') : b.look.Later b'.look := by
  induction h with
  | refl => exact .refl
  | @count b' n _ ih =>
    rw [look_withIterations b' n]
    exact ih.count n
  | look _ ih => exact ih.look

/-- The count of the earlier budget does not matter. -/
theorem Later.count_left (h : b.Later b') (n : UInt64) : { b with iterations := n }.Later b' := by
  induction h with
  | refl =>
    have hself : { b with iterations := n }.Later { b with iterations := n } := .refl
    exact hself.count b.iterations
  | count k _ ih => exact ih.count k
  | look _ ih => exact ih.look

/-- A run that may still go on could have gone on before. -/
theorem Later.verdict (h : b.Later b') (hok : b'.verdict = .ok ()) : b.verdict = .ok () := by
  induction h with
  | refl => exact hok
  | count n _ ih => exact ih hok
  | look _ ih => exact ih (verdict_of_look hok)

/-- A counted pass is one more than before, and nothing else has changed. -/
theorem count?_eq_some (h : b.count? = some b') :
    b' = { b with iterations := b.iterations + 1 } ∧
      b'.iterations.toNat = b.iterations.toNat + 1 := by
  unfold count? at h
  split at h
  next hroom =>
    cases h
    refine ⟨rfl, ?_⟩
    rw [UInt64.toNat_add]
    exact Nat.mod_eq_of_lt hroom
  next => cases h

/-- A counter that is full counts no pass. -/
theorem count?_eq_none_iff : b.count? = none ↔ b.iterations.toNat + 1 = UInt64.size := by
  have hsize : b.iterations.toNat < UInt64.size := b.iterations.toNat_lt_size
  unfold count?
  split
  · simp only [reduceCtorEq, false_iff]
    omega
  · simp only [true_iff]
    omega

/-- The passes counted so far are no more than the limit. -/
def Within (b : Budget) : Prop :=
  ∀ limit, b.limit = some limit → b.iterations.toNat ≤ limit.toNat

/-- A pass that was counted is refused by the limit, or it is within the limit and goes by the look
outside. -/
theorem charge_cases (b : Budget) :
    (∃ limit, b.limit = some limit ∧ limit.toNat < b.iterations.toNat ∧
      b.charge = (.error (.iterationsExceeded limit), b)) ∨
    b.Within ∧ b.charge = b.check := by
  unfold charge Within
  cases b.limit with
  | none => exact .inr ⟨nofun, rfl⟩
  | some limit =>
    by_cases hlt : limit < b.iterations
    · exact .inl ⟨limit, rfl, hlt, if_pos hlt⟩
    · refine .inr ⟨?_, if_neg hlt⟩
      rintro _ ⟨⟩
      exact Nat.not_lt.1 hlt

end Budget

namespace Run

/-- Limits that stop a run change nothing but what they have become and the log. -/
theorem obey_error (line : Nat) (fault : RuntimeFault) (b : Budget) (m : Machine) :
    ∃ log, obey line (.error fault, b) m =
      .error (.error ⟨line, fault⟩) { m with budget := b, log } := by
  cases fault <;> exact ⟨_, rfl⟩

/-- Before a statement a run looks outside, and goes on or stops by what it sees. -/
theorem checkBudget_cases (line : Nat) (m : Machine) :
    (m.budget.look.verdict = .ok () ∧
      checkBudget line m = .ok () { m with budget := m.budget.look }) ∨
    ∃ fault log, m.budget.look.verdict = .error fault ∧
      checkBudget line m =
        .error (.error ⟨line, fault⟩) { m with budget := m.budget.look, log } := by
  have hrun : checkBudget line m = obey line (m.budget.look.verdict, m.budget.look) m := rfl
  rw [hrun]
  cases m.budget.look.verdict with
  | ok u => exact .inl ⟨rfl, rfl⟩
  | error fault =>
    obtain ⟨log, hlog⟩ := obey_error line fault m.budget.look m
    exact .inr ⟨fault, log, rfl, hlog⟩

/-- What can come of a loop pass. -/
inductive Ticks (line : Nat) (m : Machine) : Ending Unit → Prop where
  /-- There is no number left for it. -/
  | overflow (full : m.budget.count? = none) : Ticks line m (.error .overflow m)
  /-- It is one more than the limit. -/
  | exceeded {b : Budget} {limit : UInt64} (log : Log) (counted : m.budget.count? = some b)
      (limited : b.limit = some limit) (beyond : limit.toNat < b.iterations.toNat) :
    Ticks line m (.error (.error ⟨line, .iterationsExceeded limit⟩) { m with budget := b, log })
  /-- The signal or the clock stops the run. -/
  | stopped {b : Budget} {fault : RuntimeFault} (log : Log) (counted : m.budget.count? = some b)
      (within : b.Within) (seen : b.look.verdict = .error fault) :
    Ticks line m (.error (.error ⟨line, fault⟩) { m with budget := b.look, log })
  /-- It is made. -/
  | made {b : Budget} (counted : m.budget.count? = some b) (within : b.Within)
      (seen : b.look.verdict = .ok ()) :
    Ticks line m (.ok () { m with budget := b.look })

/-- Nothing else comes of a loop pass. -/
theorem tick_ticks (line : Nat) (m : Machine) : Ticks line m (tick line m) := by
  have hrun : tick line m = obeyCounted line (m.budget.count?.map Budget.charge) m := rfl
  rw [hrun]
  cases hcount : m.budget.count? with
  | none => exact .overflow hcount
  | some b =>
    rw [Option.map_some, obeyCounted]
    rcases b.charge_cases with ⟨limit, hlimit, hbeyond, hcharge⟩ | ⟨hwithin, hcharge⟩
    · obtain ⟨log, hlog⟩ := obey_error line (.iterationsExceeded limit) b m
      rw [hcharge, hlog]
      exact .exceeded log hcount hlimit hbeyond
    · rw [hcharge, Budget.check]
      cases hverdict : b.look.verdict with
      | ok u => exact .made hcount hwithin hverdict
      | error fault =>
        obtain ⟨log, hlog⟩ := obey_error line fault b.look m
        rw [hlog]
        exact .stopped log hcount hwithin hverdict

/-- A loop pass that there is no number for overflows the counter. -/
theorem tick_of_full {m : Machine} (line : Nat) (h : m.budget.count? = none) :
    tick line m = .error .overflow m := by
  have hrun : tick line m = obeyCounted line (m.budget.count?.map Budget.charge) m := rfl
  rw [hrun, h]
  rfl

/-- Without a signal and a clock a look at the limits does nothing. -/
theorem checkBudget_of_unwatched {m : Machine} (h : m.budget.Unwatched) (line : Nat) :
    checkBudget line m = .ok () m := by
  rcases checkBudget_cases line m with ⟨-, hrun⟩ | ⟨fault, log, hverdict, -⟩
  · rwa [h.look_eq] at hrun
  · rw [h.look_eq, h.verdict_eq] at hverdict
    cases hverdict

/-- Without a signal and a clock a loop pass that is counted is made, or is beyond the limit. -/
theorem tick_of_counted {m : Machine} {b : Budget} (line : Nat) (h : m.budget.Unwatched)
    (hcount : m.budget.count? = some b) :
    b.Within ∧ tick line m = .ok () { m with budget := b } ∨
    ∃ limit log, b.limit = some limit ∧ limit.toNat < b.iterations.toNat ∧
      tick line m =
        .error (.error ⟨line, .iterationsExceeded limit⟩) { m with budget := b, log } := by
  have hb : b.Unwatched := by
    rw [(Budget.count?_eq_some hcount).1]
    exact h
  have hticks := tick_ticks line m
  generalize tick line m = r at hticks ⊢
  cases hticks with
  | overflow full => cases full.symm.trans hcount
  | exceeded log counted limited beyond =>
    cases counted.symm.trans hcount
    exact .inr ⟨_, log, limited, beyond, rfl⟩
  | stopped log counted within seen =>
    cases counted.symm.trans hcount
    rw [hb.look_eq, hb.verdict_eq] at seen
    cases seen
  | made counted within seen =>
    cases counted.symm.trans hcount
    rw [hb.look_eq]
    exact .inl ⟨within, rfl⟩

end Run

end FormScript
