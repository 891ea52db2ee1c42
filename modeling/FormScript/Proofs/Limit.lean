import FormScript.Proofs.Ending
import FormScript.Proofs.Equality

/-!
# What a limit on loop passes does

Where no clock and no signal can stop it, a run depends on its budget only through the passes that
the budget affords. Under a budget that affords fewer, it takes the same steps as under the other
one, up to the first pass that is refused (`Run.Counts`, `Plan.run_counts`). So a limit on loop
passes cuts a run short and changes nothing else about it, and the number of passes that the
unlimited run makes decides whether it does (`compileWith_limit`). A run that makes more passes than
can be counted is stopped by every limit but the last number of the counter, which the count never
goes beyond.

Every run under a limit comes to an end, and the end is a result or an error under every limit but
that one (`statement_ends_within_limit`).
-/

namespace FormScript

namespace Budget

variable {b b' : Budget} {j k : Nat}

/-- The budget after some more loop passes. -/
def advance (b : Budget) (k : Nat) : Budget :=
  { b with iterations := b.iterations + .ofNat k }

/-- No passes change nothing. -/
theorem advance_zero (b : Budget) : b.advance 0 = b := by
  have hzero : b.iterations + UInt64.ofNat 0 = b.iterations := UInt64.add_zero _
  rw [advance, hzero]

/-- Passes that are counted one after the other add up. -/
theorem advance_advance (b : Budget) (j k : Nat) : (b.advance j).advance k = b.advance (j + k) := by
  simp only [advance, UInt64.ofNat_add, UInt64.add_assoc]

/-- Passes that the counter has numbers for are added to it. -/
theorem iterations_advance (h : b.iterations.toNat + k < UInt64.size) :
    (b.advance k).iterations.toNat = b.iterations.toNat + k := by
  have hk : k % UInt64.size = k := Nat.mod_eq_of_lt (by omega)
  change (b.iterations + UInt64.ofNat k).toNat = _
  rw [UInt64.toNat_add, UInt64.toNat_ofNat']
  change (b.iterations.toNat + k % UInt64.size) % UInt64.size = _
  rw [hk, Nat.mod_eq_of_lt h]

/-- What can be afforded of passes can be afforded of fewer. -/
theorem Affords.mono (h : b.Affords k) (hle : j ≤ k) : b.Affords j := by
  intro hpos
  obtain ⟨hroom, hlimit⟩ := h (by omega)
  refine ⟨by omega, fun limit hl => ?_⟩
  have := hlimit limit hl
  omega

/-- Passes that can be afforded are added to the count. -/
theorem Affords.iterations_advance (h : b.Affords k) :
    (b.advance k).iterations.toNat = b.iterations.toNat + k := by
  rcases Nat.eq_zero_or_pos k with rfl | hk
  · rw [advance_zero, Nat.add_zero]
  · exact Budget.iterations_advance (h hk).1

/-- Passes that can be afforded are spent when they are added to the count. -/
theorem Affords.spent_advance (h : b.Affords k) : b.Spent k (b.advance k) :=
  ⟨rfl, h.iterations_advance, .count _ .refl⟩

/-- Behind passes that can be afforded, the further ones that can are those that can from the
start. -/
theorem Affords.advance_iff (h : b.Affords j) : (b.advance j).Affords k ↔ b.Affords (j + k) := by
  constructor
  · intro h'
    exact h.append h.spent_advance h'
  · intro h' hpos
    have hfits := h' (by omega)
    rwa [h.iterations_advance, Nat.add_assoc]

/-- A budget that nothing outside touches affords no more passes than another one. -/
structure Tighter (b b' : Budget) : Prop where
  unwatched : b.Unwatched
  affords : ∀ k, b.Affords k → b'.Affords k

/-- A budget that nothing outside touches affords no more than itself. -/
theorem Unwatched.tighter (h : b.Unwatched) : b.Tighter b :=
  ⟨h, fun _ => id⟩

/-- A budget stays tighter behind passes that it affords. -/
theorem Tighter.advance (h : b.Tighter b') (hj : b.Affords j) :
    (b.advance j).Tighter (b'.advance j) where
  unwatched := h.unwatched
  affords _ hk := (h.affords j hj).advance_iff.2 (h.affords _ (hj.advance_iff.1 hk))

/-- A budget that stops nothing: there is no limit on passes, no clock and no signal. -/
structure Free (b : Budget) : Prop where
  unlimited : b.limit = none
  unwatched : b.Unwatched

end Budget

/-! ## Runs under tighter budgets -/

/-- After passes that it affords, a budget has stopped a computation before the next one. -/
inductive Ending.CutShort {α : Type} (b : Budget) : Ending α → Prop where
  /-- There is no number left for the next pass. -/
  | overflow {k : Nat} (affords : b.Affords k) (full : b.iterations.toNat + k + 1 = UInt64.size)
      (m : Machine) : CutShort b (.error .overflow m)
  /-- The next pass is beyond the limit. -/
  | exceeded {k : Nat} {limit : UInt64} (affords : b.Affords k) (limited : b.limit = some limit)
      (room : b.iterations.toNat + k + 1 < UInt64.size)
      (beyond : limit.toNat < b.iterations.toNat + k + 1) (line : Nat) (m : Machine) :
    CutShort b (.error (.error ⟨line, .iterationsExceeded limit⟩) m)

namespace Ending.CutShort

variable {α β : Type} {b : Budget} {r : Ending α} {j : Nat}

/-- What is cut short behind some passes is cut short. -/
theorem of_advance (h : r.CutShort (b.advance j)) (hj : b.Affords j) : r.CutShort b := by
  have hiterations := hj.iterations_advance
  cases h with
  | overflow affords full m =>
    rw [hiterations] at full
    exact .overflow (hj.advance_iff.1 affords) (by omega) m
  | exceeded affords limited room beyond line m =>
    rw [hiterations] at room beyond
    exact .exceeded (hj.advance_iff.1 affords) limited (by omega) (by omega) line m

/-- A computation that is cut short has no result, and what would follow is not carried out. -/
theorem bind {x : Run α} {m : Machine} (h : CutShort b (x m)) (f : α → Run β) :
    CutShort b ((x >>= f) m) := by
  generalize hx : x m = r at h
  cases h with
  | overflow affords full m' =>
    rw [Run.bind_error hx]
    exact .overflow affords full m'
  | exceeded affords limited room beyond line m' =>
    rw [Run.bind_error hx]
    exact .exceeded affords limited room beyond line m'

/-- A computation is cut short whatever becomes of its machine then. -/
theorem mapMachine (h : r.CutShort b) (f : Machine → Machine) : (r.mapMachine f).CutShort b := by
  cases h with
  | overflow affords full m => exact .overflow affords full (f m)
  | exceeded affords limited room beyond line m =>
    exact .exceeded affords limited room beyond line (f m)

/-- Without a limit a computation is cut short by an overflow alone. -/
theorem eq_overflow (h : r.CutShort b) (hlimit : b.limit = none) : ∃ m, r = .error .overflow m := by
  cases h with
  | overflow _ _ m => exact ⟨m, rfl⟩
  | exceeded _ limited => cases hlimit.symm.trans limited

end Ending.CutShort

/-- What a computation does from a machine that nothing outside touches, and what it does under
tighter budgets. -/
inductive Run.Counts {α : Type} (x : Run α) (m : Machine) : Prop where
  /-- It makes `k` passes and comes through. Under a tighter budget it does the same if that affords
  the passes, and is cut short otherwise. -/
  | through (k : Nat) (affords : m.budget.Affords k)
      (counted : (Ending.machine (x m)).budget = m.budget.advance k)
      (answers : ∀ m', x m ≠ .error .overflow m')
      (alike : ∀ b, b.Tighter m.budget → b.Affords k →
        x (m.withBudget b) = Ending.mapMachine (·.withBudget (b.advance k)) (x m))
      (cut : ∀ b, b.Tighter m.budget → ¬b.Affords k → Ending.CutShort b (x (m.withBudget b)))
  /-- It is cut short, and so it is under every tighter budget. -/
  | cut (h : ∀ b, b.Tighter m.budget → Ending.CutShort b (x (m.withBudget b)))

namespace Run

section
variable {α β : Type} {x : Run α} {m : Machine}

/-- A computation that leaves the budget as it is makes no passes, if tighter budgets make no
difference. -/
theorem Counts.of_unspent (hbudget : (Ending.machine (x m)).budget = m.budget)
    (answers : ∀ m', x m ≠ .error .overflow m')
    (alike : ∀ b, b.Tighter m.budget →
      x (m.withBudget b) = Ending.mapMachine (·.withBudget b) (x m)) : Counts x m := by
  refine .through 0 (Budget.affords_zero _) ?_ answers ?_ ?_
  · rw [hbudget, Budget.advance_zero]
  · intro b hb _
    rw [Budget.advance_zero]
    exact alike b hb
  · intro b _ hnot
    exact absurd (Budget.affords_zero b) hnot

/-- A computation for which the budget makes no difference makes no passes. -/
theorem Blind.counts (hx : Blind x) (m : Machine) : Counts x m := by
  refine .of_unspent (hx.budget_eq m) ?_ fun b _ => hx.withBudget m b
  intro m' h
  have hanswers := hx.answers m
  rw [h] at hanswers
  cases hanswers

/-- A computation that gives up at once makes no passes. -/
theorem unfinished_counts (m : Machine) : Counts (throw .unfinished : Run α) m :=
  .of_unspent rfl (fun _ => nofun) fun _ _ => rfl

/-- Where nothing outside stops it, a look before a statement makes no passes. -/
theorem checkBudget_counts (line : Nat) (hm : m.budget.Unwatched) :
    Counts (checkBudget line) m := by
  have hrun := checkBudget_of_unwatched hm line
  refine .of_unspent ?_ ?_ fun b hb => ?_
  · rw [hrun]
    rfl
  · rw [hrun]
    exact fun _ => nofun
  · rw [hrun]
    exact checkBudget_of_unwatched hb.unwatched line

/-- Two computations one after the other make the passes of both. -/
theorem Counts.bind {f : α → Run β} (hx : Counts x m)
    (hf : ∀ a m', x m = .ok a m' → m'.budget.Unwatched → Counts (f a) m')
    (hm : m.budget.Unwatched) : Counts (x >>= f) m := by
  cases hx with
  | cut h => exact .cut fun b hb => (h b hb).bind f
  | through k affords counted answers alike cut =>
    cases hrun : x m with
    | error e m' =>
      rw [hrun] at counted answers alike
      have hbind := bind_error hrun f
      refine .through k affords ?_ ?_ ?_ ?_
      · rw [hbind]
        exact counted
      · rw [hbind]
        rintro _ ⟨⟩
        exact answers _ rfl
      · intro b hb hk
        rw [hbind, bind_error (alike b hb hk) f]
        rfl
      · exact fun b hb hk => (cut b hb hk).bind f
    | ok a m' =>
      rw [hrun] at counted alike
      have hbind := bind_ok hrun f
      have hcounted : m'.budget = m.budget.advance k := counted
      have hunwatched : m'.budget.Unwatched := by
        rw [hcounted]
        exact hm
      have hsecond : ∀ b, b.Tighter m.budget → b.Affords k →
          (x >>= f) (m.withBudget b) = f a (m'.withBudget (b.advance k)) :=
        fun b hb hk => bind_ok (alike b hb hk) f
      have htighter : ∀ b : Budget, b.Tighter m.budget → b.Affords k →
          (b.advance k).Tighter m'.budget := by
        intro b hb hk
        rw [hcounted]
        exact hb.advance hk
      cases hf a m' hrun hunwatched with
      | cut h =>
        refine .cut fun b hb => ?_
        by_cases hk : b.Affords k
        · rw [hsecond b hb hk]
          exact (h _ (htighter b hb hk)).of_advance hk
        · exact (cut b hb hk).bind f
      | through l affords' counted' answers' alike' cut' =>
        rw [hcounted] at affords' counted'
        refine .through (k + l) (affords.advance_iff.1 affords') ?_ ?_ ?_ ?_
        · rw [hbind, counted', Budget.advance_advance]
        · rw [hbind]
          exact answers'
        · intro b hb hkl
          have hk := hkl.mono (Nat.le_add_right k l)
          rw [hbind, hsecond b hb hk,
            alike' _ (htighter b hb hk) (hk.advance_iff.2 hkl), Budget.advance_advance]
        · intro b hb hkl
          by_cases hk : b.Affords k
          · rw [hsecond b hb hk]
            refine (cut' _ (htighter b hb hk) fun hl => hkl (hk.advance_iff.1 hl)).of_advance hk
          · exact (cut b hb hk).bind f

/-- In an isolated frame a computation makes its passes. -/
theorem Counts.isolated (h : Counts x { m with scopes := m.scopes.push }) :
    Counts (isolated x) m := by
  have hrun : ∀ b, Run.isolated x (m.withBudget b) =
      Ending.mapMachine (fun m => { m with scopes := m.scopes.pop })
        (x (Machine.withBudget { m with scopes := m.scopes.push } b)) :=
    fun b => isolated_run x (m.withBudget b)
  have hself : Run.isolated x m = _ := isolated_run x m
  cases h with
  | cut h =>
    refine .cut fun b hb => ?_
    rw [hrun]
    exact (h b hb).mapMachine _
  | through k affords counted answers alike cut =>
    refine .through k affords ?_ ?_ ?_ ?_
    · rw [hself, Ending.machine_mapMachine]
      exact counted
    · intro m' h
      rw [hself] at h
      cases hx : x { m with scopes := m.scopes.push } with
      | ok a m₁ =>
        rw [hx] at h
        cases h
      | error e m₁ =>
        rw [hx] at h
        cases h
        exact answers m₁ hx
    · intro b hb hk
      rw [hrun, hself, alike b hb hk]
      cases x { m with scopes := m.scopes.push } <;> rfl
    · intro b hb hk
      rw [hrun]
      exact (cut b hb hk).mapMachine _

/-- Where nothing outside stops it, a pass is made if the budget affords it. -/
theorem tick_of_affords (line : Nat) (hm : m.budget.Unwatched) (h : m.budget.Affords 1) :
    tick line m = .ok () (m.withBudget (m.budget.advance 1)) := by
  obtain ⟨hroom, hlimit⟩ := h (by omega)
  cases hcount : m.budget.count? with
  | none =>
    have hfull := Budget.count?_eq_none_iff.1 hcount
    omega
  | some b =>
    obtain ⟨rfl, hiterations⟩ := Budget.count?_eq_some hcount
    rcases tick_of_counted line hm hcount with ⟨-, hrun⟩ | ⟨limit, log, limited, beyond, -⟩
    · exact hrun
    · have hle := hlimit limit limited
      omega

/-- Where nothing outside stops it, a pass that the budget does not afford is refused. -/
theorem tick_cutShort (line : Nat) (hm : m.budget.Unwatched) (h : ¬m.budget.Affords 1) :
    Ending.CutShort m.budget (tick line m) := by
  cases hcount : m.budget.count? with
  | none =>
    rw [tick_of_full line hcount]
    exact .overflow (Budget.affords_zero _) (Budget.count?_eq_none_iff.1 hcount) m
  | some b =>
    obtain ⟨hcounted, hiterations⟩ := Budget.count?_eq_some hcount
    have hlimit : b.limit = m.budget.limit := by
      rw [hcounted]
    have hroom : b.iterations.toNat < UInt64.size := UInt64.toNat_lt_size _
    rw [hiterations] at hroom
    rcases tick_of_counted line hm hcount with ⟨within, -⟩ | ⟨limit, log, limited, beyond, hrun⟩
    · have hone : m.budget.Affords 1 := fun _ =>
        ⟨hroom, fun limit hl => hiterations ▸ within limit (hlimit.trans hl)⟩
      exact absurd hone h
    · rw [hrun]
      rw [hiterations] at beyond
      exact .exceeded (Budget.affords_zero _) (hlimit.symm.trans limited) hroom beyond line _

/-- A pass counts itself, or is where a tighter budget stops. -/
theorem tick_counts (line : Nat) (hm : m.budget.Unwatched) : Counts (tick line) m := by
  have hmade : ∀ b, b.Tighter m.budget → b.Affords 1 →
      tick line (m.withBudget b) = .ok () (m.withBudget (b.advance 1)) :=
    fun b hb h => tick_of_affords (m := m.withBudget b) line hb.unwatched h
  have hcut : ∀ b, b.Tighter m.budget → ¬b.Affords 1 →
      Ending.CutShort b (tick line (m.withBudget b)) :=
    fun b hb h => tick_cutShort (m := m.withBudget b) line hb.unwatched h
  by_cases hone : m.budget.Affords 1
  · have hrun := tick_of_affords line hm hone
    refine .through 1 hone ?_ ?_ ?_ hcut
    · rw [hrun]
      rfl
    · rw [hrun]
      exact fun _ => nofun
    · intro b hb h
      rw [hrun, hmade b hb h]
      rfl
  · exact .cut fun b hb => hcut b hb fun h => hone (hb.affords 1 h)

/-- A loop makes the passes that it counts and those of its bodies. -/
theorem whileHolds_counts {σ : Type} {condition : Node} {pass : Nat → σ → Run σ}
    (hpass : ∀ i state m, m.budget.Unwatched → Counts (pass i state) m) (passes done : Nat)
    (state : σ) (m : Machine) (hm : m.budget.Unwatched) :
    Counts (whileHolds condition.line (holds "for" condition) pass passes done state) m := by
  have hholds : ∀ m, Counts (holds "for" condition) m := (holds_quiet "for" condition).blind.counts
  have hpure : ∀ m, Counts (pure (done, state) : Run (Nat × σ)) m :=
    (Quiet.pure _).blind.counts
  induction passes generalizing done state m with
  | zero =>
    rw [whileHolds]
    refine (hholds m).bind (fun b m₁ _ hm₁ => ?_) hm
    split
    · exact (tick_counts _ hm₁).bind (fun _ m₂ _ _ => unfinished_counts m₂) hm₁
    · exact hpure m₁
  | succ passes ih =>
    rw [whileHolds]
    refine (hholds m).bind (fun b m₁ _ hm₁ => ?_) hm
    split
    · refine (tick_counts _ hm₁).bind (fun _ m₂ _ hm₂ => ?_) hm₁
      exact (hpass _ _ m₂ hm₂).bind (fun state m₃ _ hm₃ =>
        ih _ state m₃ hm₃ (Quiet.pure _).blind.counts) hm₂
    · exact hpure m₁

end

end Run

/-- Carrying out a plan makes passes, and is cut short under budgets that do not afford them. -/
theorem Plan.run_counts {α : Type} (p : Plan α) (passes : Nat) (m : Machine)
    (hm : m.budget.Unwatched) : Run.Counts (p.run passes) m := by
  induction p generalizing m with
  | step x straight => exact straight.blind.counts m
  | check line => exact Run.checkBudget_counts line hm
  | bind p f ih ih' => exact (ih m hm).bind (fun a m' _ hm' => ih' a m' hm') hm
  | isolated p ih => exact (ih { m with scopes := m.scopes.push } hm).isolated
  | loop condition pass done state ih =>
    exact Run.whileHolds_counts ih passes done state m hm

/-! ## Compilations with and without a limit -/

/-- Without limits a compilation ends with a result or an error, after some loop passes. -/
inductive EndsUnlimited (outside : Outside) (source : String) :
    Nat → Except Failure Compilation → Prop where
  | rejected {e : ParseError} (hparse : parse source = .error e) :
    EndsUnlimited outside source 0 (.error (.error (.parse e)))
  | ended {root : Node} {r : Ending Unit} (hparse : parse source = .ok root)
      (hrun : Run.statement root (.start (.ofOptions .unbounded outside) .off) = r)
      (hanswers : r.Answers) :
    EndsUnlimited outside source r.machine.budget.iterations.toNat r.compiled

/-- The options of a caller who limits the loop passes and nothing else. -/
def Options.ofLimit (limit : UInt64) : Options :=
  { unbounded with maxIterations := some limit }

/-- A limit on loop passes stops a compilation. -/
def StoppedByLimit (outside : Outside) (source : String) (limit : UInt64) : Prop :=
  ∃ line, compileWith (.ofLimit limit) outside source =
    .error (.error (.runtime ⟨line, .iterationsExceeded limit⟩))

section
variable {outside : Outside} {limit : UInt64}

/-- At the start of a run a limit affords the passes up to it. -/
theorem Budget.affords_ofLimit_iff {k : Nat} :
    (Budget.ofOptions (.ofLimit limit) outside).Affords k ↔ k ≤ limit.toNat := by
  have hlast : limit.toNat < UInt64.size := UInt64.toNat_lt_size _
  constructor
  · intro h
    exact h.le_limit rfl
  · intro hle hpos
    have hzero : (Budget.ofOptions (.ofLimit limit) outside).iterations.toNat = 0 := rfl
    refine ⟨by omega, ?_⟩
    rintro _ ⟨⟩
    omega

/-- A limit affords no more passes than no limit. -/
theorem Budget.ofLimit_tighter :
    (Budget.ofOptions (.ofLimit limit) outside).Tighter (.ofOptions .unbounded outside) where
  unwatched := ⟨rfl, rfl⟩
  affords _ h hpos := ⟨(h hpos).1, nofun⟩

/-- Below the last number of the counter, a limit cuts a run short with its own error. At the last
number it is the counter that does. -/
theorem Ending.CutShort.of_limit {α : Type} {r : Ending α}
    (h : r.CutShort (.ofOptions (.ofLimit limit) outside)) :
    (limit.toNat + 1 < UInt64.size →
      ∃ line m, r = .error (.error ⟨line, .iterationsExceeded limit⟩) m) ∧
    (limit.toNat + 1 = UInt64.size → ∃ m, r = .error .overflow m) := by
  have hzero : (Budget.ofOptions (.ofLimit limit) outside).iterations.toNat = 0 := rfl
  cases h with
  | overflow affords full m =>
    rw [Budget.affords_ofLimit_iff] at affords
    exact ⟨fun _ => by omega, fun _ => ⟨m, rfl⟩⟩
  | exceeded affords limited room beyond line m =>
    cases limited
    exact ⟨fun _ => ⟨line, m, rfl⟩, fun _ => by omega⟩

/-- A run that has not given up and not overflowed has a result or an error. -/
theorem Ending.Finished.answers {α : Type} {r : Ending α} (h : r.Finished)
    (hcounted : ∀ m, r ≠ .error .overflow m) : r.Answers := by
  rcases r with ⟨a, m⟩ | ⟨e, m⟩
  · exact .ok a m
  · cases e with
    | error e => exact .error e m
    | overflow => exact absurd rfl (hcounted m)
    | unfinished => exact absurd rfl (h m)

variable {source : String} {root : Node}

/-- Under a limit, a compilation does what the run without a limit would do with a smaller
budget. -/
theorem compileWith_ofLimit (hparse : parse source = .ok root) (limit : UInt64)
    (outside : Outside) :
    compileWith (.ofLimit limit) outside source =
      Ending.compiled ((Plan.statement root).run (UInt64.size - 1)
        (Machine.withBudget (.start (.ofOptions .unbounded outside) .off)
          (.ofOptions (.ofLimit limit) outside))) := by
  have hlast : limit.toNat < UInt64.size := UInt64.toNat_lt_size _
  have hle : (Budget.ofOptions (.ofLimit limit) outside).passes ≤ UInt64.size - 1 :=
    Nat.le_sub_one_of_lt hlast
  rw [compileWith_of_parse hparse, Plan.statement_run]
  exact congrArg Ending.compiled (Run.exec_eq_statement root _ hle).symm

/-- The run of a program without limits is compared with those under limits. It comes through after
some passes, and then the limits from there on make no difference and all others stop it. Or it is
cut short, and then so it is under every limit. -/
theorem unlimited_cases (hparse : parse source = .ok root) (outside : Outside) :
    let r : Ending Unit := Run.statement root (.start (.ofOptions .unbounded outside) .off)
    (r.Answers ∧ ∀ limit : UInt64,
      (r.machine.budget.iterations.toNat ≤ limit.toNat →
        compileWith (.ofLimit limit) outside source = r.compiled) ∧
      (limit.toNat < r.machine.budget.iterations.toNat → StoppedByLimit outside source limit)) ∨
    ((∃ m, r = .error .overflow m) ∧ ∀ limit : UInt64,
      (limit.toNat + 1 < UInt64.size → StoppedByLimit outside source limit) ∧
      (limit.toNat + 1 = UInt64.size →
        compileWith (.ofLimit limit) outside source = .error .overflow)) := by
  intro r
  have hrun : (Plan.statement root).run (UInt64.size - 1)
      (.start (.ofOptions .unbounded outside) .off) = r := by
    rw [Plan.statement_run]
    rfl
  have hstopped : ∀ limit : UInt64, Ending.CutShort (.ofOptions (.ofLimit limit) outside)
      ((Plan.statement root).run (UInt64.size - 1)
        (Machine.withBudget (.start (.ofOptions .unbounded outside) .off)
          (.ofOptions (.ofLimit limit) outside))) →
      (limit.toNat + 1 < UInt64.size → StoppedByLimit outside source limit) ∧
      (limit.toNat + 1 = UInt64.size →
        compileWith (.ofLimit limit) outside source = .error .overflow) := by
    intro limit hcut
    refine ⟨fun hbelow => ?_, fun hlast => ?_⟩
    · obtain ⟨line, m, hm⟩ := hcut.of_limit.1 hbelow
      exact ⟨line, by rw [compileWith_ofLimit hparse, hm]; rfl⟩
    · obtain ⟨m, hm⟩ := hcut.of_limit.2 hlast
      rw [compileWith_ofLimit hparse, hm]
      rfl
  cases (Plan.statement root).run_counts (UInt64.size - 1)
      (.start (.ofOptions .unbounded outside) .off) ⟨rfl, rfl⟩ with
  | cut h =>
    right
    refine ⟨?_, fun limit => hstopped limit (h _ Budget.ofLimit_tighter)⟩
    have hself := h _ (Budget.Unwatched.tighter ⟨rfl, rfl⟩)
    exact hrun ▸ hself.eq_overflow rfl
  | through k affords counted answers alike cut =>
    rw [hrun] at counted answers alike
    left
    refine ⟨(Run.statement_finished root _).answers answers, fun limit => ?_⟩
    have hk : r.machine.budget.iterations.toNat = k := by
      rw [counted, affords.iterations_advance]
      exact Nat.zero_add k
    have hlast : r.machine.budget.iterations.toNat < UInt64.size := UInt64.toNat_lt_size _
    rw [hk] at hlast ⊢
    refine ⟨fun hle => ?_, fun hlt => ?_⟩
    · rw [compileWith_ofLimit hparse,
        alike _ Budget.ofLimit_tighter (Budget.affords_ofLimit_iff.2 hle)]
      cases r <;> rfl
    · have hnot : ¬(Budget.ofOptions (.ofLimit limit) outside).Affords k := fun h =>
        Nat.not_le.2 hlt (Budget.affords_ofLimit_iff.1 h)
      exact (hstopped limit (cut _ Budget.ofLimit_tighter hnot)).1 (by omega)

end

/-- A limit on loop passes cuts a compilation short and changes nothing else. If the compilation
ends with a result or an error without limits, after `k` passes, it ends with the same under all
limits from `k` on and is stopped by all smaller ones. If it makes more passes than can be counted,
all limits below the last number of the counter stop it, and the last number does what no limit
does. -/
theorem compileWith_limit (source : String) (outside : Outside) :
    (∀ k result, EndsUnlimited outside source k result →
      compileWith .unbounded outside source = result ∧
      (∀ limit : UInt64, k ≤ limit.toNat →
        compileWith (.ofLimit limit) outside source = result) ∧
      ∀ limit : UInt64, limit.toNat < k → StoppedByLimit outside source limit) ∧
    ((∀ k result, ¬EndsUnlimited outside source k result) →
      compileWith .unbounded outside source = .error .overflow ∧
      ∀ limit : UInt64,
        (limit.toNat + 1 < UInt64.size → StoppedByLimit outside source limit) ∧
        (limit.toNat + 1 = UInt64.size →
          compileWith (.ofLimit limit) outside source = .error .overflow)) := by
  cases hparse : parse source with
  | error e =>
    refine ⟨?_, fun hnever => absurd (.rejected hparse) (hnever _ _)⟩
    intro k result h
    cases h with
    | ended hparse' => cases hparse.symm.trans hparse'
    | rejected hparse' =>
      have hresult := fun options => compileWith_of_parse_error hparse' options outside
      exact ⟨hresult _, fun _ _ => hresult _, nofun⟩
  | ok root =>
    rcases unlimited_cases hparse outside with ⟨hanswers, hlimits⟩ | ⟨⟨m, hm⟩, hlimits⟩
    · refine ⟨?_, fun hnever => absurd (.ended hparse rfl hanswers) (hnever _ _)⟩
      intro k result h
      cases h with
      | rejected hparse' => cases hparse.symm.trans hparse'
      | ended hparse' hrun _ =>
        cases hparse.symm.trans hparse'
        subst hrun
        exact ⟨compileWith_of_parse hparse _ _, fun limit => (hlimits limit).1,
          fun limit => (hlimits limit).2⟩
    · constructor
      · intro k result h
        cases h with
        | rejected hparse' => cases hparse.symm.trans hparse'
        | ended hparse' hrun hanswers =>
          cases hparse.symm.trans hparse'
          rw [hm] at hrun
          subst hrun
          cases hanswers
      · intro _
        refine ⟨?_, hlimits⟩
        rw [compileWith_of_parse hparse, hm]
        rfl

/-! ## A loop that is never over -/

namespace Run

/-- A computation that ends neither with a result nor with an error is not brought to do so by what
would come behind it. -/
theorem not_answers_bind {α β : Type} {x : Run α} {m : Machine} (h : ¬Ending.Answers (x m))
    (f : α → Run β) : ¬Ending.Answers ((x >>= f) m) := by
  rw [bind_run]
  cases hx : x m with
  | ok a m' => exact absurd (.ok a m') (hx ▸ h)
  | error e m' =>
    intro hanswers
    cases hanswers with
    | error e => exact h (hx ▸ .error e m')

/-- Without limits, a loop whose condition is literally true and that has nothing in its body ends
neither with a result nor with an error. -/
theorem whileHolds_endless (o o' : Origin) (bound passes done : Nat) (m : Machine)
    (hfree : m.budget.Free) :
    ¬Ending.Answers (whileHolds o.line (holds "for" (.bool o true))
      (fun _ _ => exec bound (.block o' [])) passes done () m) := by
  have hholds : (Node.bool o true).holds m.scopes "for" = .ok true := rfl
  have hline : (Node.bool o true).line = o.line := rfl
  have hrun :=
    whileHolds_run (.bool o true) (fun _ () => exec bound (.block o' [])) passes done () m
  simp only [hholds, hline] at hrun
  rw [hrun]
  by_cases hone : m.budget.Affords 1
  · simp only [tick_of_affords _ hfree.unwatched hone]
    cases passes with
    | zero => exact nofun
    | succ passes =>
      exact whileHolds_endless o o' bound passes (done + 1)
        { m with
          budget := m.budget.advance 1
          log := m.log.record (.statementReached o'.line "block") }
        ⟨hfree.unlimited, hfree.unwatched⟩
  · obtain ⟨m', hm'⟩ := (tick_cutShort o.line hfree.unwatched hone).eq_overflow hfree.unlimited
    simp only [hm']
    exact nofun

/-- Nor does a program that consists of such a loop. -/
theorem exec_endless (passes : Nat) (outside : Outside) (o o₁ o₂ o₃ : Origin) :
    ¬Ending.Answers (exec passes (.block o [.loop o₁ (.bool o₂ true) (.block o₃ [])])
      (.start (.ofOptions .unbounded outside) .off)) := by
  rw [exec, execAll, exec]
  exact not_answers_bind (not_answers_bind (whileHolds_endless o₂ o₃ passes passes 0
    (.start (.ofOptions .unbounded outside) .off) ⟨rfl, rfl, rfl⟩) _) _

end Run

namespace Sample

/-- The program that consists of a loop that is never over. -/
def unending : String :=
  "\x7b\nfor true\x7b\n\x7d\n\x7d"

/-- The tree of the program with the loop that is never over. -/
theorem parse_unending : parse unending =
    .ok (.block ⟨3, 1⟩ [.loop ⟨2, 2⟩ (.bool ⟨0, 2⟩ true) (.block ⟨1, 2⟩ [])]) := by
  decide +kernel

/-- Without limits the program does not end. -/
theorem not_endsUnlimited_unending (outside : Outside) (k : Nat)
    (result : Except Failure Compilation) : ¬EndsUnlimited outside unending k result := by
  intro h
  cases h with
  | rejected hparse => cases parse_unending.symm.trans hparse
  | ended hparse hrun hanswers =>
    cases parse_unending.symm.trans hparse
    rw [← hrun, ← Run.exec_eq_statement _ _ (Nat.le_refl _)] at hanswers
    exact Run.exec_endless _ outside _ _ _ _ hanswers

/-- Under the last number of the counter as its limit, the program overflows the counter. -/
theorem compileWith_unending_last :
    compileWith (.ofLimit (.ofNat (UInt64.size - 1))) .still unending = .error .overflow := by
  rcases unlimited_cases parse_unending .still with ⟨hanswers, -⟩ | ⟨-, hlimits⟩
  · exact absurd (.ended parse_unending rfl hanswers) (not_endsUnlimited_unending .still _ _)
  · exact (hlimits _).2 (by decide)

end Sample

/-- A loop that ends needs its one pass, and any limit but the last number of the counter stops a
loop that is never over. -/
theorem compileWith_limit_one_and_endless :
    (∃ source result, EndsUnlimited .still source 1 result ∧
      compileWith .unbounded .still source = result ∧
      compileWith (.ofLimit 1) .still source = result ∧ StoppedByLimit .still source 0) ∧
    ∃ source, (∀ k result, ¬EndsUnlimited .still source k result) ∧
      compileWith .unbounded .still source = .error .overflow ∧ StoppedByLimit .still source 7 := by
  constructor
  · have hparse : parse "\x7b\nvar b bool=true\nfor b\x7b\nb=false\n\x7d\n\x7d" = .ok
        (.block ⟨8, 1⟩ [.declare ⟨1, 2⟩ "b" .bool (some (.bool ⟨0, 2⟩ true)),
          .loop ⟨7, 3⟩ (.ident ⟨2, 3⟩ "b")
            (.block ⟨6, 3⟩ [.assign ⟨5, 4⟩ (.ident ⟨3, 4⟩ "b") (.bool ⟨4, 4⟩ false)])]) := by
      decide +kernel
    rcases unlimited_cases hparse .still with ⟨hanswers, -⟩ | ⟨⟨m, hm⟩, -⟩
    · have hends := EndsUnlimited.ended hparse rfl hanswers
      obtain ⟨hfree, hsame, hstopped⟩ := (compileWith_limit _ .still).1 1 _ hends
      exact ⟨_, _, hends, hfree, hsame 1 (by decide), hstopped 0 (by decide)⟩
    · have hcompiled := compileWith_of_parse hparse .unbounded .still
      rw [hm] at hcompiled
      exact absurd (hcompiled.trans rfl : _ = Except.error Failure.overflow) (by decide +kernel)
  · have hnever := Sample.not_endsUnlimited_unending .still
    obtain ⟨hfree, hlimits⟩ := (compileWith_limit Sample.unending .still).2 hnever
    exact ⟨Sample.unending, hnever, hfree, (hlimits 7).1 (by decide)⟩

/-- The last number of the counter is a limit that does not stop the loop that is never over. -/
theorem not_stoppedByLimit_of_last :
    ¬∀ source limit, (∀ k result, ¬EndsUnlimited .still source k result) →
      StoppedByLimit .still source limit := by
  intro hall
  obtain ⟨line, hstopped⟩ := hall Sample.unending _ (Sample.not_endsUnlimited_unending .still)
  cases hstopped.symm.trans Sample.compileWith_unending_last

/-! ## Ending within a limit -/

/-- Within a limit a statement comes to an end, whatever its tree is, wherever it starts and
whatever happens outside, and goes through no more loop bodies than the limit leaves. So does every
compilation with a limit. The end is a result or an error, unless the limit is the last number of
the counter: there the counter can overflow instead, since it cannot go beyond the limit. -/
theorem statement_ends_within_limit (limit : UInt64) :
    (∀ (n : Node) (m : Machine), m.budget.limit = some limit →
      (∃ bodies r, (Plan.statement n).Ends m bodies r) ∧
      ∀ bodies r, (Plan.statement n).Ends m bodies r →
        bodies ≤ limit.toNat - m.budget.iterations.toNat ∧ r.Finished ∧ Run.statement n m = r ∧
        (∀ passes, limit.toNat ≤ passes → Run.exec passes n m = r) ∧
        (limit.toNat + 1 < UInt64.size → m.budget.iterations.toNat + 1 < UInt64.size →
          r.Answers)) ∧
    ∀ (options : Options) (outside : Outside) (source : String),
      options.maxIterations = some limit →
      compileWith options outside source ≠ .error .unfinished ∧
      (limit.toNat + 1 < UInt64.size →
        (∃ c, compileWith options outside source = .ok c) ∨
        ∃ e, compileWith options outside source = .error (.error e)) := by
  constructor
  · intro n m hlimit
    refine ⟨(Plan.statement n).exists_ends m, fun bodies r h => ?_⟩
    have hpasses : m.budget.passes = limit.toNat := by
      rw [Budget.passes, hlimit]
    refine ⟨h.affords.le_limit hlimit, h.finished, Run.exec_of_ends h (Nat.le_refl _), ?_, ?_⟩
    · exact fun passes hle => Run.exec_of_ends h (hpasses ▸ hle)
    · exact fun hbelow hroom => h.answers hlimit hbelow hroom
  · intro options outside source hlimit
    cases hparse : parse source with
    | error e =>
      rw [compileWith_of_parse_error hparse]
      exact ⟨nofun, fun _ => .inr ⟨_, rfl⟩⟩
    | ok root =>
      have hbudget : (Budget.ofOptions options outside).limit = some limit := hlimit
      obtain ⟨k, r, h⟩ :=
        (Plan.statement root).exists_ends (.start (.ofOptions options outside) .off)
      rw [compileWith_of_parse hparse]
      refine ⟨(Run.statement_finished _ _).compiled_ne, fun hbelow => ?_⟩
      have hrun : Run.statement root (.start (.ofOptions options outside) .off) = r :=
        Run.exec_of_ends h (Nat.le_refl _)
      have hroom : (Budget.ofOptions options outside).iterations.toNat + 1 < UInt64.size :=
        Nat.lt_of_le_of_lt (Nat.le_add_left 1 _) hbelow
      rw [hrun]
      exact (h.answers hbudget hbelow hroom).compiled

/-- A statement loop in the loop of a form, of which neither is ever over, and a program that does
not end. -/
theorem nested_loops_end_within_limit :
    (∃ n m bodies r, m.budget.limit = some 3 ∧ m.budget.iterations = 1 ∧
      n = .form default "f" [.loop default (.bool default true)
        (.block default [.loop default (.bool default true) (.block default [])])] ∧
      (Plan.statement n).Ends m bodies r ∧ bodies ≤ 2 ∧ r.Finished ∧ r.Answers ∧
      Run.statement n m = r) ∧
    compileWith (.ofLimit 3) .still Sample.unending ≠ .error .unfinished ∧
    ((∃ c, compileWith (.ofLimit 3) .still Sample.unending = .ok c) ∨
      ∃ e, compileWith (.ofLimit 3) .still Sample.unending = .error (.error e)) := by
  have hlimit : (Machine.start ⟨some 3, 1, none, none, 0, .still⟩ .off).budget.limit = some 3 := rfl
  obtain ⟨hstatement, hcompile⟩ := statement_ends_within_limit 3
  obtain ⟨⟨bodies, r, h⟩, hends⟩ := hstatement _ _ hlimit
  obtain ⟨hbodies, hfinished, hrun, -, hanswers⟩ := hends bodies r h
  obtain ⟨hunfinished, hanswered⟩ := hcompile (.ofLimit 3) .still Sample.unending rfl
  exact ⟨⟨_, _, bodies, r, hlimit, rfl, rfl, h, hbodies, hfinished,
    hanswers (by decide) (by decide), hrun⟩, hunfinished, hanswered (by decide)⟩

/-- Under the last number of the counter as its limit, the loop that is never over comes to neither
a result nor an error. -/
theorem not_answered_within_last_limit :
    ¬∀ (limit : UInt64) (source : String),
      (∃ c, compileWith (.ofLimit limit) .still source = .ok c) ∨
      ∃ e, compileWith (.ofLimit limit) .still source = .error (.error e) := by
  intro hall
  rcases hall (.ofNat (UInt64.size - 1)) Sample.unending with ⟨c, hc⟩ | ⟨e, he⟩
  · cases hc.symm.trans Sample.compileWith_unending_last
  · cases he.symm.trans Sample.compileWith_unending_last

end FormScript
