import ShiftReduce.Proofs.Run.Replay

/-!
# The limit only truncates

A run stops when it has taken as many steps as it may. Apart from that the limit has no influence
on it: a run that comes to its end, or to a machine without a step, does so with any larger limit
too (`ShiftReduce.Run.steps_of_le`, `ShiftReduce.Run.steps_eq_error_of_le`), and a run that the
limit ends has recorded the beginning of what it would have recorded with a larger one
(`ShiftReduce.Run.prefix_of_steps`). Since no step of a machine fails for want of steps
(`ShiftReduce.Machine.Does.ne_stepLimit`), the outcome of a run tells which of the two it was, and
`ShiftReduce.Run.ofTokens_limit` puts both together, for any table.
-/

namespace ShiftReduce

variable {t : Table} {a : Automaton} {keepTrees : Bool} {m : Machine}

/-- No step of a machine fails for want of steps. -/
theorem Machine.Does.ne_stepLimit {move : Move} {f : Failure}
    (h : Does t a keepTrees m move (.fail f)) (n : ℤ) : f ≠ .stepLimit n := by
  cases h <;> simp

namespace Run

open Machine

variable {limit limit' number : ℕ} {trace trace' : List Step} {outcome : Option Outcome}
  {o : Outcome}

/-- **A run that comes to its end** does so before the limit. -/
theorem ne_stepLimit_of_steps (h : steps t a keepTrees limit number m = .ok (trace, some o))
    (n : ℤ) : o ≠ .failed (.stepLimit n) := by
  obtain ⟨s, -, m', next, -, hstep, hends⟩ := exists_ends_of_steps h
  cases hends with
  | accept => simp
  | fail =>
    intro heq
    exact (does_of_step hstep).ne_stepLimit n (Outcome.failed.inj heq)

/-- **With a larger limit such a run is the same.** -/
theorem steps_of_le (h : steps t a keepTrees limit number m = .ok (trace, some o))
    (hle : limit ≤ limit') : steps t a keepTrees limit' number m = .ok (trace, some o) := by
  induction limit generalizing limit' number m trace with
  | zero => exact absurd (Prod.mk.inj (Except.ok.inj h)).2 (by simp)
  | succ limit ih =>
    obtain ⟨limit', rfl⟩ : ∃ k, limit' = k + 1 := ⟨limit' - 1, by omega⟩
    obtain ⟨move, next, hstep, ⟨m', later, rfl, hlater, rfl⟩ | ⟨o', hends, ho, rfl⟩⟩ :=
      steps_succ_cases h
    · rw [steps_succ_go hstep, ih hlater (by omega)]
      rfl
    · rw [steps_succ_ends hstep hends, ho]

/-- **With a larger limit a run without an outcome has none either**, and for the same reason. -/
theorem steps_eq_error_of_le {fault : Fault}
    (h : steps t a keepTrees limit number m = .error fault) (hle : limit ≤ limit') :
    steps t a keepTrees limit' number m = .error fault := by
  obtain ⟨moves, m', hwalk, hlen, hfault⟩ := steps_eq_error_iff.mp h
  exact steps_eq_error_iff.mpr ⟨moves, m', hwalk, Nat.lt_of_lt_of_le hlen hle, hfault⟩

/-- **What a run has recorded is the beginning of what it records with a larger limit.** -/
theorem prefix_of_steps (h : steps t a keepTrees limit number m = .ok (trace, outcome))
    {outcome' : Option Outcome} (hle : limit ≤ limit')
    (h' : steps t a keepTrees limit' number m = .ok (trace', outcome')) : trace <+: trace' := by
  obtain ⟨_, htake⟩ := steps_take h' hle
  obtain ⟨rfl, -⟩ := Prod.mk.inj (Except.ok.inj (h.symm.trans htake))
  exact List.take_prefix limit trace'

section OfTokens

variable {settings : Settings} {tokens : List Symbol} {r : Run}

/-- **The limit only truncates.** Let one limit be at most another. Whatever the table, a run that
the smaller limit does not end is the same with the larger one, be it a run with an outcome or one
without. A run that the smaller limit ends has as many steps as that limit, and they are the
beginning of the steps with the larger one, if that run has an outcome. -/
theorem ofTokens_limit (t : Table) (a : Automaton) (settings : Settings) (keepTrees : Bool)
    (tokens : List Symbol) {n n' : ℤ} (hle : n ≤ n') :
    ((∀ r k, ofTokens t a { settings with maxSteps := n } keepTrees tokens = .ok r →
        r.outcome ≠ .failed (.stepLimit k)) →
      ofTokens t a { settings with maxSteps := n' } keepTrees tokens =
        ofTokens t a { settings with maxSteps := n } keepTrees tokens) ∧
    ∀ r k, ofTokens t a { settings with maxSteps := n } keepTrees tokens = .ok r →
      r.outcome = .failed (.stepLimit k) →
      k = n ∧ (r.trace.length : ℤ) = max 0 n ∧
        ∀ r', ofTokens t a { settings with maxSteps := n' } keepTrees tokens = .ok r' →
          r.trace <+: r'.trace := by
  by_cases hlr0 : t.isLR0
  · have hlimits : n.toNat ≤ n'.toNat := Int.toNat_le_toNat hle
    rcases hsteps : steps t a keepTrees n.toNat 1 (.start tokens) with
      fault | ⟨trace, _ | o⟩
    · -- the machine comes to a point where it has no step
      have hrun : ofTokens t a { settings with maxSteps := n } keepTrees tokens = .error fault := by
        rw [ofTokens_eq_map hlr0, hsteps]
        rfl
      refine ⟨fun _ => ?_, fun r k h => ?_⟩
      · rw [hrun, ofTokens_eq_map hlr0, steps_eq_error_of_le hsteps hlimits]
        rfl
      · rw [hrun] at h
        exact absurd h (by simp)
    · -- the limit ends the run
      have hrun : ofTokens t a { settings with maxSteps := n } keepTrees tokens =
          .ok ⟨.failed (.stepLimit n), trace⟩ := by
        rw [ofTokens_eq_map hlr0, hsteps]
        rfl
      refine ⟨fun h => absurd rfl (h _ n hrun), fun r k h hout => ?_⟩
      obtain rfl := Except.ok.inj (hrun.symm.trans h)
      obtain rfl : n = k := by simpa using hout
      refine ⟨rfl, ?_, fun r' h' => ?_⟩
      · rw [length_of_steps hsteps, Int.ofNat_toNat, max_comm]
      · obtain ⟨trace', outcome', hsteps', rfl⟩ := exists_steps_of_ofTokens hlr0 h'
        exact prefix_of_steps hsteps hlimits hsteps'
    · -- the machine comes to its end
      have hrun : ofTokens t a { settings with maxSteps := n } keepTrees tokens =
          .ok ⟨o, trace⟩ := by
        rw [ofTokens_eq_map hlr0, hsteps]
        rfl
      refine ⟨fun _ => ?_, fun r k h hout => ?_⟩
      · rw [hrun, ofTokens_eq_map hlr0, steps_of_le hsteps hlimits]
        rfl
      · obtain rfl := Except.ok.inj (hrun.symm.trans h)
        exact absurd hout (ne_stepLimit_of_steps hsteps k)
  · have hblocked : ∀ k, ofTokens t a { settings with maxSteps := k } keepTrees tokens =
        .ok ⟨.blocked t.conflicts.size, []⟩ := fun k => by rw [ofTokens, if_neg hlr0]
    refine ⟨fun _ => by rw [hblocked, hblocked], fun r k h hout => ?_⟩
    rw [hblocked] at h
    obtain rfl := Except.ok.inj h
    exact absurd hout (by simp)

theorem ofTokens_limit_stray :
    (∃ r, ofTokens strayTable strayAutomaton { maxSteps := 2 } true ["c"] = .ok r ∧
      r.outcome.status = "error" ∧ (r.trace.length : ℤ) = max 0 2 ∧
      ∀ r', ofTokens strayTable strayAutomaton { maxSteps := 3 } true ["c"] = .ok r' →
        r.trace <+: r'.trace) ∧
    ofTokens strayTable strayAutomaton { maxSteps := 9 } true ["c"] =
      .error .inputExhausted ∧
    ofTokens (.ofAutomaton (.ofAugmented .brackets)) (.ofAugmented .brackets) {} true
        ["a", "c", "b"] =
      ofTokens (.ofAutomaton (.ofAugmented .brackets)) (.ofAugmented .brackets) { maxSteps := 7 }
        true ["a", "c", "b"] := by
  refine ⟨?_, ?_, ?_⟩
  · have hcut : ∃ trace, ofTokens strayTable strayAutomaton { maxSteps := 2 } true ["c"] =
        .ok ⟨.failed (.stepLimit 2), trace⟩ := ⟨_, rfl⟩
    obtain ⟨trace, hrun⟩ := hcut
    obtain ⟨-, hlength, hprefix⟩ := (ofTokens_limit strayTable strayAutomaton {} true ["c"]
      (by decide : (2 : ℤ) ≤ 3)).2 _ 2 hrun rfl
    exact ⟨_, hrun, rfl, hlength, hprefix⟩
  · -- the fifth step would need a symbol behind the end marker
    have hfault : ofTokens strayTable strayAutomaton { maxSteps := 4 } true ["c"] =
        .error .inputExhausted := rfl
    refine ((ofTokens_limit strayTable strayAutomaton {} true ["c"]
      (by decide : (4 : ℤ) ≤ 9)).1 fun r k h => ?_).trans hfault
    exact absurd (hfault.symm.trans h) (by simp)
  · have hsuccess : (ofTokens (.ofAutomaton (.ofAugmented .brackets)) (.ofAugmented .brackets)
        { maxSteps := 7 } true ["a", "c", "b"]).toOption.map (·.outcome.success) = some true := by
      decide +kernel
    refine (ofTokens_limit _ _ {} true _ (by decide : (7 : ℤ) ≤ 1000)).1 fun r k h hout => ?_
    simp [h, hout, Except.toOption, Outcome.success] at hsuccess

end OfTokens

end Run

end ShiftReduce
