import Mathlib.Data.List.Basic
import ShiftReduce.Proofs.Run.Completeness
import ShiftReduce.Proofs.Run.Soundness

/-!
# Errors are reported at the first wrong token

When a run ends at a symbol for which there is no action, everything before that symbol was right
and the symbol is not (`ShiftReduce.Run.ofTokens_first_error`). Two things come together.

* The symbols on the stack begin a sentential form
  (`ShiftReduce.Automaton.IsPath.exists_sentential`), and they derive what was read, so what was
  read begins a sentential form too (`ShiftReduce.Machine.Recognises.exists_sentential`).
* If what was read could be continued by the symbol, the machine would shift it. This cannot be
  seen from a derivation tree, since the right part of a sentential form may derive no word; but
  the left edge of the derivation is enough for the machine to follow
  (`ShiftReduce.Machine.exists_walk_of_opens`). Reductions that were made before the error came up
  do no harm: the machine has one way to go on, and where it halts it has no more input left than
  anywhere on its way.

That the symbol is the end marker at the end of the input is a case of its own: then the tokens
are not in the language, since otherwise the machine would have accepted them.
-/

namespace ShiftReduce

namespace Machine

open Automaton

variable {A : Augmented} {g : Grammar} {keepTrees : Bool} {m : Machine}

/-- **The machine follows the left edge of a derivation** and shifts the terminal it leads to,
whatever comes behind that. -/
theorem exists_walk_of_opens (hg : A.Augments g) (hf : A.IsFresh g)
    (hlr0 : (Table.ofAutomaton (ofAugmented A)).isLR0) {X a : Symbol} {u tail : List Symbol}
    (h : g.Opens X u a) {r : ℤ} (hinput : m.input = u ++ a :: tail)
    (hedge : (ofAugmented A).Edge (topState (ofAugmented A) m.frames) X r) :
    ∃ moves m', Walk (.ofAutomaton (ofAugmented A)) (ofAugmented A) keepTrees m moves m' ∧
      m'.input = tail := by
  induction h generalizing m r with
  | here ha => exact ⟨[.shift r], _, .single (step_of_edge hg hlr0 hinput ha hedge), rfl⟩
  | @down B X a left right u hrule hleft hX ih =>
    obtain ⟨hu, ha⟩ := hX.mem_terminals
    -- the machine follows the trees on the left, and then an edge leads over the next symbol down
    obtain ⟨k, p, -, hp, rfl, hrhs, hheld⟩ := exists_holds_of_hasRule hg hedge hrule
    have hdrop : (A.rhs k).drop 0 = left.map Tree.label ++ X :: right := by
      rw [List.drop_zero, Augmented.rhs_eq hp, hrhs]
    have hready : IsReady A (u ++ a :: tail) := (isReady_cons hg ha tail).append hg hu
    obtain ⟨moves, m', top, -, hwalk, -, -, hinput', -, hheld'⟩ :=
      exists_walk_of_forest hg (fun t ht => follows_of_derivation hg hf hlr0 (hleft t ht)) hleft
        hdrop hheld (by simpa using hinput) hready
    rw [Nat.zero_add] at hheld'
    have hnext : A.nextSymbol ⟨k, left.length⟩ = some X := by
      rw [Augmented.nextSymbol, Augmented.rhs_eq hp, hrhs]
      simp
    obtain ⟨r', hedge'⟩ := hheld'.exists_edge hg.size_pos hnext
    obtain ⟨later, m'', hwalk', hinput''⟩ := ih hinput' hedge'
    exact ⟨moves ++ later, m'', hwalk.append hwalk', hinput''⟩

/-- **What was read begins a sentential form.** -/
theorem Recognises.exists_sentential (hg : A.Augments g) (hf : A.IsFresh g)
    {tokens : List Symbol} {used : List Production} {ts : List Tree}
    (h : Recognises g keepTrees tokens used m ts) (htrack : OnTrack (ofAugmented A) m) :
    ∃ δ, g.IsSentential (Tree.yields ts.reverse ++ δ) := by
  obtain ⟨⟨p, d⟩, hheld⟩ := htrack.path.exists_holds hg.size_pos
  obtain ⟨δ, hδ⟩ := htrack.path.exists_sentential hg hf hheld
  have hword : ts.reverse.map Tree.label = stackWord m.frames := by
    rw [List.map_reverse, h.labels, stackWord]
  have hderives : g.Derives (stackWord m.frames) (Tree.yields ts.reverse) := by
    rw [← hword]
    exact Grammar.derives_yields fun t ht => h.derivation t (List.mem_reverse.mp ht)
  refine ⟨(A.rhs p).drop d ++ δ, ?_⟩
  rw [List.append_assoc] at hδ
  have hrest : g.Derives ((A.rhs p).drop d ++ δ) ((A.rhs p).drop d ++ δ) :=
    Relation.ReflTransGen.refl
  exact Relation.ReflTransGen.trans hδ (hderives.append hrest)

/-- Where a machine rejects the end of the input, the tokens are not in the language. -/
theorem not_generates_of_reject (hg : A.Augments g) (hf : A.IsFresh g)
    (hlr0 : (Table.ofAutomaton (ofAugmented A)).isLR0) {tokens : List Symbol} {moves : List Move}
    {x : Symbol} {f : Failure}
    (hwalk : Walk (.ofAutomaton (ofAugmented A)) (ofAugmented A) keepTrees (start tokens) moves m)
    (hstep : m.step (.ofAutomaton (ofAugmented A)) (ofAugmented A) keepTrees =
      .ok (.reject x, .fail f)) :
    ¬g.Generates tokens := by
  intro hgen
  obtain ⟨t, ht, hlabel, rfl⟩ := hgen.exists_derivation
  obtain ⟨moves', m', -, hwalk', hstep', -⟩ :=
    exists_walk_of_derivation hg hf hlr0 keepTrees ht hlabel
  obtain rfl : m = m' := hwalk.halts_unique hwalk' (halts_of_step hstep fun _ => by simp)
    (halts_of_step hstep' fun _ => by simp)
  exact absurd (hstep.symm.trans hstep') (by simp)

/-- Where a machine halts before a terminal, no sentential form begins with what was read and that
terminal. -/
theorem not_isSentential_of_halts (hg : A.Augments g) (hf : A.IsFresh g)
    (hlr0 : (Table.ofAutomaton (ofAugmented A)).isLR0) {u rest : List Symbol} {a : Symbol}
    {moves : List Move}
    (hwalk : Walk (.ofAutomaton (ofAugmented A)) (ofAugmented A) keepTrees
      (start (u ++ a :: rest)) moves m)
    (hhalts : Halts (.ofAutomaton (ofAugmented A)) (ofAugmented A) keepTrees m)
    (hinput : m.input = a :: rest ++ [endMarker]) (hu : ∀ b ∈ u, b ∈ g.terminals)
    (ha : a ∈ g.terminals) (δ : List Symbol) : ¬g.IsSentential (u ++ a :: δ) := by
  intro hsentential
  have hopens : g.Opens g.start u a := Grammar.exists_opens hsentential hu ha
  obtain ⟨r, hedge, -⟩ := exists_edge_start hg
  obtain ⟨moves', m', hwalk', hinput'⟩ : ∃ moves' m',
      Walk (.ofAutomaton (ofAugmented A)) (ofAugmented A) keepTrees
          (start (u ++ a :: rest)) moves' m' ∧
        m'.input = rest ++ [endMarker] :=
    exists_walk_of_opens hg hf hlr0 hopens (by simp [start]) hedge
  -- there the machine has less input than where it halts
  have hle := hwalk.length_input_le_of_halts hhalts hwalk'
  rw [hinput, hinput', List.cons_append, List.length_cons] at hle
  exact absurd hle (Nat.not_succ_le_self _)

end Machine

namespace Run

open Machine Automaton

/-- **Errors are reported at the first wrong token.** Let a run on the table that is generated for
a grammar built from rows end at a symbol without an action. Then the tokens are those that the
run has shifted and a rest, which the last step finds with the end marker behind it; what was
shifted begins a sentential form; if nothing is left, it is not in the language; and otherwise the
next token is no terminal, or no sentential form begins with what was shifted and that token. -/
theorem ofTokens_first_error {rows : List Row} {g : Grammar} {settings : Settings} {a : Automaton}
    {keepTrees : Bool} {tokens : List Symbol} {r : Run} {x : Symbol} {q : ℤ}
    (hg : Grammar.ofRows rows = .ok g) (ha : Automaton.ofGrammar g settings = .ok a)
    (h : Run.ofTokens (.ofAutomaton a) a settings keepTrees tokens = .ok r)
    (hout : r.outcome = .failed (.unexpectedToken x q)) :
    ∃ (last : Step) (rest : List Symbol), r.trace.getLast? = some last ∧
      tokens = r.shifted ++ rest ∧ last.input = rest ++ [endMarker] ∧
      last.input.head? = some x ∧ (∃ δ, g.IsSentential (r.shifted ++ δ)) ∧
      (rest = [] → ¬g.Generates r.shifted) ∧
      (rest ≠ [] → x ∉ g.terminals ∨ ∀ δ, ¬g.IsSentential (r.shifted ++ x :: δ)) := by
  obtain ⟨A, rfl, haug, hfresh⟩ := Automaton.exists_augments hg ha
  have hblocked : ∀ n, r.outcome ≠ .blocked n := fun n => by simp [hout]
  have hlimit : ∀ n, r.outcome ≠ .failed (.stepLimit n) := fun n => by simp [hout]
  obtain ⟨hlr0, moves, m, move, next, hwalk, hstep, hends, -, hget⟩ :=
    exists_walk_of_ofTokens h hblocked hlimit
  have htrack := hwalk.onTrack haug (onTrack_start _ tokens)
  obtain ⟨ts, hts⟩ := hwalk.exists_recognises haug (onTrack_start _ tokens)
    (recognises_start g keepTrees tokens)
  obtain ⟨rest, hinput, hyields, -⟩ := hts.input
  -- the trees yield what the steps have shifted: both are what the last step does not find
  have hread : Tree.yields ts.reverse = r.shifted := by
    have hall := input_of_ofTokens h hblocked hlimit hget
    rw [hinput, ← List.append_assoc, ← hyields] at hall
    exact List.append_cancel_right (List.append_cancel_right hall)
  have hterminals : ∀ b ∈ r.shifted, b ∈ g.terminals := by
    rw [← hread]
    exact Grammar.mem_terminals_of_mem_yields fun t ht =>
      hts.derivation t (List.mem_reverse.mp ht)
  rw [hread] at hyields
  subst hyields
  rw [hout] at hends
  cases hends
  have hhalts := halts_of_step hstep fun _ => by simp
  obtain ⟨x', later, rfl, hfailure, hinput'⟩ := (htrack.makes haug hstep).reject_cases
  obtain rfl : x = x' := (Failure.unexpectedToken.inj hfailure).1
  refine ⟨_, rest, hget, rfl, hinput, ?_, hread ▸ hts.exists_sentential haug hfresh htrack, ?_,
    fun hrest => ?_⟩
  · change m.input.head? = some x
    rw [hinput', List.head?_cons]
  · rintro rfl
    rw [List.append_nil] at hwalk
    exact not_generates_of_reject haug hfresh hlr0 hwalk hstep
  · by_cases hterm : x ∈ g.terminals
    · obtain ⟨y, rest, rfl⟩ := List.exists_cons_of_ne_nil hrest
      obtain rfl : x = y := (List.cons.inj (hinput'.symm.trans hinput)).1
      exact Or.inr
        (not_isSentential_of_halts haug hfresh hlr0 hwalk hhalts hinput hterminals hterm)
    · exact Or.inl hterm

theorem ofTokens_first_error_brackets :
    ∃ r, Run.ofTokens (.ofAutomaton (.ofAugmented .brackets)) (.ofAugmented .brackets) {} true
        ["a", "c", "c"] = .ok r ∧ r.outcome = .failed (.unexpectedToken "c" 5) ∧
      (∃ δ, Grammar.brackets.IsSentential ("a" :: "c" :: δ)) ∧
      ∀ δ, ¬Grammar.brackets.IsSentential ("a" :: "c" :: "c" :: δ) := by
  have hcheck : (Run.ofTokens (.ofAutomaton (.ofAugmented .brackets)) (.ofAugmented .brackets) {}
      true ["a", "c", "c"]).map (fun r => (r.trace.getLast?.map (·.input),
        match r.outcome with
        | .failed f => some f
        | _ => none)) = .ok (some ["c", "$"], some (.unexpectedToken "c" 5)) := by decide +kernel
  cases hrun : Run.ofTokens (.ofAutomaton (.ofAugmented .brackets)) (.ofAugmented .brackets) {}
      true ["a", "c", "c"] with
  | error fault =>
    rw [hrun] at hcheck
    exact absurd hcheck (by simp [Except.map])
  | ok r =>
    rw [hrun] at hcheck
    obtain ⟨hinput, hfailure⟩ := Prod.mk.inj (Except.ok.inj hcheck)
    have hout : r.outcome = .failed (.unexpectedToken "c" 5) := by
      split at hfailure
      next f hf => rw [hf, Option.some.inj hfailure]
      next => exact absurd hfailure (by simp)
    obtain ⟨last, rest, hlast, htokens, hrest, -, hbegins, -, hwrong⟩ :=
      ofTokens_first_error Grammar.ofRows_bracketRows
        Automaton.ofGrammar_brackets hrun hout
    rw [hlast, Option.map_some, hrest] at hinput
    obtain rfl : rest = ["c"] := List.append_cancel_right (Option.some.inj hinput)
    have hshifted : r.shifted = ["a", "c"] := List.append_cancel_right htokens.symm
    rw [hshifted] at hbegins hwrong
    exact ⟨r, rfl, hout, hbegins, (hwrong (by simp)).resolve_left (by decide)⟩

end Run

end ShiftReduce
