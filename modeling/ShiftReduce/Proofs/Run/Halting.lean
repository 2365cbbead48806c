import Mathlib.Data.List.Basic
import ShiftReduce.Proofs.Grammar.Productive
import ShiftReduce.Proofs.Run.FirstError
import ShiftReduce.Proofs.Run.Safety

/-!
# Runs on the table of a productive grammar halt

Every shift uses up a symbol of the input, but a machine may undo productions of the empty word
for ever, with a stack that grows and grows. No measure of the machine goes down then, and so the
proof that this cannot happen in a productive grammar goes through the language.

* Without conflicts a reduction is made whatever comes next, so a walk can be repeated on any
  other input that begins with what it has read (`ShiftReduce.Machine.Walk.exists_repeat`).
* What was read begins a sentential form, and in a productive grammar it can be continued to a
  word of the language. On that word the machine comes to success, with so many moves and no more
  (`ShiftReduce.Machine.exists_walk_of_derivation`).
* A machine that does not halt reads something and then walks on without reading
  (`ShiftReduce.Machine.exists_walk_input_eq`). Repeated on the word of the language that walk
  would be too long.

So a run that exceeds every limit shows a non-terminal from which no word of terminals is derived
(`ShiftReduce.Run.ofTokens_halts`). There are such runs: `ShiftReduce.Grammar.endless` is a grammar
whose table has no conflicts and on which a machine undoes one production for ever.
-/

namespace ShiftReduce

namespace Machine

open Automaton

variable {A : Augmented} {g : Grammar} {keepTrees : Bool} {m m' : Machine} {move : Move}
  {moves : List Move}

/-! ### Repeating a walk -/

/-- **A step can be repeated before any other input** that begins with what the step reads. -/
theorem Makes.exists_repeat (hg : A.Augments g) (hf : A.IsFresh g)
    (hlr0 : (Table.ofAutomaton (ofAugmented A)).isLR0) (htrack : OnTrack (ofAugmented A) m)
    (h : Makes (ofAugmented A) keepTrees m move (.go m')) :
    ∃ u, (∀ a ∈ u, a ∈ g.terminals) ∧ m.input = u ++ m'.input ∧ ∀ tail, IsReady A tail →
      step (.ofAutomaton (ofAugmented A)) (ofAugmented A) keepTrees { m with input := u ++ tail } =
        .ok (move, .go { m' with input := tail }) := by
  cases h with
  | @shift x rest r hinput hterm hedge =>
    have hx : x ∈ g.terminals := hg.terminals ▸ hterm
    refine ⟨[x], by simpa using hx, hinput, fun tail _ => ?_⟩
    exact step_of_edge hg hlr0 (m := { m with input := x :: tail }) rfl hx hedge
  | @reduce k p top below r hp hne hframes hword hbelow hedge hgoto =>
    have hp' : A.productions[k]? = some p := hp
    have hk : k ≠ 0 := fun h0 => hne ((hf.lhs_eq_top_iff hg hp').mpr h0)
    have hlen : top.length = p.rhs.length := length_of_stackWord hword
    -- the production is completed, since its right-hand side stands on top
    have hheld : (ofAugmented A).Holds (topState (ofAugmented A) m.frames) ⟨k, p.rhs.length⟩ := by
      rw [hframes, ← hlen]
      refine (hframes ▸ htrack.path).holds_of_append hg.size_pos hbelow ?_
      rw [hword, Augmented.rhs_eq hp']
    refine ⟨[], by simp, rfl, fun tail hready => ?_⟩
    exact step_of_holds hg hf hlr0 (m := { m with input := tail }) hready hp' hk hframes hlen hheld
      hedge

/-- **A walk can be repeated before any other input** that begins with what the walk reads. -/
theorem Walk.exists_repeat (hg : A.Augments g) (hf : A.IsFresh g)
    (hlr0 : (Table.ofAutomaton (ofAugmented A)).isLR0) (htrack : OnTrack (ofAugmented A) m)
    (h : Walk (.ofAutomaton (ofAugmented A)) (ofAugmented A) keepTrees m moves m') :
    ∃ u, (∀ a ∈ u, a ∈ g.terminals) ∧ m.input = u ++ m'.input ∧ ∀ tail, IsReady A tail →
      Walk (.ofAutomaton (ofAugmented A)) (ofAugmented A) keepTrees { m with input := u ++ tail }
        moves { m' with input := tail } := by
  induction h with
  | nil => exact ⟨[], by simp, rfl, fun _ _ => .nil⟩
  | @cons m m₁ m' move moves hstep hwalk ih =>
    obtain ⟨u, hu, hinput, hrepeat⟩ := (htrack.makes hg hstep).exists_repeat hg hf hlr0 htrack
    obtain ⟨v, hv, hinput', hrepeat'⟩ := ih (htrack.step hg hstep)
    refine ⟨u ++ v, List.forall_mem_append.mpr ⟨hu, hv⟩, ?_, fun tail hready => ?_⟩
    · rw [hinput, hinput', List.append_assoc]
    · rw [List.append_assoc]
      exact .cons (hrepeat (v ++ tail) (hready.append hg hv)) (hrepeat' tail hready)

/-! ### Coming to a halt -/

/-- **What was read can be continued to a word of the language**, in a productive grammar, and on
that word the machine halts. -/
theorem Walk.exists_halting (hg : A.Augments g) (hf : A.IsFresh g)
    (hlr0 : (Table.ofAutomaton (ofAugmented A)).isLR0) (hprod : g.IsProductive)
    {tokens u : List Symbol}
    (h : Walk (.ofAutomaton (ofAugmented A)) (ofAugmented A) keepTrees (start tokens) moves m)
    (hu : ∀ a ∈ u, a ∈ g.terminals) (hinput : tokens ++ [endMarker] = u ++ m.input) :
    ∃ v later m', (∀ a ∈ v, a ∈ g.terminals) ∧
      Walk (.ofAutomaton (ofAugmented A)) (ofAugmented A) keepTrees (start (u ++ v)) later m' ∧
      Halts (.ofAutomaton (ofAugmented A)) (ofAugmented A) keepTrees m' := by
  obtain ⟨ts, hts⟩ := h.exists_recognises hg (onTrack_start _ tokens)
    (recognises_start g keepTrees tokens)
  obtain ⟨rest, hrest, hyields, -⟩ := hts.input
  have hread : Tree.yields ts.reverse = u := by
    rw [hrest, ← hyields, List.append_assoc] at hinput
    exact List.append_cancel_right hinput
  obtain ⟨δ, hδ⟩ := hts.exists_sentential hg hf (h.onTrack hg (onTrack_start _ tokens))
  rw [hread] at hδ
  obtain ⟨v, hv, hgen⟩ := hprod.exists_generates hg.wellFormed hδ hu
  obtain ⟨t, ht, hlabel, hyield⟩ := hgen.exists_derivation
  obtain ⟨later, m', -, hwalk, hstep, -⟩ :=
    exists_walk_of_derivation hg hf hlr0 keepTrees ht hlabel
  exact ⟨v, later, m', hv, hyield ▸ hwalk, halts_of_step hstep fun _ => by simp⟩

/-- **On the table of a productive grammar every machine comes to a halt.** -/
theorem exists_walk_halts (hg : A.Augments g) (hf : A.IsFresh g)
    (hlr0 : (Table.ofAutomaton (ofAugmented A)).isLR0) (hprod : g.IsProductive) (keepTrees : Bool)
    (tokens : List Symbol) :
    ∃ moves m,
      Walk (.ofAutomaton (ofAugmented A)) (ofAugmented A) keepTrees (start tokens) moves m ∧
      Halts (.ofAutomaton (ofAugmented A)) (ofAugmented A) keepTrees m := by
  by_contra hendless
  have htrack := onTrack_start (ofAugmented A) tokens
  -- up to some point the machine reads, and there the word of the language is chosen
  obtain ⟨first, m, hfirst, hstill⟩ :=
    exists_walk_input_eq (.ofAutomaton (ofAugmented A)) (ofAugmented A) keepTrees (start tokens)
  obtain ⟨u, hu, hinput, -⟩ := hfirst.exists_repeat hg hf hlr0 htrack
  obtain ⟨v, success, m₁, hv, hsuccess, hhalts⟩ :=
    hfirst.exists_halting hg hf hlr0 hprod hu hinput
  -- a walk that is longer than the one to success reads no more than that
  obtain ⟨moves, m₂, hlen, hwalk⟩ :=
    exists_walk_of_not_halts hendless (first.length + success.length + 1)
  obtain ⟨later, hlater⟩ := hfirst.exists_rest hwalk (by omega)
  obtain ⟨u', -, hinput', hrepeat⟩ := hwalk.exists_repeat hg hf hlr0 htrack
  obtain rfl : u = u' := by
    rw [hstill later m₂ hlater] at hinput'
    exact List.append_cancel_right (hinput.symm.trans hinput')
  have hrepeated := hrepeat (v ++ [endMarker]) ((isReady_endMarker A).append hg hv)
  rw [← List.append_assoc] at hrepeated
  have hle : moves.length ≤ success.length := hsuccess.length_le_of_halts hhalts hrepeated
  omega

end Machine

/-! ### A grammar on which machines do not halt -/

namespace Grammar

/-- The rows of a grammar without words: in front of every `S` there is one more empty `E`. -/
def endlessRows : List Row :=
  [⟨"1", "S", ["E S b"], false⟩, ⟨"2", "E", [], true⟩]

/-- The grammar without words. -/
def endless : Grammar where
  start := "S"
  nonTerminals := .ofList ["E", "S"]
  terminals := .ofList ["b"]
  productions := [⟨0, "S", ["E", "S", "b"], "S -> E S b"⟩, ⟨1, "E", [], "E -> ε"⟩]

end Grammar

/-- The companion of the grammar without words. -/
def Augmented.endless : Augmented where
  start := "S"
  top := "S'"
  productions := #[⟨0, "S'", ["S"], "S' -> S"⟩, ⟨1, "S", ["E", "S", "b"], "S -> E S b"⟩,
    ⟨2, "E", [], "E -> ε"⟩]
  terminals := .ofList ["b"]
  nonTerminals := .ofList ["E", "S", "S'"]
  id_eq := Augmented.id_eq_of_forall_zipIdx (by decide)
  exists_first := ⟨_, rfl, rfl, rfl⟩

theorem Table.isLR0_endless : (ofAutomaton (.ofAugmented .endless)).isLR0 := by decide +kernel

namespace Machine

variable {keepTrees : Bool} {m : Machine}

/-- A machine that has undone the empty production as often as it likes, and nothing else. -/
def Idles (m : Machine) : Prop :=
  m.input = [endMarker] ∧ topState (.ofAugmented .endless) m.frames ∈ [(0 : ℤ), 2]

theorem Idles.exists_step (h : m.Idles) (keepTrees : Bool) :
    ∃ move m', m.step (.ofAutomaton (.ofAugmented .endless)) (.ofAugmented .endless) keepTrees =
      .ok (move, .go m') ∧ m'.Idles := by
  have htable : ∀ q ∈ [(0 : ℤ), 2],
      (Table.ofAutomaton (.ofAugmented .endless)).action.get? ⟨q, endMarker⟩ = some (.reduce 2) ∧
        (Table.ofAutomaton (.ofAugmented .endless)).goto.get? ⟨q, "E"⟩ = some 2 := by
    decide +kernel
  obtain ⟨p, hp, hlhs, hrhs⟩ :
      ∃ p, Augmented.endless.production? 2 = some p ∧ p.lhs = "E" ∧ p.rhs = [] :=
    ⟨_, rfl, rfl, rfl⟩
  obtain ⟨hinput, hstate⟩ := h
  obtain ⟨haction, hgoto⟩ := htable _ hstate
  have hlook : lookUp (.ofAutomaton (.ofAugmented .endless))
      (topState (.ofAugmented .endless) m.frames) endMarker [] = some (.reduce 2) :=
    lookUp_eq_some.mpr ⟨fun _ => rfl, haction⟩
  have hframes : m.frames = [] ++ m.frames := rfl
  have hreduce : m.reduce (.ofAutomaton (.ofAugmented .endless)) (.ofAugmented .endless) keepTrees
      p = .go (m.reduced keepTrees p 2) := reduce_eq_go hframes (by simp [hrhs]) (hlhs ▸ hgoto)
  refine ⟨.reduce 2 p, m.reduced keepTrees p 2, ?_, hinput, by simp [reduced, topState]⟩
  simp only [step, hinput, hlook, Automaton.grammar_ofAugmented, hp, hreduce]

/-- On the grammar without words a machine walks on and on. -/
theorem Idles.exists_walk (h : m.Idles) (keepTrees : Bool) (n : ℕ) :
    ∃ moves m', moves.length = n ∧
      Walk (.ofAutomaton (.ofAugmented .endless)) (.ofAugmented .endless) keepTrees m moves m' := by
  induction n generalizing m with
  | zero => exact ⟨[], m, rfl, .nil⟩
  | succ n ih =>
    obtain ⟨move, m₁, hstep, hidles⟩ := h.exists_step keepTrees
    obtain ⟨moves, m', hlen, hwalk⟩ := ih hidles
    exact ⟨move :: moves, m', by simp [hlen], .cons hstep hwalk⟩

end Machine

namespace Run

open Machine Automaton

section OfAugmented

variable {A : Augmented} {g : Grammar}

/-- **A machine that comes to a halt ends the run**, if the limit leaves room for its walk, and it
does so with success or at a symbol without an action. -/
theorem exists_outcome_of_halts (hg : A.Augments g)
    (hlr0 : (Table.ofAutomaton (ofAugmented A)).isLR0) {keepTrees : Bool} {tokens : List Symbol}
    {moves : List Move} {m : Machine}
    (hwalk : Walk (.ofAutomaton (ofAugmented A)) (ofAugmented A) keepTrees (start tokens) moves m)
    (hhalts : Halts (.ofAutomaton (ofAugmented A)) (ofAugmented A) keepTrees m)
    {settings : Settings} (hlimit : (moves.length : ℤ) < settings.maxSteps) :
    ∃ r, ofTokens (.ofAutomaton (ofAugmented A)) (ofAugmented A) settings keepTrees tokens =
        .ok r ∧ ((∃ tree, r.outcome = .accepted tree) ∨
          ∃ x q, r.outcome = .failed (.unexpectedToken x q)) := by
  have hlt : moves.length < settings.maxSteps.toNat := by omega
  obtain ⟨move, next, hstep, hmakes⟩ :=
    (hwalk.onTrack hg (onTrack_start _ tokens)).exists_makes hg keepTrees
  cases next with
  | go m' => exact absurd hstep (hhalts move m')
  | accept =>
    obtain ⟨trace, hsteps, -⟩ := steps_of_walk_of_ends hwalk hstep .accept hlt 1
    exact ⟨_, ofTokens_of_steps hlr0 hsteps, Or.inl ⟨_, rfl⟩⟩
  | fail f =>
    obtain ⟨x, -, -, rfl, -⟩ := hmakes.reject_cases
    obtain ⟨trace, hsteps, -⟩ := steps_of_walk_of_ends hwalk hstep .fail hlt 1
    exact ⟨_, ofTokens_of_steps hlr0 hsteps, Or.inr ⟨x, _, rfl⟩⟩

/-- **In a productive grammar some limit is large enough** for an input, whether trees are kept or
not. -/
theorem exists_limit (hg : A.Augments g) (hf : A.IsFresh g)
    (hlr0 : (Table.ofAutomaton (ofAugmented A)).isLR0) (hprod : g.IsProductive)
    (settings : Settings) (tokens : List Symbol) :
    ∃ N : ℤ, ∀ (keepTrees : Bool) (limit : ℤ), N ≤ limit →
      ∃ r, ofTokens (.ofAutomaton (ofAugmented A)) (ofAugmented A)
          { settings with maxSteps := limit } keepTrees tokens = .ok r ∧
        ((∃ tree, r.outcome = .accepted tree) ∨
          ∃ x q, r.outcome = .failed (.unexpectedToken x q)) := by
  obtain ⟨moves, m, hwalk, hhalts⟩ := exists_walk_halts hg hf hlr0 hprod true tokens
  obtain ⟨moves', m', hwalk', hhalts'⟩ := exists_walk_halts hg hf hlr0 hprod false tokens
  refine ⟨max moves.length moves'.length + 1, fun keepTrees limit hlimit => ?_⟩
  cases keepTrees with
  | true =>
    have hlt : (moves.length : ℤ) < limit := by omega
    exact exists_outcome_of_halts hg hlr0 hwalk hhalts hlt
  | false =>
    have hlt : (moves'.length : ℤ) < limit := by omega
    exact exists_outcome_of_halts hg hlr0 hwalk' hhalts' hlt

end OfAugmented

/-- **A run exceeds every limit only because of a non-terminal that is not productive.** Let the
table that is generated for a grammar built from rows have no conflicts. If every non-terminal
derives some word of terminals, then for every input all runs with a limit that is large enough end
with success or at a symbol without an action. And if the run on some input ends at the limit
whatever the limit is, then there is a non-terminal from which no word of terminals is derived. -/
theorem ofTokens_halts {rows : List Row} {g : Grammar} {settings : Settings} {a : Automaton}
    (hg : Grammar.ofRows rows = .ok g) (ha : Automaton.ofGrammar g settings = .ok a)
    (hlr0 : (Table.ofAutomaton a).isLR0) :
    (g.IsProductive → ∀ tokens : List Symbol, ∃ N : ℤ, ∀ (keepTrees : Bool) (limit : ℤ),
      N ≤ limit →
        ∃ r, Run.ofTokens (.ofAutomaton a) a { settings with maxSteps := limit } keepTrees tokens =
            .ok r ∧ ((∃ tree, r.outcome = .accepted tree) ∨
              ∃ x q, r.outcome = .failed (.unexpectedToken x q))) ∧
      ∀ (keepTrees : Bool) (tokens : List Symbol),
        (∀ limit : ℤ, ∃ r, Run.ofTokens (.ofAutomaton a) a { settings with maxSteps := limit }
            keepTrees tokens = .ok r ∧ r.outcome = .failed (.stepLimit limit)) →
          ∃ X ∈ g.nonTerminals, ∀ w, g.Derives [X] w → ¬∀ b ∈ w, b ∈ g.terminals := by
  obtain ⟨A, rfl, haug, hfresh⟩ := Automaton.exists_augments hg ha
  refine ⟨fun hprod => exists_limit haug hfresh hlr0 hprod settings, ?_⟩
  intro keepTrees tokens hexceeds
  refine Grammar.not_isProductive_iff.mp fun hprod => ?_
  obtain ⟨N, hN⟩ := exists_limit haug hfresh hlr0 hprod settings tokens
  obtain ⟨r, hr, hends⟩ := hN keepTrees N (le_refl N)
  obtain ⟨r', hr', hlimit⟩ := hexceeds N
  obtain rfl : r = r' := Except.ok.inj (hr.symm.trans hr')
  rcases hends with ⟨tree, htree⟩ | ⟨x, q, hx⟩
  · exact absurd (htree.symm.trans hlimit) (by simp)
  · exact absurd (hx.symm.trans hlimit) (by simp)

theorem ofTokens_halts_brackets :
    (∃ N : ℤ, ∀ (keepTrees : Bool) (limit : ℤ), N ≤ limit →
      ∃ r, Run.ofTokens (.ofAutomaton (.ofAugmented .brackets)) (.ofAugmented .brackets)
          { maxSteps := limit } keepTrees ["a", "c"] = .ok r ∧
        ((∃ tree, r.outcome = .accepted tree) ∨
          ∃ x q, r.outcome = .failed (.unexpectedToken x q))) ∧
      ∀ w, Grammar.endless.Derives ["S"] w → ¬∀ b ∈ w, b ∈ Grammar.endless.terminals := by
  constructor
  · exact (ofTokens_halts Grammar.ofRows_bracketRows Automaton.ofGrammar_brackets
      Table.isLR0_brackets).1 Grammar.isProductive_brackets ["a", "c"]
  · have hrows : Grammar.ofRows Grammar.endlessRows = .ok .endless := by decide +kernel
    have hgrammar : Automaton.ofGrammar .endless {} = .ok (.ofAugmented .endless) := rfl
    have hexceeds : ∀ limit : ℤ, ∃ r, Run.ofTokens (.ofAutomaton (.ofAugmented .endless))
        (.ofAugmented .endless) { maxSteps := limit } true [] = .ok r ∧
          r.outcome = .failed (.stepLimit limit) := by
      intro limit
      have hidles : (start []).Idles := ⟨rfl, by decide⟩
      obtain ⟨moves, m, hlen, hwalk⟩ := hidles.exists_walk true limit.toNat
      obtain ⟨trace, hsteps, -⟩ := steps_of_walk_of_le hwalk (Nat.le_of_eq hlen.symm) 1
      exact ⟨_, ofTokens_of_steps Table.isLR0_endless hsteps, rfl⟩
    obtain ⟨X, hX, hidle⟩ := (ofTokens_halts hrows hgrammar Table.isLR0_endless).2 true [] hexceeds
    -- the empty symbol does derive a word, so it is the start symbol that does not
    have hempty : Grammar.endless.HasRule "E" [] := by decide
    have hcases : X = "E" ∨ X = "S" := by simpa [Grammar.endless] using hX
    rcases hcases with rfl | rfl
    · exact absurd (by simp) (hidle [] (.single hempty.rewrites))
    · exact hidle

end Run

end ShiftReduce
