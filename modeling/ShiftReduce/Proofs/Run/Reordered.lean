import ShiftReduce.Proofs.Run.Safety
import ShiftReduce.Proofs.Table.Renumbered

/-!
# The order of the rows does not matter

A grammar may be written down in many ways: the rows behind the first in any order, and the
alternatives of a row in any order. The numbers of the productions and of the states follow this
order, and nothing else does. Rows in another order are accepted or refused alike; their automata
have as many states and moves and their tables as many conflicts of each kind; and every input is
parsed step by step in the same way (`ShiftReduce.Run.ofTokens_reordered`).

The runs are compared in lockstep. Two machines are *twins* (`ShiftReduce.Machine.Twins`) if their
stacks hold the same symbols with twin states, and their inputs and trees are the same. Then they
make moves that differ in numbers only, and what they become are twins again
(`ShiftReduce.Machine.Twins.exists_step`). So do whole runs, by induction on the number of steps
they may take (`ShiftReduce.Run.exists_steps_alike`).
-/

namespace ShiftReduce

/-! ### Runs that differ in numbers only -/

/-- **Moves that differ in numbers only**: they are of one sort, and the productions they undo, if
any, read the same. -/
structure Move.Alike (move move' : Move) : Prop where
  /-- The moves are of one sort. -/
  action : move'.action?.map Action.name = move.action?.map Action.name
  /-- The productions read the same. -/
  production : move'.production?.map Production.text = move.production?.map Production.text

/-- **Steps that differ in numbers only.** -/
structure Step.Alike (s s' : Step) : Prop where
  /-- The steps are counted alike. -/
  number : s'.number = s.number
  /-- The stacks hold the same symbols. -/
  symbols : s'.stack.map Prod.snd = s.stack.map Prod.snd
  /-- The same input is left. -/
  input : s'.input = s.input
  /-- The moves differ in numbers only. -/
  move : s.move.Alike s'.move

theorem Step.map_snd_stack (s : Step) :
    s.stack.map Prod.snd = none :: ((s.frames.map Frame.symbol).map some).reverse := by
  simp [stack, Function.comp_def]

/-- **Outcomes that differ in numbers only.** -/
structure Outcome.Alike (o o' : Outcome) : Prop where
  /-- The outcomes are of one sort. -/
  status : o'.status = o.status
  /-- The reason is of one sort, if the input is not accepted. -/
  reason : o'.reason? = o.reason?
  /-- The trees are the same. -/
  tree : o'.tree? = o.tree?

theorem Outcome.alike_blocked (n n' : ℕ) : (blocked n).Alike (blocked n') :=
  ⟨rfl, rfl, rfl⟩

/-- **Runs that differ in numbers only.** -/
structure Run.Alike (r r' : Run) : Prop where
  /-- The runs end alike. -/
  outcome : r.outcome.Alike r'.outcome
  /-- The runs take as many steps, and these are alike one by one. -/
  trace : List.Forall₂ Step.Alike r.trace r'.trace

namespace Machine

open Automaton

/-! ### Twin machines -/

/-- Frames that hold the same symbol with twin states. -/
def TwinFrames (π : Equiv.Perm ℕ) (a a' : Automaton) (f f' : Frame) : Prop :=
  f'.symbol = f.symbol ∧ Automaton.Twins π a a' f.state f'.state

/-- **Twin machines.** -/
structure Twins (π : Equiv.Perm ℕ) (a a' : Automaton) (m m' : Machine) : Prop where
  /-- The stacks hold the same symbols with twin states. -/
  frames : List.Forall₂ (TwinFrames π a a') m.frames m'.frames
  /-- The same input is left. -/
  input : m'.input = m.input
  /-- The trees are the same. -/
  trees : m'.trees = m.trees

/-- What twin machines lead to. -/
inductive Next.Twins (π : Equiv.Perm ℕ) (a a' : Automaton) : Next → Next → Prop
  /-- Both go on. -/
  | go {m m' : Machine} : m.Twins π a a' m' → Next.Twins π a a' (.go m) (.go m')
  /-- Both accept. -/
  | accept : Next.Twins π a a' .accept .accept
  /-- Both fail, for the same sort of reason. -/
  | fail {f f' : Failure} : f'.name = f.name → Next.Twins π a a' (.fail f) (.fail f')

theorem map_symbol_of_twins {π : Equiv.Perm ℕ} {a a' : Automaton} {frames frames' : List Frame}
    (h : List.Forall₂ (TwinFrames π a a') frames frames') :
    frames'.map Frame.symbol = frames.map Frame.symbol := by
  induction h with
  | nil => rfl
  | cons hf _ ih => rw [List.map_cons, List.map_cons, hf.1, ih]

/-- **Twin machines are recorded alike**, if they make moves that are. -/
theorem Twins.recorded {π : Equiv.Perm ℕ} {a a' : Automaton} {m m' : Machine}
    (h : m.Twins π a a' m') (number : ℕ) {move move' : Move} (hmove : move.Alike move') :
    Step.Alike ⟨number, a.startState, m.frames, m.input, move⟩
      ⟨number, a'.startState, m'.frames, m'.input, move'⟩ := by
  refine ⟨rfl, ?_, h.input, hmove⟩
  simp only [Step.map_snd_stack, map_symbol_of_twins h.frames]

/-- The machines before an input are twins. -/
theorem twins_start (π : Equiv.Perm ℕ) (a a' : Automaton) (tokens : List Symbol) :
    (start tokens).Twins π a a' (start tokens) :=
  ⟨.nil, rfl, rfl⟩

section OfAugmented

variable {π : Equiv.Perm ℕ} {A B : Augmented} {m m' : Machine} {keepTrees : Bool}
variable (h : A.Renumbered π B) (hA : 0 < A.productions.size)
include h hA

/-- The states on top of the stacks of twins are twins. -/
theorem twins_topState {frames frames' : List Frame}
    (hframes : List.Forall₂ (TwinFrames π (ofAugmented A) (ofAugmented B)) frames frames') :
    Automaton.Twins π (ofAugmented A) (ofAugmented B) (topState (ofAugmented A) frames)
      (topState (ofAugmented B) frames') := by
  cases hframes with
  | nil => exact Automaton.twins_start h hA
  | cons hf _ => exact hf.2

/-! ### One step -/

/-- What twins undo, if it is the same production, makes twins of them. -/
theorem Twins.reduce (hm : m.Twins π (ofAugmented A) (ofAugmented B) m') {p p' : Production}
    (hcontent : p'.content = p.content) :
    Next.Twins π (ofAugmented A) (ofAugmented B)
      (m.reduce (.ofAutomaton (ofAugmented A)) (ofAugmented A) keepTrees p)
      (m'.reduce (.ofAutomaton (ofAugmented B)) (ofAugmented B) keepTrees p') := by
  have hlhs : p'.lhs = p.lhs := congrArg Prod.fst hcontent
  have hrhs : p'.rhs = p.rhs := congrArg (fun content => content.2.1) hcontent
  have hbelow := List.forall₂_drop p.rhs.length hm.frames
  have hgoto := Table.rel_get?_goto h hA (twins_topState h hA hbelow) (x := p.lhs)
  simp only [Machine.reduce, hlhs, hrhs, hm.frames.length_eq.symm]
  by_cases hshort : m.frames.length < p.rhs.length
  · simp only [if_pos hshort]
    exact .fail rfl
  · simp only [if_neg hshort]
    generalize (Table.ofAutomaton (ofAugmented A)).goto.get? _ = target at hgoto ⊢
    generalize (Table.ofAutomaton (ofAugmented B)).goto.get? _ = target' at hgoto ⊢
    cases hgoto with
    | none => exact .fail rfl
    | some htwins => exact .go ⟨.cons ⟨rfl, htwins⟩ hbelow, hm.input, by simp [hm.trees]⟩

variable (hlr0 : (Table.ofAutomaton (ofAugmented A)).isLR0)
  (hlr0' : (Table.ofAutomaton (ofAugmented B)).isLR0)
include hlr0 hlr0'

/-- Twins find twin actions. -/
theorem rel_lookUp {q r : ℤ} (htwins : Automaton.Twins π (ofAugmented A) (ofAugmented B) q r)
    (token : Symbol) (rest : List Symbol) :
    Option.Rel (Table.TwinActions π (ofAugmented A) (ofAugmented B))
      (lookUp (.ofAutomaton (ofAugmented A)) q token rest)
      (lookUp (.ofAutomaton (ofAugmented B)) r token rest) := by
  unfold lookUp
  split_ifs with hend
  · exact .none
  · exact Table.rel_get?_action h hA hlr0 hlr0' htwins

/-- **Twin machines make moves that differ in numbers only and become twins again.** -/
theorem Twins.exists_step (hm : m.Twins π (ofAugmented A) (ofAugmented B) m') {move : Move}
    {next : Next}
    (hstep : m.step (.ofAutomaton (ofAugmented A)) (ofAugmented A) keepTrees = .ok (move, next)) :
    ∃ move' next', m'.step (.ofAutomaton (ofAugmented B)) (ofAugmented B) keepTrees =
        .ok (move', next') ∧
      move.Alike move' ∧ next.Twins π (ofAugmented A) (ofAugmented B) next' := by
  unfold Machine.step at hstep ⊢
  rw [hm.input]
  cases hinput : m.input with
  | nil =>
    rw [hinput] at hstep
    exact absurd hstep (by simp)
  | cons token rest =>
    rw [hinput] at hstep
    have hlook := rel_lookUp h hA hlr0 hlr0' (twins_topState h hA hm.frames) token rest
    simp only at hstep ⊢
    generalize lookUp (.ofAutomaton (ofAugmented A)) _ token rest = act at hlook hstep
    generalize lookUp (.ofAutomaton (ofAugmented B)) _ token rest = act' at hlook ⊢
    cases hlook with
    | none =>
      obtain ⟨rfl, rfl⟩ := Prod.mk.inj (Except.ok.inj hstep)
      exact ⟨_, _, rfl, ⟨rfl, rfl⟩, .fail rfl⟩
    | some hact =>
      cases hact with
      | shift htarget =>
        obtain ⟨rfl, rfl⟩ := Prod.mk.inj (Except.ok.inj hstep)
        refine ⟨_, _, rfl, ⟨rfl, rfl⟩, .go ⟨.cons ⟨rfl, htarget⟩ hm.frames, rfl, ?_⟩⟩
        simp [Machine.shift, hm.trees]
      | @reduce k =>
        simp only [grammar_ofAugmented, Augmented.production?_natCast] at hstep ⊢
        cases hp : A.productions[k]? with
        | none =>
          rw [hp] at hstep
          exact absurd hstep (by simp)
        | some p =>
          rw [hp] at hstep
          obtain ⟨rfl, rfl⟩ := Prod.mk.inj (Except.ok.inj hstep)
          obtain ⟨p', hp', hcontent⟩ := h.exists_production hp
          rw [hp']
          refine ⟨_, _, rfl, ⟨rfl, ?_⟩, hm.reduce h hA hcontent⟩
          exact congrArg some (Production.text_eq_of_content hcontent)
      | accept =>
        obtain ⟨rfl, rfl⟩ := Prod.mk.inj (Except.ok.inj hstep)
        exact ⟨_, _, rfl, ⟨rfl, rfl⟩, .accept⟩

end OfAugmented

end Machine

namespace Run

open Machine Automaton

/-! ### Whole runs -/

section OfAugmented

variable {π : Equiv.Perm ℕ} {A B : Augmented} {m m' : Machine} {keepTrees : Bool}
variable (h : A.Renumbered π B)
include h

/-- Where a machine stops, its twin does, and with the same outcome. -/
theorem Ends.exists_alike {next next' : Next} {o : Outcome}
    (hends : Ends A keepTrees m next o) (hm : m.Twins π (ofAugmented A) (ofAugmented B) m')
    (hnext : next.Twins π (ofAugmented A) (ofAugmented B) next') :
    ∃ o', Ends B keepTrees m' next' o' ∧ o.Alike o' := by
  cases hends with
  | accept =>
    cases hnext
    have htree : m'.finalTree B = m.finalTree A := by
      rw [finalTree, finalTree, hm.trees, h.top]
    exact ⟨_, .accept, rfl, rfl, by rw [htree]⟩
  | fail =>
    cases hnext with
    | fail hname => exact ⟨_, .fail, rfl, congrArg some hname, rfl⟩

variable (hA : 0 < A.productions.size) (hlr0 : (Table.ofAutomaton (ofAugmented A)).isLR0)
  (hlr0' : (Table.ofAutomaton (ofAugmented B)).isLR0)
include hA hlr0 hlr0'

/-- **Twin machines run in lockstep.** -/
theorem exists_steps_alike {limit number : ℕ} {trace : List Step} {outcome : Option Outcome}
    (hm : m.Twins π (ofAugmented A) (ofAugmented B) m')
    (hsteps : steps (.ofAutomaton (ofAugmented A)) (ofAugmented A) keepTrees limit number m =
      .ok (trace, outcome)) :
    ∃ trace' outcome',
      steps (.ofAutomaton (ofAugmented B)) (ofAugmented B) keepTrees limit number m' =
        .ok (trace', outcome') ∧
      List.Forall₂ Step.Alike trace trace' ∧ Option.Rel Outcome.Alike outcome outcome' := by
  induction limit generalizing number m m' trace with
  | zero =>
    obtain ⟨rfl, rfl⟩ := Prod.mk.inj (Except.ok.inj hsteps)
    exact ⟨[], none, rfl, .nil, .none⟩
  | succ limit ih =>
    obtain ⟨move, next, hstep, hcase⟩ := steps_succ_cases hsteps
    obtain ⟨move', next', hstep', hmove, hnext⟩ := hm.exists_step h hA hlr0 hlr0' hstep
    have hrecorded := hm.recorded number hmove
    rcases hcase with ⟨n, later, rfl, hlater, rfl⟩ | ⟨o, hends, rfl, rfl⟩
    · -- both machines go on
      cases hnext with
      | go hn =>
        obtain ⟨later', outcome', hlater', htrace, hout⟩ := ih hn hlater
        refine ⟨_ :: later', outcome', ?_, .cons hrecorded htrace, hout⟩
        rw [steps_succ_go hstep', hlater']
        rfl
    · -- both machines stop
      obtain ⟨o', hends', halike⟩ := hends.exists_alike h hm hnext
      exact ⟨_, _, steps_succ_ends hstep' hends' limit number, .cons hrecorded .nil, .some halike⟩

end OfAugmented

/-- **Runs of grammars with other numbers differ in numbers only.** -/
theorem ofTokens_alike {π : Equiv.Perm ℕ} {A B : Augmented} (h : A.Renumbered π B)
    (hA : 0 < A.productions.size) (htops : A.TopsFirst) (htops' : B.TopsFirst)
    {settings : Settings} {keepTrees : Bool} {tokens : List Symbol} {r : Run}
    (hr : ofTokens (.ofAutomaton (ofAugmented A)) (ofAugmented A) settings keepTrees tokens =
      .ok r) :
    ∃ r', ofTokens (.ofAutomaton (ofAugmented B)) (ofAugmented B) settings keepTrees tokens =
      .ok r' ∧ r.Alike r' := by
  have hsame := Table.isLR0_eq h hA htops htops'
  by_cases hlr0 : (Table.ofAutomaton (ofAugmented A)).isLR0
  · obtain ⟨trace, outcome, hsteps, rfl⟩ := exists_steps_of_ofTokens hlr0 hr
    obtain ⟨trace', outcome', hsteps', htrace, hout⟩ := exists_steps_alike h hA hlr0
      (hsame ▸ hlr0) (Machine.twins_start π _ _ tokens) hsteps
    refine ⟨_, ofTokens_of_steps (hsame ▸ hlr0) hsteps', ?_, htrace⟩
    cases hout with
    | none => exact ⟨rfl, rfl, rfl⟩
    | some halike => exact halike
  · rw [ofTokens, if_neg hlr0] at hr
    obtain rfl := Except.ok.inj hr
    exact ⟨_, if_neg (hsame ▸ hlr0), Outcome.alike_blocked _ _, .nil⟩

/-- **The order of the rows does not matter.** If the rows behind the first change places, and so do
the alternatives of a row, then both lists of rows describe a grammar or neither does. And if they
do, then whatever the settings are, the automata of both grammars have as many states and as many
moves, the tables have as many conflicts of each kind and so both none or both some, and the runs on
every input end alike, with the same tree, after as many steps, which are one by one of the same
sort, find the same symbols on the stack and the same input, and undo the same production. -/
theorem ofTokens_reordered {rows rows' : List Row} (h : Grammar.Reordered rows rows') :
    ((∃ g, Grammar.ofRows rows = .ok g) ↔ ∃ g', Grammar.ofRows rows' = .ok g') ∧
    ∀ g g', Grammar.ofRows rows = .ok g → Grammar.ofRows rows' = .ok g' → ∀ settings : Settings,
      ∃ a a', Automaton.ofGrammar g settings = .ok a ∧ Automaton.ofGrammar g' settings = .ok a' ∧
        a.states.length = a'.states.length ∧ a.transitions.length = a'.transitions.length ∧
        (Table.ofAutomaton a).isLR0 = (Table.ofAutomaton a').isLR0 ∧
        (∀ kind, (Table.ofAutomaton a).conflicts.toList.countP (·.kind = kind) =
          (Table.ofAutomaton a').conflicts.toList.countP (·.kind = kind)) ∧
        ∀ (runSettings : Settings) (keepTrees : Bool) (tokens : List Symbol),
          ∃ r r', Run.ofTokens (.ofAutomaton a) a runSettings keepTrees tokens = .ok r ∧
            Run.ofTokens (.ofAutomaton a') a' runSettings keepTrees tokens = .ok r' ∧
            r.Alike r' := by
  refine ⟨Grammar.exists_ofRows_reordered_iff h, fun g g' hg hg' settings => ?_⟩
  obtain ⟨g'', π, hg'', hrenumbered⟩ := Grammar.exists_renumbered h hg
  obtain rfl : g'' = g' := Except.ok.inj (hg''.symm.trans hg')
  have hwell := Grammar.wellFormed_of_ofRows hg
  obtain ⟨A, hA⟩ := Augmented.exists_ofGrammar hwell settings
  obtain ⟨B, hB⟩ := Augmented.exists_ofGrammar (Grammar.wellFormed_of_ofRows hg') settings
  have haug := Augmented.augments_of_ofGrammar hwell hA
  have hAB := Augmented.exists_renumbered hrenumbered hA hB
  have htops := Augmented.topsFirst_of_ofGrammar hg hA
  have htops' := Augmented.topsFirst_of_ofGrammar hg' hB
  refine ⟨ofAugmented A, ofAugmented B, by rw [Automaton.ofGrammar, hA]; rfl,
    by rw [Automaton.ofGrammar, hB]; rfl, length_states_eq hAB haug.size_pos,
    length_transitions_eq hAB haug.size_pos, Table.isLR0_eq hAB haug.size_pos htops htops',
    fun kind => Table.countP_kind_eq hAB haug.size_pos htops htops' (· = kind), ?_⟩
  intro runSettings keepTrees tokens
  obtain ⟨r, hr⟩ := exists_ofTokens haug runSettings keepTrees tokens
  obtain ⟨r', hr', halike⟩ := ofTokens_alike hAB haug.size_pos htops htops' hr
  exact ⟨r, r', hr, hr', halike⟩

/-- The rows of a grammar of pairs. -/
def pairRows : List Row :=
  [⟨"1", "S", ["A B", "c"], false⟩, ⟨"2", "A", ["a"], false⟩, ⟨"3", "B", ["b", "d"], false⟩]

/-- The rows of the grammar of pairs in another order. -/
def pairRowsReordered : List Row :=
  [⟨"1", "S", ["c", "A B"], false⟩, ⟨"3", "B", ["d", "b"], false⟩, ⟨"2", "A", ["a"], false⟩]

theorem ofTokens_reordered_pairs :
    Grammar.Reordered pairRows pairRowsReordered ∧
      ∃ g g', Grammar.ofRows pairRows = .ok g ∧ Grammar.ofRows pairRowsReordered = .ok g' ∧
        g.productions.map Production.text =
          ["S -> A B", "S -> c", "A -> a", "B -> b", "B -> d"] ∧
        g'.productions.map Production.text =
          ["S -> c", "S -> A B", "B -> d", "B -> b", "A -> a"] ∧
        ∃ a a', Automaton.ofGrammar g {} = .ok a ∧ Automaton.ofGrammar g' {} = .ok a' ∧
          a.states.length = a'.states.length ∧
          ∃ r r', Run.ofTokens (.ofAutomaton a) a {} true ["a", "d"] = .ok r ∧
            Run.ofTokens (.ofAutomaton a') a' {} true ["a", "d"] = .ok r' ∧ r.Alike r' := by
  have hreordered : Grammar.Reordered pairRows pairRowsReordered :=
    .cons ⟨rfl, rfl, .swap "A B" "c" []⟩ (.swap _ _ [])
      (.cons ⟨rfl, rfl, .swap "b" "d" []⟩ (.cons ⟨rfl, rfl, .refl _⟩ .nil))
  obtain ⟨hiff, hsame⟩ := ofTokens_reordered hreordered
  have hcheck : (Grammar.ofRows pairRows).toOption.map (·.productions.map Production.text) =
      some ["S -> A B", "S -> c", "A -> a", "B -> b", "B -> d"] := by decide +kernel
  have hcheck' : (Grammar.ofRows pairRowsReordered).toOption.map
      (·.productions.map Production.text) =
        some ["S -> c", "S -> A B", "B -> d", "B -> b", "A -> a"] := by decide +kernel
  obtain ⟨g, hg⟩ : ∃ g, Grammar.ofRows pairRows = .ok g := ⟨_, rfl⟩
  obtain ⟨g', hg'⟩ := hiff.mp ⟨g, hg⟩
  rw [hg] at hcheck
  rw [hg'] at hcheck'
  obtain ⟨a, a', ha, ha', hstates, -, -, -, hruns⟩ := hsame g g' hg hg' {}
  obtain ⟨r, r', hr, hr', halike⟩ := hruns {} true ["a", "d"]
  exact ⟨hreordered, g, g', hg, hg', Option.some.inj hcheck, Option.some.inj hcheck', a, a', ha,
    ha', hstates, r, r', hr, hr', halike⟩

end Run

end ShiftReduce
