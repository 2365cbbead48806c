import ShiftReduce.Proofs.Grammar.Derivation
import ShiftReduce.Proofs.Run.Log
import ShiftReduce.Proofs.Run.Path
import ShiftReduce.Proofs.Run.Step

/-!
# The forest beside the stack

A machine that keeps trees has one for every symbol on its stack. Nothing that it does depends on
them: a machine without trees takes the same steps (`ShiftReduce.Machine.step_withoutTrees`), so a
run without a tree is the run with one, but for the tree (`ShiftReduce.Run.ofTokens_withoutTree`).

What the trees are worth does not depend on the table either. A shift adds a leaf for the symbol
that it reads, and a reduction puts one node on as many trees as it takes symbols off the stack, so
nothing that was read is lost, and every move adds one node (`ShiftReduce.Machine.Bears`). Where
the machine accepts, one tree is the tree of the run, and any other number of trees is put under
the fresh start symbol. `ShiftReduce.Run.HasTree` says what this makes of a run, and
`ShiftReduce.Run.ofTokens_tree` that it holds on any table.
-/

namespace ShiftReduce

/-! ### Grown trees -/

namespace Tree

/-- **A grown tree**: a node that was read has no children, and the children of the others are
grown. In such a tree the yield lists the leaves that were read. -/
inductive Grown : Tree → Prop
  /-- A symbol that was read. -/
  | leaf {x : Symbol} : Grown (.leaf x)
  /-- A symbol that was recognised. -/
  | branch {A : Symbol} {children : List Tree} : (∀ t ∈ children, Grown t) →
      Grown (.branch A children)

theorem sizes_append (ts us : List Tree) : sizes (ts ++ us) = sizes ts + sizes us := by
  induction ts with
  | nil => simp
  | cons t ts ih => rw [List.cons_append, sizes_cons, sizes_cons, ih, Nat.add_assoc]

end Tree

/-- Whether the move adds a node to a tree: it shifts or reduces. -/
def Move.grows : Move → Bool
  | shift _ => true
  | reduce _ _ => true
  | _ => false

/-- The number of shifts and reductions of a run. -/
def Run.growth (r : Run) : ℕ :=
  r.trace.countP fun s => s.move.grows

/-- **The tree of an accepted run**, told by the last step. -/
structure Run.HasTree (g : Augmented) (tokens : List Symbol) (r : Run) (tree : Tree)
    (last : Step) : Prop where
  /-- The run accepts with this tree. -/
  accepted : r.outcome = .accepted (some tree)
  /-- The step is the last one. -/
  getLast : r.trace.getLast? = some last
  /-- A node of the tree was read and has no children, or was recognised. -/
  grown : tree.Grown
  /-- The leaves that were read, with the input that is left behind them, are the whole input. -/
  yield : tree.yield ++ last.input = tokens ++ [endMarker]
  /-- One symbol on the stack is the label of the tree, which has a node for every shift and every
  reduction. -/
  one : (Machine.stackWord last.frames).length = 1 →
    Machine.stackWord last.frames = [tree.label] ∧ tree.size = r.growth
  /-- Any other number of symbols are the labels of the children of the fresh start symbol, which is
  one node more. -/
  other : (Machine.stackWord last.frames).length ≠ 1 →
    ∃ children, tree = .branch g.top children ∧
      children.map Tree.label = Machine.stackWord last.frames ∧ tree.size = r.growth + 1

namespace Machine

variable {t : Table} {a : Automaton} {g : Augmented} {keepTrees : Bool} {m m' : Machine}
  {move : Move} {next : Next}

/-! ### Without trees -/

/-- The machine without its trees. -/
def withoutTrees (m : Machine) : Machine :=
  { m with trees := [] }

/-- What a step leads to, without the trees. -/
def Next.withoutTrees : Next → Next
  | .go m => .go m.withoutTrees
  | .accept => .accept
  | .fail f => .fail f

/-- A machine without trees does the same. -/
theorem Does.withoutTrees (h : Does t a true m move next) :
    Does t a false m.withoutTrees move next.withoutTrees := by
  cases h with
  | shift hinput hentry => exact .shift hinput hentry
  | reduce hentry hp hframes hlen hgoto => exact .reduce hentry hp hframes hlen hgoto
  | miss hentry hp hframes hlen hgoto => exact .miss hentry hp hframes hlen hgoto
  | underflow hentry hp hlt => exact .underflow hentry hp hlt
  | accept hentry => exact .accept hentry
  | reject hinput hentry => exact .reject hinput hentry

theorem Faults.withoutTrees {fault : Fault} (h : Faults t a m fault) :
    Faults t a m.withoutTrees fault := by
  cases h with
  | inputExhausted hinput => exact .inputExhausted hinput
  | unknownProduction hentry hp => exact .unknownProduction hentry hp

/-- **Without trees a machine takes the same step.** -/
theorem step_withoutTrees (t : Table) (a : Automaton) (m : Machine) :
    m.withoutTrees.step t a false =
      (m.step t a true).map fun r => (r.1, r.2.withoutTrees) := by
  rcases hstep : m.step t a true with fault | ⟨move, next⟩
  · exact step_eq_error_iff.mpr (step_eq_error_iff.mp hstep).withoutTrees
  · exact (does_of_step hstep).withoutTrees.step_eq

/-! ### With trees -/

/-- **What the trees of a machine are worth** after some number of moves. -/
structure Bears (tokens : List Symbol) (moves : ℕ) (m : Machine) : Prop where
  /-- Every symbol on the stack has its tree. -/
  labels : m.trees.map Tree.label = m.frames.map Frame.symbol
  /-- The trees are grown. -/
  grown : ∀ t ∈ m.trees, t.Grown
  /-- They yield what was read. -/
  yields : Tree.yields m.trees.reverse ++ m.input = tokens ++ [endMarker]
  /-- Every move has added one node. -/
  sizes : Tree.sizes m.trees.reverse = moves

variable {tokens : List Symbol} {n : ℕ}

theorem bears_start (tokens : List Symbol) : (start tokens).Bears tokens 0 where
  labels := rfl
  grown := by simp [start]
  yields := by simp [start]
  sizes := by simp [start]

/-- A shift adds a leaf. -/
theorem Bears.shift (h : m.Bears tokens n) {x : Symbol} {rest : List Symbol}
    (hinput : m.input = x :: rest) (target : ℤ) :
    (m.shift true x rest target).Bears tokens (n + 1) where
  labels := by simp [Machine.shift, h.labels]
  grown := List.forall_mem_cons.mpr ⟨.leaf, h.grown⟩
  yields := by
    rw [← h.yields, hinput]
    simp [Machine.shift]
  sizes := by
    rw [← h.sizes]
    simp [Machine.shift, Tree.sizes_append]

/-- A reduction puts one node on as many trees as it takes symbols off the stack. -/
theorem Bears.reduced (h : m.Bears tokens n) {p : Production} {top below : List Frame}
    (hframes : m.frames = top ++ below) (hlen : top.length = p.rhs.length) (target : ℤ) :
    (m.reduced true p target).Bears tokens (n + 1) := by
  obtain ⟨hlabels, hgrown, hyields, hsizes⟩ := h
  -- the trees are divided as the stack is
  obtain ⟨front, back, htrees, hfront, hback⟩ : ∃ front back, m.trees = front ++ back ∧
      front.map Tree.label = top.map Frame.symbol ∧
        back.map Tree.label = below.map Frame.symbol := by
    rw [hframes, List.map_append] at hlabels
    exact List.map_eq_append_iff.mp hlabels
  have hsize : p.rhs.length = front.length := by
    rw [← hlen, ← List.length_map Frame.symbol, ← hfront, List.length_map]
  have hnew : (m.reduced true p target).trees = .branch p.lhs front.reverse :: back := by
    simp only [Machine.reduced, if_pos, htrees, hsize, List.take_left, List.drop_left]
  rw [htrees, List.reverse_append] at hyields hsizes
  rw [htrees] at hgrown
  refine ⟨?_, ?_, ?_, ?_⟩
  · rw [hnew, frames_reduced hframes hlen, List.map_cons, List.map_cons, hback]
    rfl
  · rw [hnew]
    refine List.forall_mem_cons.mpr ⟨.branch fun u hu => ?_, fun u hu => ?_⟩
    · exact hgrown u (List.mem_append_left _ (List.mem_reverse.mp hu))
    · exact hgrown u (List.mem_append_right _ hu)
  · rw [hnew, List.reverse_cons, Tree.yields_append, ← hyields, Tree.yields_append]
    simp [Machine.reduced]
  · rw [hnew, List.reverse_cons, Tree.sizes_append, ← hsizes, Tree.sizes_append, Tree.sizes_cons,
      Tree.size_branch, Tree.sizes_nil]
    omega

/-- **Every step keeps what the trees are worth**, and adds a node. -/
theorem Does.bears (hdoes : Does t a true m move (.go m')) (h : m.Bears tokens n) :
    m'.Bears tokens (n + 1) := by
  cases hdoes with
  | shift hinput _ => exact h.shift hinput _
  | reduce _ _ hframes hlen _ => exact h.reduced hframes hlen _

theorem Does.grows (hdoes : Does t a keepTrees m move (.go m')) : move.grows = true := by
  cases hdoes with
  | shift _ _ => rfl
  | reduce _ _ _ _ _ => rfl

/-- **A walk keeps what the trees are worth**: one node for every move. -/
theorem Walk.bears {moves : List Move} (hwalk : Walk t a true m moves m')
    (h : m.Bears tokens n) : m'.Bears tokens (n + moves.length) := by
  induction hwalk generalizing n with
  | nil => exact h
  | @cons _ _ _ move moves hstep _ ih =>
    have hlater := ih ((does_of_step hstep).bears h)
    rwa [Nat.add_right_comm, Nat.add_assoc, ← List.length_cons] at hlater

theorem Walk.grows {moves : List Move} (hwalk : Walk t a keepTrees m moves m') :
    ∀ move ∈ moves, move.grows = true := by
  induction hwalk with
  | nil => simp
  | cons hstep _ ih => exact List.forall_mem_cons.mpr ⟨(does_of_step hstep).grows, ih⟩

/-! ### The tree at the end -/

theorem Bears.map_label_reverse (h : m.Bears tokens n) :
    m.trees.reverse.map Tree.label = stackWord m.frames := by
  rw [List.map_reverse, h.labels, stackWord]

theorem Bears.length_trees (h : m.Bears tokens n) :
    m.trees.length = (stackWord m.frames).length := by
  rw [← h.map_label_reverse, List.length_map, List.length_reverse]

/-- One tree is the tree of the run. -/
theorem finalTree_of_singleton {tree : Tree} (htrees : m.trees = [tree]) :
    m.finalTree g = tree := by
  simp only [finalTree, htrees]

/-- Any other number of trees is put under the fresh start symbol. -/
theorem finalTree_of_length_ne (hlen : m.trees.length ≠ 1) :
    m.finalTree g = .branch g.top m.trees.reverse := by
  unfold finalTree
  split
  next tree htrees => exact absurd (by simp [htrees]) hlen
  next => rfl

/-- **The tree of the run loses nothing**: it is grown, and yields what was read. -/
theorem Bears.finalTree (h : m.Bears tokens n) (g : Augmented) :
    (m.finalTree g).Grown ∧ (m.finalTree g).yield ++ m.input = tokens ++ [endMarker] := by
  by_cases hone : m.trees.length = 1
  · obtain ⟨tree, htrees⟩ := List.length_eq_one_iff.mp hone
    rw [finalTree_of_singleton htrees]
    refine ⟨h.grown tree (by simp [htrees]), ?_⟩
    simpa [htrees] using h.yields
  · rw [finalTree_of_length_ne hone, Tree.yield_branch]
    exact ⟨.branch fun u hu => h.grown u (List.mem_reverse.mp hu), h.yields⟩

/-- One symbol on the stack is the label of the tree of the run. -/
theorem Bears.finalTree_of_one (h : m.Bears tokens n) (g : Augmented)
    (hone : (stackWord m.frames).length = 1) :
    stackWord m.frames = [(m.finalTree g).label] ∧ (m.finalTree g).size = n := by
  obtain ⟨tree, htrees⟩ := List.length_eq_one_iff.mp (h.length_trees.trans hone)
  rw [finalTree_of_singleton htrees, ← h.map_label_reverse, ← h.sizes, htrees]
  simp

/-- Any other number of symbols are the labels of the children of the fresh start symbol. -/
theorem Bears.finalTree_of_other (h : m.Bears tokens n) (g : Augmented)
    (hother : (stackWord m.frames).length ≠ 1) : ∃ children,
      m.finalTree g = .branch g.top children ∧
        children.map Tree.label = stackWord m.frames ∧ (m.finalTree g).size = n + 1 := by
  have hlen : m.trees.length ≠ 1 := fun hone => hother (h.length_trees.symm.trans hone)
  refine ⟨_, finalTree_of_length_ne hlen, h.map_label_reverse, ?_⟩
  rw [finalTree_of_length_ne hlen, Tree.size_branch, h.sizes]

end Machine

/-- How a run ends, without the tree. -/
def Outcome.withoutTree : Outcome → Outcome
  | .accepted _ => .accepted none
  | o => o

@[simp] theorem Outcome.status_withoutTree (o : Outcome) : o.withoutTree.status = o.status := by
  cases o <;> rfl

@[simp] theorem Outcome.reason?_withoutTree (o : Outcome) : o.withoutTree.reason? = o.reason? := by
  cases o <;> rfl

@[simp] theorem Outcome.message_withoutTree (o : Outcome) :
    o.withoutTree.message = o.message := by
  cases o <;> rfl

namespace Run

open Machine

variable {t : Table} {g : Augmented} {a : Automaton} {settings : Settings} {tokens : List Symbol}
  {r : Run}

/-! ### Without a tree -/

/-- The run without its tree. -/
def withoutTree (r : Run) : Run :=
  { r with outcome := r.outcome.withoutTree }

theorem Ends.withoutTree {m : Machine} {next : Next} {o : Outcome} (h : Ends g true m next o) :
    Ends g false m.withoutTrees next.withoutTrees o.withoutTree := by
  cases h with
  | accept => exact .accept
  | fail => exact .fail

/-- **Without trees a run takes the same steps** and ends in the same way, but for the tree. -/
theorem steps_withoutTrees (t : Table) (a : Automaton) (limit number : ℕ) (m : Machine) :
    steps t a false limit number m.withoutTrees =
      (steps t a true limit number m).map fun r => (r.1, r.2.map Outcome.withoutTree) := by
  induction limit generalizing number m with
  | zero => rfl
  | succ limit ih =>
    have hbare := step_withoutTrees t a m
    rcases hstep : m.step t a true with fault | ⟨move, next⟩
    · rw [hstep] at hbare
      rw [steps, steps, hbare, hstep]
      rfl
    · rw [hstep] at hbare
      cases next with
      | go m' =>
        rw [steps_succ_go hstep, steps_succ_go hbare, ih]
        cases steps t a true limit (number + 1) m' <;> rfl
      | accept =>
        rw [steps_succ_ends hstep .accept, steps_succ_ends hbare .accept]
        rfl
      | fail f =>
        rw [steps_succ_ends hstep .fail, steps_succ_ends hbare .fail]
        rfl

/-- **Without trees the whole run is the same**, but for the tree. -/
theorem ofTokens_withoutTree (t : Table) (a : Automaton) (settings : Settings)
    (tokens : List Symbol) :
    ofTokens t a settings false tokens =
      (ofTokens t a settings true tokens).map withoutTree := by
  by_cases hlr0 : t.isLR0
  · have hsteps := steps_withoutTrees t a settings.maxSteps.toNat 1 (.start tokens)
    rw [ofTokens_eq_map hlr0, ofTokens_eq_map hlr0]
    rw [show (Machine.start tokens).withoutTrees = .start tokens from rfl] at hsteps
    rw [hsteps]
    rcases steps t a true settings.maxSteps.toNat 1 (.start tokens) with
      fault | ⟨trace, _ | o⟩ <;> rfl
  · rw [ofTokens, if_neg hlr0, ofTokens, if_neg hlr0]
    rfl

/-! ### The tree of a run -/

/-- The shifts and reductions of a run are the moves before the last one, which accepts. -/
theorem growth_of_map_move {moves : List Move} (hmoves : r.trace.map (·.move) = moves ++ [.accept])
    (hgrows : ∀ move ∈ moves, move.grows = true) : r.growth = moves.length := by
  have hcount : r.growth = (r.trace.map (·.move)).countP Move.grows := by
    rw [List.countP_map]
    rfl
  rw [hcount, hmoves, List.countP_append, List.countP_eq_length.mpr hgrows]
  rfl

/-- **The tree of an accepted run**, on any table. -/
theorem exists_hasTree (h : ofTokens t a settings true tokens = .ok r)
    (hsuccess : r.outcome.success = true) : ∃ tree last, r.HasTree a.grammar tokens tree last := by
  have hstops : ∀ f, r.outcome ≠ .failed f := fun f hf => by
    simp [hf, Outcome.success] at hsuccess
  obtain ⟨-, moves, m, move, next, hwalk, hstep, hends, hmoves, hlast⟩ :=
    exists_walk_of_ofTokens h (fun n hn => by simp [hn, Outcome.success] at hsuccess)
      fun n => hstops _
  have hbears := hwalk.bears (bears_start tokens)
  rw [Nat.zero_add] at hbears
  generalize hout : r.outcome = o at hends
  cases hends with
  | fail => exact absurd hout (hstops _)
  | accept =>
    obtain rfl : move = .accept := by
      cases does_of_step hstep
      rfl
    have hgrowth : r.growth = moves.length := growth_of_map_move hmoves hwalk.grows
    obtain ⟨hgrown, hyield⟩ := hbears.finalTree a.grammar
    exact ⟨m.finalTree a.grammar, _, hout, hlast, hgrown, hyield,
      hgrowth ▸ hbears.finalTree_of_one a.grammar, hgrowth ▸ hbears.finalTree_of_other a.grammar⟩

/-- **Trees change nothing and lose nothing**, on any table. A run without a tree is the run with
one, but for the tree: it has the same steps, status, reason and message, or the same fault. An
accepted run with a tree has one in which every symbol that was read is a leaf, and every shift and
reduction a node. -/
theorem ofTokens_tree (t : Table) (a : Automaton) (settings : Settings) (tokens : List Symbol) :
    ofTokens t a settings false tokens =
      (ofTokens t a settings true tokens).map withoutTree ∧
    (∀ r : Run, r.withoutTree.trace = r.trace ∧
      r.withoutTree.outcome.status = r.outcome.status ∧
      r.withoutTree.outcome.reason? = r.outcome.reason? ∧
      r.withoutTree.outcome.message = r.outcome.message) ∧
    ∀ r, ofTokens t a settings true tokens = .ok r → r.outcome.success = true →
      ∃ tree last, r.HasTree a.grammar tokens tree last :=
  ⟨ofTokens_withoutTree t a settings tokens,
    fun r => ⟨rfl, r.outcome.status_withoutTree, r.outcome.reason?_withoutTree,
      r.outcome.message_withoutTree⟩,
    fun _ => exists_hasTree⟩

/-- An automaton written by hand that starts in a state other than the first. -/
def hastyAutomaton : Automaton :=
  ⟨.brackets, [], [], 4⟩

/-- A table written by hand that accepts with input left and with two symbols on the stack. -/
def hastyTable : Table where
  action := (((({} : Cells Action).put ⟨4, "c"⟩ (.shift 7)).put ⟨7, "a"⟩ (.reduce 2)).put ⟨5, "a"⟩
    (.shift 6)).put ⟨6, "b"⟩ .accept
  goto := ({} : Cells ℤ).put ⟨4, "S"⟩ 5

theorem ofTokens_tree_hasty :
    ∃ r tree last, ofTokens hastyTable hastyAutomaton {} true ["c", "a", "b"] = .ok r ∧
      ofTokens hastyTable hastyAutomaton {} false ["c", "a", "b"] = .ok r.withoutTree ∧
      r.HasTree .brackets ["c", "a", "b"] tree last ∧
      (stackWord last.frames).length = 2 ∧ last.input = ["b", "$"] ∧ tree.size = 4 := by
  have hrun : ∃ r, ofTokens hastyTable hastyAutomaton {} true ["c", "a", "b"] = .ok r ∧
      r.outcome.success = true ∧ r.growth = 3 ∧
      r.trace.getLast?.map (fun s => (stackWord s.frames, s.input)) =
        some (["S", "a"], ["b", "$"]) := ⟨_, rfl, rfl, rfl, rfl⟩
  obtain ⟨r, hrun, hsuccess, hgrowth, hend⟩ := hrun
  obtain ⟨hsame, -, htree⟩ := ofTokens_tree hastyTable hastyAutomaton {} ["c", "a", "b"]
  obtain ⟨tree, last, h⟩ := htree r hrun hsuccess
  rw [h.getLast] at hend
  obtain ⟨hword, hinput⟩ := Prod.mk.inj (Option.some.inj hend)
  have htwo : (stackWord last.frames).length = 2 := by simp [hword]
  obtain ⟨children, -, -, hsize⟩ := h.other (by simp [htwo])
  exact ⟨r, tree, last, hrun, by rw [hsame, hrun]; rfl, h, htwo, hinput, by rw [hsize, hgrowth]⟩

end Run

end ShiftReduce
