import Mathlib.Data.List.Basic
import ShiftReduce.Proofs.Grammar.Derivation
import ShiftReduce.Proofs.Run.Track

/-!
# A machine follows a derivation tree

Without conflicts every reason for an action is the only one, so a machine has to do what the
automaton allows it to do: it shifts where an edge over a terminal leads on
(`ShiftReduce.Machine.step_of_edge`), it reduces where a production is completed
(`ShiftReduce.Machine.step_of_holds`), and it accepts at the end.

From this it follows that the machine walks through a derivation tree in postorder, with one move
for every node, whenever there is an edge over the label of the tree to begin with
(`ShiftReduce.Machine.follows_of_derivation`). The induction is on the tree. For the children of a
node it runs along the right-hand side, the dot of an item moving with it
(`ShiftReduce.Machine.exists_walk_of_forest`); that part does not need the right-hand side to end
where the children do, and so it serves for the left edge of a derivation as well.

What stands behind the tree in the input matters only when a production is undone: there has to be
a terminal, or the end marker with nothing behind it (`ShiftReduce.Machine.IsReady`).
-/

namespace ShiftReduce

namespace Machine

open Automaton

variable {A : Augmented} {g : Grammar} {keepTrees : Bool} {m : Machine} {tail : List Symbol}

/-- **An input before which productions are undone**: a terminal comes next, or the end marker at
the end. -/
def IsReady (A : Augmented) (tail : List Symbol) : Prop :=
  ∃ x rest, tail = x :: rest ∧ x ∈ A.lookaheads ∧ (x = endMarker → rest = [])

theorem isReady_endMarker (A : Augmented) : IsReady A [endMarker] :=
  ⟨endMarker, [], rfl, Augmented.mem_lookaheads.mpr (Or.inr rfl), fun _ => rfl⟩

theorem isReady_cons (hg : A.Augments g) {a : Symbol} (ha : a ∈ g.terminals)
    (tail : List Symbol) : IsReady A (a :: tail) := by
  refine ⟨a, tail, rfl, Augmented.mem_lookaheads.mpr (Or.inl (hg.terminals ▸ ha)), fun he => ?_⟩
  exact absurd he (hg.wellFormed.ne_endMarker ha)

/-- Terminals in front of an input leave it ready. -/
theorem IsReady.append (hg : A.Augments g) (h : IsReady A tail) {u : List Symbol}
    (hu : ∀ a ∈ u, a ∈ g.terminals) : IsReady A (u ++ tail) := by
  cases u with
  | nil => exact h
  | cons a u => exact isReady_cons hg (hu a (by simp)) (u ++ tail)

/-! ### What the machine has to do -/

/-- Without conflicts the machine does what it has a reason to do. -/
theorem lookUp_of_justified (hg : A.Augments g)
    (hlr0 : (Table.ofAutomaton (ofAugmented A)).isLR0) {q : ℤ} {x : Symbol} {action : Action}
    (rest : List Symbol) (hend : x = endMarker → rest = [])
    (h : Table.Justified (ofAugmented A) q x action) :
    lookUp (.ofAutomaton (ofAugmented A)) q x rest = some action :=
  lookUp_eq_some.mpr ⟨hend, Table.get?_of_justified hg.size_pos hlr0 h⟩

/-- **The machine shifts** a terminal that an edge leads over, whatever comes behind it. -/
theorem step_of_edge (hg : A.Augments g) (hlr0 : (Table.ofAutomaton (ofAugmented A)).isLR0)
    {a : Symbol} {r : ℤ} (hinput : m.input = a :: tail) (ha : a ∈ g.terminals)
    (hedge : (ofAugmented A).Edge (topState (ofAugmented A) m.frames) a r) :
    m.step (.ofAutomaton (ofAugmented A)) (ofAugmented A) keepTrees =
      .ok (.shift r, .go (m.shift keepTrees a tail r)) := by
  have hlook := lookUp_of_justified hg hlr0 tail
    (fun he => absurd he (hg.wellFormed.ne_endMarker ha))
    (.shift hedge (hg.terminals ▸ ha : a ∈ A.terminals))
  simp only [step, hinput, hlook]

/-- **The machine reduces** a completed production of the grammar, where the input is ready. -/
theorem step_of_holds (hg : A.Augments g) (hf : A.IsFresh g)
    (hlr0 : (Table.ofAutomaton (ofAugmented A)).isLR0) {k : ℕ} {p : Production}
    {top below : List Frame} {r : ℤ} (hready : IsReady A m.input)
    (hp : A.productions[k]? = some p) (hk : k ≠ 0) (hframes : m.frames = top ++ below)
    (hlen : top.length = p.rhs.length)
    (hheld : (ofAugmented A).Holds (topState (ofAugmented A) m.frames) ⟨k, p.rhs.length⟩)
    (hedge : (ofAugmented A).Edge (topState (ofAugmented A) below) p.lhs r) :
    m.step (.ofAutomaton (ofAugmented A)) (ofAugmented A) keepTrees =
      .ok (.reduce k p, .go (m.reduced keepTrees p r)) := by
  obtain ⟨x, rest, hinput, hx, hend⟩ := hready
  have hne : p.lhs ≠ A.top := fun htop => hk ((hf.lhs_eq_top_iff hg hp).mp htop)
  have hreason : Table.Justified (ofAugmented A) (topState (ofAugmented A) m.frames) x
      (.reduce k) := by
    refine .reduce ?_ ?_ hx
    · change (ofAugmented A).Holds _ ⟨k, (A.rhs k).length⟩
      rwa [Augmented.rhs_eq hp]
    · change A.lhs k ≠ A.top
      rwa [Augmented.lhs_eq hp]
  have hlook := lookUp_of_justified hg hlr0 rest hend hreason
  have hterm := (hg.lhs_of_hasRule (hg.hasRule hp hk)).2
  have hgoto := (Table.get?_goto_iff hg.size_pos).mpr ⟨hedge, hterm, hne⟩
  have hreduce : m.reduce (.ofAutomaton (ofAugmented A)) (ofAugmented A) keepTrees p =
      .go (m.reduced keepTrees p r) := reduce_eq_go hframes hlen hgoto
  simp only [step, hinput, hlook, grammar_ofAugmented, Augmented.production?_natCast, hp, hreduce]

/-- **The machine accepts** where the production of the fresh start symbol is completed and the
input is used up. -/
theorem step_of_holds_first (hg : A.Augments g)
    (hlr0 : (Table.ofAutomaton (ofAugmented A)).isLR0) (hinput : m.input = [endMarker])
    (hheld : (ofAugmented A).Holds (topState (ofAugmented A) m.frames) ⟨0, 1⟩) :
    m.step (.ofAutomaton (ofAugmented A)) (ofAugmented A) keepTrees = .ok (.accept, .accept) := by
  obtain ⟨authored, hfirst⟩ := hg.first
  have hreason : Table.Justified (ofAugmented A) (topState (ofAugmented A) m.frames) endMarker
      .accept := by
    have hlen : (A.rhs 0).length = 1 := by rw [Augmented.rhs_eq hfirst]; rfl
    refine .accept (p := 0) ?_ ?_ rfl
    · change (ofAugmented A).Holds _ ⟨0, (A.rhs 0).length⟩
      rwa [hlen]
    · exact Augmented.lhs_eq hfirst
  have hlook := lookUp_of_justified hg hlr0 [] (fun _ => rfl) hreason
  simp only [step, hinput, hlook]

/-! ### Trees and forests -/

/-- The machine once it has recognised a tree, with the state that is entered then. -/
def push (keepTrees : Bool) (m : Machine) (t : Tree) (target : ℤ) (tail : List Symbol) :
    Machine where
  frames := ⟨t.label, target⟩ :: m.frames
  input := tail
  trees := if keepTrees then t :: m.trees else m.trees

/-- **The machine follows a tree** wherever an edge leads over its label: it reads its yield with
one move for each node and has recognised the tree then. -/
def Follows (A : Augmented) (keepTrees : Bool) (t : Tree) : Prop :=
  ∀ (m : Machine) (tail : List Symbol) (r : ℤ), m.input = t.yield ++ tail → IsReady A tail →
    (ofAugmented A).Edge (topState (ofAugmented A) m.frames) t.label r →
    ∃ moves, moves.length = t.size ∧
      Walk (.ofAutomaton (ofAugmented A)) (ofAugmented A) keepTrees m moves
        (m.push keepTrees t r tail)

/-- From the start state an edge leads over the start symbol, to where the production of the fresh
start symbol is completed. -/
theorem exists_edge_start (hg : A.Augments g) :
    ∃ r, (ofAugmented A).Edge Automaton.start g.start r ∧ (ofAugmented A).Holds r ⟨0, 1⟩ := by
  obtain ⟨authored, hfirst⟩ := hg.first
  have hheld := holds_start hg.size_pos
  have hnext : A.nextSymbol ⟨0, 0⟩ = some g.start := by
    rw [Augmented.nextSymbol, Augmented.rhs_eq hfirst]
    rfl
  obtain ⟨r, hedge⟩ := hheld.exists_edge hg.size_pos hnext
  exact ⟨r, hedge, (hedge.holds_succ hg.size_pos).mpr ⟨hheld, hnext⟩⟩

/-- **The machine follows a forest along a right-hand side**, the dot of an item moving with it. -/
theorem exists_walk_of_forest (hg : A.Augments g) {ts : List Tree}
    (hfollows : ∀ t ∈ ts, Follows A keepTrees t) (hts : ∀ t ∈ ts, g.Derivation t) {k d : ℕ}
    {δ : List Symbol} (hdrop : (A.rhs k).drop d = ts.map Tree.label ++ δ)
    (hheld : (ofAugmented A).Holds (topState (ofAugmented A) m.frames) ⟨k, d⟩)
    (hinput : m.input = Tree.yields ts ++ tail) (hready : IsReady A tail) :
    ∃ moves m' top, moves.length = Tree.sizes ts ∧
      Walk (.ofAutomaton (ofAugmented A)) (ofAugmented A) keepTrees m moves m' ∧
      m'.frames = top ++ m.frames ∧ top.length = ts.length ∧ m'.input = tail ∧
      m'.trees = (if keepTrees then ts.reverse ++ m.trees else m.trees) ∧
      (ofAugmented A).Holds (topState (ofAugmented A) m'.frames) ⟨k, d + ts.length⟩ := by
  induction ts generalizing m d with
  | nil => exact ⟨[], m, [], by simp, .nil, rfl, rfl, by simpa using hinput, by simp, hheld⟩
  | cons t ts ih =>
    have hnext : A.nextSymbol ⟨k, d⟩ = some t.label := by
      have hhead := congrArg List.head? hdrop
      rwa [List.head?_drop] at hhead
    obtain ⟨r, hedge⟩ := hheld.exists_edge hg.size_pos hnext
    -- what stands behind the first tree is the rest of the forest, and then the tail
    have hready' : IsReady A (Tree.yields ts ++ tail) := hready.append hg
      (Grammar.mem_terminals_of_mem_yields fun u hu => hts u (List.mem_cons_of_mem _ hu))
    obtain ⟨moves, hlen, hwalk⟩ := hfollows t List.mem_cons_self m (Tree.yields ts ++ tail) r
      (by simpa using hinput) hready' hedge
    have hdrop' : (A.rhs k).drop (d + 1) = ts.map Tree.label ++ δ := by
      rw [Augmented.drop_dot (i := ⟨k, d⟩) hnext] at hdrop
      exact (List.cons.inj hdrop).2
    obtain ⟨later, m', top, hlater, hwalk', hframes, htop, hinput', htrees, hheld'⟩ :=
      ih (fun u hu => hfollows u (List.mem_cons_of_mem _ hu))
        (fun u hu => hts u (List.mem_cons_of_mem _ hu)) (m := m.push keepTrees t r _) hdrop'
        ((hedge.holds_succ hg.size_pos).mpr ⟨hheld, hnext⟩) rfl
    refine ⟨moves ++ later, m', top ++ [⟨t.label, r⟩], ?_, hwalk.append hwalk', ?_, ?_, hinput',
      ?_, ?_⟩
    · rw [List.length_append, hlen, hlater, Tree.sizes_cons]
    · rw [hframes, List.append_assoc]
      rfl
    · rw [List.length_append, htop, List.length_singleton, List.length_cons]
    · rw [htrees]
      by_cases hkeep : keepTrees = true
      · simp [push, hkeep]
      · simp [push, hkeep]
    · rw [List.length_cons, Nat.add_comm ts.length 1, ← Nat.add_assoc]
      exact hheld'

/-- A number with an edge over the left-hand side of a rule holds the production of the rule with
the dot at the start. -/
theorem exists_holds_of_hasRule (hg : A.Augments g) {q r : ℤ} {B : Symbol} {body : List Symbol}
    (hedge : (ofAugmented A).Edge q B r) (hrule : g.HasRule B body) :
    ∃ k p, k ≠ 0 ∧ A.productions[k]? = some p ∧ p.lhs = B ∧ p.rhs = body ∧
      (ofAugmented A).Holds q ⟨k, 0⟩ := by
  obtain ⟨i, hi, hnext⟩ := hedge.exists_holds hg.size_pos
  obtain ⟨k, p, hk, hp, hlhs, hrhs⟩ := hg.exists_production hrule
  refine ⟨k, p, hk, hp, hlhs, hrhs, hi.ask hg.size_pos ?_⟩
  exact Augmented.mem_asksFor_iff.mpr ⟨B, p, hnext, (hg.lhs_of_hasRule hrule).1, rfl, hp, hlhs⟩

/-- A machine with the trees of a right-hand side on top, once it has undone the production, has
recognised the tree over them. -/
theorem reduced_eq_push {m' : Machine} {p : Production} {ts : List Tree} {top : List Frame} {r : ℤ}
    (hframes : m'.frames = top ++ m.frames) (htop : top.length = p.rhs.length)
    (htrees : m'.trees = if keepTrees then ts.reverse ++ m.trees else m.trees)
    (hts : ts.length = p.rhs.length) :
    m'.reduced keepTrees p r = m.push keepTrees (.branch p.lhs ts) r m'.input := by
  have hback : ts.reverse.length = p.rhs.length := by rw [List.length_reverse, hts]
  have hdrop : m'.frames.drop p.rhs.length = m.frames := by rw [hframes, ← htop, List.drop_left]
  rw [reduced, push, hdrop, htrees]
  by_cases hkeep : keepTrees = true
  · rw [if_pos hkeep, if_pos hkeep, if_pos hkeep, ← hback, List.take_left, List.drop_left,
      List.reverse_reverse]
    rfl
  · rw [if_neg hkeep, if_neg hkeep, if_neg hkeep]
    rfl

/-- **Without conflicts the machine follows every derivation tree.** -/
theorem follows_of_derivation (hg : A.Augments g) (hf : A.IsFresh g)
    (hlr0 : (Table.ofAutomaton (ofAugmented A)).isLR0) {t : Tree} (ht : g.Derivation t) :
    Follows A keepTrees t := by
  induction ht with
  | @leaf a ha =>
    intro m tail r hinput _ hedge
    refine ⟨[.shift r], by simp, .single ?_⟩
    exact step_of_edge hg hlr0 (by simpa using hinput) ha hedge
  | @branch B children hrule hchildren ih =>
    intro m tail r hinput hready hedge
    -- the node's production is there with the dot at the start, since an edge leads over its label
    obtain ⟨k, p, hk, hp, rfl, hrhs, hheld⟩ := exists_holds_of_hasRule hg hedge hrule
    have hdrop : (A.rhs k).drop 0 = children.map Tree.label ++ [] := by
      rw [List.drop_zero, List.append_nil, Augmented.rhs_eq hp, hrhs]
    obtain ⟨moves, m', top, hlen, hwalk, hframes, htop, hinput', htrees, hheld'⟩ :=
      exists_walk_of_forest hg ih hchildren hdrop hheld (by simpa using hinput) hready
    have hcount : children.length = p.rhs.length := by rw [hrhs, List.length_map]
    rw [Nat.zero_add, hcount] at hheld'
    have hstep : m'.step (.ofAutomaton (ofAugmented A)) (ofAugmented A) keepTrees =
        .ok (.reduce k p, .go (m'.reduced keepTrees p r)) :=
      step_of_holds hg hf hlr0 (hinput' ▸ hready) hp hk hframes (htop.trans hcount) hheld' hedge
    have hpush := reduced_eq_push (r := r) hframes (htop.trans hcount) htrees hcount
    rw [hpush, hinput'] at hstep
    exact ⟨moves ++ [.reduce k p], by simp [hlen], hwalk.append (.single hstep)⟩

end Machine

end ShiftReduce
