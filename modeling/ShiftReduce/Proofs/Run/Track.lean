import Mathlib.Data.List.Basic
import ShiftReduce.Proofs.Automaton.Canonical
import ShiftReduce.Proofs.Grammar.Augmented
import ShiftReduce.Proofs.Run.Path
import ShiftReduce.Proofs.Run.Walk
import ShiftReduce.Proofs.Table.Filling

/-!
# What a machine does on the table of its automaton

A machine is *on track* if its stack is a path of the automaton and the end marker closes its
input (`ShiftReduce.Machine.OnTrack`). On the table of the automaton such a machine can do four
things, and `ShiftReduce.Machine.Makes` says of each of them what it needs and what it leads to:
a shift follows an edge over a terminal, a reduction finds the right-hand side on top of the stack
and an edge over the left-hand side below it, success needs a completed production of the fresh
start symbol before the end marker, and a rejection leaves everything as it is.

`ShiftReduce.Machine.OnTrack.exists_makes` is the one place where a step is executed; every
property of a run on the table of an automaton is read off the four cases. Nothing here supposes
that the table has no conflicts.
-/

namespace ShiftReduce

namespace Machine

/-! ### Looking up and reducing -/

theorem lookUp_eq_some {t : Table} {state : ℤ} {token : Symbol} {rest : List Symbol}
    {action : Action} :
    lookUp t state token rest = some action ↔
      (token = endMarker → rest = []) ∧ t.action.get? ⟨state, token⟩ = some action := by
  unfold lookUp
  by_cases hend : token = endMarker ∧ rest ≠ []
  · rw [if_pos hend]
    exact ⟨fun h => absurd h (by simp), fun h => absurd (h.1 hend.1) hend.2⟩
  · rw [if_neg hend]
    refine ⟨fun h => ⟨fun htoken => ?_, h⟩, fun h => h.2⟩
    by_contra hrest
    exact hend ⟨htoken, hrest⟩

/-- The machine after a production is undone, with the state that is entered then. -/
def reduced (keepTrees : Bool) (m : Machine) (p : Production) (target : ℤ) : Machine where
  frames := ⟨p.lhs, target⟩ :: m.frames.drop p.rhs.length
  input := m.input
  trees :=
    if keepTrees then
      .branch p.lhs (m.trees.take p.rhs.length).reverse :: m.trees.drop p.rhs.length
    else m.trees

section Reduced

variable {keepTrees : Bool} {m : Machine} {p : Production} {top below : List Frame} {target : ℤ}

theorem frames_reduced (hframes : m.frames = top ++ below) (hlen : top.length = p.rhs.length) :
    (m.reduced keepTrees p target).frames = ⟨p.lhs, target⟩ :: below := by
  rw [reduced, hframes, ← hlen, List.drop_left]

/-- A reduction of the symbols on top turns on the state to go to from below. -/
theorem reduce_of_append {t : Table} (hframes : m.frames = top ++ below)
    (hlen : top.length = p.rhs.length) :
    m.reduce t a keepTrees p =
      match t.goto.get? ⟨topState a below, p.lhs⟩ with
      | none => .fail (.gotoMissing p.lhs (topState a below))
      | some target => .go (m.reduced keepTrees p target) := by
  have hle : ¬m.frames.length < p.rhs.length := by
    rw [hframes, List.length_append, hlen]
    omega
  have hdrop : m.frames.drop p.rhs.length = below := by rw [hframes, ← hlen, List.drop_left]
  cases hgoto : t.goto.get? ⟨topState a below, p.lhs⟩ with
  | none => simp only [reduce, if_neg hle, hdrop, hgoto]
  | some target => simp only [reduce, if_neg hle, hdrop, hgoto, reduced]

theorem reduce_eq_go {t : Table} (hframes : m.frames = top ++ below)
    (hlen : top.length = p.rhs.length)
    (hgoto : t.goto.get? ⟨topState a below, p.lhs⟩ = some target) :
    m.reduce t a keepTrees p = .go (m.reduced keepTrees p target) := by
  rw [reduce_of_append hframes hlen, hgoto]

end Reduced

/-! ### The four cases -/

/-- **What a machine does on the table of an automaton.** -/
inductive Makes (a : Automaton) (keepTrees : Bool) (m : Machine) : Move → Next → Prop
  /-- The next symbol is a terminal, and an edge over it leads on. -/
  | shift {x : Symbol} {rest : List Symbol} {r : ℤ} : m.input = x :: rest →
      x ∈ a.grammar.terminals → a.Edge (topState a m.frames) x r →
      Makes a keepTrees m (.shift r) (.go (m.shift keepTrees x rest r))
  /-- The stack ends in the right-hand side of a production, the state below holds the production
  with the dot at the start, and an edge over the left-hand side leads on from there. -/
  | reduce {k : ℕ} {p : Production} {top below : List Frame} {r : ℤ} :
      a.grammar.productions[k]? = some p → p.lhs ≠ a.grammar.top → m.frames = top ++ below →
      stackWord top = p.rhs → a.Holds (topState a below) ⟨k, 0⟩ →
      a.Edge (topState a below) p.lhs r →
      (Table.ofAutomaton a).goto.get? ⟨topState a below, p.lhs⟩ = some r →
      Makes a keepTrees m (.reduce k p) (.go (m.reduced keepTrees p r))
  /-- Only the end marker is left, and a production of the fresh start symbol is completed. -/
  | accept {k : ℕ} : m.input = [endMarker] →
      a.Holds (topState a m.frames) ⟨k, (a.grammar.rhs k).length⟩ →
      a.grammar.lhs k = a.grammar.top → Makes a keepTrees m .accept .accept
  /-- There is no action for the next symbol. -/
  | reject {x : Symbol} {rest : List Symbol} : m.input = x :: rest →
      lookUp (Table.ofAutomaton a) (topState a m.frames) x rest = none →
      Makes a keepTrees m (.reject x) (.fail (.unexpectedToken x (topState a m.frames)))

/-- A machine fails only where there is no action for the next symbol. -/
theorem Makes.reject_cases {a : Automaton} {keepTrees : Bool} {m : Machine} {move : Move}
    {f : Failure} (h : Makes a keepTrees m move (.fail f)) :
    ∃ x rest, move = .reject x ∧ f = .unexpectedToken x (topState a m.frames) ∧
      m.input = x :: rest := by
  cases h with
  | @reject x rest hinput _ => exact ⟨x, rest, rfl, rfl, hinput⟩

/-- **A machine on track**: its stack is a path of the automaton, and the end marker closes its
input. -/
structure OnTrack (a : Automaton) (m : Machine) : Prop where
  /-- The stack is a path. -/
  path : a.IsPath m.frames
  /-- The input ends with the end marker. -/
  input : ∃ rest, m.input = rest ++ [endMarker]

theorem onTrack_start (a : Automaton) (tokens : List Symbol) : OnTrack a (start tokens) :=
  ⟨trivial, tokens, rfl⟩

section OfAugmented

open Automaton

variable {A : Augmented} {g : Grammar} {keepTrees : Bool} {m m' : Machine} {move : Move}
  {next : Next} {moves : List Move}

/-- **A completed production can be undone** on a path: its right-hand side is on top of the stack,
and there is a state to go to from below. -/
theorem exists_reduction (hg : A.Augments g) {frames : List Frame} {k : ℕ} {p : Production}
    (hpath : (ofAugmented A).IsPath frames) (hp : A.productions[k]? = some p)
    (hheld : (ofAugmented A).Holds (topState (ofAugmented A) frames) ⟨k, p.rhs.length⟩)
    (hne : p.lhs ≠ A.top) :
    ∃ top below r, frames = top ++ below ∧ stackWord top = p.rhs ∧
      (ofAugmented A).Holds (topState (ofAugmented A) below) ⟨k, 0⟩ ∧
      (ofAugmented A).Edge (topState (ofAugmented A) below) p.lhs r ∧
      (Table.ofAutomaton (ofAugmented A)).goto.get? ⟨topState (ofAugmented A) below, p.lhs⟩ =
        some r := by
  obtain ⟨top, below, rfl, hword, hbelow⟩ := hpath.exists_append_of_holds hg.size_pos hheld
  rw [Augmented.rhs_eq hp, List.take_length] at hword
  -- the state below holds the production because some item there asked for it
  have hlhs : A.lhs k = p.lhs := Augmented.lhs_eq hp
  obtain ⟨r, hedge⟩ := hpath.of_append.exists_edge_of_holds hg hbelow (hlhs ▸ hne)
  rw [hlhs] at hedge
  have hterm := (hg.lhs_of_hasRule (hg.hasRule_of_lhs_ne hp hne)).2
  exact ⟨top, below, r, rfl, hword, hbelow, hedge,
    (Table.get?_goto_iff hg.size_pos).mpr ⟨hedge, hterm, hne⟩⟩

/-- **A machine on track can take a step**, and it is one of the four. -/
theorem OnTrack.exists_makes (hg : A.Augments g) (h : OnTrack (ofAugmented A) m)
    (keepTrees : Bool) :
    ∃ move next,
      m.step (.ofAutomaton (ofAugmented A)) (ofAugmented A) keepTrees = .ok (move, next) ∧
      Makes (ofAugmented A) keepTrees m move next := by
  obtain ⟨hpath, init, hinit⟩ := h
  obtain ⟨x, rest, hinput⟩ : ∃ x rest, m.input = x :: rest :=
    List.exists_cons_of_ne_nil (by simp [hinit])
  cases hlook : lookUp (.ofAutomaton (ofAugmented A)) (topState (ofAugmented A) m.frames) x
      rest with
  | none => exact ⟨.reject x, _, by simp only [step, hinput, hlook], .reject hinput hlook⟩
  | some action =>
    obtain ⟨hend, haction⟩ := lookUp_eq_some.mp hlook
    cases Table.justified_of_get? hg.size_pos haction with
    | @shift r hedge hterm =>
      exact ⟨.shift r, _, by simp only [step, hinput, hlook], .shift hinput hterm hedge⟩
    | @reduce k hheld hne hmem =>
      have hk := (Augmented.mem_items.mp (hheld.mem_items hg.size_pos)).1
      obtain ⟨p, hp⟩ : ∃ p, A.productions[k]? = some p := ⟨_, Array.getElem?_eq_getElem hk⟩
      change (ofAugmented A).Holds (topState (ofAugmented A) m.frames) ⟨k, (A.rhs k).length⟩
        at hheld
      change A.lhs k ≠ A.top at hne
      rw [Augmented.rhs_eq hp] at hheld
      rw [Augmented.lhs_eq hp] at hne
      obtain ⟨top, below, r, hframes, hword, hbelow, hedge, hgoto⟩ :=
        exists_reduction hg hpath hp hheld hne
      have hreduce : m.reduce (.ofAutomaton (ofAugmented A)) (ofAugmented A) keepTrees p =
          .go (m.reduced keepTrees p r) := reduce_eq_go hframes (length_of_stackWord hword) hgoto
      refine ⟨.reduce k p, _, ?_, .reduce hp hne hframes hword hbelow hedge hgoto⟩
      simp only [step, hinput, hlook, grammar_ofAugmented, Augmented.production?_natCast, hp,
        hreduce]
    | accept hheld htop hx =>
      refine ⟨.accept, _, by simp only [step, hinput, hlook], .accept ?_ hheld htop⟩
      rw [hinput, hx, hend hx]

theorem OnTrack.makes (hg : A.Augments g) (h : OnTrack (ofAugmented A) m)
    (hstep : m.step (.ofAutomaton (ofAugmented A)) (ofAugmented A) keepTrees = .ok (move, next)) :
    Makes (ofAugmented A) keepTrees m move next := by
  obtain ⟨move', next', hstep', hmakes⟩ := h.exists_makes hg keepTrees
  obtain ⟨rfl, rfl⟩ := Prod.mk.inj (Except.ok.inj (hstep.symm.trans hstep'))
  exact hmakes

/-! ### Staying on track -/

/-- A symbol other than the end marker that is read leaves the end marker where it was. -/
theorem exists_of_cons_eq_append {x : Symbol} {rest init : List Symbol} (hx : x ≠ endMarker)
    (h : x :: rest = init ++ [endMarker]) :
    ∃ init', init = x :: init' ∧ rest = init' ++ [endMarker] := by
  cases init with
  | nil => exact absurd (List.cons.inj h).1 hx
  | cons y init =>
    obtain ⟨rfl, rfl⟩ := List.cons.inj h
    exact ⟨init, rfl, rfl⟩

/-- **A machine on track stays on track.** -/
theorem Makes.onTrack (hg : A.Augments g) (h : OnTrack (ofAugmented A) m)
    (hmakes : Makes (ofAugmented A) keepTrees m move (.go m')) : OnTrack (ofAugmented A) m' := by
  obtain ⟨hpath, init, hinit⟩ := h
  cases hmakes with
  | @shift x rest r hinput hterm hedge =>
    -- the end marker is no terminal, so it is not what was shifted
    have hne := hg.wellFormed.ne_endMarker (hg.terminals ▸ hterm)
    obtain ⟨init', -, hrest⟩ := exists_of_cons_eq_append hne (hinput.symm.trans hinit)
    exact ⟨⟨hedge, hpath⟩, init', hrest⟩
  | @reduce k p top below r hp hne hframes hword hbelow hedge hgoto =>
    refine ⟨?_, init, hinit⟩
    rw [frames_reduced hframes (length_of_stackWord hword)]
    exact ⟨hedge, (hframes ▸ hpath).of_append⟩

theorem OnTrack.step (hg : A.Augments g) (h : OnTrack (ofAugmented A) m)
    (hstep : m.step (.ofAutomaton (ofAugmented A)) (ofAugmented A) keepTrees = .ok (move, .go m')) :
    OnTrack (ofAugmented A) m' :=
  (h.makes hg hstep).onTrack hg h

/-- **A walk stays on track.** -/
theorem Walk.onTrack (hg : A.Augments g) (h : OnTrack (ofAugmented A) m)
    (hwalk : Walk (.ofAutomaton (ofAugmented A)) (ofAugmented A) keepTrees m moves m') :
    OnTrack (ofAugmented A) m' :=
  hwalk.invariant (fun _ _ _ hm hstep => hm.step hg hstep) h

end OfAugmented

end Machine

end ShiftReduce
