import Mathlib.Data.List.Basic
import ShiftReduce.Run.Machine
import ShiftReduce.Proofs.Automaton.Edge
import ShiftReduce.Proofs.Grammar.Augmented

/-!
# Stacks that are paths of the automaton

A machine that runs on the table of an automaton keeps a path of the automaton on its stack. This
file is about such stacks, with no step taken: what the items in the state on top say of the
symbols below.

All of it is one induction (`ShiftReduce.Automaton.IsPath.holds_induction`). An item on top of a
path is the one to begin with, or it came along the last edge from an item one frame below with
the dot one place back, or another item on top asked for it. So whatever holds at the beginning
and passes on in these two ways holds of every item on top of every path.

* The symbols before the dot stand on top of the stack, and the item with the dot at the start
  stands below them (`ShiftReduce.Automaton.IsPath.exists_append_of_holds`); conversely, symbols
  on top move the dot of such an item (`ShiftReduce.Automaton.IsPath.holds_of_append`).
* The state that holds an item with the dot at the start has an edge over its left-hand side
  (`ShiftReduce.Automaton.IsPath.exists_edge_of_holds`).
* The stack with what stands behind the dot begins a sentential form
  (`ShiftReduce.Automaton.IsPath.exists_sentential`).
-/

namespace ShiftReduce

/-- The symbols on a stack as a word, from the bottom on. -/
def Machine.stackWord (frames : List Frame) : List Symbol :=
  (frames.map Frame.symbol).reverse

namespace Machine

@[simp] theorem stackWord_nil : stackWord [] = [] := rfl

@[simp] theorem stackWord_cons (f : Frame) (below : List Frame) :
    stackWord (f :: below) = stackWord below ++ [f.symbol] := by
  simp [stackWord]

@[simp] theorem stackWord_append (top below : List Frame) :
    stackWord (top ++ below) = stackWord below ++ stackWord top := by
  simp [stackWord]

/-- As many symbols as a word has spell it on a stack. -/
theorem length_of_stackWord {frames : List Frame} {w : List Symbol} (h : stackWord frames = w) :
    frames.length = w.length := by
  simp [← h, stackWord]

end Machine

namespace Automaton

open Machine

/-- **The stack is a path of the automaton**: every frame was entered over its symbol from the
state below it. -/
def IsPath (m : Automaton) : List Frame → Prop
  | [] => True
  | f :: below => m.Edge (topState m below) f.symbol f.state ∧ m.IsPath below

theorem IsPath.of_append {m : Automaton} {top below : List Frame} (h : m.IsPath (top ++ below)) :
    m.IsPath below := by
  induction top with
  | nil => exact h
  | cons f top ih => exact ih h.2

section OfAugmented

variable {A : Augmented} {g : Grammar} {frames : List Frame} {i : Item} {p d : ℕ}

/-- **Induction over the items on top of a path.** -/
theorem IsPath.holds_induction (hA : 0 < A.productions.size)
    {motive : List Frame → Item → Prop} (first : motive [] ⟨0, 0⟩)
    (move : ∀ f below p d, (ofAugmented A).IsPath (f :: below) →
      (ofAugmented A).Holds (topState (ofAugmented A) below) ⟨p, d⟩ →
      A.nextSymbol ⟨p, d⟩ = some f.symbol → motive below ⟨p, d⟩ → motive (f :: below) ⟨p, d + 1⟩)
    (ask : ∀ frames i j, (ofAugmented A).Holds (topState (ofAugmented A) frames) i →
      motive frames i → j ∈ A.asksFor i → motive frames j)
    (hpath : (ofAugmented A).IsPath frames)
    (hi : (ofAugmented A).Holds (topState (ofAugmented A) frames) i) :
    motive frames i := by
  induction frames generalizing i with
  | nil => exact holds_start_induction hA first (ask []) hi
  | cons f below ih =>
    refine hpath.1.holds_induction hA (fun p d hheld hnext => ?_) (ask (f :: below)) hi
    exact move f below p d hpath hheld hnext (ih hpath.2 hheld)

/-- There is an item on top of every path. -/
theorem IsPath.exists_holds (hA : 0 < A.productions.size) (hpath : (ofAugmented A).IsPath frames) :
    ∃ i, (ofAugmented A).Holds (topState (ofAugmented A) frames) i := by
  cases frames with
  | nil => exact ⟨_, holds_start hA⟩
  | cons f below =>
    obtain ⟨⟨p, d⟩, hheld, hnext⟩ := hpath.1.exists_holds hA
    exact ⟨_, (hpath.1.holds_succ hA).mpr ⟨hheld, hnext⟩⟩

/-- **The symbols before the dot stand on top of the stack**, and below them a state that holds the
item with the dot at the start. -/
theorem IsPath.exists_append_of_holds (hA : 0 < A.productions.size)
    (hpath : (ofAugmented A).IsPath frames)
    (hi : (ofAugmented A).Holds (topState (ofAugmented A) frames) ⟨p, d⟩) :
    ∃ top below, frames = top ++ below ∧ stackWord top = (A.rhs p).take d ∧
      (ofAugmented A).Holds (topState (ofAugmented A) below) ⟨p, 0⟩ := by
  refine hpath.holds_induction hA (motive := fun frames i => ∃ top below, frames = top ++ below ∧
    stackWord top = (A.rhs i.production).take i.dot ∧
      (ofAugmented A).Holds (topState (ofAugmented A) below) ⟨i.production, 0⟩) ?_ ?_ ?_ hi
  · exact ⟨[], [], rfl, rfl, holds_start hA⟩
  · rintro f below p d - - hnext ⟨top, rest, rfl, hword, hrest⟩
    refine ⟨f :: top, rest, rfl, ?_, hrest⟩
    rw [stackWord_cons, hword]
    exact (Augmented.take_dot_succ hnext).symm
  · rintro frames i ⟨k, e⟩ hheld - hask
    obtain rfl : e = 0 := (Augmented.mem_asksFor hask).1
    exact ⟨[], frames, rfl, rfl, hheld.ask hA hask⟩

/-- **The symbols on top of the stack move the dot**: if they begin the right-hand side of an item
that the state below them holds with the dot at the start, the state on top holds the item with
the dot behind them. -/
theorem IsPath.holds_of_append (hA : 0 < A.productions.size) {top below : List Frame}
    (hpath : (ofAugmented A).IsPath (top ++ below))
    (hi : (ofAugmented A).Holds (topState (ofAugmented A) below) ⟨p, 0⟩)
    (hword : stackWord top <+: A.rhs p) :
    (ofAugmented A).Holds (topState (ofAugmented A) (top ++ below)) ⟨p, top.length⟩ := by
  induction top with
  | nil => exact hi
  | cons f top ih =>
    rw [stackWord_cons] at hword
    have hheld := ih hpath.2 ((List.prefix_append _ _).trans hword)
    have hnext : A.nextSymbol ⟨p, top.length⟩ = some f.symbol := by
      obtain ⟨rest, hrest⟩ := hword
      have hlen : top.length = (stackWord top).length := length_of_stackWord rfl
      rw [Augmented.nextSymbol, ← hrest, hlen]
      simp
    exact (hpath.1.holds_succ hA).mpr ⟨hheld, hnext⟩

/-- **An item with the dot at the start comes with an edge** over its left-hand side, unless that
is the fresh start symbol: some item asked for it. -/
theorem IsPath.exists_edge_of_holds (hg : A.Augments g) (hpath : (ofAugmented A).IsPath frames)
    (hi : (ofAugmented A).Holds (topState (ofAugmented A) frames) ⟨p, 0⟩) (htop : A.lhs p ≠ A.top) :
    ∃ r, (ofAugmented A).Edge (topState (ofAugmented A) frames) (A.lhs p) r := by
  have hgen : (⟨p, 0⟩ : Item).dot = 0 → A.lhs p ≠ A.top →
      ∃ r, (ofAugmented A).Edge (topState (ofAugmented A) frames) (A.lhs p) r := by
    refine hpath.holds_induction hg.size_pos (motive := fun frames i => i.dot = 0 →
      A.lhs i.production ≠ A.top →
        ∃ r, (ofAugmented A).Edge (topState (ofAugmented A) frames) (A.lhs i.production) r)
        ?_ ?_ ?_ hi
    · rintro - hne
      obtain ⟨authored, hfirst⟩ := hg.first
      exact absurd (Augmented.lhs_eq hfirst) hne
    · rintro f below p d - - - - hdot
      exact absurd hdot (Nat.succ_ne_zero d)
    · rintro frames i j hheld - hask - -
      obtain ⟨X, q, hnext, -, -, hq, rfl⟩ := Augmented.mem_asksFor_iff.mp hask
      rw [Augmented.lhs_eq hq]
      exact hheld.exists_edge hg.size_pos hnext
  exact hgen rfl htop

/-- The fresh start symbol stands behind no dot, so its production is never asked for. -/
theorem production_ne_zero_of_mem_asksFor (hg : A.Augments g) (hf : A.IsFresh g) {j : Item}
    (hi : i ∈ A.items) (hj : j ∈ A.asksFor i) : j.production ≠ 0 := by
  intro hzero
  obtain ⟨X, q, hnext, -, -, hq, rfl⟩ := Augmented.mem_asksFor_iff.mp hj
  have hget := Array.getElem?_eq_getElem (Augmented.mem_items.mp hi).1
  refine hf.notMem_rhs hg hget ?_
  rw [← (hf.lhs_eq_top_iff hg hq).mpr hzero, ← Augmented.rhs_eq hget]
  exact List.mem_of_getElem? hnext

/-- The production of the fresh start symbol, with the dot at the start, is held by the start
state alone. -/
theorem IsPath.eq_nil_of_holds (hg : A.Augments g) (hf : A.IsFresh g)
    (hpath : (ofAugmented A).IsPath frames)
    (hi : (ofAugmented A).Holds (topState (ofAugmented A) frames) ⟨0, 0⟩) : frames = [] := by
  refine hpath.holds_induction hg.size_pos (motive := fun frames i => i = ⟨0, 0⟩ → frames = [])
    (fun _ => rfl) ?_ ?_ hi rfl
  · rintro f below p d - - - - heq
    exact absurd (congrArg Item.dot heq) (Nat.succ_ne_zero d)
  · rintro frames i j hheld - hask rfl
    have hne := production_ne_zero_of_mem_asksFor hg hf (hheld.mem_items hg.size_pos) hask
    exact absurd rfl hne

/-- **The stack with what stands behind the dot begins a sentential form.** -/
theorem IsPath.exists_sentential (hg : A.Augments g) (hf : A.IsFresh g)
    (hpath : (ofAugmented A).IsPath frames)
    (hi : (ofAugmented A).Holds (topState (ofAugmented A) frames) ⟨p, d⟩) :
    ∃ δ, g.IsSentential (stackWord frames ++ (A.rhs p).drop d ++ δ) := by
  refine hpath.holds_induction hg.size_pos (motive := fun frames i =>
    ∃ δ, g.IsSentential (stackWord frames ++ (A.rhs i.production).drop i.dot ++ δ)) ?_ ?_ ?_ hi
  · obtain ⟨authored, hfirst⟩ := hg.first
    refine ⟨[], ?_⟩
    rw [Augmented.rhs_eq hfirst]
    exact Relation.ReflTransGen.refl
  · rintro f below p d - - hnext ⟨δ, hδ⟩
    refine ⟨δ, ?_⟩
    rw [Augmented.drop_dot hnext] at hδ
    simpa using hδ
  · rintro frames ⟨k, e⟩ ⟨l, e'⟩ hheld ⟨δ, hδ⟩ hask
    -- the rule that is asked for rewrites the symbol behind the dot
    have hne := production_ne_zero_of_mem_asksFor hg hf (hheld.mem_items hg.size_pos) hask
    obtain ⟨X, q, hnext, -, rfl, hq, rfl⟩ := Augmented.mem_asksFor_iff.mp hask
    refine ⟨(A.rhs k).drop (e + 1) ++ δ, hδ.tail ?_⟩
    rw [Augmented.drop_dot hnext]
    exact ⟨stackWord frames, q.lhs, q.rhs, (A.rhs k).drop (e + 1) ++ δ, hg.hasRule hq hne,
      by simp, by simp [Augmented.rhs_eq hq]⟩

end OfAugmented

end Automaton

end ShiftReduce
