import Mathlib.Data.List.Nodup
import Mathlib.Data.List.Perm.Basic
import ShiftReduce.Proofs.Run.Track
import ShiftReduce.Proofs.Table.Provenance

/-!
# The shape of the automaton

Some states and symbols of an automaton have a place of their own, whatever the grammar is
(`ShiftReduce.Automaton.HasShape`). Nothing leads into the start state, and it alone holds the item
to begin with. One state accepts: the one that the start state leads to over the start symbol of the
grammar, and only there is success written to the table. Every other state is entered over one
symbol only, however many moves lead to it.

All of this is said of items first. An item with the dot further on was moved along whichever edge
one looks at, so all edges into a state lead over the symbol in front of that dot
(`ShiftReduce.Automaton.Edge.symbol_eq`). The start state has its dots at the start and is not
entered therefore (`ShiftReduce.Automaton.Edge.ne_start`). That no other state holds the item to
begin with is due to the fresh start symbol, which nobody asks for
(`ShiftReduce.Automaton.holds_first_iff`).

Since the stack of a run is a path of the automaton, a symbol on it can be told from the state
entered with it (`ShiftReduce.Automaton.ofGrammar_hasShape`). So the stack could do without the
symbols.
-/

namespace ShiftReduce

namespace Automaton

open Machine

/-- The numbers of the states that hold an item, in order. -/
def holders (m : Automaton) (i : Item) : List ℕ :=
  (m.states.filter (i ∈ ·.items)).map (·.id)

/-- The symbol over which a state is entered, if some move enters it: that of the first such
move. -/
def entrySymbol? (m : Automaton) (q : ℤ) : Option Symbol :=
  (m.transitions.find? fun t => (t.target : ℤ) = q).map (·.symbol)

/-- **The shape of an automaton** of a grammar with start symbol `S`. -/
structure HasShape (m : Automaton) (S : Symbol) : Prop where
  /-- The start state and no other holds the item to begin with. -/
  begins : m.holders ⟨0, 0⟩ = [start]
  /-- No move enters the start state. -/
  not_entered : ∀ t ∈ m.transitions, t.target ≠ start
  /-- There is one accepting state. The start state leads to it over the start symbol of the
  grammar, and it is the only state that writes success to the table. -/
  accepts : ∃ t ∈ m.transitions, t.source = start ∧ t.symbol = S ∧ m.accepting = [t.target] ∧
    ∀ s ∈ m.states, (∃ w ∈ Table.stateWrites m s, w.action = .accept) ↔ s.id = t.target
  /-- All moves that enter a state lead over one symbol. -/
  entered : ∀ t ∈ m.transitions, ∀ t' ∈ m.transitions, t.target = t'.target →
    t.symbol = t'.symbol

theorem mem_holders {m : Automaton} {i : Item} {k : ℕ} : k ∈ m.holders i ↔ m.Holds k i := by
  simp only [holders, Holds, List.mem_map, List.mem_filter, decide_eq_true_eq, Int.natCast_inj]
  constructor
  · rintro ⟨s, ⟨hs, hi⟩, hid⟩
    exact ⟨s, hs, hid, hi⟩
  · rintro ⟨s, hs, hid, hi⟩
    exact ⟨s, ⟨hs, hi⟩, hid⟩

theorem edge_of_mem {m : Automaton} {t : Transition} (ht : t ∈ m.transitions) :
    m.Edge t.source t.symbol t.target :=
  ⟨t, ht, rfl, rfl, rfl⟩

/-- Every frame of a path was entered along an edge over its symbol. -/
theorem IsPath.exists_edge_of_mem {m : Automaton} {frames : List Frame} (h : m.IsPath frames)
    {f : Frame} (hf : f ∈ frames) : ∃ q, m.Edge q f.symbol f.state := by
  induction frames with
  | nil => exact absurd hf List.not_mem_nil
  | cons f' below ih =>
    rcases List.mem_cons.mp hf with rfl | hf
    · exact ⟨_, h.1⟩
    · exact ih h.2 hf

section OfAugmented

variable {A : Augmented} {g : Grammar} {q q' r : ℤ} {X Y : Symbol} {i : Item} {s : State}

/-! ### Edges into a state -/

/-- **All edges into a state lead over one symbol**, the one in front of the dot of an item that was
moved along them. -/
theorem Edge.symbol_eq (hA : 0 < A.productions.size) (h : (ofAugmented A).Edge q X r)
    (h' : (ofAugmented A).Edge q' Y r) : X = Y := by
  obtain ⟨⟨p, d⟩, hheld, hnext⟩ := h.exists_holds hA
  have hmoved : (ofAugmented A).Holds r ⟨p, d + 1⟩ := (h.holds_succ hA).mpr ⟨hheld, hnext⟩
  obtain ⟨-, hnext'⟩ := (h'.holds_succ hA).mp hmoved
  exact Option.some.inj (hnext.symm.trans hnext')

/-- In the start state every dot stands at the start. -/
theorem dot_eq_zero_of_holds_start (hA : 0 < A.productions.size)
    (h : (ofAugmented A).Holds start i) : i.dot = 0 :=
  holds_start_induction hA (motive := fun i => i.dot = 0) rfl
    (fun _ _ _ _ hask => (Augmented.mem_asksFor hask).1) h

/-- **No edge leads into the start state.** -/
theorem Edge.ne_start (hA : 0 < A.productions.size) (h : (ofAugmented A).Edge q X r) :
    r ≠ start := by
  rintro rfl
  obtain ⟨⟨p, d⟩, hheld, hnext⟩ := h.exists_holds hA
  have hdot := dot_eq_zero_of_holds_start hA ((h.holds_succ hA).mpr ⟨hheld, hnext⟩)
  exact absurd hdot (Nat.succ_ne_zero d)

/-- A state that holds something is the start state, or an edge leads into it. -/
theorem Holds.eq_start_or_exists_edge (hA : 0 < A.productions.size)
    (h : (ofAugmented A).Holds r i) : r = start ∨ ∃ q X, (ofAugmented A).Edge q X r := by
  obtain ⟨k, s, rfl, hs, -⟩ := (holds_iff hA).mp h
  have hsound := Collection.sound_canonical hA
  rcases hsound.origin k s hs with ⟨rfl, -⟩ | ⟨j, s', X, -, hs', hX, hitems⟩
  · exact Or.inl rfl
  · obtain ⟨t, ht, -, -, s'', hs'', hgoto⟩ := Collection.exists_move hA hs' hX
    -- the move leads to a state with the same items, so it leads to this one
    obtain rfl : t.target = k := hsound.items_injective _ _ _ _ hs'' hs (hgoto.trans hitems.symm)
    exact Or.inr ⟨t.source, t.symbol, edge_of_mem (Array.mem_toList_iff.mpr ht)⟩

/-- The symbol over which a state is entered can be told from the state. -/
theorem Edge.entrySymbol?_eq (hA : 0 < A.productions.size) (h : (ofAugmented A).Edge q X r) :
    (ofAugmented A).entrySymbol? r = some X := by
  have hentered := h
  obtain ⟨t, ht, -, -, htarget⟩ := h
  obtain ⟨t', ht'⟩ : ∃ t', (ofAugmented A).transitions.find? (fun t => (t.target : ℤ) = r) =
      some t' :=
    Option.isSome_iff_exists.mp (List.find?_isSome.mpr ⟨t, ht, decide_eq_true htarget⟩)
  have hr : (t'.target : ℤ) = r := by simpa using List.find?_some ht'
  have hedge := edge_of_mem (List.mem_of_find?_eq_some ht')
  rw [hr] at hedge
  rw [entrySymbol?, ht', Option.map_some, hedge.symbol_eq hA hentered]

/-! ### The states that hold the two items of the fresh start symbol -/

/-- The start symbol of the grammar stands behind the dot of the item to begin with. -/
theorem nextSymbol_first (hg : A.Augments g) : A.nextSymbol ⟨0, 0⟩ = some g.start := by
  obtain ⟨authored, hfirst⟩ := hg.first
  rw [Augmented.nextSymbol, Augmented.rhs_eq hfirst]
  rfl

/-- **The start state alone holds the item to begin with**: what an edge leads to has its dot
further on or was asked for, and nobody asks for the fresh start symbol. -/
theorem holds_first_iff (hg : A.Augments g) (hf : A.IsFresh g) :
    (ofAugmented A).Holds r ⟨0, 0⟩ ↔ r = start := by
  constructor
  · intro h
    rcases h.eq_start_or_exists_edge hg.size_pos with hstart | ⟨q, X, hedge⟩
    · exact hstart
    · have hne : (⟨0, 0⟩ : Item) ≠ ⟨0, 0⟩ := by
        refine hedge.holds_induction hg.size_pos (motive := (· ≠ ⟨0, 0⟩)) ?_ ?_ h
        · rintro p d - - heq
          exact absurd (congrArg Item.dot heq) (Nat.succ_ne_zero d)
        · rintro i j hheld - hask rfl
          exact production_ne_zero_of_mem_asksFor hg hf (hheld.mem_items hg.size_pos) hask rfl
      exact absurd rfl hne
  · rintro rfl
    exact holds_start hg.size_pos

/-- **A state accepts exactly if the start state leads to it over the start symbol.** -/
theorem holds_acceptItem_iff (hg : A.Augments g) (hf : A.IsFresh g) :
    (ofAugmented A).Holds r acceptItem ↔ (ofAugmented A).Edge start g.start r := by
  constructor
  · intro h
    rcases h.eq_start_or_exists_edge hg.size_pos with rfl | ⟨q, X, hedge⟩
    · exact absurd (dot_eq_zero_of_holds_start hg.size_pos h) (by decide)
    · obtain ⟨hfirst, hnext⟩ := (hedge.holds_succ hg.size_pos).mp h
      obtain rfl := (holds_first_iff hg hf).mp hfirst
      obtain rfl : g.start = X := Option.some.inj ((nextSymbol_first hg).symm.trans hnext)
      exact hedge
  · intro hedge
    exact (hedge.holds_succ hg.size_pos).mpr ⟨holds_start hg.size_pos, nextSymbol_first hg⟩

/-- An item that one number holds has one holder. -/
theorem holders_eq_singleton (hA : 0 < A.productions.size) {k : ℕ}
    (h : ∀ l : ℕ, (ofAugmented A).Holds l i ↔ l = k) : (ofAugmented A).holders i = [k] := by
  have hnodup : ((ofAugmented A).holders i).Nodup :=
    (nodup_map_id hA).sublist (List.filter_sublist.map _)
  refine List.perm_singleton.mp ?_
  refine (List.perm_ext_iff_of_nodup hnodup (List.nodup_singleton k)).mpr fun l => ?_
  rw [mem_holders, h, List.mem_singleton]

/-- **A state writes success exactly if it accepts.** -/
theorem exists_accept_write_iff (hg : A.Augments g) (hf : A.IsFresh g)
    (hs : s ∈ (ofAugmented A).states) :
    (∃ w ∈ Table.stateWrites (ofAugmented A) s, w.action = .accept) ↔
      (ofAugmented A).Holds s.id acceptItem := by
  have hlength : (A.rhs 0).length = 1 := by
    obtain ⟨authored, hfirst⟩ := hg.first
    rw [Augmented.rhs_eq hfirst]
    rfl
  constructor
  · rintro ⟨w, hw, haction⟩
    rcases Table.mem_stateWrites.mp hw with hshift | ⟨i, hi, hitem⟩
    · obtain ⟨t, -, -, rfl⟩ := Table.mem_shiftWrites.mp hshift
      exact absurd haction (by simp)
    · obtain ⟨hcomplete, ⟨htop, -⟩ | ⟨-, x, -, rfl⟩⟩ := Table.mem_itemWrites.mp hitem
      · -- the completed production is that of the fresh start symbol, whose dot stands at one
        have hheld : (ofAugmented A).Holds s.id i := ⟨s, hs, rfl, hi⟩
        have hzero := (Table.lhs_eq_top_iff hg hf hs hi).mp htop
        rw [(Table.isComplete_iff hg.size_pos hheld).mp hcomplete, hzero, hlength] at hheld
        exact hheld
      · exact absurd haction (by simp)
  · rintro ⟨s', hs', hid, hi⟩
    obtain rfl : s' = s := List.inj_on_of_nodup_map (nodup_map_id hg.size_pos) hs' hs
      (by exact_mod_cast hid)
    refine ⟨⟨s', endMarker, .accept⟩, Table.mem_stateWrites.mpr (Or.inr ⟨_, hi, ?_⟩), rfl⟩
    refine Table.mem_itemWrites.mpr ⟨?_, Or.inl ⟨(Table.lhs_eq_top_iff hg hf hs hi).mpr rfl, rfl⟩⟩
    exact decide_eq_true (Nat.le_of_eq hlength)

/-- **With a fresh start symbol the automaton has its shape**: the parts of it, put together. -/
theorem hasShape_ofAugmented (hg : A.Augments g) (hf : A.IsFresh g) :
    (ofAugmented A).HasShape g.start := by
  have hA := hg.size_pos
  refine ⟨holders_eq_singleton hA fun l => ?_, fun t ht htarget => ?_, ?_, ?_⟩
  · rw [holds_first_iff hg hf, Int.natCast_inj]
  · exact (edge_of_mem ht).ne_start hA (congrArg Nat.cast htarget)
  · obtain ⟨r, hedge⟩ := (holds_start hA).exists_edge hA (nextSymbol_first hg)
    have haccept : ∀ l : ℤ, (ofAugmented A).Holds l acceptItem ↔ l = r := fun l =>
      (holds_acceptItem_iff hg hf).trans ⟨fun h => h.eq hA hedge, fun h => h ▸ hedge⟩
    obtain ⟨t, ht, hsource, hsymbol, rfl⟩ := hedge
    refine ⟨t, ht, by exact_mod_cast hsource, hsymbol, ?_, fun s hs => ?_⟩
    · exact holders_eq_singleton hA fun l => (haccept l).trans Int.natCast_inj
    · rw [exists_accept_write_iff hg hf hs, haccept, Int.natCast_inj]
  · intro t ht t' ht' htarget
    have hedge := edge_of_mem ht
    rw [htarget] at hedge
    exact hedge.symbol_eq hA (edge_of_mem ht')

end OfAugmented

/-- **The shape of the automaton of a valid grammar.** A grammar that was built from rows has, with
a prime marker that is not empty, an automaton whose start state alone holds the item to begin with
and is not entered, with one accepting state, the one that the start state leads to over the start
symbol, and with one symbol for each state over which it is entered. So in every run on its table
each symbol on the stack can be told from the state beside it. -/
theorem ofGrammar_hasShape {rows : List Row} {g : Grammar} {settings : Settings}
    (hg : Grammar.ofRows rows = .ok g) :
    ∃ a, ofGrammar g settings = .ok a ∧ a.HasShape g.start ∧
      ∀ keepTrees tokens r,
        Run.ofTokens (.ofAutomaton a) a settings keepTrees tokens = .ok r →
          ∀ s ∈ r.trace, ∀ f ∈ s.frames, a.entrySymbol? f.state = some f.symbol := by
  obtain ⟨a, ha⟩ := exists_ofGrammar hg settings
  obtain ⟨A, rfl, haug, hfresh⟩ := exists_augments hg ha
  refine ⟨ofAugmented A, ha, hasShape_ofAugmented haug hfresh, ?_⟩
  intro keepTrees tokens r hr s hs f hf
  obtain ⟨moves, m, next, hwalk, hshows, -⟩ := Run.exists_walk_of_mem_trace hr hs
  rw [hshows.frames] at hf
  obtain ⟨q, hedge⟩ := (hwalk.onTrack haug (onTrack_start _ tokens)).path.exists_edge_of_mem hf
  exact hedge.entrySymbol?_eq haug.size_pos

theorem ofGrammar_hasShape_brackets :
    ∃ a, ofGrammar .brackets {} = .ok a ∧ a.HasShape "S" ∧ a.accepting = [1] := by
  obtain ⟨a, ha, hshape, -⟩ := ofGrammar_hasShape Grammar.ofRows_bracketRows
  obtain rfl : ofAugmented .brackets = a := Except.ok.inj (ofGrammar_brackets.symm.trans ha)
  exact ⟨_, ha, hshape, by decide +kernel⟩

end Automaton

end ShiftReduce
