import Mathlib.Data.List.Basic
import ShiftReduce.Proofs.Grammar.Derivation
import ShiftReduce.Proofs.Run.Track

/-!
# An accepted input is derived

What a machine has read so far it has recognised: there is a tree for every symbol on the stack,
and the trees yield what was read. `ShiftReduce.Machine.Recognises` says so, together with the
derivation that the reductions make up: read backwards, they rewrite the word on the stack, with
the rest of the input behind it, into the whole input, the last non-terminal first. The trees are
there whether the machine keeps them or not.

A shift adds a leaf and a reduction turns the trees of a right-hand side into one, so every step
keeps this (`ShiftReduce.Machine.Makes.recognises`). Where the machine accepts, the word on the
stack is the start symbol alone (`ShiftReduce.Machine.Makes.stackWord_of_accept`): the stack
spells the production of the fresh start symbol, and only the start state holds it with the dot at
the start. So there is one tree left, and it is a derivation tree of the input
(`ShiftReduce.Run.ofTokens_sound`).
-/

namespace ShiftReduce

namespace Machine

open Automaton

/-- **What a machine has recognised**: trees for the symbols on its stack, the top first, and the
productions with which the word on the stack and the rest of the input derive all the tokens. -/
structure Recognises (g : Grammar) (keepTrees : Bool) (tokens : List Symbol)
    (used : List Production) (m : Machine) (ts : List Tree) : Prop where
  /-- Every symbol on the stack has its tree. -/
  labels : ts.map Tree.label = m.frames.map Frame.symbol
  /-- The trees are derivation trees. -/
  derivation : ∀ t ∈ ts, g.Derivation t
  /-- They are the trees that the machine keeps, if it does. -/
  trees : keepTrees = true → m.trees = ts
  /-- They yield what was read, and the productions derive the tokens, if those are terminals. -/
  input : ∃ rest, m.input = rest ++ [endMarker] ∧ Tree.yields ts.reverse ++ rest = tokens ∧
    ((∀ a ∈ tokens, a ∈ g.terminals) →
      g.RightmostDerives used (stackWord m.frames ++ rest) tokens)

variable {A : Augmented} {g : Grammar} {keepTrees : Bool} {tokens : List Symbol}
  {used : List Production} {m m' : Machine} {move : Move} {moves : List Move} {ts : List Tree}

theorem recognises_start (g : Grammar) (keepTrees : Bool) (tokens : List Symbol) :
    Recognises g keepTrees tokens [] (start tokens) [] where
  labels := rfl
  derivation := by simp
  trees _ := rfl
  input := ⟨tokens, rfl, by simp, fun _ => rfl⟩

/-! ### Steps -/

/-- A shift adds a leaf. -/
theorem Recognises.shift (h : Recognises g keepTrees tokens used m ts) {x : Symbol}
    {rest : List Symbol} (hinput : m.input = x :: rest) (hx : x ∈ g.terminals)
    (hne : x ≠ endMarker) (target : ℤ) :
    Recognises g keepTrees tokens used (m.shift keepTrees x rest target) (.leaf x :: ts) := by
  refine ⟨by simp [Machine.shift, h.labels], ?_, fun hkeep => ?_, ?_⟩
  · intro t ht
    rcases List.mem_cons.mp ht with rfl | ht
    · exact .leaf hx
    · exact h.derivation t ht
  · simp only [Machine.shift, if_pos hkeep, h.trees hkeep]
  · obtain ⟨init, hinit, hyields, hderives⟩ := h.input
    obtain ⟨init', rfl, hrest⟩ := exists_of_cons_eq_append hne (hinput.symm.trans hinit)
    exact ⟨init', hrest, by simpa using hyields,
      fun hterm => by simpa [Machine.shift] using hderives hterm⟩

/-- A reduction turns the trees of a right-hand side into one. -/
theorem Recognises.reduced (h : Recognises g keepTrees tokens used m ts) {p : Production}
    {top below : List Frame} (hp : g.HasRule p.lhs p.rhs) (hframes : m.frames = top ++ below)
    (hword : stackWord top = p.rhs) (target : ℤ) :
    ∃ ts', Recognises g keepTrees tokens (p :: used) (m.reduced keepTrees p target) ts' := by
  obtain ⟨hlabels, hderivation, htrees, rest, hinput, hyields, hderives⟩ := h
  -- the trees are divided as the stack is: those of the right-hand side, and those below
  obtain ⟨front, back, rfl, hfront, hback⟩ :
      ∃ front back, ts = front ++ back ∧ front.map Tree.label = top.map Frame.symbol ∧
        back.map Tree.label = below.map Frame.symbol := by
    rw [hframes, List.map_append] at hlabels
    exact List.map_eq_append_iff.mp hlabels
  have hbody : front.reverse.map Tree.label = p.rhs := by
    rw [List.map_reverse, hfront, ← hword, stackWord]
  have hlen : p.rhs.length = front.length := by rw [← hbody, List.length_map, List.length_reverse]
  have hnew : (m.reduced keepTrees p target).frames = ⟨p.lhs, target⟩ :: below :=
    frames_reduced hframes (length_of_stackWord hword)
  refine ⟨.branch p.lhs front.reverse :: back, ?_, ?_, fun hkeep => ?_, rest, hinput, ?_, ?_⟩
  · rw [hnew, List.map_cons, List.map_cons, hback]
    rfl
  · intro t ht
    rcases List.mem_cons.mp ht with rfl | ht
    · refine .branch (hbody ▸ hp) fun u hu => hderivation u ?_
      exact List.mem_append_left _ (List.mem_reverse.mp hu)
    · exact hderivation t (List.mem_append_right _ ht)
  · simp only [Machine.reduced, if_pos hkeep, htrees hkeep]
    rw [hlen, List.take_left, List.drop_left]
  · simpa using hyields
  · intro hterm
    -- the undone production comes first now, and only input stands behind its left-hand side
    refine ⟨stackWord below, rest, hp, fun a ha => hterm a ?_, ?_, ?_⟩
    · rw [← hyields]
      exact List.mem_append_right _ ha
    · rw [hnew, stackWord_cons, List.append_assoc]
      rfl
    · have hold := hderives hterm
      rwa [hframes, stackWord_append, hword] at hold

/-- **Every step keeps what a machine has recognised**, and adds the production that it undoes. -/
theorem Makes.recognises (hg : A.Augments g)
    (hmakes : Makes (ofAugmented A) keepTrees m move (.go m'))
    (h : Recognises g keepTrees tokens used m ts) :
    ∃ ts', Recognises g keepTrees tokens (move.production?.toList ++ used) m' ts' := by
  cases hmakes with
  | @shift x rest r hinput hterm hedge =>
    rw [show (ofAugmented A).grammar.terminals = g.terminals from hg.terminals] at hterm
    exact ⟨_, h.shift hinput hterm (hg.wellFormed.ne_endMarker hterm) r⟩
  | @reduce k p top below r hp hne hframes hword hbelow hedge hgoto =>
    exact h.reduced (hg.hasRule_of_lhs_ne hp hne) hframes hword r

/-- **A walk keeps what a machine has recognised**: its reductions, the last one first, come in
front of those before. -/
theorem Walk.exists_recognises (hg : A.Augments g) (htrack : OnTrack (ofAugmented A) m)
    (hwalk : Walk (.ofAutomaton (ofAugmented A)) (ofAugmented A) keepTrees m moves m')
    (h : Recognises g keepTrees tokens used m ts) :
    ∃ ts', Recognises g keepTrees tokens ((moves.filterMap Move.production?).reverse ++ used)
      m' ts' := by
  induction hwalk generalizing used ts with
  | nil => exact ⟨ts, h⟩
  | @cons m m₁ m' move moves hstep hwalk ih =>
    obtain ⟨ts₁, h₁⟩ := (htrack.makes hg hstep).recognises hg h
    obtain ⟨ts', h'⟩ := ih (htrack.step hg hstep) h₁
    refine ⟨ts', ?_⟩
    cases hp : move.production? with
    | none => simpa [hp] using h'
    | some p => simpa [hp] using h'

/-! ### Success -/

/-- **Where the machine accepts, the word on the stack is the start symbol** and nothing is left
to be read. -/
theorem Makes.stackWord_of_accept (hg : A.Augments g) (hf : A.IsFresh g)
    (htrack : OnTrack (ofAugmented A) m)
    (hmakes : Makes (ofAugmented A) keepTrees m move .accept) :
    move = .accept ∧ m.input = [endMarker] ∧ stackWord m.frames = [g.start] := by
  cases hmakes with
  | @accept k hinput hheld htop =>
    refine ⟨rfl, hinput, ?_⟩
    have hk := (Augmented.mem_items.mp (hheld.mem_items hg.size_pos)).1
    have hget := Array.getElem?_eq_getElem hk
    change A.lhs k = A.top at htop
    rw [Augmented.lhs_eq hget] at htop
    -- a fresh start symbol has one production, so the stack spells the start symbol
    obtain rfl : k = 0 := (hf.lhs_eq_top_iff hg hget).mp htop
    obtain ⟨authored, hfirst⟩ := hg.first
    obtain ⟨top, below, hframes, hword, hbelow⟩ :=
      htrack.path.exists_append_of_holds hg.size_pos hheld
    have hpath : (ofAugmented A).IsPath below := (hframes ▸ htrack.path).of_append
    obtain rfl := hpath.eq_nil_of_holds hg hf hbelow
    change stackWord top = (A.rhs 0).take (A.rhs 0).length at hword
    rw [List.take_length, Augmented.rhs_eq hfirst] at hword
    rw [hframes, List.append_nil, hword]

/-- A machine with one tree for the start symbol and nothing left to be read has recognised all
the tokens. -/
theorem Recognises.exists_tree (h : Recognises g keepTrees tokens used m ts)
    (hinput : m.input = [endMarker]) (hword : stackWord m.frames = [g.start]) :
    ∃ t, (keepTrees = true → m.trees = [t]) ∧ g.Derivation t ∧ t.label = g.start ∧
      t.yield = tokens ∧ g.RightmostDerives used [g.start] tokens := by
  obtain ⟨hlabels, hderivation, htrees, rest, hrest, hyields, hderives⟩ := h
  obtain rfl : rest = [] := by simpa [hinput] using hrest
  have hone : ts.map Tree.label = [g.start] := by
    rw [hlabels]
    simpa [stackWord] using congrArg List.reverse hword
  obtain ⟨t, hts, hlabel⟩ := List.map_eq_singleton_iff.mp hone
  subst hts
  have hyield : t.yield = tokens := by simpa using hyields
  have ht := hderivation t (by simp)
  refine ⟨t, htrees, ht, hlabel, hyield, ?_⟩
  have hderives' := hderives (hyield ▸ ht.mem_terminals)
  rwa [hword, List.append_nil] at hderives'

end Machine

namespace Run

open Machine Automaton

/-- **An accepted input is derived.** On the table that is generated for a grammar built from
rows, with a prime marker that is not empty, the tree of an accepted run is a derivation tree of
the grammar for its start symbol and yields the tokens, and the productions of the reductions,
read backwards, are a rightmost derivation of the tokens. -/
theorem ofTokens_sound {rows : List Row} {g : Grammar} {settings : Settings} {a : Automaton}
    {keepTrees : Bool} {tokens : List Symbol} {tree : Option Tree} {trace : List Step}
    (hg : Grammar.ofRows rows = .ok g) (ha : Automaton.ofGrammar g settings = .ok a)
    (h : Run.ofTokens (.ofAutomaton a) a settings keepTrees tokens =
      .ok ⟨.accepted tree, trace⟩) :
    ∃ t, tree = (if keepTrees then some t else none) ∧ g.Derivation t ∧ t.label = g.start ∧
      t.yield = tokens ∧
      g.RightmostDerives (trace.filterMap fun s => s.move.production?).reverse [g.start]
        tokens := by
  obtain ⟨A, rfl, haug, hfresh⟩ := Automaton.exists_augments hg ha
  obtain ⟨-, moves, m, move, next, hwalk, hlast, hends, hmoves, -⟩ :=
    exists_walk_of_ofTokens h (fun n => by simp) (fun n => by simp)
  have htrack := hwalk.onTrack haug (onTrack_start _ tokens)
  obtain ⟨ts, hts⟩ := hwalk.exists_recognises haug (onTrack_start _ tokens)
    (recognises_start g keepTrees tokens)
  cases hends
  obtain ⟨rfl, hinput, hword⟩ :=
    (htrack.makes haug hlast).stackWord_of_accept haug hfresh htrack
  obtain ⟨t, htrees, ht, hlabel, hyield, hderives⟩ := hts.exists_tree hinput hword
  refine ⟨t, ?_, ht, hlabel, hyield, ?_⟩
  · split
    next hkeep => simp [finalTree, htrees hkeep]
    next => rfl
  · have hused : trace.filterMap (fun s => s.move.production?) =
        moves.filterMap Move.production? := by
      rw [← Function.comp_def Move.production? Step.move, ← List.filterMap_map]
      rw [hmoves, List.filterMap_append]
      simp [Move.production?]
    rw [hused]
    simpa using hderives

theorem ofTokens_sound_brackets :
    ∃ r t, Run.ofTokens (.ofAutomaton (.ofAugmented .brackets)) (.ofAugmented .brackets) {} true
        ["a", "c", "b"] = .ok r ∧ r.outcome.tree? = some t ∧ Grammar.brackets.Derivation t ∧
      t.label = "S" ∧ t.yield = ["a", "c", "b"] := by
  have hsuccess : (Run.ofTokens (.ofAutomaton (.ofAugmented .brackets)) (.ofAugmented .brackets)
      {} true ["a", "c", "b"]).toOption.map (·.outcome.success) = some true := by decide +kernel
  cases hrun : Run.ofTokens (.ofAutomaton (.ofAugmented .brackets)) (.ofAugmented .brackets)
      {} true ["a", "c", "b"] with
  | error fault =>
    rw [hrun] at hsuccess
    exact absurd hsuccess (by simp [Except.toOption])
  | ok r =>
    obtain ⟨outcome, trace⟩ := r
    cases outcome with
    | accepted tree =>
      obtain ⟨t, rfl, ht, hlabel, hyield, -⟩ := ofTokens_sound Grammar.ofRows_bracketRows
        Automaton.ofGrammar_brackets hrun
      exact ⟨_, t, rfl, rfl, ht, hlabel, hyield⟩
    | failed f =>
      rw [hrun] at hsuccess
      exact absurd hsuccess (by simp [Except.toOption, Outcome.success])
    | blocked n =>
      rw [hrun] at hsuccess
      exact absurd hsuccess (by simp [Except.toOption, Outcome.success])

end Run

end ShiftReduce
