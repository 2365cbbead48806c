import ShiftReduce.Proofs.Item.Signed
import ShiftReduce.Proofs.Table.Candidates
import ShiftReduce.Table.Generator

/-!
# What a generator of tables keeps

Whatever calls a generator gets, for whatever draft of an automaton, its table depends on the
actions alone that were added since it was cleared for the last time, those that it has added itself
included (`ShiftReduce.Table.added`). The first of them to a cell stays there, and the conflicts of
the cell are the later ones that differ from it, one for each (`ShiftReduce.Table.Records`,
`ShiftReduce.Table.afterCalls_records`).

An action is added unless the call fails, and it fails only if its state has an unreadable item.
Such a call leaves the table as it was. A call for the table of the automaton may fail on the way;
it goes through a list of entries that the draft alone decides (`ShiftReduce.Table.script`), and
what stays are the entries in front of the one that fails.
-/

namespace ShiftReduce

namespace Table

variable {g : Augmented} {m : Draft} {s : DraftState} {t t' : Table} {w first : Addition}
  {ws later : List Addition} {c : Cell} {x : Symbol} {existing incoming : Action}

/-! ### Justifying an action -/

/-- An item that can be read names a production. -/
theorem exists_production?_of_readable {i : SignedItem} (h : g.nextSymbol? i ≠ none) :
    ∃ p, g.production? i.production = some p := by
  refine Option.ne_none_iff_exists'.mp fun hnone => h ?_
  rw [Augmented.nextSymbol?, hnone, Option.bind_none]

/-- **An action of a state without unreadable items can be justified.** -/
theorem justification?_ne_none (hs : ∀ i ∈ s.items, g.nextSymbol? i ≠ none) (x : Symbol)
    (a : Action) : justification? g s x a ≠ none := by
  have hcomplete : ∀ n : ℤ, ∀ i ∈ s.items,
      (if i.production = n then g.isComplete? i else some false) ≠ none := by
    intro n i hi
    obtain ⟨p, hp⟩ := exists_production?_of_readable (hs i hi)
    split_ifs <;> simp [Augmented.isComplete?, hp]
  obtain ⟨items, hitems, hsub⟩ : ∃ items, justifying? g s x a = some items ∧ items ⊆ s.items := by
    cases a with
    | shift target => exact exists_filter? fun i hi => by simpa using hs i hi
    | reduce n => exact exists_filter? (hcomplete n)
    | accept => exact exists_filter? (hcomplete 0)
  have htexts : ∀ l ⊆ s.items, ∃ texts, l.mapM g.itemText? = some texts := by
    intro l hl
    induction l with
    | nil => exact ⟨[], rfl⟩
    | cons i l ih =>
      obtain ⟨p, hp⟩ := exists_production?_of_readable (hs i (hl List.mem_cons_self))
      obtain ⟨texts, htexts⟩ := ih fun j hj => hl (List.mem_cons_of_mem _ hj)
      exact ⟨_, by simp [List.mapM_cons, Augmented.itemText?, hp, htexts]; rfl⟩
  obtain ⟨texts, htexts⟩ := htexts items hsub
  simp [justification?, hitems, htexts]

theorem conflictBetween?_ne_none (hs : ∀ i ∈ s.items, g.nextSymbol? i ≠ none) :
    conflictBetween? g s x existing incoming ≠ none := by
  obtain ⟨texts, htexts⟩ := Option.ne_none_iff_exists'.mp (justification?_ne_none hs x existing)
  obtain ⟨texts', htexts'⟩ := Option.ne_none_iff_exists'.mp (justification?_ne_none hs x incoming)
  simp [conflictBetween?, htexts, htexts']

/-- What a conflict says does not depend on the items, but for their texts. -/
theorem conflictBetween?_eq_some {k : Conflict}
    (h : conflictBetween? g s x existing incoming = some k) :
    k.state = s.id ∧ k.symbol = x ∧ k.existing = existing ∧ k.incoming = incoming ∧
      k.kind = .of existing incoming := by
  obtain ⟨texts, -, h⟩ := Option.bind_eq_some_iff.mp h
  obtain ⟨texts', -, h⟩ := Option.bind_eq_some_iff.mp h
  obtain rfl := Option.some.inj h
  exact ⟨rfl, rfl, rfl, rfl, rfl⟩

/-! ### Adding an action -/

/-- **What adding an action can come to.** -/
inductive Adding (g : Augmented) (t : Table) (w : Addition) : Except Table Table → Prop
  /-- It fills an empty cell. -/
  | fills (h : t.action.get? w.cell = none) :
    Adding g t w (.ok { t with action := t.action.put w.cell w.action })
  /-- It is in the cell already. -/
  | same (h : t.action.get? w.cell = some w.action) : Adding g t w (.ok t)
  /-- It is rejected. -/
  | rejects {existing : Action} {k : Conflict} (h : t.action.get? w.cell = some existing)
    (hne : existing ≠ w.action)
    (hk : conflictBetween? g w.state w.symbol existing w.action = some k) :
    Adding g t w (.ok { t with conflicts := t.conflicts.push k })
  /-- The conflict cannot be told of. -/
  | fails {existing : Action} (h : t.action.get? w.cell = some existing) (hne : existing ≠ w.action)
    (hk : conflictBetween? g w.state w.symbol existing w.action = none) :
    Adding g t w (.error t)

theorem adding_add? (g : Augmented) (t : Table) (w : Addition) : Adding g t w (add? g t w) := by
  unfold add?
  split
  · next h => exact .fills h
  · next existing h =>
    split_ifs with heq
    · exact .same (heq ▸ h)
    · split
      · next k hk => exact .rejects h heq hk
      · next hk => exact .fails h heq hk

/-! ### What a table records -/

/-- The actions that were added for a cell, in order. -/
def additionsAt (ws : List Addition) (c : Cell) : List Addition :=
  ws.filter (·.cell = c)

/-- The conflicts that actions bring which are added for a cell that holds an action. -/
def rejections? (g : Augmented) (kept : Action) (ws : List Addition) : List (Option Conflict) :=
  (ws.filter (·.action ≠ kept)).map fun w => conflictBetween? g w.state w.symbol kept w.action

/-- The conflicts that added actions bring to a cell: those of the later ones with the first. -/
def recorded (g : Augmented) (ws : List Addition) (c : Cell) : List (Option Conflict) :=
  match additionsAt ws c with
  | [] => []
  | first :: later => rejections? g first.action later

/-- **A table records some actions** in the order in which they were added: the first of a cell
wins. -/
structure Records (g : Augmented) (ws : List Addition) (t : Table) : Prop where
  /-- A cell holds the first action that was added for it. -/
  action : ∀ c, t.action.get? c = (additionsAt ws c).head?.map (·.action)
  /-- The conflicts of a cell are those of the later actions that differ from the first, in order,
  each as often as it was added. -/
  conflicts : ∀ c, (t.conflictsAt c).map some = recorded g ws c
  /-- What a conflict says was there is what the cell holds. -/
  existing : ∀ k ∈ t.conflicts, t.action.get? ⟨k.state, k.symbol⟩ = some k.existing
  /-- A conflict has to do with a shift exactly if one of its two actions is one. -/
  kind : ∀ k ∈ t.conflicts,
    k.kind = .shiftReduce ↔ k.existing.isShift = true ∨ k.incoming.isShift = true

theorem additionsAt_concat_of_ne (h : w.cell ≠ c) :
    additionsAt (ws ++ [w]) c = additionsAt ws c := by
  simp [additionsAt, h]

theorem additionsAt_concat (ws : List Addition) (w : Addition) :
    additionsAt (ws ++ [w]) w.cell = additionsAt ws w.cell ++ [w] := by
  simp [additionsAt]

/-- One more action for a cell that has some does not become its first. -/
theorem head?_additionsAt_concat (h : additionsAt ws w.cell = first :: later) (c : Cell) :
    (additionsAt (ws ++ [w]) c).head? = (additionsAt ws c).head? := by
  by_cases hc : w.cell = c
  · subst hc
    rw [additionsAt_concat, h]
    rfl
  · rw [additionsAt_concat_of_ne hc]

theorem recorded_concat_of_ne (h : w.cell ≠ c) : recorded g (ws ++ [w]) c = recorded g ws c := by
  rw [recorded, recorded, additionsAt_concat_of_ne h]

/-- One more action for a cell that has some brings a conflict if it differs from the first. -/
theorem recorded_concat (h : additionsAt ws w.cell = first :: later) :
    recorded g (ws ++ [w]) w.cell = recorded g ws w.cell ++ rejections? g first.action [w] := by
  rw [recorded, recorded, additionsAt_concat, h, List.cons_append]
  simp only [rejections?, List.filter_append, List.map_append]

theorem Records.empty (g : Augmented) (gotos : Cells ℤ) : Records g [] { goto := gotos } :=
  ⟨Cells.get?_empty, fun _ => rfl, fun _ hk => absurd hk (by simp),
    fun _ hk => absurd hk (by simp)⟩

/-- States to go to are nothing that a table records of actions. -/
theorem Records.withGoto (h : Records g ws t) (gotos : Cells ℤ) :
    Records g ws { t with goto := gotos } :=
  ⟨h.action, h.conflicts, h.existing, h.kind⟩

theorem Records.additionsAt_eq_nil (h : Records g ws t) (hcell : t.action.get? c = none) :
    additionsAt ws c = [] := by
  rw [h.action, Option.map_eq_none_iff] at hcell
  exact List.head?_eq_none_iff.mp hcell

theorem Records.exists_additionsAt (h : Records g ws t) (hcell : t.action.get? c = some existing) :
    ∃ first later, additionsAt ws c = first :: later ∧ first.action = existing := by
  rw [h.action, Option.map_eq_some_iff] at hcell
  obtain ⟨first, hfirst, haction⟩ := hcell
  obtain ⟨later, hlater⟩ := List.head?_eq_some_iff.mp hfirst
  exact ⟨first, later, hlater, haction⟩

/-- The first action for a cell is what the cell holds from now on. -/
theorem Records.fill (h : Records g ws t) (hcell : t.action.get? w.cell = none) :
    Records g (ws ++ [w]) { t with action := t.action.put w.cell w.action } := by
  have hnil := h.additionsAt_eq_nil hcell
  refine ⟨fun c => ?_, fun c => ?_, fun k hk => ?_, h.kind⟩
  · rw [Cells.get?_put]
    by_cases hc : c = w.cell
    · subst hc
      simp [additionsAt_concat, hnil]
    · rw [if_neg hc, additionsAt_concat_of_ne (Ne.symm hc)]
      exact h.action c
  · refine (h.conflicts c).trans ?_
    by_cases hc : c = w.cell
    · subst hc
      simp [recorded, additionsAt_concat, hnil, rejections?]
    · rw [recorded_concat_of_ne (Ne.symm hc)]
  · -- a cell with a conflict is not the empty one
    have hkept := h.existing k hk
    have hne : (⟨k.state, k.symbol⟩ : Cell) ≠ w.cell := fun heq => by
      rw [heq, hcell] at hkept
      exact absurd hkept (by simp)
    rw [Cells.get?_put, if_neg hne, hkept]

/-- An action that a cell holds already leaves no trace. -/
theorem Records.absorb (h : Records g ws t) (hcell : t.action.get? w.cell = some w.action) :
    Records g (ws ++ [w]) t := by
  obtain ⟨first, later, hadditions, haction⟩ := h.exists_additionsAt hcell
  refine ⟨fun c => ?_, fun c => ?_, h.existing, h.kind⟩
  · rw [h.action, head?_additionsAt_concat hadditions]
  · rw [h.conflicts]
    by_cases hc : c = w.cell
    · subst hc
      rw [recorded_concat hadditions]
      simp [rejections?, haction]
    · rw [recorded_concat_of_ne (Ne.symm hc)]

/-- An action that differs from what a cell holds is the last conflict of the cell. -/
theorem Records.reject {k : Conflict} (h : Records g ws t)
    (hcell : t.action.get? w.cell = some existing) (hne : existing ≠ w.action)
    (hk : conflictBetween? g w.state w.symbol existing w.action = some k) :
    Records g (ws ++ [w]) { t with conflicts := t.conflicts.push k } := by
  obtain ⟨first, later, hadditions, haction⟩ := h.exists_additionsAt hcell
  obtain ⟨hstate, hsymbol, hexisting, hincoming, hkind⟩ := conflictBetween?_eq_some hk
  have hkcell : (⟨k.state, k.symbol⟩ : Cell) = w.cell := by rw [hstate, hsymbol]; rfl
  refine ⟨fun c => ?_, fun c => ?_, fun l hl => ?_, fun l hl => ?_⟩
  · rw [head?_additionsAt_concat hadditions]
    exact h.action c
  · simp only [conflictsAt, Array.toList_push, List.filter_append, List.map_append]
    rw [← conflictsAt, h.conflicts]
    by_cases hc : c = w.cell
    · subst hc
      rw [recorded_concat hadditions]
      simp [rejections?, haction, hkcell, Ne.symm hne, hk]
    · rw [recorded_concat_of_ne (Ne.symm hc)]
      simp [hkcell, Ne.symm hc]
  · rcases Array.mem_push.mp hl with hl | rfl
    · exact h.existing l hl
    · rw [hkcell, hexisting]
      exact hcell
  · rcases Array.mem_push.mp hl with hl | rfl
    · exact h.kind l hl
    · rw [hkind, hexisting, hincoming, ConflictKind.of]
      split_ifs with hshift
      · simpa using hshift
      · simpa using hshift

/-- **One more action is recorded** if it is added. -/
theorem Records.add (h : Records g ws t) (hadd : add? g t w = .ok t') :
    Records g (ws ++ [w]) t' := by
  have hadding := adding_add? g t w
  rw [hadd] at hadding
  cases hadding with
  | fills hcell => exact h.fill hcell
  | same hcell => exact h.absorb hcell
  | rejects hcell hne hk => exact h.reject hcell hne hk

/-! ### Which actions are added -/

/-- Whether an action can be added after others: if it differs from the first for its cell, the
conflict has to be told of. -/
def passes (g : Augmented) (ws : List Addition) (w : Addition) : Bool :=
  match additionsAt ws w.cell with
  | [] => true
  | first :: _ => decide (first.action = w.action) ||
    (conflictBetween? g w.state w.symbol first.action w.action).isSome

/-- **An action is added exactly if it passes**, and otherwise the table stays as it was. -/
theorem Records.add?_cases (h : Records g ws t) (w : Addition) :
    (passes g ws w = true ∧ ∃ t', add? g t w = .ok t') ∨
      (passes g ws w = false ∧ add? g t w = .error t) := by
  have hadding := adding_add? g t w
  generalize add? g t w = result at hadding
  cases hadding with
  | fills hcell =>
    refine .inl ⟨?_, _, rfl⟩
    rw [passes, h.additionsAt_eq_nil hcell]
  | same hcell =>
    obtain ⟨first, later, hadditions, haction⟩ := h.exists_additionsAt hcell
    refine .inl ⟨?_, _, rfl⟩
    simp [passes, hadditions, haction]
  | rejects hcell hne hk =>
    obtain ⟨first, later, hadditions, rfl⟩ := h.exists_additionsAt hcell
    refine .inl ⟨?_, _, rfl⟩
    simp [passes, hadditions, hk]
  | fails hcell hne hk =>
    obtain ⟨first, later, hadditions, rfl⟩ := h.exists_additionsAt hcell
    refine .inr ⟨?_, rfl⟩
    simp [passes, hadditions, hne, hk]

/-- An action of a state without unreadable items passes. -/
theorem passes_of_readable (hs : ∀ i ∈ w.state.items, g.nextSymbol? i ≠ none) :
    passes g ws w = true := by
  unfold passes
  split
  · rfl
  · next first _ _ =>
    have hconflict : conflictBetween? g w.state w.symbol first.action w.action ≠ none :=
      conflictBetween?_ne_none hs
    simp [Option.isSome_iff_ne_none, hconflict]

/-! ### Filling from a draft -/

/-- One thing to do when a table is filled. -/
inductive Entry where
  /-- To add an action. -/
  | add (w : Addition)
  /-- To enter a state to go to. -/
  | goto (c : Cell) (target : ℤ)
  /-- To read an item that is unreadable. -/
  | unreadable

/-- Does one thing to a table. -/
def exec? (g : Augmented) (t : Table) : Entry → Except Table Table
  | .add w => add? g t w
  | .goto c target => .ok { t with goto := t.goto.put c target }
  | .unreadable => .error t

/-- What there is to do about a move. -/
def moveEntries (m : Draft) (s : DraftState) (move : Symbol × ℤ) : List Entry :=
  if move.1 ∈ m.grammar.terminals then [.add ⟨s, move.1, .shift move.2⟩]
  else if move.1 ≠ m.grammar.top then [.goto ⟨s.id, move.1⟩ move.2]
  else []

/-- What there is to do about an item. -/
def itemEntries (m : Draft) (s : DraftState) (i : SignedItem) : List Entry :=
  match m.grammar.production? i.production with
  | none => [.unreadable]
  | some p =>
    if p.rhs.length ≤ i.dot then
      if p.lhs = m.grammar.top then [.add ⟨s, endMarker, .accept⟩]
      else m.grammar.lookaheads.map fun x => .add ⟨s, x, .reduce p.id⟩
    else []

/-- **What there is to do when a table is filled from a draft.** -/
def script (m : Draft) : List Entry :=
  m.states.flatMap fun s =>
    (m.row s.id).flatMap (moveEntries m s) ++ s.items.flatMap (itemEntries m s)

theorem foldlM_singleton {α ε : Type} {f : α → Entry → Except ε α} (a : α) (e : Entry) :
    [e].foldlM f a = f a e := by
  rw [List.foldlM_cons]
  cases f a e <;> rfl

theorem enterMove?_eq (m : Draft) (s : DraftState) (t : Table) (move : Symbol × ℤ) :
    enterMove? m s t move = (moveEntries m s move).foldlM (exec? m.grammar) t := by
  unfold enterMove? moveEntries
  split_ifs
  · rw [foldlM_singleton, exec?]
  · rw [foldlM_singleton, exec?]
  · rfl

theorem enterItem?_eq (m : Draft) (s : DraftState) (t : Table) (i : SignedItem) :
    enterItem? m s t i = (itemEntries m s i).foldlM (exec? m.grammar) t := by
  cases hp : m.grammar.production? i.production with
  | none =>
    simp only [enterItem?, itemEntries, hp]
    rfl
  | some p =>
    simp only [enterItem?, itemEntries, hp]
    split_ifs
    · rw [foldlM_singleton, exec?]
    · rw [List.foldlM_map]
      rfl
    · rfl

/-- To do something for each of several things is to do it all. -/
theorem foldlM_flatMap_entries {α : Type} {f : Table → α → Except Table Table}
    {entries : α → List Entry} (h : ∀ t a, f t a = (entries a).foldlM (exec? g) t) (l : List α)
    (t : Table) : l.foldlM f t = (l.flatMap entries).foldlM (exec? g) t := by
  induction l generalizing t with
  | nil => rfl
  | cons a l ih =>
    rw [List.foldlM_cons, List.flatMap_cons, List.foldlM_append, h]
    cases (entries a).foldlM (exec? g) t with
    | ok t' => exact ih t'
    | error t' => rfl

/-- **A table is filled by doing what there is to do**, one thing after the other. -/
theorem generate?_eq (m : Draft) (t : Table) :
    generate? m t = (script m).foldlM (exec? m.grammar) {} := by
  refine foldlM_flatMap_entries (fun t s => ?_) m.states _
  rw [enterState?, List.foldlM_append]
  simp only [foldlM_flatMap_entries (enterMove?_eq m s), foldlM_flatMap_entries (enterItem?_eq m s)]

/-- The actions that are added, beside those before, until something fails. -/
def addedBy (g : Augmented) (ws : List Addition) : List Entry → List Addition
  | [] => ws
  | .add w :: rest => if passes g ws w then addedBy g (ws ++ [w]) rest else ws
  | .goto _ _ :: rest => addedBy g ws rest
  | .unreadable :: _ => ws

theorem Records.foldlM_exec? (h : Records g ws t) (entries : List Entry) :
    Records g (addedBy g ws entries) (left (entries.foldlM (exec? g) t)) := by
  -- what is left when an entry fails is the table in front of it
  induction entries generalizing ws t with
  | nil => exact h
  | cons e entries ih =>
    rw [List.foldlM_cons]
    cases e with
    | add w =>
      rw [exec?, addedBy]
      rcases h.add?_cases w with ⟨hpasses, t', hadd⟩ | ⟨hpasses, hadd⟩
      · rw [if_pos hpasses, hadd]
        exact ih (h.add hadd)
      · rw [hpasses, hadd]
        exact h
    | goto c target => exact ih (h.withGoto _)
    | unreadable => exact h

/-! ### Any calls -/

/-- What a call makes of the actions that have been added since the table was cleared. -/
def pending (m : Draft) (ws : List Addition) : Call → List Addition
  | .add w => if passes m.grammar ws w then ws ++ [w] else ws
  | .clear => []
  | .generate => addedBy m.grammar [] (script m)

/-- **The actions that have been added since the table was cleared for the last time**, in order. -/
def added (m : Draft) (calls : List Call) : List Addition :=
  calls.foldl (pending m) []

/-- **One call** adds to what is recorded or begins with it anew. -/
theorem Records.call? (h : Records m.grammar ws t) (k : Call) :
    Records m.grammar (pending m ws k) (left (call? m t k)) := by
  cases k with
  | add w =>
    rw [Table.call?, pending]
    rcases h.add?_cases w with ⟨hpasses, t', hadd⟩ | ⟨hpasses, hadd⟩
    · rw [if_pos hpasses, hadd]
      exact h.add hadd
    · rw [hpasses, hadd]
      exact h
  | clear => exact .empty _ _
  | generate =>
    rw [Table.call?, generate?_eq]
    exact (Records.empty _ _).foldlM_exec? _

theorem records_afterCalls (m : Draft) (calls : List Call) :
    Records m.grammar (added m calls) (afterCalls m calls) := by
  -- from any table, with what it records so far
  have hfrom : ∀ ws t, Records m.grammar ws t → Records m.grammar (calls.foldl (pending m) ws)
      (calls.foldl (fun t k => left (Table.call? m t k)) t) := by
    induction calls with
    | nil => exact fun _ _ h => h
    | cons k calls ih => exact fun ws t h => ih _ _ (h.call? k)
  exact hfrom [] {} (.empty _ _)

theorem afterCalls_concat (m : Draft) (calls : List Call) (k : Call) :
    afterCalls m (calls ++ [k]) = left (call? m (afterCalls m calls) k) := by
  rw [afterCalls, List.foldl_append]
  rfl

theorem added_concat (m : Draft) (calls : List Call) (k : Call) :
    added m (calls ++ [k]) = pending m (added m calls) k := by
  rw [added, List.foldl_append]
  rfl

/-- Actions for states without unreadable items are all added. -/
theorem added_append_of_readable (m : Draft) (calls : List Call) {more : List Addition}
    (h : ∀ w ∈ more, ∀ i ∈ w.state.items, m.grammar.nextSymbol? i ≠ none) :
    added m (calls ++ more.map .add) = added m calls ++ more := by
  induction more using List.reverseRecOn with
  | nil => simp
  | append_singleton more w ih =>
    rw [List.map_append, List.map_singleton, ← List.append_assoc, added_concat,
      ih fun v hv => h v (List.mem_append_left _ hv), pending,
      if_pos (passes_of_readable (h w (by simp))), List.append_assoc]

/-- **Adding an action** changes neither another cell nor its conflicts, and no cell that is
filled. -/
theorem left_add? (g : Augmented) (t : Table) (w : Addition) :
    (∀ c ≠ w.cell, (left (add? g t w)).action.get? c = t.action.get? c ∧
        (left (add? g t w)).conflictsAt c = t.conflictsAt c) ∧
      ∀ c kept, t.action.get? c = some kept → (left (add? g t w)).action.get? c = some kept := by
  have hadding := adding_add? g t w
  generalize add? g t w = result at hadding
  cases hadding with
  | fills hcell =>
    refine ⟨fun c hc => ⟨?_, rfl⟩, fun c kept hkept => ?_⟩
    · rw [left, Cells.get?_put, if_neg hc]
    · have hne : c ≠ w.cell := fun heq => by
        rw [heq, hcell] at hkept
        exact absurd hkept (by simp)
      rw [left, Cells.get?_put, if_neg hne, hkept]
  | same => exact ⟨fun _ _ => ⟨rfl, rfl⟩, fun _ _ h => h⟩
  | @rejects existing k hcell hne hk =>
    refine ⟨fun c hc => ⟨rfl, ?_⟩, fun _ _ h => h⟩
    obtain ⟨hstate, hsymbol, -⟩ := conflictBetween?_eq_some hk
    have hkcell : (⟨k.state, k.symbol⟩ : Cell) ≠ c := by
      rw [hstate, hsymbol]
      exact Ne.symm hc
    simp [left, conflictsAt, hkcell]
  | fails => exact ⟨fun _ _ => ⟨rfl, rfl⟩, fun _ _ h => h⟩

/-- **The first action for a cell wins, whatever calls a generator gets.** After any calls the table
records the actions that have been added since it was cleared. One more action is added, or the call
fails and leaves the table as it was, and then its state has an unreadable item; so actions for
states without such items are all recorded. A cell keeps its action whatever is added later. What is
added for some cells changes no other cell and none of its conflicts. And a call for the table of
the automaton comes to the same as from a fresh generator. -/
theorem afterCalls_records (m : Draft) (calls : List Call) :
    Records m.grammar (added m calls) (afterCalls m calls) ∧
      (∀ w : Addition,
        (∃ t, add? m.grammar (afterCalls m calls) w = .ok t) ∧
            added m (calls ++ [.add w]) = added m calls ++ [w] ∨
          add? m.grammar (afterCalls m calls) w = .error (afterCalls m calls) ∧
            added m (calls ++ [.add w]) = added m calls ∧
            ∃ i ∈ w.state.items, m.grammar.nextSymbol? i = none) ∧
      (∀ more : List Addition,
        (∀ w ∈ more, ∀ i ∈ w.state.items, m.grammar.nextSymbol? i ≠ none) →
        added m (calls ++ more.map .add) = added m calls ++ more) ∧
      (∀ (more : List Addition) (c : Cell) (kept : Action),
        (afterCalls m calls).action.get? c = some kept →
        (afterCalls m (calls ++ more.map .add)).action.get? c = some kept) ∧
      (∀ (more : List Addition) (c : Cell), (∀ w ∈ more, w.cell ≠ c) →
        (afterCalls m (calls ++ more.map .add)).action.get? c =
            (afterCalls m calls).action.get? c ∧
          (afterCalls m (calls ++ more.map .add)).conflictsAt c =
            (afterCalls m calls).conflictsAt c) ∧
      generate? m (afterCalls m calls) = generate? m {} := by
  have hrecords := records_afterCalls m calls
  refine ⟨hrecords, fun w => ?_, fun _ => added_append_of_readable m calls, fun more => ?_,
    fun more => ?_, ?_⟩
  · rw [added_concat, pending]
    rcases hrecords.add?_cases w with ⟨hpasses, hadd⟩ | ⟨hpasses, hadd⟩
    · exact .inl ⟨hadd, if_pos hpasses⟩
    · refine .inr ⟨hadd, by simp [hpasses], ?_⟩
      by_contra hreadable
      rw [passes_of_readable fun i hi hnone => hreadable ⟨i, hi, hnone⟩] at hpasses
      exact absurd hpasses (by simp)
  · induction more using List.reverseRecOn with
    | nil => simp
    | append_singleton more w ih =>
      intro c kept hkept
      rw [List.map_append, List.map_singleton, ← List.append_assoc, afterCalls_concat]
      exact (left_add? _ _ w).2 c kept (ih c kept hkept)
  · induction more using List.reverseRecOn with
    | nil => simp
    | append_singleton more w ih =>
      intro c hcells
      obtain ⟨haction, hconflicts⟩ := ih c fun v hv => hcells v (List.mem_append_left _ hv)
      rw [List.map_append, List.map_singleton, ← List.append_assoc, afterCalls_concat]
      obtain ⟨haction', hconflicts'⟩ :=
        (left_add? m.grammar (afterCalls m (calls ++ more.map .add)) w).1 c
          (Ne.symm (hcells w (by simp)))
      exact ⟨haction'.trans haction, hconflicts'.trans hconflicts⟩
  · rw [generate?_eq, generate?_eq]

/-- A state that holds, behind a completed item, one that names no production. -/
def strayState : DraftState :=
  ⟨0, [⟨2, 1⟩, ⟨9, 0⟩]⟩

/-- What has been entered when a call fails stays, and a shift that comes then cannot be added. -/
theorem afterCalls_records_stray :
    let m : Draft := ⟨.brackets, [strayState], []⟩
    (afterCalls m [.generate]).action.get? ⟨0, "a"⟩ = some (.reduce 2) ∧
      add? .brackets (afterCalls m [.generate]) ⟨strayState, "a", .shift 4⟩ =
        .error (afterCalls m [.generate]) := by
  intro m
  refine ⟨by decide +kernel, ?_⟩
  have hfails : (add? .brackets (afterCalls m [.generate])
      ⟨strayState, "a", .shift 4⟩).toOption.isNone = true := by decide +kernel
  rcases (afterCalls_records m [.generate]).2.1 ⟨strayState, "a", .shift 4⟩ with
    ⟨⟨t, ht⟩, -⟩ | ⟨h, -⟩
  · rw [show add? .brackets _ _ = .ok t from ht] at hfails
    exact absurd hfails (by simp [Except.toOption])
  · exact h

end Table

end ShiftReduce
